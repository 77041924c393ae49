import JarGate.ClassFile.Error

/-!
# Field and method descriptors

The types of fields and methods and their written form, as in `(IJ[Ljava/lang/String;)Z`.
`FieldType.read` takes one type from the front of a text, `FieldType.print` writes one.
-/

namespace JarGate

/-- The type of a field, a parameter or a result. -/
inductive FieldType where
  | byte | char | double | float | int | long | short | boolean
  | object (name : String)
  | array (element : FieldType)
  deriving DecidableEq, Repr

namespace FieldType

/-- How many stack or local variable slots a value takes. -/
def slots : FieldType → UInt16
  | .long | .double => 2
  | _ => 1

/-- Whether values are references. -/
def isReference : FieldType → Bool
  | .object _ | .array _ => true
  | _ => false

/-- Whether the machine computes with values as with an `int`. -/
def isIntLike : FieldType → Bool
  | .byte | .char | .short | .int | .boolean => true
  | _ => false

/-- The written form. -/
def print : FieldType → String
  | .byte => "B"
  | .char => "C"
  | .double => "D"
  | .float => "F"
  | .int => "I"
  | .long => "J"
  | .short => "S"
  | .boolean => "Z"
  | .object name => "L" ++ name ++ ";"
  | .array element => "[" ++ element.print

/-- The name under which a `Class` constant knows a reference type: the bare name of a class, the
written form of an array. -/
def className? : FieldType → Option String
  | .object name => some name
  | .array element => some (FieldType.array element).print
  | _ => none

/-- The type at the front of a text, and what follows it. -/
def read : List Char → Option (FieldType × List Char)
  | 'B' :: rest => some (.byte, rest)
  | 'C' :: rest => some (.char, rest)
  | 'D' :: rest => some (.double, rest)
  | 'F' :: rest => some (.float, rest)
  | 'I' :: rest => some (.int, rest)
  | 'J' :: rest => some (.long, rest)
  | 'S' :: rest => some (.short, rest)
  | 'Z' :: rest => some (.boolean, rest)
  | 'L' :: rest =>
    match rest.takeWhile (· != ';'), rest.dropWhile (· != ';') with
    | _, [] => none
    | [], _ => none
    | name, _ :: rest => some (.object (String.ofList name), rest)
  | '[' :: rest => (read rest).map fun (element, rest) => (.array element, rest)
  | _ => none

theorem length_lt_of_read {cs rest : List Char} {t : FieldType} (h : read cs = some (t, rest)) :
    rest.length < cs.length := by
  fun_induction read cs generalizing t rest with
  | case9 cs h₁ =>
    simp at h
  | case10 cs h₁ h₂ =>
    simp at h
  | case11 cs c rest' found nonempty =>
    simp only [Option.some.injEq, Prod.mk.injEq] at h
    have := (List.dropWhile_suffix (l := cs) (· != ';')).length_le
    simp only [found, List.length_cons] at this
    simp only [List.length_cons, ← h.2]
    omega
  | case12 cs ih =>
    simp only [Option.map_eq_some_iff, Prod.exists, Prod.mk.injEq] at h
    obtain ⟨e, r, he, -, rfl⟩ := h
    have := ih he
    simp only [List.length_cons]
    omega
  | _ => simp_all

/-- Reads a whole text as a type. -/
def parse (text : String) : Except ClassError FieldType :=
  match read text.toList with
  | some (t, []) => .ok t
  | _ => .error (.malformed (.descriptor text))

end FieldType

/-- The parameters of a method and its result; no result stands for `void`. -/
structure MethodDescriptor where
  params : List FieldType
  result : Option FieldType
  deriving DecidableEq, Repr

namespace MethodDescriptor

/-- The written form. -/
def print (d : MethodDescriptor) : String :=
  "(" ++ String.join (d.params.map FieldType.print) ++ ")" ++ (d.result.map FieldType.print).getD "V"

/-- `readParams done cs` reads types up to a closing parenthesis; those of `done`, reversed, come
before them. -/
def readParams (done : List FieldType) : List Char → Option (List FieldType × List Char)
  | [] => none
  | ')' :: rest => some (done.reverse, rest)
  | c :: cs =>
    match h : FieldType.read (c :: cs) with
    | none => none
    | some (t, rest) =>
      have := FieldType.length_lt_of_read h
      readParams (t :: done) rest
termination_by cs => cs.length
decreasing_by exact this

/-- The descriptor that a text is the written form of. -/
def ofChars? (cs : List Char) : Option MethodDescriptor :=
  match cs with
  | '(' :: cs =>
    match readParams [] cs with
    | some (params, ['V']) => some ⟨params, none⟩
    | some (params, rest) =>
      match FieldType.read rest with
      | some (t, []) => some ⟨params, some t⟩
      | _ => none
    | none => none
  | _ => none

/-- Reads a whole text as a method descriptor. -/
def parse (text : String) : Except ClassError MethodDescriptor :=
  match ofChars? text.toList with
  | some d => .ok d
  | none => .error (.malformed (.descriptor text))

/-- How many slots the arguments take, in a count of 16 bits. -/
def argSlots (d : MethodDescriptor) : UInt16 :=
  d.params.foldl (fun n t => n + t.slots) 0

/-- How many slots the result takes. -/
def resultSlots (d : MethodDescriptor) : UInt16 :=
  (d.result.map FieldType.slots).getD 0

end MethodDescriptor

end JarGate
