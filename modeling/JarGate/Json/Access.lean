import JarGate.Json.Record

/-!
# Looking into JSON values

Access that never fails: what is missing reads as `null`, and a value of another kind reads as an
empty one.
-/

namespace JarGate.Json

/-- The member of an object with a name. -/
def member (j : Json) (name : String) : Json :=
  match j with
  | object members => (members.lookup (some name)).getD null
  | _ => null

/-- Whether an object has a member with a name. -/
def has (j : Json) (name : String) : Bool :=
  match j with
  | object members => members.any (·.1 == some name)
  | _ => false

/-- Whether there is no value. -/
def isNull : Json → Bool
  | null => true
  | _ => false

/-- What is read of a value, if there is one. -/
def optional {α : Type} (read : Json → α) (j : Json) : Option α :=
  if j.isNull then none else some (read j)

/-- The text of a string. -/
def text (j : Json) : String := j.text?.getD ""

/-- The truth of a truth value. -/
def truth (j : Json) : Bool := j.bool?.getD false

/-- A whole number, which may also be spelled in a string. -/
def whole : Json → Int
  | integer n => n
  | string text => text.toInt?.getD 0
  | _ => 0

/-- The elements of an array. -/
def elements : Json → List Json
  | array elements => elements
  | _ => []

/-- The texts of the elements of an array. -/
def texts (j : Json) : List String := j.elements.map text

instance : GetElem Json Nat Json fun _ _ => True :=
  ⟨fun j index _ => j.elements.getD index null⟩

instance : GetElem Json String Json fun _ _ => True :=
  ⟨fun j name _ => j.member name⟩

/-- Types with a value for every JSON value; it may stand wherever the type is expected. -/
class Readable (α : Type) where
  read : Json → α

export Readable (read)

instance {α : Type} [Readable α] : CoeTail Json α := ⟨read⟩

instance : Readable Json := ⟨id⟩

instance : Readable String := ⟨text⟩

instance : Readable Bool := ⟨truth⟩

instance : Readable Int := ⟨whole⟩

instance : Readable Nat := ⟨fun j => j.whole.toNat⟩

instance : Readable UInt8 := ⟨fun j => .ofNat j.whole.toNat⟩

instance : Readable UInt16 := ⟨fun j => .ofNat j.whole.toNat⟩

instance : Readable UInt32 := ⟨fun j => .ofNat j.whole.toNat⟩

instance : Readable Int8 := ⟨fun j => .ofInt j.whole⟩

instance : Readable Int16 := ⟨fun j => .ofInt j.whole⟩

instance : Readable Int32 := ⟨fun j => .ofInt j.whole⟩

instance {α : Type} [Readable α] : Readable (List α) := ⟨fun j => j.elements.map read⟩

instance {α : Type} [Readable α] : Readable (Option α) := ⟨optional read⟩

instance {α β : Type} [Readable α] [Readable β] : Readable (α × β) :=
  ⟨fun j => (read j[0], read j[1])⟩

end JarGate.Json
