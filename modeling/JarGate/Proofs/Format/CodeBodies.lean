import JarGate.Proofs.Format.CodeArrays
import JarGate.Proofs.Format.Frames

/-!
# Method bodies in octets

A method body that was read is well formed: whatever refers to the code refers to the start of an
instruction, or to the end of the code where a range may end there. A well-formed body is read from
exactly the octets that it is written as with the sizes it declares, up to the reserved octets of its
instructions.
-/

namespace JarGate

open Decoder Mark

namespace Code

/-! ### Places -/

theorem offsetBytes_eq_ok_iff {offset : Nat} {bs : Bytes} :
    offsetBytes offset = .ok bs ↔ offset < 0x10000 ∧ bs = be16 (UInt16.ofNat offset) := by
  simp only [offsetBytes]
  split
  next small => simp [small, eq_comm]
  next large => simp [large]

theorem offsetBytes_toNat (n : UInt16) : offsetBytes n.toNat = .ok (be16 n) :=
  offsetBytes_eq_ok_iff.mpr ⟨n.toNat_lt, by rw [UInt16.ofNat_toNat]⟩

theorem toNat_of_offsetBytes {offset : Nat} {bs : Bytes} (h : offsetBytes offset = .ok bs) :
    ∃ n : UInt16, offset = n.toNat ∧ bs = be16 n := by
  obtain ⟨small, rfl⟩ := offsetBytes_eq_ok_iff.mp h
  exact ⟨UInt16.ofNat offset, (Nat.mod_eq_of_lt small).symm, rfl⟩

/-- Whether an instruction starts at an offset. -/
def Starts (placed : List Placed) (offset : Nat) : Prop := offset ∈ placed.map Placed.offset

/-- Whether a range of code of some length may end at an offset. -/
def Ends (placed : List Placed) (length offset : Nat) : Prop :=
  offset = length ∨ Starts placed offset

instance (placed : List Placed) (offset : Nat) : Decidable (Starts placed offset) :=
  inferInstanceAs (Decidable (offset ∈ placed.map Placed.offset))

instance (placed : List Placed) (length offset : Nat) : Decidable (Ends placed length offset) :=
  inferInstanceAs (Decidable (offset = length ∨ Starts placed offset))

/-- The places of instructions in code of some length. -/
def placesOf (placed : List Placed) (length : Nat) : Places :=
  ⟨Instruction.boundaries placed, length⟩

variable {placed : List Placed} {length : Nat} {pool : ConstantPool}

theorem isStart_iff {offset : Nat} :
    (placesOf placed length).isStart offset ↔ Starts placed offset :=
  Instruction.boundaries_contains

theorem isEnd_iff {offset : Nat} :
    (placesOf placed length).isEnd offset ↔ Ends placed length offset := by
  simp only [Places.isEnd, Bool.or_eq_true, beq_iff_eq]
  exact or_congr Iff.rfl Instruction.boundaries_contains

end Code

/-- A handler of code as it is when it was read. -/
structure Handler.WellFormed (pool : ConstantPool) (placed : List Placed) (length : Nat)
    (h : Handler) : Prop where
  start : Code.Starts placed h.start
  stop : Code.Ends placed length h.stop
  ordered : h.start < h.stop
  handler : Code.Starts placed h.handler
  catchType : h.catchType = 0 ∨ ∃ name, pool.get h.catchType = .ok (.classInfo name)

namespace Code

variable {placed : List Placed} {length : Nat} {pool : ConstantPool}

theorem accepts_catchType (catchType : UInt16) (h : Handler) : Accepts
    (if catchType ≠ 0 then do
      match ← (pool.get catchType : Except ClassError Constant) with
      | .classInfo _ => return h
      | _ => do
        fault (.catchType catchType)
        return h
    else return h)
    (fun _ bs a => (catchType = 0 ∨ ∃ name, pool.get catchType = .ok (.classInfo name)) ∧
      bs = [] ∧ a = h) := by
  by_cases anything : catchType = 0
  · rw [if_neg (not_not.mpr anything)]
    exact (Accepts.pure h).congr fun _ _ _ => by simp [Grammar.pure, anything]
  · rw [if_pos anything]
    refine Accepts.congr ((Accepts.lift _).bind (F := fun c _ bs a => (∃ name, c = .classInfo name) ∧
      bs = [] ∧ a = h) fun c => ?_) fun pos bs a => ⟨?_, ?_⟩
    · split
      next name =>
        exact (Accepts.pure h).congr fun _ _ _ => by simp [Grammar.pure]
      next other =>
        refine .of_fails ((fails_fault _).bind _) fun _ _ _ described => ?_
        obtain ⟨⟨name, same⟩, -⟩ := described
        exact other name same
    · rintro ⟨_, _, _, rfl, ⟨rfl, found⟩, ⟨name, rfl⟩, rfl, rfl⟩
      exact ⟨.inr ⟨name, found⟩, rfl, rfl⟩
    · rintro ⟨absent | ⟨name, found⟩, rfl, rfl⟩
      · exact absurd absent anything
      · exact ⟨_, [], [], rfl, ⟨rfl, found⟩, ⟨name, rfl⟩, rfl, rfl⟩

theorem accepts_readHandler (placed : List Placed) (length : Nat) :
    Accepts (readHandler pool (placesOf placed length))
    (fun _ bs h => writeHandler h = .ok bs ∧ h.WellFormed pool placed length) := by
  unfold readHandler
  dsimp only
  refine Accepts.congr (accepts_u16.bind fun start => accepts_u16.bind fun stop =>
    accepts_u16.bind fun handler => accepts_u16.bind fun catchType =>
      .refuse ((fails_fault _).bind _) (accepts_catchType catchType _)) fun pos bs h => ⟨?_, ?_⟩
  · rintro ⟨start, _, _, rfl, rfl, stop, _, _, rfl, rfl, handler, _, _, rfl, rfl, catchType, _, _, rfl,
      rfl, places, caught, rfl, rfl⟩
    simp only [Bool.not_eq_true', Bool.not_eq_false, Bool.and_eq_true, isStart_iff, isEnd_iff,
      decide_eq_true_eq] at places
    obtain ⟨⟨⟨start, stop⟩, ordered⟩, handler⟩ := places
    refine ⟨?_, start, stop, ordered, handler, caught⟩
    simp only [writeHandler, offsetBytes_toNat, List.append_assoc, List.append_nil]
    rfl
  · rintro ⟨written, wellFormed⟩
    simp only [writeHandler, bind_eq_ok_iff, pure_eq_ok_iff] at written
    obtain ⟨_, writes, _, writes', _, writes'', rfl⟩ := written
    obtain ⟨_, _, _, catchType⟩ := h
    obtain ⟨start, rfl, rfl⟩ := toNat_of_offsetBytes writes
    obtain ⟨stop, rfl, rfl⟩ := toNat_of_offsetBytes writes'
    obtain ⟨handler, rfl, rfl⟩ := toNat_of_offsetBytes writes''
    refine ⟨start, _, _, ?_, rfl, stop, _, _, rfl, rfl, handler, _, _, rfl, rfl, catchType, _, [],
      (List.append_nil _).symm, rfl, ?_, wellFormed.catchType, rfl, rfl⟩
    · simp only [List.append_assoc]
    · simp only [Bool.not_eq_true', Bool.not_eq_false, Bool.and_eq_true, isStart_iff, isEnd_iff,
        decide_eq_true_eq]
      exact ⟨⟨⟨wellFormed.start, wellFormed.stop⟩, wellFormed.ordered⟩, wellFormed.handler⟩

/-! ### Attributes -/

theorem accepts_readLine : Accepts readLine (fun _ bs e => writeLine e = .ok bs ∧ True) := by
  unfold readLine
  refine Accepts.congr (accepts_u16.bind fun start => accepts_u16.bind fun line =>
    .pure (LineNumber.mk start.toNat line)) fun pos bs e => ⟨?_, ?_⟩
  · rintro ⟨start, _, _, rfl, rfl, line, _, _, rfl, rfl, rfl, rfl⟩
    simp only [writeLine, offsetBytes_toNat, List.append_nil]
    exact ⟨rfl, trivial⟩
  · rintro ⟨written, -⟩
    simp only [writeLine, bind_eq_ok_iff, pure_eq_ok_iff] at written
    obtain ⟨_, writes, rfl⟩ := written
    obtain ⟨_, line⟩ := e
    obtain ⟨start, rfl, rfl⟩ := toNat_of_offsetBytes writes
    exact ⟨start, _, _, rfl, rfl, line, _, [], (List.append_nil _).symm, rfl, rfl, rfl⟩

theorem accepts_readVariable :
    Accepts readVariable (fun _ bs e => writeVariable e = .ok bs ∧ True) := by
  unfold readVariable
  refine Accepts.congr (accepts_u16.bind fun start => accepts_u16.bind fun len =>
    accepts_u16.bind fun name => accepts_u16.bind fun type => accepts_u16.bind fun slot =>
    .pure (LocalVariable.mk start.toNat len.toNat name type slot)) fun pos bs e => ⟨?_, ?_⟩
  · rintro ⟨start, _, _, rfl, rfl, len, _, _, rfl, rfl, name, _, _, rfl, rfl, type, _, _, rfl, rfl,
      slot, _, _, rfl, rfl, rfl, rfl⟩
    simp only [writeVariable, offsetBytes_toNat, List.append_assoc, List.append_nil]
    exact ⟨rfl, trivial⟩
  · rintro ⟨written, -⟩
    simp only [writeVariable, bind_eq_ok_iff, pure_eq_ok_iff] at written
    obtain ⟨_, writes, _, writes', rfl⟩ := written
    obtain ⟨_, _, name, type, slot⟩ := e
    obtain ⟨start, rfl, rfl⟩ := toNat_of_offsetBytes writes
    obtain ⟨len, rfl, rfl⟩ := toNat_of_offsetBytes writes'
    refine ⟨start, _, _, ?_, rfl, len, _, _, rfl, rfl, name, _, _, rfl, rfl, type, _, _, rfl, rfl,
      slot, _, [], (List.append_nil _).symm, rfl, rfl, rfl⟩
    simp only [List.append_assoc]

theorem readTable_eq_ok_iff {α : Type} {d : Decoder α} {write : α → Except ClassError Bytes}
    {trailing : Fault} {body : Bytes} {as : List α} (what : String)
    (h : Accepts d (fun _ bs a => write a = .ok bs ∧ True)) (fits : body.length < positionLimit) :
    readTable d trailing body = .ok as ↔ writeTable what write as = .ok body := by
  have table := accepts_table what h
  refine ⟨fun read => (table.onAll_sound read).1, fun written => ?_⟩
  exact table.onAll_complete ⟨written, fun _ _ => trivial⟩ fits

/-- The names of the attributes of a method body that are looked into. -/
def knownAttributes : List String :=
  ["StackMapTable", "LineNumberTable", "LocalVariableTable", "LocalVariableTypeTable"]

theorem mem_knownAttributes {s : String} : s ∈ knownAttributes ↔
    s = "StackMapTable" ∨ s = "LineNumberTable" ∨
      ∃ generic : Bool, s = if generic then "LocalVariableTypeTable" else "LocalVariableTable" := by
  simp [knownAttributes, or_comm]

end Code

namespace CodeAttribute

/-- The index of the name. -/
def name : CodeAttribute → UInt16
  | .stackMap name _ | .lineNumbers name _ | .variables _ name _ => name
  | .other raw => raw.name

/-- The octets of the body. -/
def body : CodeAttribute → Except ClassError Bytes
  | .stackMap _ frames => Frame.writeTable frames
  | .lineNumbers _ entries => Code.writeTable "LineNumberTable" Code.writeLine entries
  | .variables _ _ entries => Code.writeTable "LocalVariableTable" Code.writeVariable entries
  | .other raw => .ok raw.body

/-- Whether a name announces an attribute of this kind. -/
def Suits (s : String) : CodeAttribute → Prop
  | .stackMap _ _ => s = "StackMapTable"
  | .lineNumbers _ _ => s = "LineNumberTable"
  | .variables generic _ _ =>
    s = if generic then "LocalVariableTypeTable" else "LocalVariableTable"
  | .other _ => s ∉ Code.knownAttributes

/-- Whether the entries refer to places of the code, and the form of each frame suits it. -/
def InPlace (placed : List Placed) (length : Nat) : CodeAttribute → Prop
  | .stackMap _ frames => ∀ f ∈ frames, f.Formed
  | .lineNumbers _ entries => ∀ e ∈ entries, Code.Starts placed e.start
  | .variables _ _ entries =>
    ∀ e ∈ entries, Code.Starts placed e.start ∧ Code.Ends placed length (e.start + e.length)
  | .other _ => True

/-- An attribute of a method body as it is when it was read. -/
structure WellFormed (pool : ConstantPool) (placed : List Placed) (length : Nat)
    (a : CodeAttribute) : Prop where
  named : ∃ s, pool.utf8 a.name = .ok s ∧ a.Suits s
  inPlace : a.InPlace placed length

end CodeAttribute

namespace Code

variable {placed : List Placed} {length : Nat} {pool : ConstantPool}

theorem writeAttribute_eq_ok_iff {a : CodeAttribute} {bs : Bytes} :
    writeAttribute a = .ok bs ↔ ∃ body, a.body = .ok body ∧ attributeBytes a.name body = .ok bs := by
  cases a with
  | other raw => simp [writeAttribute, CodeAttribute.body, CodeAttribute.name]
  | _ => exact bind_eq_ok_iff

theorem find?_not_eq_none_iff {α : Type} {test : α → Bool} {as : List α} :
    (as.find? fun a => !test a) = none ↔ ∀ a ∈ as, test a := by
  rw [List.find?_eq_none]
  simp

/-! A name decides how the body of an attribute is read. -/

section

variable {nameIndex : UInt16} {body : Bytes} {a : CodeAttribute} (fits : body.length < positionLimit)

include fits

theorem readAttribute_stackMap_iff :
    readAttribute (placesOf placed length) "StackMapTable" nameIndex body = .ok a ↔
      ∃ frames, a = .stackMap nameIndex frames ∧ Frame.writeTable frames = .ok body ∧
        ∀ f ∈ frames, f.Formed := by
  rw [readAttribute, if_pos (beq_self_eq_true _)]
  simp only [bind_eq_ok_iff, pure_eq_ok_iff, Frame.readTable_eq_ok_iff fits]
  constructor
  · rintro ⟨frames, ⟨written, formed⟩, rfl⟩
    exact ⟨frames, rfl, written, formed⟩
  · rintro ⟨frames, rfl, written, formed⟩
    exact ⟨frames, ⟨written, formed⟩, rfl⟩

theorem readAttribute_lineNumbers_iff :
    readAttribute (placesOf placed length) "LineNumberTable" nameIndex body = .ok a ↔
      ∃ entries, a = .lineNumbers nameIndex entries ∧
        writeTable "LineNumberTable" writeLine entries = .ok body ∧
        ∀ e ∈ entries, Starts placed e.start := by
  rw [readAttribute, if_neg (by decide), if_pos (beq_self_eq_true _)]
  simp only [bind_eq_ok_iff, readTable_eq_ok_iff "LineNumberTable" accepts_readLine fits]
  constructor
  · rintro ⟨entries, written, checked⟩
    split at checked
    next => cases checked
    next none =>
      cases checked
      rw [find?_not_eq_none_iff] at none
      exact ⟨entries, rfl, written, fun e member => isStart_iff.mp (none e member)⟩
  · rintro ⟨entries, rfl, written, inPlace⟩
    refine ⟨entries, written, ?_⟩
    rw [find?_not_eq_none_iff.mpr fun e member => isStart_iff.mpr (inPlace e member)]
    rfl

theorem readAttribute_variables_iff (generic : Bool) :
    readAttribute (placesOf placed length)
        (if generic then "LocalVariableTypeTable" else "LocalVariableTable") nameIndex body = .ok a ↔
      ∃ entries, a = .variables generic nameIndex entries ∧
        writeTable "LocalVariableTable" writeVariable entries = .ok body ∧
        ∀ e ∈ entries, Starts placed e.start ∧ Ends placed length (e.start + e.length) := by
  rw [readAttribute, if_neg (by cases generic <;> decide), if_neg (by cases generic <;> decide),
    if_pos (by cases generic <;> rfl)]
  simp only [bind_eq_ok_iff, readTable_eq_ok_iff "LocalVariableTable" accepts_readVariable fits]
  have kind : ((if generic then "LocalVariableTypeTable" else "LocalVariableTable") ==
      "LocalVariableTypeTable") = generic := by
    cases generic <;> rfl
  rw [kind]
  have inside {e : LocalVariable} : ((placesOf placed length).isStart e.start &&
      (placesOf placed length).isEnd (e.start + e.length)) = true ↔
        Starts placed e.start ∧ Ends placed length (e.start + e.length) := by
    rw [Bool.and_eq_true, isStart_iff, isEnd_iff]
  constructor
  · rintro ⟨entries, written, checked⟩
    split at checked
    next => cases checked
    next none =>
      cases checked
      rw [find?_not_eq_none_iff] at none
      exact ⟨entries, rfl, written, fun e member => inside.mp (none e member)⟩
  · rintro ⟨entries, rfl, written, inPlace⟩
    refine ⟨entries, written, ?_⟩
    rw [find?_not_eq_none_iff.mpr fun e member => inside.mpr (inPlace e member)]
    rfl

omit fits in
theorem readAttribute_other {name : String} (unknown : name ∉ knownAttributes) :
    readAttribute (placesOf placed length) name nameIndex body = .ok (.other ⟨nameIndex, body⟩) := by
  simp only [knownAttributes, List.mem_cons, List.not_mem_nil, or_false, not_or] at unknown
  obtain ⟨noFrames, noLines, noDescriptors, noTypes⟩ := unknown
  simp only [readAttribute, beq_iff_eq, noFrames, noLines, noDescriptors, noTypes, Bool.or_eq_true,
    or_self, if_false]
  rfl

theorem readAttribute_eq_ok_iff {name : String} :
    readAttribute (placesOf placed length) name nameIndex body = .ok a ↔
      a.name = nameIndex ∧ a.Suits name ∧ a.body = .ok body ∧ a.InPlace placed length := by
  constructor
  · intro read
    by_cases known : name ∈ knownAttributes
    · rcases mem_knownAttributes.mp known with rfl | rfl | ⟨generic, rfl⟩
      · obtain ⟨frames, rfl, written, formed⟩ := (readAttribute_stackMap_iff fits).mp read
        exact ⟨rfl, rfl, written, formed⟩
      · obtain ⟨entries, rfl, written, inPlace⟩ := (readAttribute_lineNumbers_iff fits).mp read
        exact ⟨rfl, rfl, written, inPlace⟩
      · obtain ⟨entries, rfl, written, inPlace⟩ := (readAttribute_variables_iff fits generic).mp read
        exact ⟨rfl, rfl, written, inPlace⟩
    · rw [readAttribute_other known] at read
      cases read
      exact ⟨rfl, known, rfl, trivial⟩
  · rintro ⟨rfl, suits, written, inPlace⟩
    rcases a with ⟨index, frames⟩ | ⟨index, entries⟩ | ⟨generic, index, entries⟩ | raw
    · obtain rfl : name = _ := suits
      exact (readAttribute_stackMap_iff fits).mpr ⟨frames, rfl, written, inPlace⟩
    · obtain rfl : name = _ := suits
      exact (readAttribute_lineNumbers_iff fits).mpr ⟨entries, rfl, written, inPlace⟩
    · obtain rfl : name = _ := suits
      exact (readAttribute_variables_iff fits generic).mpr ⟨entries, rfl, written, inPlace⟩
    · cases written
      exact readAttribute_other suits

end

theorem accepts_readCodeAttribute : Accepts (readCodeAttribute pool (placesOf placed length))
    (fun _ bs a => writeAttribute a = .ok bs ∧ a.WellFormed pool placed length) := by
  have named (nameIndex : UInt16) (body : Bytes) : Accepts
      (do
        let name ← (pool.utf8 nameIndex : Except ClassError String)
        (readAttribute (placesOf placed length) name nameIndex body : Except ClassError CodeAttribute))
      (fun _ bs a => bs = [] ∧ ∃ name, pool.utf8 nameIndex = .ok name ∧
        readAttribute (placesOf placed length) name nameIndex body = .ok a) := by
    refine Accepts.congr ((Accepts.lift _).bind fun name => .lift _) fun pos bs a => ⟨?_, ?_⟩
    · rintro ⟨name, _, _, rfl, ⟨rfl, found⟩, rfl, read⟩
      exact ⟨rfl, name, found, read⟩
    · rintro ⟨rfl, name, found, read⟩
      exact ⟨name, [], [], rfl, ⟨rfl, found⟩, rfl, read⟩
  refine (accepts_attribute named).congr fun pos bs a => ?_
  rw [writeAttribute_eq_ok_iff]
  constructor
  · rintro ⟨nameIndex, body, framed, name, found, read⟩
    obtain ⟨rfl, suits, written, inPlace⟩ := (readAttribute_eq_ok_iff (length_lt_of_attributeBytes framed)).mp read
    exact ⟨⟨body, written, framed⟩, ⟨name, found, suits⟩, inPlace⟩
  · rintro ⟨⟨body, written, framed⟩, ⟨name, found, suits⟩, inPlace⟩
    exact ⟨a.name, body, framed, name, found,
      (readAttribute_eq_ok_iff (length_lt_of_attributeBytes framed)).mpr ⟨rfl, suits, written, inPlace⟩⟩

/-! ### Bodies -/

/-- The frames of a method are those of one of its attributes. -/
theorem exists_mem_of_framesOf? {as : List CodeAttribute} {frames : List Frame}
    (found : as.findSome? framesOf? = some frames) : ∃ name, .stackMap name frames ∈ as := by
  obtain ⟨a, member, holds⟩ := List.exists_of_findSome?_eq_some found
  cases a with
  | stackMap name table =>
      cases holds
      exact ⟨name, member⟩
  | _ => cases holds

/-- A method body as it is when it was read. -/
structure WellFormed (pool : ConstantPool) (c : Code) : Prop where
  instructions : Instruction.WellFormed c.instructions
  laidOut : c.isLaidOut
  nonempty : c.instructions ≠ []
  handlers : ∀ h ∈ c.handlers, h.WellFormed pool c.instructions c.length
  attributes : ∀ a ∈ c.attributes, a.WellFormed pool c.instructions c.length

/-- The octets of a method body that declares some sizes. -/
def writeSized (c : Code) (stack locals : UInt16) : Except ClassError Bytes := do
  let code ← Instruction.writeAll c.instructions
  if maxCodeLength < code.length then throw (.overflow (.codeSize code.length))
  let handlers ← writeTable "exception table" writeHandler c.handlers
  let attributes ← writeTable "Code attributes" writeAttribute c.attributes
  return be16 stack ++ be16 locals ++ be32 (UInt32.ofNat code.length) ++ code ++ handlers ++ attributes

theorem writeSized_eq_ok_iff {c : Code} {stack locals : UInt16} {body : Bytes} :
    c.writeSized stack locals = .ok body ↔ ∃ code handlers attributes,
      Instruction.writeAll c.instructions = .ok code ∧ code.length ≤ maxCodeLength ∧
      writeTable "exception table" writeHandler c.handlers = .ok handlers ∧
      writeTable "Code attributes" writeAttribute c.attributes = .ok attributes ∧
      body = be16 stack ++ (be16 locals ++ (be32 (UInt32.ofNat code.length) ++
        (code ++ (handlers ++ attributes)))) := by
  simp only [writeSized, bind_eq_ok_iff, refuse_eq_ok_iff, pure_eq_ok_iff, not_lt, List.append_assoc]
  constructor
  · rintro ⟨code, written, small, handlers, caught, attributes, described, rfl⟩
    exact ⟨code, handlers, attributes, written, small, caught, described, rfl⟩
  · rintro ⟨code, handlers, attributes, written, small, caught, described, rfl⟩
    exact ⟨code, written, small, handlers, caught, attributes, described, rfl⟩

theorem writeLaidOut_eq_ok_iff {c : Code} {descriptor : MethodDescriptor} {isStatic : Bool}
    {body : Bytes} : c.writeLaidOut pool descriptor isStatic = .ok body ↔
      ∃ stack, c.neededStack pool = .ok stack ∧
        c.writeSized (max c.maxStack stack) (max c.maxLocals (c.neededLocals descriptor isStatic)) =
          .ok body ∧ body.length < 0x100000000 := by
  simp only [writeLaidOut, writeSized, bind_eq_ok_iff, refuse_eq_ok_iff, pure_eq_ok_iff,
    octetCount_eq_ok_iff]
  constructor
  · rintro ⟨code, written, small, stack, needed, handlers, caught, attributes, described, n, ⟨fits, -⟩, rfl⟩
    exact ⟨stack, needed, ⟨code, written, small, handlers, caught, attributes, described, rfl⟩, fits⟩
  · rintro ⟨stack, needed, ⟨code, written, small, handlers, caught, attributes, described, rfl⟩, fits⟩
    exact ⟨code, written, small, stack, needed, handlers, caught, attributes, described, _, ⟨fits, rfl⟩, rfl⟩

end Code

/-- How many octets were written. -/
def writtenLength : Except ClassError Bytes → Nat
  | .ok bs => bs.length
  | .error _ => 0

namespace Code

/-- What becomes of the octets of a method body, behind marks for its sizes. -/
def marks (sizes : List Mark) (c : Code) : List Mark :=
  sizes ++ (keep 4 ++ (Instruction.listingMarks c.instructions ++
    keep (writtenLength (writeTable "exception table" writeHandler c.handlers) +
      writtenLength (writeTable "Code attributes" writeAttribute c.attributes))))

/-- The parts of the octets that a method body is read from: its code array and its two tables, behind
the sizes and the length of the code. -/
structure Parts (pool : ConstantPool) (c : Code) (bs octets hs as : Bytes) : Prop where
  split : bs = be16 c.maxStack ++ (be16 c.maxLocals ++ (be32 (UInt32.ofNat octets.length) ++
    (octets ++ (hs ++ as))))
  positive : 0 < octets.length
  small : octets.length ≤ maxCodeLength
  read : Instruction.readAll octets = .ok c.instructions
  caught : writeTable "exception table" writeHandler c.handlers = .ok hs
  described : writeTable "Code attributes" writeAttribute c.attributes = .ok as
  handlers : ∀ h ∈ c.handlers, h.WellFormed pool c.instructions octets.length
  attributes : ∀ a ∈ c.attributes, a.WellFormed pool c.instructions octets.length

theorem accepts_parts :
    Accepts (readBody pool) (fun _ bs c => ∃ octets hs as, c.Parts pool bs octets hs as) := by
  unfold readBody
  dsimp only
  refine Accepts.congr (accepts_u16.bind fun maxStack => accepts_u16.bind fun maxLocals =>
    accepts_u32.bind fun length => .refuse ((fails_fault _).bind _) <|
    (accepts_take length.toNat).bind fun octets => (Accepts.lift _).bind fun instructions =>
    .bind_assoc (accepts_table "exception table" (accepts_readHandler instructions length.toNat))
      fun handlers =>
    .bind_assoc (accepts_table "Code attributes" accepts_readCodeAttribute) fun attributes =>
    .pure (Code.mk maxStack maxLocals instructions handlers attributes)) fun pos bs c => ⟨?_, ?_⟩
  · rintro ⟨maxStack, _, _, rfl, rfl, maxLocals, _, _, rfl, rfl, length, _, _, rfl, rfl, sized, _, octets,
      _, rfl, ⟨rfl, len⟩, instructions, _, _, rfl, ⟨rfl, read⟩, handlers, hs, _, rfl, ⟨caught, right⟩,
      attributes, as, _, rfl, ⟨described, right'⟩, rfl, rfl⟩
    simp only [not_or, not_lt, ← UInt32.toNat_inj] at sized
    rw [← len] at sized right right'
    refine ⟨octets, hs, as, ?_, Nat.pos_of_ne_zero sized.1, sized.2, read, caught, described, right, right'⟩
    rw [len, UInt32.ofNat_toNat, List.append_nil, List.nil_append]
  · rintro ⟨octets, hs, as, h⟩
    have len : (UInt32.ofNat octets.length).toNat = octets.length :=
      UInt32.toNat_ofNat_of_lt' (Nat.lt_of_le_of_lt h.small (by decide))
    refine ⟨c.maxStack, _, _, h.split, rfl, c.maxLocals, _, _, rfl, rfl, UInt32.ofNat octets.length, _, _,
      rfl, rfl, ?_, octets, octets, _, rfl, ⟨rfl, len.symm⟩, c.instructions, [], _, rfl, ⟨rfl, h.read⟩,
      c.handlers, hs, _, rfl, ⟨h.caught, ?_⟩, c.attributes, as, [], (List.append_nil as).symm,
      ⟨h.described, ?_⟩, rfl, rfl⟩
    · rw [not_or, not_lt, len, ← UInt32.toNat_inj, len]
      exact ⟨Nat.ne_of_gt h.positive, h.small⟩
    · rw [len]
      exact h.handlers
    · rw [len]
      exact h.attributes

theorem length_eq {c : Code} (fits : Instruction.endOf c.instructions < 0x100000000) :
    c.length = Instruction.endOf c.instructions :=
  wrapped_of_lt fits

/-- A code array that is not too long has the length of the code. -/
theorem length_of_written {c : Code} {code : Bytes} (written : Instruction.writeAll c.instructions = .ok code)
    (small : code.length ≤ maxCodeLength) : c.length = code.length := by
  have ends := Instruction.length_of_writeAll written
  rw [length_eq (ends ▸ small.trans_lt (by decide)), ends]

/-- A body that was read is well formed, and its octets are those that are written for it, except for
reserved ones. -/
theorem Parts.carried {c : Code} {bs octets hs as : Bytes} (h : c.Parts pool bs octets hs as) :
    c.WellFormed pool ∧
      ∃ out, c.writeSized c.maxStack c.maxLocals = .ok out ∧ Settled (c.marks (keep 4)) bs out := by
  obtain ⟨sound, code, written, settled⟩ := (Instruction.readAll_eq_ok_iff h.small).mp h.read
  have same : code.length = octets.length := settled.length_eq.2.trans settled.length_eq.1.symm
  have nonempty : c.instructions ≠ [] := by
    intro none
    rw [none] at written
    cases written
    exact Nat.ne_of_lt h.positive same
  have total : c.length = octets.length := (length_of_written written (same ▸ h.small)).trans same
  refine ⟨⟨sound, Instruction.tiles_of_write written, nonempty, ?_, ?_⟩, _, writeSized_eq_ok_iff.mpr
    ⟨code, hs, as, written, same ▸ h.small, h.caught, h.described, rfl⟩, ?_⟩
  · rw [total]
    exact h.handlers
  · rw [total]
    exact h.attributes
  · rw [h.split, same, marks, h.caught, h.described, writtenLength, writtenLength, ← List.length_append,
      ← List.append_assoc (be16 c.maxStack), ← List.append_assoc (be16 c.maxStack)]
    exact (Settled.keep_rfl (be16 c.maxStack ++ be16 c.maxLocals)).append
      ((Settled.keep_rfl (be32 (UInt32.ofNat octets.length))).append
        (settled.append (Settled.keep_rfl (hs ++ as))))

theorem exists_parts {c : Code} {bs out : Bytes} (sound : c.WellFormed pool)
    (sized : c.writeSized c.maxStack c.maxLocals = .ok out) (settled : Settled (c.marks (keep 4)) bs out) :
    ∃ octets hs as, c.Parts pool bs octets hs as ∧ c.length = octets.length := by
  obtain ⟨code, hs, as, written, small, caught, described, rfl⟩ := writeSized_eq_ok_iff.mp sized
  rw [marks, caught, described, writtenLength, writtenLength, ← List.length_append,
    ← List.append_assoc (be16 c.maxStack)] at settled
  obtain ⟨_, rfl, behindSizes⟩ :=
    (Settled.append_kept_iff (be16 c.maxStack ++ be16 c.maxLocals) rfl).mp settled
  obtain ⟨_, rfl, behindLength⟩ :=
    (Settled.append_kept_iff (be32 (UInt32.ofNat code.length)) rfl).mp behindSizes
  obtain ⟨octets, _, rfl, coded, tables⟩ := (Settled.append_written_iff
    Instruction.isPlain_listingMarks (Instruction.length_eq_of_write written)).mp behindLength
  obtain ⟨rfl, -⟩ := Settled.keep_iff.mp tables
  have same : octets.length = code.length := coded.length_eq.1.trans coded.length_eq.2.symm
  have total : c.length = octets.length := (length_of_written written small).trans same.symm
  have positive : 0 < octets.length := by
    obtain ⟨p, ps, first⟩ := List.exists_cons_of_ne_nil sound.nonempty
    have inside := Instruction.offset_lt_of_write written p.offset (by simp [first])
    omega
  refine ⟨octets, hs, as, ?_, total⟩
  exact {
    split := by rw [same, List.append_assoc]
    positive
    small := same ▸ small
    read := (Instruction.readAll_eq_ok_iff (same ▸ small)).mpr ⟨sound.instructions, code, written, coded⟩
    caught
    described
    handlers := total ▸ sound.handlers
    attributes := total ▸ sound.attributes }

theorem accepts_readBody : Accepts (readBody pool) (fun _ bs c => c.WellFormed pool ∧
    ∃ out, c.writeSized c.maxStack c.maxLocals = .ok out ∧ Settled (c.marks (keep 4)) bs out) := by
  refine accepts_parts.congr fun pos bs c => ⟨?_, ?_⟩
  · rintro ⟨octets, hs, as, h⟩
    exact h.carried
  · rintro ⟨sound, out, sized, settled⟩
    obtain ⟨octets, hs, as, h, -⟩ := exists_parts sound sized settled
    exact ⟨octets, hs, as, h⟩

/-- The body of a `Code` attribute is read as a method body exactly where that is well formed and its
octets stand for it. -/
theorem read_eq_ok_iff {body : Bytes} {c : Code} (fits : body.length < positionLimit) :
    read pool body = .ok c ↔ c.WellFormed pool ∧
      ∃ out, c.writeSized c.maxStack c.maxLocals = .ok out ∧ Settled (c.marks (keep 4)) body out :=
  ⟨fun h => accepts_readBody.onAll_sound h, fun h => accepts_readBody.onAll_complete h fits⟩

end Code

end JarGate
