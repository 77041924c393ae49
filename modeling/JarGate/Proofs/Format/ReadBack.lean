import JarGate.Proofs.Format.RoundTrip
import JarGate.Proofs.Injection.WellFormed

/-!
# Reading back what was written

The octets that a well-formed class is written as are read as that class, with the sizes of its method
bodies raised to what they need, and that class is written as the same octets. This covers every class
that was read and then edited.
-/

namespace JarGate

open Decoder Mark

/-! ### Octets that were written settle to themselves -/

theorem Code.settled_of_writeDeclared {c : Code} {out : Bytes} (written : c.writeDeclared = .ok out) :
    Settled c.declaredMarks out out := by
  obtain ⟨code, hs, as, listed, -, caught, described, rfl⟩ := writeSized_eq_ok_iff.mp written
  rw [declaredMarks, marks, caught, described, writtenLength, writtenLength, ← List.length_append,
    ← List.append_assoc (be16 c.maxStack)]
  exact (Settled.keep_rfl (be16 c.maxStack ++ be16 c.maxLocals)).append
    ((Settled.keep_rfl (be32 (UInt32.ofNat code.length))).append
      ((Instruction.settled_of_writeOnto listed).append (Settled.keep_rfl (hs ++ as))))

/-- A table settles to itself where its entries do. -/
theorem settled_of_writeTable {α : Type} {what : String} {write : α → Except ClassError Bytes}
    {marks : α → List Mark} {as : List α} {out : Bytes}
    (each : ∀ {a out}, write a = .ok out → Settled (marks a) out out)
    (written : Code.writeTable what write as = .ok out) :
    Settled (keep 2 ++ as.flatMap marks) out out := by
  obtain ⟨-, chunks, all, rfl⟩ := Code.writeTable_eq_ok_iff.mp written
  refine (Settled.keep_rfl (be16 (UInt16.ofNat as.length))).append ?_
  clear written
  induction all with
  | nil => exact .nil
  | cons head _ ih => exact (each head).append ih

theorem MethodAttribute.settled_of_writeWith {a : MethodAttribute} {out : Bytes}
    (written : a.writeWith Code.writeDeclared = .ok out) :
    Settled (a.marks Code.declaredMarks) out out := by
  cases a with
  | code name c =>
      obtain ⟨body, sized, framed⟩ := bind_eq_ok_iff.mp written
      obtain ⟨-, rfl⟩ := attributeBytes_eq_ok_iff.mp framed
      exact (Settled.keep_rfl (be16 name ++ be32 (UInt32.ofNat body.length))).append
        (Code.settled_of_writeDeclared sized)
  | raw r =>
      obtain ⟨-, rfl⟩ := attributeBytes_eq_ok_iff.mp written
      exact (Settled.keep_rfl (be16 r.name ++ be32 (UInt32.ofNat r.body.length))).append
        (Settled.keep_rfl r.body)

theorem MethodInfo.settled_of_writeWith {m : MethodInfo} {out : Bytes}
    (written : m.writeWith Code.writeDeclared = .ok out) :
    Settled (m.marks Code.declaredMarks) out out := by
  simp only [writeWith, bind_eq_ok_iff, pure_eq_ok_iff] at written
  obtain ⟨table, tabled, rfl⟩ := written
  exact (Settled.keep_rfl (be16 m.access ++ be16 m.name ++ be16 m.descriptor)).append
    (settled_of_writeTable MethodAttribute.settled_of_writeWith tabled)

namespace ClassFile

theorem settled_of_writeWith {c : ClassFile} {out : Bytes}
    (written : c.writeWith (fun _ => Code.writeDeclared) = .ok out) :
    Settled (c.marksWith fun _ => Code.declaredMarks) out out := by
  obtain ⟨ps, is, fs, ms, as, parts, tabled, rfl⟩ := writeWith_eq_ok_iff.mp written
  rw [marksWith_eq parts]
  exact (Settled.keep_rfl (c.front ps is fs)).append
    ((settled_of_writeTable MethodInfo.settled_of_writeWith tabled).append (Settled.keep_rfl as))

end ClassFile

/-! ### Raised sizes -/

/-- A method body that declares at least some sizes. -/
def Code.raise (c : Code) (stack locals : UInt16) : Code :=
  { c with maxStack := max c.maxStack stack, maxLocals := max c.maxLocals locals }

theorem Code.WellFormed.raise {c : Code} {pool : ConstantPool} (sound : c.WellFormed pool)
    (stack locals : UInt16) : (c.raise stack locals).WellFormed pool :=
  ⟨sound.instructions, sound.laidOut, sound.nonempty, sound.handlers, sound.attributes⟩

namespace MethodAttribute

/-- Changes the body that an attribute holds. -/
def mapCode (f : Code → Code) : MethodAttribute → MethodAttribute
  | code name c => code name (f c)
  | raw r => raw r

end MethodAttribute

namespace ClassFile

variable {c : ClassFile}

/-- A method body of a class with its sizes raised to what it needs. -/
def raisedBody (c : ClassFile) (m : MethodInfo) (code : Code) : Code :=
  match c.neededSizes m code with
  | .ok (stack, locals) => code.raise stack locals
  | .error _ => code

/-- A method of a class with the sizes of its body raised. -/
def raisedMethod (c : ClassFile) (m : MethodInfo) : MethodInfo :=
  { m with attributes := m.attributes.map (MethodAttribute.mapCode (c.raisedBody m)) }

/-- A class whose method bodies declare the larger of the sizes that they declare and the sizes that
they need, and which is the same otherwise. -/
def raised (c : ClassFile) : ClassFile :=
  { c with methods := c.methods.map c.raisedMethod }

theorem wellFormed_raisedBody {m : MethodInfo} {code : Code} (sound : code.WellFormed c.pool) :
    (c.raisedBody m code).WellFormed c.pool := by
  simp only [raisedBody]
  split
  · exact sound.raise _ _
  · exact sound

theorem WellFormed.raised (sound : c.WellFormed) : c.raised.WellFormed := by
  refine { sound with methods := fun m member => ?_ }
  obtain ⟨m, old, rfl⟩ := List.mem_map.mp member
  have before := sound.methods m old
  refine { before with attributes := fun a found => ?_ }
  obtain ⟨a, old', rfl⟩ := List.mem_map.mp found
  have right := before.attributes a old'
  cases a with
  | code name code => exact ⟨right.1, wellFormed_raisedBody right.2⟩
  | raw r => exact right

/-- Raised sizes need nothing more. -/
theorem neededSizes_raised (m : MethodInfo) (code : Code) :
    c.raised.neededSizes (c.raisedMethod m) (c.raisedBody m code) = c.neededSizes m code := by
  have same (stack locals : UInt16) :
      c.raised.neededSizes (c.raisedMethod m) (code.raise stack locals) = c.neededSizes m code := rfl
  rw [raisedBody]
  split
  · exact same _ _
  · rfl

/-! ### The octets of a class with raised sizes -/

/-- Tables are written alike where their entries are. -/
theorem writeTable_map {α β : Type} {what : String} {w : α → Except ClassError Bytes}
    {w' : β → Except ClassError Bytes} {g : α → β} {as : List α} {out : Bytes}
    (each : ∀ a ∈ as, ∀ {bs}, w a = .ok bs → w' (g a) = .ok bs)
    (written : Code.writeTable what w as = .ok out) : Code.writeTable what w' (as.map g) = .ok out := by
  obtain ⟨small, chunks, all, rfl⟩ := Code.writeTable_eq_ok_iff.mp written
  refine Code.writeTable_eq_ok_iff.mpr ⟨by rwa [List.length_map], chunks, ?_, by rw [List.length_map]⟩
  clear small written
  induction all with
  | nil => exact .nil
  | cons head _ ih =>
      exact .cons (each _ (List.mem_cons_self ..) head)
        (ih fun a member => each a (List.mem_cons_of_mem _ member))

theorem writeWith_raised {w w' : MethodInfo → Code → Except ClassError Bytes} {out : Bytes}
    (each : ∀ m ∈ c.methods, ∀ name code, .code name code ∈ m.attributes → ∀ {bs},
      w m code = .ok bs → w' (c.raisedMethod m) (c.raisedBody m code) = .ok bs)
    (written : c.writeWith w = .ok out) : c.raised.writeWith w' = .ok out := by
  obtain ⟨ps, is, fs, ms, as, parts, tabled, rfl⟩ := writeWith_eq_ok_iff.mp written
  refine writeWith_eq_ok_iff.mpr ⟨ps, is, fs, ms, as, ⟨parts.pool, parts.interfaces, parts.fields,
    parts.attributes⟩, ?_, rfl⟩
  refine writeTable_map (fun m member bs method => ?_) tabled
  simp only [MethodInfo.writeWith, bind_eq_ok_iff, pure_eq_ok_iff] at method ⊢
  obtain ⟨table, attributes, rfl⟩ := method
  refine ⟨table, writeTable_map (fun a found bs' single => ?_) attributes, rfl⟩
  cases a with
  | code name code =>
      obtain ⟨body, sized, framed⟩ := bind_eq_ok_iff.mp single
      exact bind_eq_ok_iff.mpr ⟨body, each m member name code found sized, framed⟩
  | raw r => exact single

/-- The sizes that the bodies of a class need can be told where the class can be written. -/
theorem writeBody_raised {m : MethodInfo} {code : Code} {bs : Bytes} (laidOut : code.isLaidOut)
    (written : c.writeBody m code = .ok bs) : (c.raisedBody m code).writeDeclared = .ok bs ∧
      c.raised.writeBody (c.raisedMethod m) (c.raisedBody m code) = .ok bs := by
  obtain ⟨stack, locals, needed, sized, small⟩ := (writeBody_eq_ok_iff laidOut).mp written
  have raised : c.raisedBody m code = code.raise stack locals := by rw [raisedBody, needed]
  have again : c.raised.neededSizes (c.raisedMethod m) (code.raise stack locals) =
      .ok (stack, locals) := by rw [← raised, neededSizes_raised, needed]
  rw [raised]
  have laidOut' : (code.raise stack locals).isLaidOut := laidOut
  refine ⟨sized, (writeBody_eq_ok_iff laidOut').mpr ⟨stack, locals, again, ?_, small⟩⟩
  rw [Code.raise, max_max_right, max_max_right]
  exact sized

/-- A well-formed class that is written is read back as itself with raised sizes, and that class is
written as the same octets. -/
theorem decode_of_encode {out : Bytes} (sound : c.WellFormed) (written : c.encode = .ok out)
    (fits : out.length < positionLimit) :
    decode out = .ok c.raised ∧ c.raised.encode = .ok out := by
  rw [encode_eq] at written
  have laidOut (m : MethodInfo) (member : m ∈ c.methods) (name : UInt16) (code : Code)
      (found : .code name code ∈ m.attributes) : code.isLaidOut := by
    obtain ⟨-, body⟩ := (sound.methods m member).attributes _ found
    exact body.laidOut
  have declared : c.raised.writeWith (fun _ => Code.writeDeclared) = .ok out :=
    writeWith_raised (fun m member name code found bs body =>
      (writeBody_raised (laidOut m member name code found) body).1) written
  refine ⟨?_, ?_⟩
  · exact (decode_eq_ok_iff fits).mpr ⟨sound.raised, out, declared, settled_of_writeWith declared⟩
  · rw [encode_eq]
    exact writeWith_raised (fun m member name code found bs body =>
      (writeBody_raised (laidOut m member name code found) body).2) written

/-- What a class needs is known where the class can be written. -/
theorem neededSizes_of_encode {out : Bytes} (sound : c.WellFormed) (written : c.encode = .ok out) :
    ∀ m ∈ c.methods, ∀ name code, .code name code ∈ m.attributes →
      ∃ stack locals, c.neededSizes m code = .ok (stack, locals) := by
  have entry {α : Type} {what : String} {w : α → Except ClassError Bytes} {as : List α} {bs : Bytes}
      (tabled : Code.writeTable what w as = .ok bs) : ∀ a ∈ as, ∃ bs, w a = .ok bs := by
    obtain ⟨-, chunks, all, -⟩ := Code.writeTable_eq_ok_iff.mp tabled
    intro a member
    obtain ⟨i, bound, rfl⟩ := List.getElem_of_mem member
    exact ⟨_, all.get bound (all.length_eq ▸ bound)⟩
  rw [encode_eq] at written
  obtain ⟨_, _, _, _, _, -, tabled, -⟩ := writeWith_eq_ok_iff.mp written
  intro m member name code found
  obtain ⟨bs, method⟩ := entry tabled m member
  simp only [MethodInfo.writeWith, bind_eq_ok_iff, pure_eq_ok_iff] at method
  obtain ⟨table, attributes, -⟩ := method
  obtain ⟨bs', single⟩ := entry attributes _ found
  obtain ⟨body, sized, -⟩ := bind_eq_ok_iff.mp single
  have right := (sound.methods m member).attributes _ found
  obtain ⟨stack, locals, needed, -⟩ := (writeBody_eq_ok_iff right.2.laidOut).mp sized
  exact ⟨stack, locals, needed⟩

/-- Whatever edits make of a class that was read: if it can be written, then what is written is read
back as the edited class, in which every method body declares the larger of the sizes that it declared
and the sizes that it needs, and this class is written as the same octets. -/
theorem read_back_edited {data out : Bytes} {c₀ c : ClassFile} {edits : List ClassEdit}
    (read : decode data = .ok c₀) (edited : ClassEdit.run edits c₀ = some c)
    (written : c.encode = .ok out) (fits : out.length < positionLimit) :
    decode out = .ok c.raised ∧ c.raised.encode = .ok out ∧
    ∀ m ∈ c.methods, ∀ name code, .code name code ∈ m.attributes →
      ∃ stack locals, c.neededSizes m code = .ok (stack, locals) ∧
        c.raisedBody m code = { code with
          maxStack := max code.maxStack stack, maxLocals := max code.maxLocals locals } := by
  have sound := (ClassEdit.patchable_run (patchable_of_decode read) edited).toWellFormed
  obtain ⟨back, again⟩ := decode_of_encode sound written fits
  refine ⟨back, again, fun m member name code found => ?_⟩
  obtain ⟨stack, locals, needed⟩ := neededSizes_of_encode sound written m member name code found
  refine ⟨stack, locals, needed, ?_⟩
  rw [raisedBody, needed]
  rfl

/-- A text, a field and a call of the gate. -/
def carelessEdits : List ClassEdit :=
  [.addUtf8 "x", .addField Access.isPrivate "f" "I", .inject 0 ⟨.callOnly, false⟩]

theorem read_back_edited_careless : ∃ c₀ c out, decode (carelessFile 0 0 9) = .ok c₀ ∧
    ClassEdit.run carelessEdits c₀ = some c ∧ c.encode = .ok out ∧ out.length = 172 ∧
    decode out = .ok c.raised ∧ c.raised.encode = .ok out := by
  have whole : (((decode (carelessFile 0 0 9)).toOption.bind (ClassEdit.run carelessEdits)).bind
      fun c => c.encode.toOption).map List.length = some 172 := by
    decide +kernel
  obtain ⟨out, encoded, len⟩ := Option.map_eq_some_iff.mp whole
  obtain ⟨c, changed, encoded⟩ := Option.bind_eq_some_iff.mp encoded
  obtain ⟨c₀, decoded, edited⟩ := Option.bind_eq_some_iff.mp changed
  have read := toOption_eq_some_iff.mp decoded
  have written := toOption_eq_some_iff.mp encoded
  have fits : out.length < positionLimit := by
    rw [len]
    decide
  obtain ⟨back, again, -⟩ := read_back_edited read edited written fits
  exact ⟨c₀, c, out, read, edited, written, len, back, again⟩

end ClassFile

end JarGate
