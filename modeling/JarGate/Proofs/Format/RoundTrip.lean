import JarGate.Proofs.Format.Classes

/-!
# The octets of a class that is written again

A class that was read is written with as many octets as it was read from, and every octet is the same
except those that `ClassFile.marks` names: the reserved octets of its instructions are written as zero,
and a size that a method body declares is written as at least what its code needs.
-/

namespace JarGate

open Decoder Mark

/-! ### Octets at a position -/

/-- Whether a size stands at a position of some octets. -/
def SizeAt (bs : Bytes) (i : Nat) (n : UInt16) : Prop :=
  bs[i]? = (be16 n)[0]? ∧ bs[i + 1]? = (be16 n)[1]?

namespace Mark.Settled

variable {ms : List Mark} {xs ys : Bytes}

theorem kept_at (h : Settled ms xs ys) {i : Nat} (marked : ms[i]? = some .kept) : ys[i]? = xs[i]? := by
  induction h generalizing i with
  | nil => rfl
  | kept b _ ih =>
      cases i with
      | zero => rfl
      | succ i => exact ih marked
  | reserved b _ ih =>
      cases i with
      | zero => cases marked
      | succ i => exact ih marked
  | size declared needed _ ih =>
      match i with
      | 0 => cases marked
      | 1 => cases marked
      | i + 2 => exact ih marked

theorem reserved_at (h : Settled ms xs ys) {i : Nat} (marked : ms[i]? = some .reserved) :
    ys[i]? = some 0 := by
  induction h generalizing i with
  | nil => cases marked
  | kept b _ ih =>
      cases i with
      | zero => cases marked
      | succ i => exact ih marked
  | reserved b _ ih =>
      cases i with
      | zero => rfl
      | succ i => exact ih marked
  | size declared needed _ ih =>
      match i with
      | 0 => cases marked
      | 1 => cases marked
      | i + 2 => exact ih marked

theorem size_at (h : Settled ms xs ys) {i : Nat} {needed : UInt16}
    (marked : ms[i]? = some (.size needed)) :
    ∃ declared, SizeAt xs i declared ∧ SizeAt ys i (max declared needed) := by
  induction h generalizing i with
  | nil => cases marked
  | kept b _ ih =>
      cases i with
      | zero => cases marked
      | succ i => exact ih marked
  | reserved b _ ih =>
      cases i with
      | zero => cases marked
      | succ i => exact ih marked
  | size declared needed' _ ih =>
      match i with
      | 0 =>
          cases marked
          exact ⟨declared, ⟨rfl, rfl⟩, rfl, rfl⟩
      | 1 => cases marked
      | i + 2 => exact ih marked

/-- Where the reserved octets are zero and the sizes large enough, nothing changes. -/
theorem eq_of_settled (h : Settled ms xs ys)
    (zeros : ∀ i : Nat, ms[i]? = some Mark.reserved → xs[i]? = some 0)
    (sizes : ∀ (i : Nat) needed declared, ms[i]? = some (.size needed) → SizeAt xs i declared →
      needed ≤ declared) : ys = xs := by
  induction h with
  | nil => rfl
  | kept b _ ih =>
      rw [ih (fun i => zeros (i + 1)) fun i => sizes (i + 1)]
  | reserved b _ ih =>
      obtain rfl : b = 0 := Option.some.inj (zeros 0 rfl)
      rw [ih (fun i => zeros (i + 1)) fun i => sizes (i + 1)]
  | size declared needed _ ih =>
      have enough : needed ≤ declared := sizes 0 needed declared rfl ⟨rfl, rfl⟩
      rw [ih (fun i => zeros (i + 2)) fun i => sizes (i + 2), max_eq_left_of_le enough]

end Mark.Settled

/-! ### From method bodies to classes -/

section

variable {α : Type} {w₀ w₁ : α → Except ClassError Bytes} {k₀ k₁ : α → List Mark}

/-- A table that is read in one way and written in another, where that is understood for each entry. -/
theorem settled_table {what : String} {as : List α} {bs out : Bytes}
    (plain : ∀ a, ∀ m ∈ k₀ a, m.isPlain)
    (len : ∀ {a out}, w₀ a = .ok out → out.length = (k₀ a).length)
    (each : ∀ a ∈ as, ∀ {bs out}, CarriedOver w₀ k₀ a bs → w₁ a = .ok out → Settled (k₁ a) bs out)
    (read : CarriedOver (Code.writeTable what w₀) (fun as => keep 2 ++ as.flatMap k₀) as bs)
    (written : Code.writeTable what w₁ as = .ok out) : Settled (keep 2 ++ as.flatMap k₁) bs out := by
  obtain ⟨-, chunks, carried, rfl⟩ := (counted_carriedOver_iff plain len).mpr read
  obtain ⟨-, chunks', all, rfl⟩ := Code.writeTable_eq_ok_iff.mp written
  refine (Settled.keep_rfl (be16 (UInt16.ofNat as.length))).append ?_
  clear read written
  induction carried generalizing chunks' with
  | nil =>
      cases all
      exact .nil
  | cons head _ ih =>
      obtain _ | ⟨head', all⟩ := all
      exact (each _ (List.mem_cons_self ..) head head').append
        (ih (fun a member => each a (List.mem_cons_of_mem _ member)) _ all)

end

namespace MethodAttribute

variable {w₁ : Code → Except ClassError Bytes} {k₁ : Code → List Mark}

theorem settled {a : MethodAttribute} {bs out : Bytes}
    (each : ∀ name c, a = .code name c → ∀ {bs out},
      CarriedOver Code.writeDeclared Code.declaredMarks c bs → w₁ c = .ok out → Settled (k₁ c) bs out)
    (read : CarriedOver (writeWith Code.writeDeclared) (marks Code.declaredMarks) a bs)
    (written : a.writeWith w₁ = .ok out) : Settled (a.marks k₁) bs out := by
  cases a with
  | code name c =>
      obtain ⟨octets, framed, carried⟩ := carriedOver_code_iff.mp read
      obtain ⟨body, sized, framed₁⟩ := bind_eq_ok_iff.mp written
      obtain ⟨_, framed₂, settled⟩ :=
        carriedOver_attributeBytes_iff.mpr ⟨octets, framed, each name c rfl carried sized⟩
      obtain rfl := Except.ok.inj (framed₁.symm.trans framed₂)
      exact settled
  | raw r =>
      obtain ⟨_, written₀, settled⟩ := read
      obtain rfl := Except.ok.inj (written₀.symm.trans written)
      exact settled

end MethodAttribute

namespace MethodInfo

variable {w₁ : Code → Except ClassError Bytes} {k₁ : Code → List Mark}

theorem settled {m : MethodInfo} {bs out : Bytes}
    (each : ∀ name c, .code name c ∈ m.attributes → ∀ {bs out},
      CarriedOver Code.writeDeclared Code.declaredMarks c bs → w₁ c = .ok out → Settled (k₁ c) bs out)
    (read : CarriedOver (writeWith Code.writeDeclared) (marks Code.declaredMarks) m bs)
    (written : m.writeWith w₁ = .ok out) : Settled (m.marks k₁) bs out := by
  obtain ⟨out₀, written₀, settled⟩ := read
  simp only [writeWith, bind_eq_ok_iff, pure_eq_ok_iff] at written₀ written
  obtain ⟨table₀, tabled₀, rfl⟩ := written₀
  obtain ⟨table, tabled, rfl⟩ := written
  obtain ⟨as, rfl, rest⟩ := (Settled.append_kept_iff
    (be16 m.access ++ be16 m.name ++ be16 m.descriptor) rfl).mp settled
  refine (Settled.keep_rfl (be16 m.access ++ be16 m.name ++ be16 m.descriptor)).append ?_
  refine settled_table (fun _ => MethodAttribute.isPlain_marks) MethodAttribute.length_write
    (fun a member => ?_) ⟨table₀, tabled₀, rest⟩ tabled
  exact MethodAttribute.settled fun name c same => each name c (same ▸ member)

end MethodInfo

namespace ClassFile

variable {w₁ : MethodInfo → Code → Except ClassError Bytes} {k₁ : MethodInfo → Code → List Mark}

/-- What becomes of the octets of a class is decided by what becomes of those of its method bodies. -/
theorem settled_of_bodies {c : ClassFile} {bs out : Bytes}
    (each : ∀ m ∈ c.methods, ∀ name code, .code name code ∈ m.attributes → ∀ {bs out},
      CarriedOver Code.writeDeclared Code.declaredMarks code bs → w₁ m code = .ok out →
      Settled (k₁ m code) bs out)
    (read : CarriedOver (writeWith fun _ => Code.writeDeclared)
      (marksWith fun _ => Code.declaredMarks) c bs)
    (written : c.writeWith w₁ = .ok out) : Settled (c.marksWith k₁) bs out := by
  obtain ⟨out₀, written₀, settled⟩ := read
  obtain ⟨ps, is, fs, ms₀, as, parts, tabled₀, rfl⟩ := writeWith_eq_ok_iff.mp written₀
  obtain ⟨ps', is', fs', ms, as', parts', tabled, rfl⟩ := writeWith_eq_ok_iff.mp written
  obtain ⟨rfl, rfl, rfl, rfl⟩ := parts.unique parts'
  rw [marksWith_eq parts] at settled ⊢
  obtain ⟨_, rfl, rest⟩ := (Settled.append_kept_iff (c.front ps is fs) rfl).mp settled
  obtain ⟨ms', as', rfl, methods, kept⟩ := (Settled.append_written_iff isPlain_methods
    (length_of_writeTable MethodInfo.length_write tabled₀)).mp rest
  obtain rfl : as' = as := (Settled.keep_iff.mp kept).1
  refine (Settled.keep_rfl (c.front ps is fs)).append (Settled.append ?_ (Settled.keep_rfl as'))
  exact settled_table (fun _ => MethodInfo.isPlain_marks) MethodInfo.length_write
    (fun m member => MethodInfo.settled (each m member)) ⟨ms₀, tabled₀, methods⟩ tabled

end ClassFile

/-! ### Sizes -/

theorem Code.relayout_eq {c : Code} (laidOut : c.isLaidOut) : c.relayout = .ok () c := by
  change (if (!c.isLaidOut) = true then move (fun o => c.relayoutMap[o]?) true else pure ()) c = _
  rw [laidOut]
  rfl

theorem Code.write_eq {c : Code} (laidOut : c.isLaidOut) (pool : ConstantPool)
    (descriptor : MethodDescriptor) (isStatic : Bool) :
    c.write pool descriptor isStatic = c.writeLaidOut pool descriptor isStatic := by
  rw [write, relayout_eq laidOut]

namespace ClassFile

/-- The octets of a method body of a class. -/
def writeBody (c : ClassFile) (m : MethodInfo) (code : Code) : Except ClassError Bytes := do
  let descriptor ← MethodDescriptor.parse (← c.methodDescriptor m)
  code.write c.pool descriptor m.isStatic

/-- The sizes that a method body of a class needs: the depth of the stack, and the local variables. -/
def neededSizes (c : ClassFile) (m : MethodInfo) (code : Code) :
    Except ClassError (UInt16 × UInt16) := do
  let descriptor ← MethodDescriptor.parse (← c.methodDescriptor m)
  return (← code.neededStack c.pool, code.neededLocals descriptor m.isStatic)

/-- What becomes of the octets of a method body of a class. -/
def bodyMarks (c : ClassFile) (m : MethodInfo) (code : Code) : List Mark :=
  match c.neededSizes m code with
  | .ok (stack, locals) => code.marks (atLeast stack ++ atLeast locals)
  | .error _ => code.declaredMarks

/-- What becomes of the octets of a class. -/
def marks (c : ClassFile) : List Mark := c.marksWith c.bodyMarks

theorem writeMethodAttribute_eq (c : ClassFile) (m : MethodInfo) :
    c.writeMethodAttribute m = MethodAttribute.writeWith (c.writeBody m) := by
  funext a
  cases a with
  | code name code =>
      simp only [writeMethodAttribute, MethodAttribute.writeWith, writeBody, bind_assoc]
  | raw r => rfl

theorem writeMethod_eq (c : ClassFile) : c.writeMethod = fun m => m.writeWith (c.writeBody m) := by
  funext m
  rw [writeMethod, MethodInfo.writeWith, writeMethodAttribute_eq]

theorem encode_eq (c : ClassFile) : c.encode = c.writeWith c.writeBody := by
  rw [encode, writeWith, writeMethod_eq]

/-- What is written for a body without gaps. -/
theorem writeBody_eq_ok_iff {c : ClassFile} {m : MethodInfo} {code : Code} {body : Bytes}
    (laidOut : code.isLaidOut) : c.writeBody m code = .ok body ↔
      ∃ stack locals, c.neededSizes m code = .ok (stack, locals) ∧
        code.writeSized (max code.maxStack stack) (max code.maxLocals locals) = .ok body ∧
        body.length < 0x100000000 := by
  simp only [writeBody, neededSizes, bind_eq_ok_iff, pure_eq_ok_iff, Code.write,
    Code.relayout_eq laidOut, Code.writeLaidOut_eq_ok_iff, Prod.mk.injEq]
  constructor
  · rintro ⟨s, found, d, parsed, stack, needed, sized, fits⟩
    exact ⟨stack, _, ⟨s, found, d, parsed, stack, needed, rfl, rfl⟩, sized, fits⟩
  · rintro ⟨_, _, ⟨s, found, d, parsed, stack, needed, rfl, rfl⟩, sized, fits⟩
    exact ⟨s, found, d, parsed, stack, needed, sized, fits⟩

theorem settled_body {c : ClassFile} {m : MethodInfo} {code : Code} (laidOut : code.isLaidOut)
    {bs out : Bytes} (read : CarriedOver Code.writeDeclared Code.declaredMarks code bs)
    (written : c.writeBody m code = .ok out) : Settled (c.bodyMarks m code) bs out := by
  obtain ⟨stack, locals, needed, sized, -⟩ := (writeBody_eq_ok_iff laidOut).mp written
  rw [bodyMarks, needed]
  obtain ⟨out₀, declared, settled⟩ := read
  obtain ⟨octets, hs, as, listed, -, caught, described, rfl⟩ := Code.writeSized_eq_ok_iff.mp declared
  obtain ⟨octets', hs', as', listed', -, caught', described', rfl⟩ := Code.writeSized_eq_ok_iff.mp sized
  obtain rfl : octets = octets' := Except.ok.inj (listed.symm.trans listed')
  obtain rfl : hs = hs' := Except.ok.inj (caught.symm.trans caught')
  obtain rfl : as = as' := Except.ok.inj (described.symm.trans described')
  rw [← List.append_assoc] at settled ⊢
  obtain ⟨_, rfl, rest⟩ :=
    (Settled.append_kept_iff (be16 code.maxStack ++ be16 code.maxLocals) rfl).mp settled
  have sizes : Settled (atLeast stack ++ atLeast locals) (be16 code.maxStack ++ be16 code.maxLocals)
      (be16 (max code.maxStack stack) ++ be16 (max code.maxLocals locals)) :=
    Settled.append (.size code.maxStack stack .nil) (.size code.maxLocals locals .nil)
  exact sizes.append rest

/-- The octets of a class that was read and is written again. -/
theorem settled_of_decode {data out : Bytes} {c : ClassFile} (read : decode data = .ok c)
    (written : c.encode = .ok out) : Settled c.marks data out := by
  obtain ⟨carried, wellFormed⟩ := accepts_readParts.onAll_sound read
  rw [encode_eq] at written
  refine settled_of_bodies ?_ carried written
  intro m member name code contains bs body read written
  have sound := (wellFormed.methods m member).attributes _ contains
  exact settled_body sound.2.laidOut read written

/-- A class that was read is written with the same octets, except where `marks` says otherwise:
reserved octets become zero, and each size of a method body becomes the larger of the declared one and
the one that is needed. -/
theorem encode_decode {data out : Bytes} {c : ClassFile} (read : decode data = .ok c)
    (written : c.encode = .ok out) :
    out.length = data.length ∧ c.marks.length = data.length ∧
    (∀ i : Nat, c.marks[i]? = some Mark.kept → out[i]? = data[i]?) ∧
    (∀ i : Nat, c.marks[i]? = some Mark.reserved → out[i]? = some 0) ∧
    (∀ (i : Nat) needed, c.marks[i]? = some (Mark.size needed) →
      ∃ declared, SizeAt data i declared ∧ SizeAt out i (max declared needed)) ∧
    ((∀ i : Nat, c.marks[i]? = some Mark.reserved → data[i]? = some 0) →
      (∀ (i : Nat) needed declared, c.marks[i]? = some (Mark.size needed) → SizeAt data i declared →
        needed ≤ declared) → out = data) := by
  have settled := settled_of_decode read written
  obtain ⟨left, right⟩ := settled.length_eq
  exact ⟨right.trans left.symm, left.symm, fun i => settled.kept_at, fun i => settled.reserved_at,
    fun i needed => settled.size_at, settled.eq_of_settled⟩

/-- The file of a class `A` whose only method takes its receiver, calls `A.m` on it through an
interface, and returns. Its body declares no stack and no local variables, and the reserved octet of
the call is nine. -/
def carelessFile (stack locals reserved : UInt8) : Bytes :=
  [0xCA, 0xFE, 0xBA, 0xBE, 0, 0, 0, 52, 0, 8] ++
  [1, 0, 1, 65] ++ [7, 0, 1] ++ [1, 0, 1, 109] ++ [1, 0, 3, 40, 41, 86] ++
  [1, 0, 4, 67, 111, 100, 101] ++ [12, 0, 3, 0, 4] ++ [11, 0, 2, 0, 6] ++
  [0, 0, 0, 2, 0, 0, 0, 0, 0, 0, 0, 1, 0, 0, 0, 3, 0, 4, 0, 1] ++
  [0, 5, 0, 0, 0, 19, 0, stack, 0, locals, 0, 0, 0, 7] ++
  [0x2A, 0xB9, 0, 7, 1, reserved, 0xB1] ++ [0, 0, 0, 0, 0, 0]

theorem encode_decode_careless : ∃ c out, decode (carelessFile 0 0 9) = .ok c ∧ c.encode = .ok out ∧
    out = carelessFile 1 1 0 ∧ out.length = (carelessFile 0 0 9).length := by
  have run : (decode (carelessFile 0 0 9) >>= encode).toOption = some (carelessFile 1 1 0) := by
    decide +kernel
  obtain ⟨c, read, written⟩ := bind_eq_ok_iff.mp (toOption_eq_some_iff.mp run)
  exact ⟨c, _, read, written, rfl, (encode_decode read written).1⟩

end ClassFile

end JarGate
