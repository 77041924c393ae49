import JarGate.Proofs.Pool.Additions

/-!
# Additions that are made again

An addition that succeeded can be made again on any pool that grew from what it left behind. It then
finds everything that it asks for at the indices where it was found or put the first time: the answer is
the same, and the pool stays as it is.
-/

namespace JarGate

namespace ConstantPool

variable {α β : Type} {p q : ConstantPool}

/-- Whether index zero of a pool holds no constant. -/
def Reserved (pool : ConstantPool) : Prop := pool.entries[0]? = some .unusable

theorem Reserved.extends (h : p.Reserved) (grown : p.Extends q) : q.Reserved := grown.getElem? h

theorem WellFormed.reserved (h : p.WellFormed) : p.Reserved := by
  obtain ⟨cs, entries, -⟩ := h.layout
  rw [Reserved, ← Array.getElem?_toList, entries]
  rfl

/-- Whether an addition that succeeds is repeated without effect on every pool that grew since. -/
def Repeats (e : Addition α) : Prop :=
  ∀ (p q : ConstantPool) (a : α), p.Reserved → e p = .ok a q →
    p.Extends q ∧ ∀ r : ConstantPool, q.Extends r → e r = .ok a r

namespace Repeats

theorem pure (a : α) : Repeats (Pure.pure a : Addition α) := by
  intro p q b _ made
  obtain ⟨rfl, rfl⟩ := Edit.pure_eq_ok.mp made
  exact ⟨.refl _, fun _ _ => rfl⟩

theorem bind {e : Addition α} {f : α → Addition β} (h : Repeats e) (next : ∀ a, Repeats (f a)) :
    Repeats (e >>= f) := by
  intro p q b reserved made
  obtain ⟨a, m, first, second⟩ := Edit.bind_eq_ok.mp made
  obtain ⟨grown, again⟩ := h p m a reserved first
  obtain ⟨grown', again'⟩ := next a m q b (reserved.extends grown) second
  refine ⟨grown.trans grown', fun r later => ?_⟩
  rw [Edit.bind_of_ok (again r (grown'.trans later))]
  exact again' r later

theorem mapM {f : β → Addition α} (each : ∀ b, Repeats (f b)) (bs : List β) : Repeats (bs.mapM f) := by
  induction bs with
  | nil => exact .pure []
  | cons b bs ih =>
      rw [List.mapM_cons]
      exact (each b).bind fun _ => ih.bind fun _ => .pure _

end Repeats

/-! ### One constant -/

/-- The first constant of a kind stays the first when the pool grows. -/
theorem Extends.findIdx? {test : Constant → Bool} {i : Nat} (grown : p.Extends q)
    (found : p.entries.findIdx? test = some i) : q.entries.findIdx? test = some i := by
  obtain ⟨added, whole⟩ := grown
  have entries : q.entries = p.entries ++ added.toArray := by
    apply Array.toList_inj.mp
    rw [← whole, Array.toList_append]
  rw [entries, Array.findIdx?_append, found, Option.some_or]

theorem repeats_findOrPush {c : Constant} (usable : c ≠ .unusable) (narrow : c.isWide = false) :
    Repeats (findOrPush c) := by
  intro p q a reserved made
  rw [findOrPush] at made
  split at made
  next i found =>
    cases made
    refine ⟨.refl p, fun r later => ?_⟩
    rw [findOrPush, later.findIdx? found]
  next missing =>
    simp only [push, narrow, Bool.false_eq_true, if_false] at made
    split at made
    next room =>
      cases made
      have grown : p.Extends ⟨p.entries.push c⟩ := ⟨[c], by simp⟩
      refine ⟨grown, fun r later => ?_⟩
      -- Index zero is no match, so the constant was nowhere, and now stands behind all others.
      have absent : p.entries.findIdx? (· == c) = none := by
        cases found : p.entries.findIdx? (· == c) with
        | none => rfl
        | some i =>
            cases i with
            | zero =>
                obtain ⟨bound, same, -⟩ := Array.findIdx?_eq_some_iff_getElem.mp found
                rw [Reserved, Array.getElem?_eq_getElem bound] at reserved
                exact absurd ((eq_of_beq same).symm.trans (Option.some.inj reserved)) usable
            | succ i => exact absurd found (missing i)
      have found : (p.entries.push c).findIdx? (· == c) = some p.entries.size := by
        simp [Array.findIdx?_push, absent]
      obtain ⟨last, size⟩ : ∃ n, p.entries.size = n + 1 := by
        have bound := (Array.getElem?_eq_some_iff.mp reserved).1
        exact ⟨p.entries.size - 1, by omega⟩
      rw [size] at found
      rw [findOrPush, later.findIdx? found, count, size]
    next => cases made

/-! ### Names and types -/

theorem repeats_utf8 (text : String) : Repeats (addUtf8 text) :=
  repeats_findOrPush nofun rfl

theorem repeats_class (name : String) : Repeats (addClass name) :=
  (repeats_utf8 name).bind fun _ => repeats_findOrPush nofun rfl

theorem repeats_string (value : String) : Repeats (addString value) :=
  (repeats_utf8 value).bind fun _ => repeats_findOrPush nofun rfl

theorem repeats_nameAndType (name descriptor : String) : Repeats (addNameAndType name descriptor) :=
  (repeats_utf8 name).bind fun _ => (repeats_utf8 descriptor).bind fun _ =>
    repeats_findOrPush nofun rfl

theorem repeats_fieldRef (owner name descriptor : String) :
    Repeats (addFieldRef owner name descriptor) :=
  (repeats_class owner).bind fun _ => (repeats_nameAndType name descriptor).bind fun _ =>
    repeats_findOrPush nofun rfl

theorem repeats_methodRef (owner name descriptor : String) :
    Repeats (addMethodRef owner name descriptor) :=
  (repeats_class owner).bind fun _ => (repeats_nameAndType name descriptor).bind fun _ =>
    repeats_findOrPush nofun rfl

theorem repeats_ofField (t : FieldType) : Repeats (VerificationType.ofField t) := by
  have reference (name : String) :
      Repeats (do return .object (← addClass name) : Addition VerificationType) :=
    (repeats_class name).bind fun _ => .pure _
  cases t with
  | object name => exact reference _
  | array element => exact reference _
  | _ => exact .pure _

theorem repeats_initialLocals (className : String) (isStatic : Bool) (methodName : String)
    (descriptor : MethodDescriptor) :
    Repeats (Frame.initialLocals className isStatic methodName descriptor) := by
  have behind (receiver : List VerificationType) : Repeats (do
      return receiver ++ (← descriptor.params.mapM VerificationType.ofField)) :=
    (Repeats.mapM repeats_ofField _).bind fun _ => .pure _
  unfold Frame.initialLocals
  dsimp only
  split
  · exact behind []
  · split
    · exact behind [.uninitializedThis]
    · exact (repeats_class className).bind fun i => behind [.object i]

end ConstantPool

end JarGate
