import JarGate.ClassFile.FrameState
import JarGate.Proofs.Edit
import JarGate.Proofs.Pool.Lookups
import JarGate.Proofs.Text.ModifiedUtf8

/-!
# Additions to a pool

What an addition does to a well-formed pool, stated once in the form `Adds`: the pool only grows and
stays well formed, whether the addition succeeds or not, and after success its answer is the index of
what was asked for. Additions are composed by `Adds.bind`.
-/

namespace JarGate

namespace ConstantPool

variable {α β : Type} {P : ConstantPool → Prop} {Q : ConstantPool → α → Prop}
  {R : ConstantPool → β → Prop}

/-- What is left behind by an edit of a pool. -/
structure Grown (p q : ConstantPool) : Prop where
  extends_ : p.Extends q
  wellFormed : q.WellFormed

namespace Grown

variable {p q r : ConstantPool}

theorem refl (h : p.WellFormed) : Grown p p := ⟨.refl p, h⟩

theorem trans (h : Grown p q) (h' : Grown q r) : Grown p r :=
  ⟨h.extends_.trans h'.extends_, h'.wellFormed⟩

end Grown

/-- A property of pools that growth does not take away. -/
def Persistent (S : ConstantPool → Prop) : Prop := ∀ {p q}, S p → p.Extends q → S q

/-- A property of pools that says nothing. -/
theorem persistent_true : Persistent fun _ => True := fun _ _ => trivial

/-- What an addition does to a pool that has a property: the pool grows in any case, and after success
the answer and the new pool are as described. -/
def Adds (P : ConstantPool → Prop) (e : Addition α) (Q : ConstantPool → α → Prop) : Prop :=
  ∀ pool : ConstantPool, pool.WellFormed → P pool →
    match e pool with
    | .ok a q => Grown pool q ∧ Q q a
    | .error _ q => Grown pool q

namespace Adds

theorem pure (a : α) : Adds P (Pure.pure a : Addition α) (fun q b => b = a ∧ P q) :=
  fun _ wellFormed given => ⟨.refl wellFormed, rfl, given⟩

theorem bind {e : Addition α} {f : α → Addition β} (h : Adds P e Q)
    (next : ∀ a, Adds (fun q => Q q a) (f a) R) : Adds P (e >>= f) R := by
  intro pool wellFormed given
  have first := h pool wellFormed given
  rw [Edit.bind_run]
  cases run : e pool with
  | error err q =>
      rw [run] at first
      exact first
  | ok a q =>
      rw [run] at first
      obtain ⟨grown, found⟩ := first
      have second := next a q grown.wellFormed found
      dsimp only
      cases run' : f a q with
      | error err r =>
          rw [run'] at second
          exact grown.trans second
      | ok b r =>
          rw [run'] at second
          exact ⟨grown.trans second.1, second.2⟩

theorem imp {Q' : ConstantPool → α → Prop} {e : Addition α} (h : Adds P e Q)
    (weaker : ∀ {q a}, Q q a → Q' q a) : Adds P e Q' := by
  intro pool wellFormed given
  have run := h pool wellFormed given
  cases result : e pool with
  | error err q => simpa only [result] using run
  | ok a q =>
      rw [result] at run
      exact ⟨run.1, weaker run.2⟩

theorem run {e : Addition α} {p q : ConstantPool} {a : α} (h : Adds P e Q) (sound : p.WellFormed)
    (given : P p) (result : e p = .ok a q) : Grown p q ∧ Q q a := by
  have run := h p sound given
  rwa [result] at run

/-- An addition leaves a grown pool behind, whether it succeeded or not. -/
theorem final {e : Addition α} {p : ConstantPool} (h : Adds (fun _ => True) e Q)
    (sound : p.WellFormed) : Grown p (e.final p) := by
  have run := h p sound trivial
  rw [Edit.final]
  cases result : e p with
  | ok a q =>
      rw [result] at run
      exact run.1
  | error err q =>
      rw [result] at run
      exact run

theorem from_ {P' : ConstantPool → Prop} {e : Addition α} (h : Adds P e Q)
    (given : ∀ {q}, P' q → P q) : Adds P' e Q :=
  fun pool wellFormed given' => h pool wellFormed (given given')

theorem mapM {S : ConstantPool → Prop} {f : β → Addition α}
    (each : ∀ b, Adds S (f b) (fun q _ => S q)) (bs : List β) :
    Adds S (bs.mapM f) (fun q _ => S q) := by
  induction bs with
  | nil => exact (Adds.pure _).imp And.right
  | cons b bs ih =>
      rw [List.mapM_cons]
      exact (each b).bind fun _ => ih.bind fun _ => (Adds.pure _).imp And.right

end Adds

/-! ### One constant -/

theorem slots_append {cs : List Constant} {c : Constant} (h : Slots cs) (usable : c ≠ .unusable)
    (narrow : c.isWide = false) : Slots (cs ++ [c]) := by
  induction h with
  | nil => exact .narrow usable narrow .nil
  | narrow usable' narrow' _ ih => exact .narrow usable' narrow' ih
  | wide wide _ ih => exact .wide wide ih

theorem grown_push {pool : ConstantPool} {c : Constant} (wellFormed : pool.WellFormed)
    (room : pool.count + 1 < 0x10000) (usable : c ≠ .unusable) (narrow : c.isWide = false)
    (linked : pool.Linked c) : Grown pool ⟨pool.entries.push c⟩ := by
  have grown : pool.Extends ⟨pool.entries.push c⟩ := ⟨[c], by simp⟩
  refine ⟨grown, ?_, ?_, ?_⟩
  · simpa [count] using room
  · obtain ⟨cs, same, slots⟩ := wellFormed.layout
    exact ⟨cs ++ [c], by simp [same], slots_append slots usable narrow⟩
  · have before := check?_eq_none_iff.mp wellFormed.links
    refine check?_eq_none_iff.mpr fun c' member => ?_
    rw [Array.toList_push, List.mem_append, List.mem_singleton] at member
    rcases member with old | rfl
    · exact (before c' old).extends grown
    · exact linked.extends grown

theorem adds_push {S : ConstantPool → Prop} {c : Constant} (persistent : Persistent S)
    (usable : c ≠ .unusable) (narrow : c.isWide = false) (linked : ∀ {p}, S p → p.Linked c) :
    Adds S (push c) (fun q i => q.get i = .ok c ∧ S q) := by
  intro pool wellFormed given
  simp only [push, narrow, Bool.false_eq_true, if_false]
  by_cases room : pool.count + 1 < 0x10000
  · rw [if_pos room]
    have grown := grown_push wellFormed room usable narrow (linked given)
    have index : (UInt16.ofNat pool.count).toNat = pool.entries.size := by
      rw [UInt16.toNat_ofNat', Nat.mod_eq_of_lt (by omega)]
      rfl
    refine ⟨grown, get_eq_ok_iff.mpr ⟨?_, usable⟩, persistent given grown.extends_⟩
    rw [index, Array.getElem?_push_size]
  · rw [if_neg room]
    exact .refl wellFormed

theorem adds_findOrPush {S : ConstantPool → Prop} {c : Constant} (persistent : Persistent S)
    (usable : c ≠ .unusable) (narrow : c.isWide = false) (linked : ∀ {p}, S p → p.Linked c) :
    Adds S (findOrPush c) (fun q i => q.get i = .ok c ∧ S q) := by
  intro pool wellFormed given
  have pushed := adds_push persistent usable narrow linked pool wellFormed given
  simp only [findOrPush]
  cases found : pool.entries.findIdx? (· == c) with
  | none => exact pushed
  | some i =>
      cases i with
      | zero => exact pushed
      | succ i =>
          obtain ⟨bound, same, -⟩ := Array.findIdx?_eq_some_iff_getElem.mp found
          have small : i + 1 < 0x10000 := Nat.lt_trans bound wellFormed.small
          refine ⟨.refl wellFormed, get_eq_ok_iff.mpr ⟨?_, usable⟩, given⟩
          rw [UInt16.toNat_ofNat', Nat.mod_eq_of_lt small, Array.getElem?_eq_getElem bound,
            eq_of_beq same]

/-! ### Texts, classes and members -/

section

variable {S : ConstantPool → Prop} (persistent : Persistent S)

include persistent

theorem adds_utf8 (text : String) :
    Adds S (addUtf8 text) (fun q i => (q.utf8 i = .ok text ∧ q.IsText i) ∧ S q) :=
  (adds_findOrPush (c := .utf8 (Text.ModifiedUtf8.encode text)) persistent nofun rfl
    fun _ => trivial).imp fun ⟨found, given⟩ =>
      ⟨⟨utf8_eq_ok_iff.mpr ⟨_, found, Text.ModifiedUtf8.decode_encode text⟩, _, found⟩, given⟩

theorem adds_class (name : String) :
    Adds S (addClass name) (fun q i => (q.className i = .ok name ∧ q.IsClass i) ∧ S q) := by
  refine (adds_utf8 persistent name).bind fun i => ?_
  refine (adds_findOrPush (c := .classInfo i) ?_ nofun rfl fun given => given.1.2).imp ?_
  · exact fun ⟨⟨named, text⟩, given⟩ grown =>
      ⟨⟨grown.utf8 named, text.imp fun _ => grown.get⟩, persistent given grown⟩
  · exact fun ⟨found, ⟨named, _⟩, given⟩ =>
      ⟨⟨className_eq_ok_iff.mpr ⟨i, found, named⟩, i, found⟩, given⟩

theorem adds_string (value : String) : Adds S (addString value)
    (fun q i => (∃ j, q.get i = .ok (.string j) ∧ q.utf8 j = .ok value) ∧ S q) := by
  refine (adds_utf8 persistent value).bind fun i => ?_
  refine (adds_findOrPush (c := .string i) ?_ nofun rfl fun given => given.1.2).imp ?_
  · exact fun ⟨⟨named, text⟩, given⟩ grown =>
      ⟨⟨grown.utf8 named, text.imp fun _ => grown.get⟩, persistent given grown⟩
  · exact fun ⟨found, ⟨named, _⟩, given⟩ => ⟨⟨i, found, named⟩, given⟩

theorem adds_nameAndType (name descriptor : String) : Adds S (addNameAndType name descriptor)
    (fun q i => (q.nameAndType i = .ok (name, descriptor) ∧ q.IsSignature i) ∧ S q) := by
  refine (adds_utf8 persistent name).bind fun n => ?_
  refine (adds_utf8 ?_ descriptor).bind fun d => ?_
  · exact fun ⟨⟨named, text⟩, given⟩ grown =>
      ⟨⟨grown.utf8 named, text.imp fun _ => grown.get⟩, persistent given grown⟩
  refine (adds_findOrPush (c := .nameAndType n d) ?_ nofun rfl
    fun given => ⟨given.2.1.2, given.1.2⟩).imp ?_
  · exact fun ⟨⟨typed, text⟩, ⟨named, text'⟩, given⟩ grown =>
      ⟨⟨grown.utf8 typed, text.imp fun _ => grown.get⟩,
        ⟨grown.utf8 named, text'.imp fun _ => grown.get⟩, persistent given grown⟩
  · exact fun ⟨found, ⟨typed, _⟩, ⟨named, _⟩, given⟩ =>
      ⟨⟨nameAndType_eq_ok_iff.mpr ⟨n, d, found, named, typed⟩, n, d, found⟩, given⟩

/-- A class and a signature, and the reference made of them. -/
theorem adds_member {ref : UInt16 → UInt16 → Constant} (owner name descriptor : String)
    (member : ∀ o s, IsMemberRef o s (ref o s)) : Adds S (do
      let owner ← addClass owner
      let signature ← addNameAndType name descriptor
      findOrPush (ref owner signature))
    (fun q i => ((∃ o s, q.get i = .ok (ref o s)) ∧ q.memberRef i = .ok ⟨owner, name, descriptor⟩) ∧
      S q) := by
  refine (adds_class persistent owner).bind fun o => ?_
  refine (adds_nameAndType ?_ name descriptor).bind fun s => ?_
  · exact fun ⟨⟨named, found⟩, given⟩ grown =>
      ⟨⟨grown.className named, found.imp fun _ => grown.get⟩, persistent given grown⟩
  refine (adds_findOrPush (c := ref o s) ?_ ?_ ?_ ?_).imp ?_
  · exact fun ⟨⟨signed, found⟩, ⟨named, found'⟩, given⟩ grown =>
      ⟨⟨grown.nameAndType signed, found.imp fun _ => Exists.imp fun _ => grown.get⟩,
        ⟨grown.className named, found'.imp fun _ => grown.get⟩, persistent given grown⟩
  · rcases member o s with same | same | same <;> rw [same] <;> nofun
  · rcases member o s with same | same | same <;> rw [same] <;> rfl
  · intro p given
    rcases member o s with same | same | same <;> rw [same] <;> exact ⟨given.2.1.2, given.1.2⟩
  · exact fun ⟨found, ⟨signed, _⟩, ⟨named, _⟩, given⟩ =>
      ⟨⟨⟨o, s, found⟩, memberRef_eq_ok_iff.mpr ⟨_, o, s, found, member o s, named, signed⟩⟩, given⟩

theorem adds_fieldRef (owner name descriptor : String) : Adds S (addFieldRef owner name descriptor)
    (fun q i => ((∃ o s, q.get i = .ok (.fieldRef o s)) ∧
      q.memberRef i = .ok ⟨owner, name, descriptor⟩) ∧ S q) :=
  adds_member persistent owner name descriptor fun _ _ => .inl rfl

theorem adds_methodRef (owner name descriptor : String) : Adds S (addMethodRef owner name descriptor)
    (fun q i => ((∃ o s, q.get i = .ok (.methodRef o s)) ∧
      q.memberRef i = .ok ⟨owner, name, descriptor⟩) ∧ S q) :=
  adds_member persistent owner name descriptor fun _ _ => .inr (.inl rfl)

end

/-! ### Types that the verifier sees -/

section

variable {S : ConstantPool → Prop} (persistent : Persistent S)

include persistent

theorem adds_ofField (t : FieldType) :
    Adds S (VerificationType.ofField t) (fun q _ => S q) := by
  have constant (v : VerificationType) : Adds S (Pure.pure v : Addition VerificationType)
      (fun q _ => S q) := (Adds.pure v).imp And.right
  have reference (name : String) : Adds S (do return .object (← addClass name))
      (fun q (_ : VerificationType) => S q) :=
    (adds_class persistent name).bind fun i => ((Adds.pure _).imp fun given => given.2.2)
  cases t with
  | object name => exact reference _
  | array element => exact reference _
  | _ => exact constant _

theorem adds_initialLocals (className : String) (isStatic : Bool) (methodName : String)
    (descriptor : MethodDescriptor) :
    Adds S (Frame.initialLocals className isStatic methodName descriptor) (fun q _ => S q) := by
  have behind (receiver : List VerificationType) : Adds S (do
      return receiver ++ (← descriptor.params.mapM VerificationType.ofField)) (fun q _ => S q) :=
    (Adds.mapM (fun t => adds_ofField persistent t) _).bind fun _ => (Adds.pure _).imp And.right
  unfold Frame.initialLocals
  dsimp only
  split
  · exact behind []
  · split
    · exact behind [.uninitializedThis]
    · exact (adds_class persistent className).bind fun i =>
        (behind [.object i]).from_ fun given => given.2

end

end ConstantPool

end JarGate
