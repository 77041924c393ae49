import JarGate.ClassFile.ConstantPool
import JarGate.Proofs.Format.Decoder

/-!
# Constants in octets

A constant is read from exactly the octets that it is written as. The tag decides the kind, and
behind it the fields of that kind follow.
-/

namespace JarGate

open Decoder

namespace Constant

/-- The octet that a constant starts with. The constants without octets have none; zero is the tag
of no kind. -/
def tag : Constant → UInt8
  | unusable => 0
  | utf8 _ => 1
  | integer _ => 3
  | float _ => 4
  | long _ => 5
  | double _ => 6
  | classInfo _ => 7
  | string _ => 8
  | fieldRef _ _ => 9
  | methodRef _ _ => 10
  | interfaceMethodRef _ _ => 11
  | nameAndType _ _ => 12
  | methodHandle _ _ => 15
  | methodType _ => 16
  | dynamic _ _ => 17
  | invokeDynamic _ _ => 18
  | moduleInfo _ => 19
  | packageInfo _ => 20

/-- The octets behind a tag. -/
def Body (tag : UInt8) : Grammar Constant := fun _ bs c => c.write = .ok (tag :: bs)

theorem write_utf8_iff {octets bs : Bytes} : (utf8 octets).write = .ok bs ↔
    octets.length < 0x10000 ∧ bs = 1 :: be16 (UInt16.ofNat octets.length) ++ octets := by
  simp only [write]
  split
  next small => simp [small, eq_comm]
  next large => simp [large]

theorem tag_eq_of_write {c : Constant} {t : UInt8} {bs : Bytes} (h : c.write = .ok (t :: bs)) :
    c.tag = t := by
  cases c with
  | utf8 octets => exact (List.cons_eq_cons.mp (write_utf8_iff.mp h).2).1.symm
  | unusable => cases h
  | _ => cases h; rfl

/-- A kind of constant with a single field. -/
theorem accepts_field {α : Type} {t : UInt8} {d : Decoder α} {field : α → Bytes} {k : α → Constant}
    (h : Accepts d (fun _ bs a => bs = field a)) (writes : ∀ a, (k a).write = .ok (t :: field a))
    (only : ∀ c, c.tag = t → ∃ a, c = k a) : Accepts (do return k (← d)) (Body t) := by
  refine (h.bind fun a => .pure (k a)).congr fun pos bs c => ⟨?_, ?_⟩
  · rintro ⟨a, _, _, rfl, rfl, rfl, rfl⟩
    rw [List.append_nil]
    exact writes a
  · intro described
    obtain ⟨a, rfl⟩ := only c (tag_eq_of_write described)
    have same := Except.ok.inj ((writes a).symm.trans described)
    exact ⟨a, bs, [], (List.append_nil bs).symm, (List.cons_eq_cons.mp same).2.symm, rfl, rfl⟩

/-- A kind of constant with two fields. -/
theorem accepts_fields {α β : Type} {t : UInt8} {d : Decoder α} {e : Decoder β} {first : α → Bytes}
    {second : β → Bytes} {k : α → β → Constant} (hd : Accepts d (fun _ bs a => bs = first a))
    (he : Accepts e (fun _ bs b => bs = second b))
    (writes : ∀ a b, (k a b).write = .ok (t :: (first a ++ second b)))
    (only : ∀ c, c.tag = t → ∃ a b, c = k a b) :
    Accepts (do return k (← d) (← e)) (Body t) := by
  refine (hd.bind fun a => he.bind fun b => .pure (k a b)).congr fun pos bs c => ⟨?_, ?_⟩
  · rintro ⟨a, _, _, rfl, rfl, b, _, _, rfl, rfl, rfl, rfl⟩
    rw [List.append_nil]
    exact writes a b
  · intro described
    obtain ⟨a, b, rfl⟩ := only c (tag_eq_of_write described)
    have same := Except.ok.inj ((writes a b).symm.trans described)
    exact ⟨a, _, _, (List.cons_eq_cons.mp same).2.symm, rfl, b, second b, [],
      (List.append_nil _).symm, rfl, rfl, rfl⟩

theorem accepts_utf8 : Accepts (do return utf8 (← take (← u16).toNat)) (Body 1) := by
  refine (accepts_u16.bind fun n => (accepts_take n.toNat).bind fun octets =>
    .pure (utf8 octets)).congr fun pos bs c => ⟨?_, ?_⟩
  · rintro ⟨n, _, _, rfl, rfl, octets, _, _, rfl, ⟨rfl, len⟩, rfl, rfl⟩
    have bound := n.toNat_lt
    refine write_utf8_iff.mpr ⟨by omega, ?_⟩
    rw [len, UInt16.ofNat_toNat, List.append_nil]
    rfl
  · intro described
    cases c with
    | utf8 octets =>
        obtain ⟨small, split⟩ := write_utf8_iff.mp described
        obtain ⟨-, rfl⟩ := List.cons_eq_cons.mp split
        refine ⟨UInt16.ofNat octets.length, _, octets, rfl, rfl, octets, octets, [], by simp, ⟨rfl, ?_⟩,
          rfl, rfl⟩
        rw [UInt16.toNat_ofNat', Nat.mod_eq_of_lt small]
    | _ => simp [Body, write] at described

/-- A constant is read from exactly the octets that it is written as. -/
theorem accepts_read (index : Nat) :
    Accepts (read index) (fun _ bs c => c.write = .ok bs ∧ c ≠ unusable) := by
  refine (Accepts.bind accepts_u8 (F := Body) fun t => ?_).congr fun pos bs c => ⟨?_, ?_⟩
  · split
    · exact accepts_utf8
    · exact accepts_field accepts_i32 (fun _ => rfl) fun c h => by
        cases c <;> first | exact ⟨_, rfl⟩ | cases h
    · exact accepts_field accepts_u32 (fun _ => rfl) fun c h => by
        cases c <;> first | exact ⟨_, rfl⟩ | cases h
    · refine accepts_field accepts_u64 (k := fun bits => long bits.toInt64)
        (fun bits => by rw [write, UInt64.toUInt64_toInt64]) fun c h => ?_
      cases c <;> first | exact ⟨_, congrArg long (Int64.toInt64_toUInt64 _).symm⟩ | cases h
    · exact accepts_field accepts_u64 (fun _ => rfl) fun c h => by
        cases c <;> first | exact ⟨_, rfl⟩ | cases h
    · exact accepts_field accepts_u16 (fun _ => rfl) fun c h => by
        cases c <;> first | exact ⟨_, rfl⟩ | cases h
    · exact accepts_field accepts_u16 (fun _ => rfl) fun c h => by
        cases c <;> first | exact ⟨_, rfl⟩ | cases h
    · exact accepts_fields accepts_u16 accepts_u16 (fun _ _ => rfl) fun c h => by
        cases c <;> first | exact ⟨_, _, rfl⟩ | cases h
    · exact accepts_fields accepts_u16 accepts_u16 (fun _ _ => rfl) fun c h => by
        cases c <;> first | exact ⟨_, _, rfl⟩ | cases h
    · exact accepts_fields accepts_u16 accepts_u16 (fun _ _ => rfl) fun c h => by
        cases c <;> first | exact ⟨_, _, rfl⟩ | cases h
    · exact accepts_fields accepts_u16 accepts_u16 (fun _ _ => rfl) fun c h => by
        cases c <;> first | exact ⟨_, _, rfl⟩ | cases h
    · exact accepts_fields accepts_u8 accepts_u16 (fun _ _ => rfl) fun c h => by
        cases c <;> first | exact ⟨_, _, rfl⟩ | cases h
    · exact accepts_field accepts_u16 (fun _ => rfl) fun c h => by
        cases c <;> first | exact ⟨_, rfl⟩ | cases h
    · exact accepts_fields accepts_u16 accepts_u16 (fun _ _ => rfl) fun c h => by
        cases c <;> first | exact ⟨_, _, rfl⟩ | cases h
    · exact accepts_fields accepts_u16 accepts_u16 (fun _ _ => rfl) fun c h => by
        cases c <;> first | exact ⟨_, _, rfl⟩ | cases h
    · exact accepts_field accepts_u16 (fun _ => rfl) fun c h => by
        cases c <;> first | exact ⟨_, rfl⟩ | cases h
    · exact accepts_field accepts_u16 (fun _ => rfl) fun c h => by
        cases c <;> first | exact ⟨_, rfl⟩ | cases h
    · refine .of_fails (fails_fault _) fun pos bs c described => ?_
      have h := tag_eq_of_write described
      subst h
      cases c with
      | unusable => cases described
      | _ => contradiction
  · rintro ⟨t, _, bs, rfl, rfl, described⟩
    refine ⟨described, ?_⟩
    rintro rfl
    cases described
  · rintro ⟨written, usable⟩
    cases bs with
    | nil =>
        cases c with
        | unusable => exact absurd rfl usable
        | utf8 octets => exact absurd (write_utf8_iff.mp written).2 (by simp)
        | _ => cases written
    | cons t bs => exact ⟨t, [t], bs, rfl, rfl, written⟩

end Constant

end JarGate
