import JarGate.Proofs.Format.Octets

/-!
# Octets that are not carried over

Some octets of a class file carry no meaning, and some sizes may be declared too small. Marks say
which octets these are, and `Settled` relates octets that were read to the octets that are written
for them: meaningful octets are kept, reserved ones become zero, and a size becomes at least what is
needed.
-/

namespace JarGate

/-- What becomes of an octet. A size takes two marks. -/
inductive Mark where
  | kept
  | reserved
  /-- The higher octet of a size, with the least value that is written. -/
  | size (needed : UInt16)
  /-- The lower octet of a size. -/
  | sizeLow
  deriving DecidableEq, Repr

namespace Mark

/-- Whether a mark is about a single octet. -/
def isPlain : Mark → Bool
  | kept | reserved => true
  | size _ | sizeLow => false

/-- Marks of octets that are kept. -/
def keep (n : Nat) : List Mark := List.replicate n kept

/-- Marks of octets that are reserved. -/
def reserve (n : Nat) : List Mark := List.replicate n reserved

/-- The marks of a size. -/
def atLeast (needed : UInt16) : List Mark := [size needed, sizeLow]

theorem isPlain_keep {n : Nat} : ∀ m ∈ keep n, m.isPlain := by
  intro m member
  rw [List.eq_of_mem_replicate member]
  rfl

theorem isPlain_reserve {n : Nat} : ∀ m ∈ reserve n, m.isPlain := by
  intro m member
  rw [List.eq_of_mem_replicate member]
  rfl

/-- Octets that were read, and the octets that are written for them. -/
inductive Settled : List Mark → Bytes → Bytes → Prop
  | nil : Settled [] [] []
  | kept {ms : List Mark} {xs ys : Bytes} (b : UInt8) (rest : Settled ms xs ys) :
      Settled (kept :: ms) (b :: xs) (b :: ys)
  | reserved {ms : List Mark} {xs ys : Bytes} (b : UInt8) (rest : Settled ms xs ys) :
      Settled (reserved :: ms) (b :: xs) (0 :: ys)
  | size {ms : List Mark} {xs ys : Bytes} (declared needed : UInt16) (rest : Settled ms xs ys) :
      Settled (size needed :: sizeLow :: ms) (be16 declared ++ xs) (be16 (max declared needed) ++ ys)

namespace Settled

variable {ms ns : List Mark} {xs ys xs' ys' : Bytes}

theorem append (h : Settled ms xs ys) (h' : Settled ns xs' ys') :
    Settled (ms ++ ns) (xs ++ xs') (ys ++ ys') := by
  induction h with
  | nil => exact h'
  | kept b _ ih => exact .kept b ih
  | reserved b _ ih => exact .reserved b ih
  | size declared needed _ ih =>
      rw [List.append_assoc, List.append_assoc]
      exact .size declared needed ih

theorem length_eq (h : Settled ms xs ys) : xs.length = ms.length ∧ ys.length = ms.length := by
  induction h with
  | nil => exact ⟨rfl, rfl⟩
  | kept b _ ih => simpa using ih
  | reserved b _ ih => simpa using ih
  | size declared needed _ ih =>
      simp only [List.length_append, be16_length, List.length_cons]
      omega

/-- What was written settles to itself. -/
theorem settle (h : Settled ms xs ys) : Settled ms ys ys := by
  induction h with
  | nil => exact .nil
  | kept b _ ih => exact .kept b ih
  | reserved b _ ih => exact .reserved 0 ih
  | size declared needed _ ih =>
      have again := Settled.size (max declared needed) needed ih
      rwa [max_max_right] at again

/-- Octets that are kept in front of others. -/
theorem append_keep_iff {n : Nat} : Settled (keep n ++ ms) xs ys ↔
    ∃ zs xs' ys', zs.length = n ∧ xs = zs ++ xs' ∧ ys = zs ++ ys' ∧ Settled ms xs' ys' := by
  induction n generalizing xs ys with
  | zero =>
      constructor
      · exact fun h => ⟨[], xs, ys, rfl, rfl, rfl, h⟩
      · rintro ⟨zs, xs', ys', none, rfl, rfl, h⟩
        obtain rfl := List.length_eq_zero_iff.mp none
        exact h
  | succ n ih =>
      rw [keep, List.replicate_succ, List.cons_append]
      constructor
      · intro h
        cases h with
        | kept b rest =>
            obtain ⟨zs, xs', ys', rfl, rfl, rfl, h⟩ := ih.mp rest
            exact ⟨b :: zs, xs', ys', rfl, rfl, rfl, h⟩
      · rintro ⟨zs, xs', ys', len, rfl, rfl, h⟩
        cases zs with
        | nil => cases len
        | cons b zs => exact .kept b (ih.mpr ⟨zs, xs', ys', Nat.succ.inj len, rfl, rfl, h⟩)

/-- Reserved octets in front of others. -/
theorem append_reserve_iff {n : Nat} : Settled (reserve n ++ ms) xs ys ↔
    ∃ zs xs' ys', zs.length = n ∧ xs = zs ++ xs' ∧ ys = List.replicate n 0 ++ ys' ∧
      Settled ms xs' ys' := by
  induction n generalizing xs ys with
  | zero =>
      constructor
      · exact fun h => ⟨[], xs, ys, rfl, rfl, rfl, h⟩
      · rintro ⟨zs, xs', ys', none, rfl, rfl, h⟩
        obtain rfl := List.length_eq_zero_iff.mp none
        exact h
  | succ n ih =>
      rw [reserve, List.replicate_succ, List.cons_append, List.replicate_succ]
      constructor
      · intro h
        cases h with
        | reserved b rest =>
            obtain ⟨zs, xs', ys', rfl, rfl, rfl, h⟩ := ih.mp rest
            exact ⟨b :: zs, xs', ys', rfl, rfl, rfl, h⟩
      · rintro ⟨zs, xs', ys', len, rfl, rfl, h⟩
        cases zs with
        | nil => cases len
        | cons b zs => exact .reserved b (ih.mpr ⟨zs, xs', ys', Nat.succ.inj len, rfl, rfl, h⟩)

/-- Octets behind others that are no sizes. -/
theorem append_iff (plain : ∀ m ∈ ms, m.isPlain) : Settled (ms ++ ns) xs ys ↔
    ∃ xs₁ xs₂ ys₁ ys₂, xs = xs₁ ++ xs₂ ∧ ys = ys₁ ++ ys₂ ∧ Settled ms xs₁ ys₁ ∧ Settled ns xs₂ ys₂ := by
  constructor
  · intro h
    induction ms generalizing xs ys with
    | nil => exact ⟨[], xs, [], ys, rfl, rfl, .nil, h⟩
    | cons m ms ih =>
        obtain ⟨first, others⟩ := List.forall_mem_cons.mp plain
        rw [List.cons_append] at h
        cases m with
        | kept =>
            cases h with
            | kept b rest =>
                obtain ⟨xs₁, xs₂, ys₁, ys₂, rfl, rfl, left, right⟩ := ih others rest
                exact ⟨b :: xs₁, xs₂, b :: ys₁, ys₂, rfl, rfl, .kept b left, right⟩
        | reserved =>
            cases h with
            | reserved b rest =>
                obtain ⟨xs₁, xs₂, ys₁, ys₂, rfl, rfl, left, right⟩ := ih others rest
                exact ⟨b :: xs₁, xs₂, 0 :: ys₁, ys₂, rfl, rfl, .reserved b left, right⟩
        | size | sizeLow => cases first
  · rintro ⟨xs₁, xs₂, ys₁, ys₂, rfl, rfl, left, right⟩
    exact left.append right

/-- Where what was written for the first octets is known, so are they. -/
theorem append_written_iff {zs : Bytes} (plain : ∀ m ∈ ms, m.isPlain)
    (len : zs.length = ms.length) : Settled (ms ++ ns) xs (zs ++ ys) ↔
      ∃ xs₁ xs₂, xs = xs₁ ++ xs₂ ∧ Settled ms xs₁ zs ∧ Settled ns xs₂ ys := by
  rw [append_iff plain]
  constructor
  · rintro ⟨xs₁, xs₂, ys₁, ys₂, rfl, split, left, right⟩
    obtain ⟨rfl, rfl⟩ := List.append_inj split (len.trans left.length_eq.2.symm)
    exact ⟨xs₁, xs₂, rfl, left, right⟩
  · rintro ⟨xs₁, xs₂, rfl, left, right⟩
    exact ⟨xs₁, xs₂, zs, ys, rfl, rfl, left, right⟩

/-- Octets that are kept in front of others, where what was written for them is known. -/
theorem append_kept_iff (zs : Bytes) {n : Nat} (len : zs.length = n) :
    Settled (keep n ++ ms) xs (zs ++ ys) ↔ ∃ xs', xs = zs ++ xs' ∧ Settled ms xs' ys := by
  rw [append_keep_iff]
  constructor
  · rintro ⟨zs', xs', ys', rfl, rfl, split, rest⟩
    obtain ⟨rfl, rfl⟩ := List.append_inj split len
    exact ⟨xs', rfl, rest⟩
  · rintro ⟨xs', rfl, rest⟩
    exact ⟨zs, xs', ys, len, rfl, rfl, rest⟩

theorem nil_iff : Settled [] xs ys ↔ xs = [] ∧ ys = [] := by
  constructor
  · rintro ⟨⟩
    exact ⟨rfl, rfl⟩
  · rintro ⟨rfl, rfl⟩
    exact .nil

theorem keep_iff {n : Nat} : Settled (keep n) xs ys ↔ xs = ys ∧ xs.length = n := by
  rw [← List.append_nil (keep n), append_keep_iff]
  simp only [nil_iff]
  constructor
  · rintro ⟨zs, _, _, rfl, rfl, rfl, rfl, rfl⟩
    exact ⟨rfl, by rw [List.append_nil]⟩
  · rintro ⟨rfl, rfl⟩
    exact ⟨xs, [], [], rfl, (List.append_nil _).symm, (List.append_nil _).symm, rfl, rfl⟩

theorem keep_rfl (bs : Bytes) : Settled (keep bs.length) bs bs :=
  keep_iff.mpr ⟨rfl, rfl⟩

theorem reserve_iff {n : Nat} :
    Settled (reserve n) xs ys ↔ xs.length = n ∧ ys = List.replicate n 0 := by
  rw [← List.append_nil (reserve n), append_reserve_iff]
  simp only [nil_iff]
  constructor
  · rintro ⟨zs, _, _, rfl, rfl, rfl, rfl, rfl⟩
    exact ⟨by rw [List.append_nil], List.append_nil _⟩
  · rintro ⟨len, rfl⟩
    exact ⟨xs, [], [], len, (List.append_nil _).symm, (List.append_nil _).symm, rfl, rfl⟩

end Settled

end Mark

end JarGate
