import Mathlib
import JarGate.ClassFile.Cursor

/-!
# Big-endian numbers

The octets of a number and the number of some octets determine each other. A number of 32 bits is
written as its two halves, and one of 64 bits as the halves of its halves, so only two octets are
ever compared with the number that they stand for.
-/

namespace JarGate

@[simp] theorem be16_length (n : UInt16) : (be16 n).length = 2 := rfl

@[simp] theorem be32_length (n : UInt32) : (be32 n).length = 4 := rfl

/-- The number that two octets stand for. -/
def word16 (a b : UInt8) : UInt16 :=
  UInt16.ofNat (a.toNat * 0x100 + b.toNat)

theorem word16_toNat (a b : UInt8) : (word16 a b).toNat = a.toNat * 0x100 + b.toNat := by
  have ha := a.toNat_lt
  have hb := b.toNat_lt
  rw [word16, UInt16.toNat_ofNat', Nat.mod_eq_of_lt (by omega)]

theorem be16_word16 (a b : UInt8) : be16 (word16 a b) = [a, b] := by
  have hb := b.toNat_lt
  simp only [be16, word16_toNat, List.cons.injEq, and_true]
  constructor <;> apply UInt8.toNat_inj.mp <;> rw [UInt8.toNat_ofNat']
  · have ha := a.toNat_lt
    omega
  · omega

/-- The value of a number in terms of its two octets. -/
theorem octets_toNat (n : UInt16) :
    (UInt8.ofNat (n.toNat / 0x100)).toNat * 0x100 + (UInt8.ofNat n.toNat).toNat = n.toNat := by
  have hn := n.toNat_lt
  rw [UInt8.toNat_ofNat', UInt8.toNat_ofNat']
  omega

/-- Every number of 16 bits is that of its two octets. -/
theorem word16_be16 (n : UInt16) :
    word16 (UInt8.ofNat (n.toNat / 0x100)) (UInt8.ofNat n.toNat) = n := by
  apply UInt16.toNat_inj.mp
  rw [word16_toNat, octets_toNat]

theorem toNat_max (m n : UInt16) : (max m n).toNat = max m.toNat n.toNat := by
  change (if m ≤ n then n else m).toNat = _
  split
  next le => exact (Nat.max_eq_right (UInt16.le_iff_toNat_le.mp le)).symm
  next lt => exact (Nat.max_eq_left (Nat.le_of_not_le fun le => lt (UInt16.le_iff_toNat_le.mpr le))).symm

theorem max_eq_left_of_le {a b : UInt16} (h : b ≤ a) : max a b = a := by
  apply UInt16.toNat_inj.mp
  rw [toNat_max]
  exact Nat.max_eq_left (UInt16.le_iff_toNat_le.mp h)

theorem max_max_right (m n : UInt16) : max (max m n) n = max m n := by
  apply UInt16.toNat_inj.mp
  rw [toNat_max, toNat_max, Nat.max_assoc, Nat.max_self]

/-- The number that two numbers of 16 bits stand for, the higher first. -/
def word32 (a b : UInt16) : UInt32 :=
  UInt32.ofNat (a.toNat * 0x10000 + b.toNat)

theorem word32_toNat (a b : UInt16) : (word32 a b).toNat = a.toNat * 0x10000 + b.toNat := by
  have ha := a.toNat_lt
  have hb := b.toNat_lt
  rw [word32, UInt32.toNat_ofNat', Nat.mod_eq_of_lt (by omega)]

theorem be32_word32 (a b : UInt16) : be32 (word32 a b) = be16 a ++ be16 b := by
  have ha := a.toNat_lt
  have hb := b.toNat_lt
  simp only [be32, be16, word32_toNat, List.cons_append, List.nil_append, List.cons.injEq, and_true]
  refine ⟨?_, ?_, ?_, ?_⟩ <;> apply UInt8.toNat_inj.mp <;> simp only [UInt8.toNat_ofNat'] <;> omega

/-- A number of 32 bits is that of its two halves. -/
theorem word32_be32 (n : UInt32) :
    word32 (UInt16.ofNat (n.toNat / 0x10000)) (UInt16.ofNat n.toNat) = n := by
  have hn := n.toNat_lt
  apply UInt32.toNat_inj.mp
  rw [word32_toNat, UInt16.toNat_ofNat', UInt16.toNat_ofNat']
  omega

theorem be32_eq (n : UInt32) :
    be32 n = be16 (UInt16.ofNat (n.toNat / 0x10000)) ++ be16 (UInt16.ofNat n.toNat) := by
  rw [← be32_word32, word32_be32]

theorem octets32_toNat (n : UInt32) :
    (((UInt8.ofNat (n.toNat / 0x1000000)).toNat * 0x100 +
      (UInt8.ofNat (n.toNat / 0x10000)).toNat) * 0x100 +
      (UInt8.ofNat (n.toNat / 0x100)).toNat) * 0x100 + (UInt8.ofNat n.toNat).toNat = n.toNat := by
  have hn := n.toNat_lt
  simp only [UInt8.toNat_ofNat']
  omega

/-- The number that two numbers of 32 bits stand for, the higher first. -/
def word64 (a b : UInt32) : UInt64 :=
  UInt64.ofNat (a.toNat * 0x100000000 + b.toNat)

theorem word64_toNat (a b : UInt32) : (word64 a b).toNat = a.toNat * 0x100000000 + b.toNat := by
  have ha := a.toNat_lt
  have hb := b.toNat_lt
  rw [word64, UInt64.toNat_ofNat', Nat.mod_eq_of_lt (by omega)]

theorem be64_word64 (a b : UInt32) : be64 (word64 a b) = be32 a ++ be32 b := by
  have ha := a.toNat_lt
  have hb := b.toNat_lt
  rw [be64, word64_toNat]
  congr 2 <;> apply UInt32.toNat_inj.mp <;> rw [UInt32.toNat_ofNat'] <;> omega

theorem word64_be64 (n : UInt64) :
    word64 (UInt32.ofNat (n.toNat / 0x100000000)) (UInt32.ofNat n.toNat) = n := by
  have hn := n.toNat_lt
  apply UInt64.toNat_inj.mp
  rw [word64_toNat, UInt32.toNat_ofNat', UInt32.toNat_ofNat']
  omega

end JarGate
