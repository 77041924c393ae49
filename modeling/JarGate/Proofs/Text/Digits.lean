import Mathlib
import JarGate.Text.Blank
import JarGate.Text.Decimal
import JarGate.Text.Hex

/-!
# Numbers as digits

Digits are read back as the number that they were written for, and trimming leaves them as they are.
-/

namespace JarGate.Text

/-- A text without blanks stays as it is when it is trimmed. -/
theorem trim_eq_self {s : String} (h : ∀ c ∈ s.toList, isBlank c = false) : trim s = s := by
  have keep (cs : List Char) (solid : ∀ c ∈ cs, isBlank c = false) : cs.dropWhile isBlank = cs := by
    cases cs with
    | nil => rfl
    | cons c rest =>
        apply List.dropWhile_cons_of_neg
        rw [solid c (List.mem_cons_self ..)]
        exact Bool.false_ne_true
  rw [trim, trimLeft, trimRight, keep _ h, keep _ (fun c member => h c (List.mem_reverse.mp member)),
    List.reverse_reverse, String.ofList_toList]

namespace Hex

theorem digitValue?_upper {n : Nat} (small : n < 16) : digitValue? (digit n).toUpper = some n := by
  have each : ∀ n < 16, digitValue? (digit n).toUpper = some n := by decide
  exact each n small

theorem digitValue?_digit {n : Nat} (small : n < 16) : digitValue? (digit n) = some n := by
  have each : ∀ n < 16, digitValue? (digit n) = some n := by decide
  exact each n small

/-- The number that digits stand for. -/
def value (digits : List Char) : Nat :=
  digits.foldl (fun n c => n * 16 + (digitValue? c).getD 0) 0

theorem value_concat (digits : List Char) (c : Char) :
    value (digits ++ [c]) = value digits * 16 + (digitValue? c).getD 0 := by
  rw [value, List.foldl_concat, value]

section

variable (shape : Char → Char) (reads : ∀ n < 16, digitValue? (shape (digit n)) = some n)

include reads

theorem value_toDigits (n : Nat) : value ((Nat.toDigits 16 n).map shape) = n := by
  induction n using Nat.strongRecOn with
  | ind n ih =>
      rw [Nat.toDigits_eq_if (by decide)]
      split
      next small =>
        have last : digitValue? (shape n.digitChar) = some n := reads n small
        rw [List.map_singleton, ← List.nil_append [_], value_concat, last, Option.getD_some, value,
          List.foldl_nil, Nat.zero_mul, Nat.zero_add]
      next large =>
        have front : value ((Nat.toDigits 16 (n / 16)).map shape) = n / 16 := ih _ (by omega)
        have last : digitValue? (shape (n % 16).digitChar) = some (n % 16) :=
          reads _ (Nat.mod_lt n (by decide))
        rw [List.map_append, List.map_singleton, value_concat, front, last, Option.getD_some]
        omega

/-- A number is read back from its digits, in either case of letter, whatever their width. -/
theorem value_padded (width n : Nat) : value ((padded width n).toList.map shape) = n := by
  have zero : digitValue? (shape '0') = some 0 := reads 0 (by decide)
  have blank (zeros : Nat) : value (List.replicate zeros (shape '0')) = 0 := by
    induction zeros with
    | zero => rfl
    | succ zeros ih => rw [List.replicate_succ', value_concat, ih, zero, Option.getD_some]
  rw [padded, String.toList_ofList, List.map_append, List.map_replicate, value, List.foldl_append, ← value,
    blank]
  exact value_toDigits shape reads n

theorem padded_inj {width m n : Nat}
    (same : (padded width m).toList.map shape = (padded width n).toList.map shape) : m = n :=
  calc
    m = value ((padded width m).toList.map shape) := (value_padded shape reads width m).symm
    _ = value ((padded width n).toList.map shape) := by rw [same]
    _ = n := value_padded shape reads width n

end

/-- Octets are read back from their digits. -/
theorem toBytesOnto_flatMap (done bytes : List UInt8) :
    toBytesOnto done (bytes.flatMap fun b => [digit (b.toNat / 16), digit (b.toNat % 16)]) =
      some (done.reverse ++ bytes) := by
  induction bytes generalizing done with
  | nil => rw [List.flatMap_nil, toBytesOnto, List.append_nil]
  | cons b bytes ih =>
      have high : b.toNat / 16 < 16 := Nat.div_lt_of_lt_mul b.toNat_lt
      have low : b.toNat % 16 < 16 := Nat.mod_lt _ (by decide)
      have whole : UInt8.ofNat (b.toNat / 16 * 16 + b.toNat % 16) = b := by
        rw [Nat.div_add_mod', UInt8.ofNat_toNat]
      rw [List.flatMap_cons, List.cons_append, List.cons_append, List.nil_append, toBytesOnto,
        digitValue?_digit high, digitValue?_digit low]
      dsimp only
      rw [whole, ih, List.reverse_cons, List.append_assoc, List.singleton_append]

theorem toBytes?_ofBytes (bytes : List UInt8) : toBytes? (ofBytes bytes) = some bytes := by
  rw [toBytes?, ofBytes, String.toList_ofList]
  exact toBytesOnto_flatMap [] bytes

theorem ofBytes_injective : Function.Injective ofBytes := by
  intro bytes bytes' same
  have read := toBytes?_ofBytes bytes
  rw [same, toBytes?_ofBytes] at read
  exact (Option.some.inj read).symm

end Hex

namespace Decimal

theorem isBlank_of_isDigit {c : Char} (h : c.isDigit) : isBlank c = false := by
  simp only [Char.isDigit, Bool.and_eq_true, decide_eq_true_eq, UInt32.le_iff_toNat_le] at h
  have low : 48 ≤ c.toNat := h.1
  have high : c.toNat ≤ 57 := h.2
  simp only [isBlank, Bool.or_eq_false_iff, Bool.and_eq_false_iff, decide_eq_false_iff_not,
    beq_eq_false_iff_ne]
  omega

theorem isDigit_of_mem_toDigits {n : Nat} {c : Char} (h : c ∈ Nat.toDigits 10 n) : c.isDigit :=
  Nat.isDigit_of_mem_toDigits (by decide) (by decide) h

theorem ofDigits?_toDigits (n : Nat) : ofDigits? (Nat.toDigits 10 n) = some n := by
  have digits : (Nat.toDigits 10 n).all Char.isDigit :=
    List.all_eq_true.mpr fun _ => isDigit_of_mem_toDigits
  have value : (Nat.toDigits 10 n).foldl (fun m c => m * 10 + (c.toNat - '0'.toNat)) 0 = n := by
    have steps := Nat.ofDigitChars_ten_toDigits (n := n)
    rw [Nat.ofDigitChars_eq_foldl] at steps
    simpa only [Nat.mul_comm 10] using steps
  rw [ofDigits?, if_pos digits, value]
  exact Nat.toDigits_ne_nil

/-- A number is read back from its digits where it is below the bound, and only there. -/
theorem below?_toDigits_eq (bound n : Nat) :
    below? bound (Nat.toDigits 10 n) = if n < bound then some n else none := by
  rw [below?, ofDigits?_toDigits]
  intro digits signed
  have plus : '+'.isDigit := by
    apply isDigit_of_mem_toDigits (n := n)
    rw [signed]
    exact List.mem_cons_self ..
  exact absurd plus (by decide)

theorem below?_toDigits {n bound : Nat} (small : n < bound) :
    below? bound (Nat.toDigits 10 n) = some n := by
  rw [below?_toDigits_eq, if_pos small]

theorem lt_of_below? {n bound : Nat} {text : List Char} (read : below? bound text = some n) : n < bound := by
  unfold below? at read
  dsimp only at read
  split at read
  next m _ =>
    obtain ⟨small, same⟩ := Option.ite_none_right_eq_some.mp read
    obtain rfl := Option.some.inj same
    exact small
  next => cases read

theorem toList_toString (n : Nat) : (toString n).toList = Nat.toDigits 10 n := by
  rw [Nat.toString_eq_ofList_toDigits, String.toList_ofList]

/-- The digits of a number stay as they are when they are trimmed. -/
theorem trim_toString (n : Nat) : trim (toString n) = toString n := by
  apply trim_eq_self
  intro c member
  rw [toList_toString] at member
  exact isBlank_of_isDigit (isDigit_of_mem_toDigits member)

end Decimal

end JarGate.Text
