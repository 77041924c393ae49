/-!
# Octets

Strings of octets, and the little-endian numbers that archives are made of.
-/

namespace JarGate

/-- A string of octets. -/
abbrev Bytes := List UInt8

namespace Bytes

/-- The low `width` octets of a number, the lowest first. -/
def littleEndian : Nat → Nat → Bytes
  | 0, _ => []
  | width + 1, n => UInt8.ofNat n :: littleEndian width (n / 256)

/-- The number that octets stand for when the lowest comes first. -/
def toNatLittle : Bytes → Nat
  | [] => 0
  | b :: rest => b.toNat + 256 * toNatLittle rest

theorem toNatLittle_littleEndian (width n : Nat) :
    toNatLittle (littleEndian width n) = n % Nat.pow 256 width := by
  induction width generalizing n with
  | zero => simp [littleEndian, toNatLittle, Nat.mod_one]
  | succ width ih =>
    have h : n % Nat.pow 256 (width + 1) = n % 256 + 256 * (n / 256 % Nat.pow 256 width) := by
      rw [Nat.pow_eq, Nat.pow_succ', Nat.mod_mul, Nat.pow_eq]
    rw [littleEndian, toNatLittle, ih, UInt8.toNat_ofNat', h]

theorem length_littleEndian (width n : Nat) : (littleEndian width n).length = width := by
  induction width generalizing n with
  | zero => rfl
  | succ width ih => simp [littleEndian, ih]

/-- The record of some fields, each given by its width and its value. -/
def ofFields (fields : List (Nat × Nat)) : Bytes :=
  fields.flatMap fun (width, value) => littleEndian width value

/-- The fields of the given widths in front of some octets, and what follows them. -/
def fields? : List Nat → Bytes → Option (List Nat × Bytes)
  | [], bytes => some ([], bytes)
  | width :: widths, bytes =>
    let field := bytes.take width
    if field.length = width then
      (fields? widths (bytes.drop width)).map fun (values, rest) =>
        (toNatLittle field :: values, rest)
    else none

end Bytes

end JarGate
