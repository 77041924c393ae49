/-!
# Hexadecimal text

Numbers and octets in base sixteen, in either case of letter.
-/

namespace JarGate.Text.Hex

/-- The digit of a value below sixteen. -/
def digit (n : Nat) : Char :=
  Nat.digitChar n

/-- A number in lower-case hexadecimal without leading zeros. -/
def ofNat (n : Nat) : String :=
  String.ofList (Nat.toDigits 16 n)

/-- A number in lower-case hexadecimal with at least `width` digits. -/
def padded (width n : Nat) : String :=
  let digits := Nat.toDigits 16 n
  String.ofList (List.replicate (width - digits.length) '0' ++ digits)

/-- Two lower-case digits for each octet. -/
def ofBytes (bytes : List UInt8) : String :=
  String.ofList (bytes.flatMap fun b => [digit (b.toNat / 16), digit (b.toNat % 16)])

/-- Two upper-case digits for each octet. -/
def upperOfBytes (bytes : List UInt8) : String :=
  String.ofList (bytes.flatMap fun b =>
    [(digit (b.toNat / 16)).toUpper, (digit (b.toNat % 16)).toUpper])

/-- The value of a hexadecimal digit of either case. -/
def digitValue? (c : Char) : Option Nat :=
  if '0' ≤ c ∧ c ≤ '9' then some (c.toNat - '0'.toNat)
  else if 'a' ≤ c ∧ c ≤ 'f' then some (c.toNat - 'a'.toNat + 10)
  else if 'A' ≤ c ∧ c ≤ 'F' then some (c.toNat - 'A'.toNat + 10)
  else none

/-- The octets that pairs of digits stand for, behind those of `done` reversed. -/
def toBytesOnto (done : List UInt8) : List Char → Option (List UInt8)
  | [] => some done.reverse
  | a :: b :: rest =>
    match digitValue? a, digitValue? b with
    | some high, some low => toBytesOnto (UInt8.ofNat (high * 16 + low) :: done) rest
    | _, _ => none
  | [_] => none

/-- The octets that a text of pairs of digits stands for. -/
def toBytes? (text : String) : Option (List UInt8) :=
  toBytesOnto [] text.toList

end JarGate.Text.Hex
