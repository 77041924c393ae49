import JarGate.Text.Utf16

/-!
# Modified UTF-8

The text encoding of class files. Each UTF-16 unit is written on its own in one to three octets, so
a supplementary character takes six, and the unit zero takes two, so no octet of a text is zero.
-/

namespace JarGate.Text.ModifiedUtf8

/-- The octets of one unit. -/
def ofUnit (u : UInt16) : List UInt8 :=
  let n := u.toNat
  if 1 ≤ n ∧ n < 0x80 then [UInt8.ofNat n]
  else if n < 0x800 then [UInt8.ofNat (0xC0 + n / 0x40), UInt8.ofNat (0x80 + n % 0x40)]
  else
    [UInt8.ofNat (0xE0 + n / 0x1000), UInt8.ofNat (0x80 + n / 0x40 % 0x40),
      UInt8.ofNat (0x80 + n % 0x40)]

/-- The octets of a text. -/
def encode (s : String) : List UInt8 :=
  (Text.Utf16.encode s).flatMap ofUnit

/-- An octet that continues a unit. -/
def isTail (b : UInt8) : Bool :=
  0x80 ≤ b.toNat && b.toNat < 0xC0

/-- The payload of an octet that continues a unit. -/
def tailBits (b : UInt8) : Nat :=
  b.toNat % 0x40

/-- The unit that starts at the head of some octets, with the number of octets it takes and what
follows them; nothing where no unit starts. A unit may be written longer than it has to be. -/
def unit? : List UInt8 → Option (UInt16 × Nat × List UInt8)
  | [] => none
  | b :: rest =>
    if b.toNat = 0 then none
    else if b.toNat < 0x80 then some (UInt16.ofNat b.toNat, 1, rest)
    else if 0xC0 ≤ b.toNat ∧ b.toNat < 0xE0 then
      match rest with
      | b2 :: rest =>
        if isTail b2 then some (UInt16.ofNat (b.toNat % 0x20 * 0x40 + tailBits b2), 2, rest)
        else none
      | _ => none
    else if 0xE0 ≤ b.toNat ∧ b.toNat < 0xF0 then
      match rest with
      | b2 :: b3 :: rest =>
        if isTail b2 && isTail b3 then
          some (UInt16.ofNat (b.toNat % 0x10 * 0x1000 + tailBits b2 * 0x40 + tailBits b3), 3, rest)
        else none
      | _ => none
    else none

theorem length_lt_of_unit? {bytes rest : List UInt8} {u : UInt16} {n : Nat}
    (h : unit? bytes = some (u, n, rest)) : rest.length < bytes.length := by
  unfold unit? at h
  grind

/-- The units of octets, after those of `done` reversed; `pos` counts the octets before. On failure,
the position of the unit that could not be read. -/
def unitsOnto (done : List UInt16) (pos : Nat) (bytes : List UInt8) : Except Nat (List UInt16) :=
  if bytes.isEmpty then .ok done.reverse
  else
    match h : unit? bytes with
    | none => .error pos
    | some (u, n, rest) =>
      have := length_lt_of_unit? h
      unitsOnto (u :: done) (pos + n) rest
termination_by bytes.length

/-- The text of octets, or the position of the first unit that cannot be read. A surrogate without
its partner reads as the replacement character. -/
def decode (bytes : List UInt8) : Except Nat String :=
  (unitsOnto [] 0 bytes).map Text.Utf16.decodeLossy

end JarGate.Text.ModifiedUtf8
