import JarGate.Text.Utf16

/-!
# UTF-8

Texts as octets. `decodeLossy` never fails: each longest run of octets that starts a character but
does not complete it reads as one replacement character. `decode?` reads only what `encode` writes.
-/

namespace JarGate.Text.Utf8

/-- The octets of a text. -/
def encode (s : String) : List UInt8 :=
  s.toUTF8.toList

/-- What a first octet announces: the payload it carries, the octets still to come, and the range in
which the next of them must lie. -/
structure Lead where
  bits : Nat
  tails : Nat
  low : Nat
  high : Nat

/-- The announcement of an octet of at least `0x80`, if it can start a character. -/
def lead? (b : Nat) : Option Lead :=
  if 0xC2 ≤ b ∧ b ≤ 0xDF then some ⟨b % 0x20, 1, 0x80, 0xBF⟩
  else if b = 0xE0 then some ⟨b % 0x10, 2, 0xA0, 0xBF⟩
  else if b = 0xED then some ⟨b % 0x10, 2, 0x80, 0x9F⟩
  else if 0xE1 ≤ b ∧ b ≤ 0xEF then some ⟨b % 0x10, 2, 0x80, 0xBF⟩
  else if b = 0xF0 then some ⟨b % 0x08, 3, 0x90, 0xBF⟩
  else if 0xF1 ≤ b ∧ b ≤ 0xF3 then some ⟨b % 0x08, 3, 0x80, 0xBF⟩
  else if b = 0xF4 then some ⟨b % 0x08, 3, 0x80, 0x8F⟩
  else none

/-- The characters of octets after those of `done` reversed. While a character is under way,
`pending` is what its octets announced so far. -/
def decodeOnto (done : List Char) (pending : Option Lead) : List UInt8 → List Char
  | [] =>
    match pending with
    | none => done.reverse
    | some _ => (Utf16.replacement :: done).reverse
  | b :: rest =>
    let n := b.toNat
    let start (done : List Char) : List Char :=
      if n < 0x80 then decodeOnto (Char.ofNat n :: done) none rest
      else
        match lead? n with
        | none => decodeOnto (Utf16.replacement :: done) none rest
        | some lead => decodeOnto done (some lead) rest
    match pending with
    | none => start done
    | some lead =>
      if lead.low ≤ n ∧ n ≤ lead.high then
        let bits := lead.bits * 0x40 + n % 0x40
        if lead.tails ≤ 1 then decodeOnto (Char.ofNat bits :: done) none rest
        else decodeOnto done (some ⟨bits, lead.tails - 1, 0x80, 0xBF⟩) rest
      else start (Utf16.replacement :: done)

/-- The text of octets, with the replacement character for whatever is no character. -/
def decodeLossy (bytes : List UInt8) : String :=
  String.ofList (decodeOnto [] none bytes)

/-- The text of octets, if there is one. -/
def decode? (bytes : List UInt8) : Option String :=
  let text := decodeLossy bytes
  if encode text = bytes then some text else none

end JarGate.Text.Utf8
