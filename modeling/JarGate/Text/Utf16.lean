/-!
# UTF-16 code units

A text as 16-bit units, and units back as a text. Every text has units; units that hold a surrogate
without its partner are no text, and each such unit reads as the replacement character.
-/

namespace JarGate.Text.Utf16

/-- Stands for anything that is no character. -/
def replacement : Char := Char.ofNat 0xFFFD

/-- A leading surrogate, the first half of a pair. -/
def isHigh (u : UInt16) : Bool :=
  0xD800 ≤ u.toNat && u.toNat < 0xDC00

/-- A trailing surrogate, the second half of a pair. -/
def isLow (u : UInt16) : Bool :=
  0xDC00 ≤ u.toNat && u.toNat < 0xE000

/-- Either half of a surrogate pair. -/
def isSurrogate (u : UInt16) : Bool :=
  isHigh u || isLow u

/-- The one or two units of a character. -/
def ofChar (c : Char) : List UInt16 :=
  if c.toNat < 0x10000 then [UInt16.ofNat c.toNat]
  else
    [UInt16.ofNat (0xD800 + (c.toNat - 0x10000) / 0x400),
      UInt16.ofNat (0xDC00 + (c.toNat - 0x10000) % 0x400)]

/-- The units of a text. -/
def encode (s : String) : List UInt16 :=
  s.toList.flatMap ofChar

/-- The character that a surrogate pair stands for. -/
def ofPair (high low : UInt16) : Char :=
  Char.ofNat (0x10000 + (high.toNat - 0xD800) * 0x400 + (low.toNat - 0xDC00))

/-- `decodeOnto done us` is `done` reversed, followed by the characters of `us`. -/
def decodeOnto (done : List Char) : List UInt16 → List Char
  | [] => done.reverse
  | [u] => ((if isSurrogate u then replacement else Char.ofNat u.toNat) :: done).reverse
  | u :: v :: rest =>
    if isHigh u && isLow v then decodeOnto (ofPair u v :: done) rest
    else decodeOnto ((if isSurrogate u then replacement else Char.ofNat u.toNat) :: done) (v :: rest)

/-- The text of units, with the replacement character for each surrogate that has no partner. -/
def decodeLossy (units : List UInt16) : String :=
  String.ofList (decodeOnto [] units)

/-- Whether every surrogate among the units is part of a pair. -/
def paired : List UInt16 → Bool
  | [] => true
  | [u] => !isSurrogate u
  | u :: v :: rest =>
    if isHigh u && isLow v then paired rest else !isSurrogate u && paired (v :: rest)

end JarGate.Text.Utf16
