import JarGate.Bytes
import JarGate.ClassFile.Error

/-!
# Reading and writing octets

Class files are big-endian throughout. A `Cursor` is a position in some octets, and a `Decoder`
moves it forwards; a decoder that asks for more than is left fails and says where. The `be`
functions are the writing side: each gives the octets that the decoder of the same width reads.
-/

namespace JarGate

/-- A place in some octets: how many lie before it, and those that follow. -/
structure Cursor where
  pos : Nat
  rest : Bytes
  deriving Repr

/-- The start of some octets. -/
def Cursor.ofBytes (bytes : Bytes) : Cursor := ⟨0, bytes⟩

/-- How many octets follow. -/
def Cursor.remaining (c : Cursor) : Nat := c.rest.length

/-- Whether nothing follows. -/
def Cursor.atEnd (c : Cursor) : Bool := c.rest.isEmpty

/-- Whether at least `n` octets follow. -/
def hasAtLeast : Nat → Bytes → Bool
  | 0, _ => true
  | _ + 1, [] => false
  | n + 1, _ :: rest => hasAtLeast n rest

/-- `splitOnto done n bytes` moves `n` octets from the front of `bytes` behind `done` reversed. -/
def splitOnto (done : Bytes) : Nat → Bytes → Option (Bytes × Bytes)
  | 0, bytes => some (done.reverse, bytes)
  | _ + 1, [] => none
  | n + 1, b :: rest => splitOnto (b :: done) n rest

/-- A step of reading. -/
abbrev Decoder (α : Type) := StateT Cursor (Except ClassError) α

namespace Decoder

/-- Positions are 64-bit words, so no structure reaches this length. -/
def positionLimit : Nat := UInt64.size

/-- Fails with a fault. -/
def fault {α : Type} (why : Fault) : Decoder α :=
  throw (.malformed why)

/-- The failure of asking for `n` octets at a place that has fewer. -/
def truncated {α : Type} (n : Nat) (c : Cursor) : Except ClassError α :=
  .error (.malformed (.truncated c.pos n c.remaining))

/-- The next `n` octets. -/
def take (n : Nat) : Decoder Bytes := fun c =>
  if c.pos + n < positionLimit then
    match splitOnto [] n c.rest with
    | some (taken, rest) => .ok (taken, ⟨c.pos + n, rest⟩)
    | none => truncated n c
  else .error (.malformed .lengthOverflow)

/-- An unsigned octet. -/
def u8 : Decoder UInt8 := fun c =>
  match c.rest with
  | a :: rest => .ok (a, ⟨c.pos + 1, rest⟩)
  | _ => truncated 1 c

/-- An unsigned number of 16 bits. -/
def u16 : Decoder UInt16 := fun c =>
  match c.rest with
  | a :: b :: rest => .ok (UInt16.ofNat (a.toNat * 0x100 + b.toNat), ⟨c.pos + 2, rest⟩)
  | _ => truncated 2 c

/-- An unsigned number of 32 bits. -/
def u32 : Decoder UInt32 := fun c =>
  match c.rest with
  | a :: b :: d :: e :: rest =>
    .ok (UInt32.ofNat (((a.toNat * 0x100 + b.toNat) * 0x100 + d.toNat) * 0x100 + e.toNat),
      ⟨c.pos + 4, rest⟩)
  | _ => truncated 4 c

/-- An unsigned number of 64 bits. -/
def u64 : Decoder UInt64 := fun c =>
  match c.rest with
  | b0 :: b1 :: b2 :: b3 :: b4 :: b5 :: b6 :: b7 :: rest =>
    .ok (UInt64.ofNat ([b0, b1, b2, b3, b4, b5, b6, b7].foldl (fun n b => n * 0x100 + b.toNat) 0),
      ⟨c.pos + 8, rest⟩)
  | _ => truncated 8 c

/-- A signed octet. -/
def i8 : Decoder Int8 := do return (← u8).toInt8

/-- A signed number of 16 bits. -/
def i16 : Decoder Int16 := do return (← u16).toInt16

/-- A signed number of 32 bits. -/
def i32 : Decoder Int32 := do return (← u32).toInt32

/-- Skips to the next position that is a multiple of four. -/
def align4 : Decoder Unit := fun c =>
  (take ((4 - c.pos % 4) % 4) c).map fun (_, c) => ((), c)

/-- The current position. -/
def position : Decoder Nat := do return (← get).pos

/-- Reads `n` values after those of `done` reversed. -/
def manyOnto {α : Type} (d : Decoder α) : Nat → List α → Cursor →
    Except ClassError (List α × Cursor)
  | 0, done, c => .ok (done.reverse, c)
  | n + 1, done, c =>
    match d c with
    | .error e => .error e
    | .ok (a, c) => manyOnto d n (a :: done) c

/-- Reads `n` values, one after another. -/
def many {α : Type} (n : Nat) (d : Decoder α) : Decoder (List α) := fun c =>
  manyOnto d n [] c

/-- Reads `bytes` as a whole; what is left over is refused with the fault that `trailing` gives. -/
def onAll {α : Type} (d : Decoder α) (trailing : Nat → Fault) (bytes : Bytes) :
    Except ClassError α :=
  match d (Cursor.ofBytes bytes) with
  | .error e => .error e
  | .ok (a, c) => if c.atEnd then .ok a else .error (.malformed (trailing c.remaining))

end Decoder

/-- The octets of a number of 16 bits. -/
def be16 (n : UInt16) : Bytes :=
  [UInt8.ofNat (n.toNat / 0x100), UInt8.ofNat n.toNat]

/-- The octets of a number of 32 bits. -/
def be32 (n : UInt32) : Bytes :=
  [UInt8.ofNat (n.toNat / 0x1000000), UInt8.ofNat (n.toNat / 0x10000),
    UInt8.ofNat (n.toNat / 0x100), UInt8.ofNat n.toNat]

/-- The octets of a number of 64 bits. -/
def be64 (n : UInt64) : Bytes :=
  be32 (UInt32.ofNat (n.toNat / 0x100000000)) ++ be32 (UInt32.ofNat n.toNat)

/-- The number of entries of a table, where 16 bits hold it. -/
def entryCount (what : String) (count : Nat) : Except ClassError UInt16 :=
  if count < 0x10000 then .ok (UInt16.ofNat count) else .error (.overflow (.entries what count))

/-- The length of a structure, where 32 bits hold it. -/
def octetCount (what : String) (length : Nat) : Except ClassError UInt32 :=
  if length < 0x100000000 then .ok (UInt32.ofNat length)
  else .error (.overflow (.octets what length))

/-- An attribute: its name, the length of its body, and the body. -/
def attributeBytes (name : UInt16) (body : Bytes) : Except ClassError Bytes := do
  let length ← octetCount "attribute" body.length
  return be16 name ++ be32 length ++ body

end JarGate
