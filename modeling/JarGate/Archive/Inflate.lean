import JarGate.Bytes

/-!
# Deflated octets

Blocks of literals and of copies of what came before. The bits of each octet are read from the low
end. `Inflate.inflate?` gives what a stream holds; when the stream ends before its last block does,
that is what was read until then.
-/

namespace JarGate.Archive.Inflate

/-- A place in a stream: the bits of the octet under way that are not read yet, the low ones first,
and the octets that follow. -/
structure BitStream where
  bits : List Bool
  rest : Bytes

/-- Why reading stopped. -/
inductive Stop where
  | malformed | ended

/-- A step of reading. -/
abbrev BitReader (α : Type) := StateT BitStream (Except Stop) α

/-- The bits of an octet, the low ones first. -/
def bitsOf (b : UInt8) : List Bool :=
  (List.range 8).map b.toNat.testBit

/-- The next bit. -/
def bit : BitReader Bool := fun s =>
  match s.bits, s.rest with
  | b :: bits, rest => .ok (b, ⟨bits, rest⟩)
  | [], o :: rest =>
    match bitsOf o with
    | b :: bits => .ok (b, ⟨bits, rest⟩)
    | [] => .error .ended
  | [], [] => .error .ended

/-- A number of so many bits, the low ones first. -/
def number : Nat → BitReader Nat
  | 0 => return 0
  | n + 1 => do
    let low ← bit
    return low.toNat + 2 * (← number n)

/-- Passes over what is left of the octet under way. -/
def align : BitReader Unit :=
  modify fun s => ⟨[], s.rest⟩

/-- Whatever is read here cannot be. -/
def malformed {α : Type} : BitReader α :=
  throw .malformed

/-! ### Prefix codes -/

/-- A canonical prefix code. -/
structure PrefixCode where
  /-- How many codes have one bit, two bits, and so on. -/
  counts : List Nat
  /-- What the codes stand for, in the order of the codes. -/
  symbols : Array Nat

namespace PrefixCode

/-- The greatest length of a code. -/
def maxLength : Nat := 15

/-- The code in which each symbol, counted from zero, has a code of the given length; one of length
zero has none. The codes have to cover all strings of bits, unless there is at most one. -/
def ofLengths? (lengths : List Nat) : Option PrefixCode :=
  let used := (List.range maxLength).map fun i =>
    (lengths.zipIdx.filter fun (length, _) => length == i + 1).map (·.2)
  let counts := used.map List.length
  let covered := counts.foldl (fun sum count => 2 * sum + count) 0
  if used.flatten.length ≤ 1 ∨ covered = 1 <<< maxLength then
    some ⟨counts, used.flatten.toArray⟩
  else none

/-- Reads a symbol. Among the codes of the length under way, `code` is the bits so far, `first` is
the first code, and `index` is the place of its symbol. -/
def readFrom (symbols : Array Nat) (code first index : Nat) : List Nat → BitReader Nat
  | [] => malformed
  | count :: longer => do
    let code := code + (← bit).toNat
    if code < first + count then
      match symbols[index + (code - first)]? with
      | some symbol => return symbol
      | none => malformed
    else readFrom symbols (2 * code) (2 * (first + count)) (index + count) longer

/-- Reads a symbol. -/
def read (c : PrefixCode) : BitReader Nat :=
  readFrom c.symbols 0 0 0 c.counts

/-- The code of the given lengths, which have to be those of a code. -/
def ofLengths (lengths : List Nat) : BitReader PrefixCode :=
  match ofLengths? lengths with
  | some code => return code
  | none => malformed

end PrefixCode

/-! ### Blocks -/

/-- What a compressed block is made of. -/
inductive Token where
  | literal (octet : UInt8)
  | copy (length distance : Nat)
  | endOfBlock

/-- The least value and the number of further bits of each symbol for a length. -/
def lengthRanges : List (Nat × Nat) :=
  [(3, 0), (4, 0), (5, 0), (6, 0), (7, 0), (8, 0), (9, 0), (10, 0), (11, 1), (13, 1), (15, 1),
    (17, 1), (19, 2), (23, 2), (27, 2), (31, 2), (35, 3), (43, 3), (51, 3), (59, 3), (67, 4),
    (83, 4), (99, 4), (115, 4), (131, 5), (163, 5), (195, 5), (227, 5), (258, 0)]

/-- The least value and the number of further bits of each symbol for a distance. -/
def distanceRanges : List (Nat × Nat) :=
  [(1, 0), (2, 0), (3, 0), (4, 0), (5, 1), (7, 1), (9, 2), (13, 2), (17, 3), (25, 3), (33, 4),
    (49, 4), (65, 5), (97, 5), (129, 6), (193, 6), (257, 7), (385, 7), (513, 8), (769, 8),
    (1025, 9), (1537, 9), (2049, 10), (3073, 10), (4097, 11), (6145, 11), (8193, 12), (12289, 12),
    (16385, 13), (24577, 13)]

/-- A value in one of some ranges. -/
def inRange (ranges : List (Nat × Nat)) (index : Nat) : BitReader Nat :=
  match ranges[index]? with
  | some (least, bits) => return least + (← number bits)
  | none => malformed

/-- The next token under the codes for literals and for distances. -/
def token (literals distances : PrefixCode) : BitReader Token := do
  let symbol ← literals.read
  if symbol < 256 then return .literal (UInt8.ofNat symbol)
  else if symbol = 256 then return .endOfBlock
  else
    let length ← inRange lengthRanges (symbol - 257)
    let distance ← inRange distanceRanges (← distances.read)
    return .copy length distance

/-- How the content of a block is kept. -/
inductive Block where
  | stored
  | compressed (literals distances : PrefixCode)

/-- The codes of blocks that do not bring their own. -/
def fixedCodes : BitReader Block := do
  let literals ← PrefixCode.ofLengths
    (List.replicate 144 8 ++ List.replicate 112 9 ++ List.replicate 24 7 ++ List.replicate 8 8)
  return .compressed literals (← PrefixCode.ofLengths (List.replicate 32 5))

/-- The order in which the lengths of the codes for lengths are given. -/
def lengthOrder : List Nat :=
  [16, 17, 18, 0, 8, 7, 9, 6, 10, 5, 11, 4, 12, 3, 13, 2, 14, 1, 15]

/-- Reads `missing` lengths behind those of `done` reversed. -/
def lengthsOnto (code : PrefixCode) (done : List Nat) (missing : Nat) :
    Nat → BitReader (List Nat)
  | 0 => return done.reverse
  | fuel + 1 =>
    if missing = 0 then return done.reverse
    else do
      let symbol ← code.read
      let (length, times) ←
        if symbol < 16 then pure (symbol, 1)
        else if symbol = 16 then
          match done with
          | last :: _ => do pure (last, 3 + (← number 2))
          | [] => malformed
        else if symbol = 17 then do pure (0, 3 + (← number 3))
        else do pure (0, 11 + (← number 7))
      if missing < times then malformed
      else lengthsOnto code (List.replicate times length ++ done) (missing - times) fuel

/-- The codes that a block brings along. -/
def ownCodes : BitReader Block := do
  let literals := 257 + (← number 5)
  let distances := 1 + (← number 5)
  let given := 4 + (← number 4)
  if 286 < literals ∨ 30 < distances then malformed
  else
    let lengths ← (List.range given).mapM fun _ => number 3
    let table := lengthOrder.zip lengths
    let code ← PrefixCode.ofLengths ((List.range 19).map fun i => (table.lookup i).getD 0)
    let all ← lengthsOnto code [] (literals + distances) (literals + distances)
    let literalCode ← PrefixCode.ofLengths (all.take literals)
    return .compressed literalCode (← PrefixCode.ofLengths (all.drop literals))

/-- The head of a block: whether it is the last one, and how its content is kept. -/
def head : BitReader (Bool × Block) := do
  let last ← bit
  let block ← match ← number 2 with
    | 0 => pure .stored
    | 1 => fixedCodes
    | 2 => ownCodes
    | _ => malformed
  return (last, block)

/-- How reading a block ended. -/
inductive Progress where
  /-- The block is complete. -/
  | complete (stream : BitStream) (out : Array UInt8)
  /-- The stream ended inside the block. -/
  | ended (out : Array UInt8)
  | malformed

/-- Appends `length` octets, each the one that lies `distance` before its own place. The places
before the first octet count as zeros. -/
def copyBack (distance : Nat) : Nat → Array UInt8 → Array UInt8
  | 0, out => out
  | length + 1, out =>
    let octet := if distance ≤ out.size then out.getD (out.size - distance) 0 else 0
    copyBack distance length (out.push octet)

/-- Appends what the tokens of a block stand for. -/
def tokens (literals distances : PrefixCode) : Nat → BitStream → Array UInt8 → Progress
  | 0, _, out => .ended out
  | fuel + 1, stream, out =>
    match token literals distances stream with
    | .error .ended => .ended out
    | .error .malformed => .malformed
    | .ok (.literal octet, stream) => tokens literals distances fuel stream (out.push octet)
    | .ok (.endOfBlock, stream) => .complete stream out
    | .ok (.copy length distance, stream) =>
      tokens literals distances fuel stream (copyBack distance length out)

/-- The length of a stored block, which is given twice, the second time with all its bits turned. -/
def storedLength : BitReader Nat := do
  align
  let length ← number 16
  if length + (← number 16) = 0xFFFF then return length else malformed

/-- Appends the octets of a stored block. -/
def stored (stream : BitStream) (out : Array UInt8) : Progress :=
  match storedLength stream with
  | .error .ended => .ended out
  | .error .malformed => .malformed
  | .ok (length, stream) =>
    let octets := stream.rest.take length
    let out := out ++ octets.toArray
    if octets.length < length then .ended out
    else .complete ⟨[], stream.rest.drop length⟩ out

/-- Appends the content of blocks. Each has at least three bits, so that `fuel` is never used up
when it is the number of bits. -/
def blocks : Nat → BitStream → Array UInt8 → Option (Array UInt8)
  | 0, _, out => some out
  | fuel + 1, stream, out =>
    match head stream with
    | .error .ended => some out
    | .error .malformed => none
    | .ok ((last, block), stream) =>
      let progress := match block with
        | .stored => stored stream out
        | .compressed literals distances => tokens literals distances (fuel + 1) stream out
      match progress with
      | .malformed => none
      | .ended out => some out
      | .complete stream out => if last then some out else blocks fuel stream out

/-- What a stream holds, unless it is malformed. -/
def inflate? (data : Bytes) : Option Bytes :=
  (blocks (8 * data.length) ⟨[], data⟩ #[]).map Array.toList

end JarGate.Archive.Inflate
