import JarGate.Bytes

/-!
# Checksums

The cyclic redundancy check that archives keep beside the content of each entry: the remainder of
the content, as a polynomial over two elements, by the polynomial below.
-/

namespace JarGate.Archive.Crc32

/-- The polynomial, the highest power at the low end. -/
def polynomial : UInt32 := 0xEDB88320

/-- Moves the remainder by one bit. -/
def shift (r : UInt32) : UInt32 :=
  if r &&& 1 = 1 then (r >>> 1) ^^^ polynomial else r >>> 1

/-- Takes one octet into the remainder. -/
def add (r : UInt32) (b : UInt8) : UInt32 :=
  Nat.repeat shift 8 (r ^^^ b.toUInt32)

/-- The checksum of some octets. -/
def ofBytes (bytes : Bytes) : UInt32 :=
  bytes.foldl add 0xFFFFFFFF ^^^ 0xFFFFFFFF

end JarGate.Archive.Crc32
