import JarGate.Bytes

/-!
# Deflating

Octets as a stream of stored blocks, the plainest stream that reads back as them.
-/

namespace JarGate.Archive.Deflate

/-- The greatest number of octets in a block. -/
def maxBlock : Nat := 0xFFFF

/-- A stored block. Its length is given twice, the second time with all its bits turned. -/
def storedBlock (last : Bool) (octets : Bytes) : Bytes :=
  UInt8.ofNat last.toNat ::
    Bytes.ofFields [(2, octets.length), (2, maxBlock - octets.length)] ++ octets

/-- The stream of some octets. -/
def deflate (octets : Bytes) : Bytes :=
  if octets.length ≤ maxBlock then storedBlock true octets
  else storedBlock false (octets.take maxBlock) ++ deflate (octets.drop maxBlock)
termination_by octets.length
decreasing_by
  simp only [List.length_drop]
  have : 0 < maxBlock := by decide
  omega

end JarGate.Archive.Deflate
