import JarGate.Archive.Record
import JarGate.Archive.Timestamp
import JarGate.Text.CodePage437
import JarGate.Text.Utf8

/-!
# Lines of the directory

The directory of an archive has a line for each entry, which says what the entry is and where it
starts. Behind the name of the entry follow further fields, which may say otherwise, and a comment.
-/

namespace JarGate.Archive

/-- The flag of entries that are encrypted. -/
def encryptedFlag : Nat := 1

/-- The flag of entries whose name and comment are UTF-8. -/
def utf8Flag : Nat := 0x800

/-- Whether a flag is among others. -/
def hasFlag (flags flag : Nat) : Bool :=
  flags / flag % 2 == 1

/-- A line of the directory. -/
structure DirectoryLine where
  name : String
  /-- The name as it is written. -/
  nameBytes : Bytes
  comment : String
  /-- The number of the method by which the content is kept. -/
  method : Nat
  encrypted : Bool
  /-- Whether a further field says how the content is encrypted. -/
  cipherGiven : Bool
  modified : Timestamp
  crc : UInt32
  /-- The length of the content. -/
  size : Nat
  /-- The length of the data. -/
  length : Nat
  /-- Where the entry starts. -/
  offset : Nat
  deriving DecidableEq, Repr

namespace DirectoryLine

/-- A line with what follows it. -/
structure Framed where
  line : DirectoryLine
  /-- The further fields, which have no part in `line`. -/
  extra : Bytes
  /-- The position behind all of it. -/
  stop : Nat

/-- The line at a position. -/
def at? (bytes : Array UInt8) (position : Nat) : Option Framed := do
  match ← Layout.line.at? bytes position with
  | [_, _, flags, method, time, date, crc, length, size, nameLength, extraLength, commentLength, _,
      _, _, offset] =>
    let nameStart := position + Layout.line.size
    let extraStart := nameStart + nameLength
    let commentStart := extraStart + extraLength
    let stop := commentStart + commentLength
    let text (octets : Bytes) : String :=
      if hasFlag flags utf8Flag then Text.Utf8.decodeLossy octets
      else Text.CodePage437.decode octets
    let nameBytes := slice bytes nameStart extraStart
    if stop ≤ bytes.size then
      return {
        line := {
          name := text nameBytes
          nameBytes
          comment := text (slice bytes commentStart stop)
          method
          encrypted := hasFlag flags encryptedFlag
          cipherGiven := false
          modified := (Timestamp.ofWords? date time).getD .earliest
          crc := UInt32.ofNat crc
          size, length, offset }
        extra := slice bytes extraStart commentStart
        stop }
    else none
  | _ => none

end DirectoryLine

end JarGate.Archive
