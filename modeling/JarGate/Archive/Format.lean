import JarGate.Archive.Directory
import JarGate.Archive.Entry
import JarGate.Archive.ExtraField

/-!
# The archive format

An archive is a row of entries, each behind a header of its own, then a directory that lists them
again, then an end record. Reading starts from the end record, which is searched from the end. Of two
entries of one name, the later one counts, in the place of the earlier one. Writing keeps the data of
entries as it is, but not that it is encrypted.
-/

namespace JarGate.Archive

/-! ### Writing -/

namespace StoredEntry

/-- The flags of an entry. A name without other characters than those of ASCII needs no flag. -/
def flags (e : StoredEntry) : Nat :=
  if e.name.toList.all fun c => c.toNat < 0x80 then 0 else utf8Flag

/-- The octets of the name. -/
def nameBytes (e : StoredEntry) : Bytes :=
  Text.Utf8.encode e.name

/-- Whether a length does not fit its place in the records. -/
def isLarge (e : StoredEntry) : Bool :=
  longLimit < max e.size e.length

/-- A length as the records give it. -/
def shortened (e : StoredEntry) (n : Nat) : Nat :=
  if e.isLarge then longLimit else n

/-- The further field for lengths that do not fit. -/
def wideNumbers (e : StoredEntry) : Bytes :=
  let given := [e.size, e.length].filter fun n => e.shortened n == longLimit
  if given.isEmpty then []
  else
    Bytes.ofFields ([(2, ExtraField.wideNumbersId), (2, 8 * given.length)] ++ given.map (8, ·))

/-- The version of the format that an entry needs. -/
def formatVersion (e : StoredEntry) : Nat :=
  if e.wideNumbers.isEmpty then 20 else 45

/-- What the header of an entry shares with its line of the directory. -/
def sharedValues (e : StoredEntry) : List Nat :=
  [e.formatVersion, e.flags, e.method.code, e.modified.timeWord, e.modified.dateWord, e.crc.toNat,
    e.shortened e.length, e.shortened e.size, e.nameBytes.length, e.wideNumbers.length]

/-- An entry with its header. -/
def record (e : StoredEntry) : Bytes :=
  Layout.entry.write e.sharedValues ++ e.nameBytes ++ e.wideNumbers ++ e.data

/-- The line of the directory for the entry at an offset. -/
def line (e : StoredEntry) (offset : Nat) : Bytes :=
  Layout.line.write (e.formatVersion :: e.sharedValues ++ [0, 0, 0, 0, offset]) ++ e.nameBytes ++
    e.wideNumbers

end StoredEntry

/-- The lines of the directory for entries of which the first is at an offset. -/
def linesFrom (offset : Nat) : List StoredEntry → List Bytes
  | [] => []
  | e :: rest => e.line offset :: linesFrom (offset + e.record.length) rest

/-- The wide end record and its locator, for archives of too many entries. -/
def wideEnd (count length offset : Nat) : Bytes :=
  if shortLimit < count then
    Layout.wideEndRecord.write
        [Layout.wideEndRecord.size - 12, 45, 45, 0, 0, count, count, length, offset] ++
      Layout.locator.write [0, offset + length, 1]
  else []

/-- The octets of an archive. -/
def encode (entries : List StoredEntry) : Bytes :=
  let records := entries.flatMap StoredEntry.record
  let directory := (linesFrom 0 entries).flatten
  let count := min entries.length shortLimit
  records ++ directory ++ wideEnd entries.length directory.length records.length ++
    Layout.endRecord.write [0, 0, count, count, directory.length, records.length, 0]

/-! ### Reading -/

/-- Where the data of the entry at a position starts. -/
def dataStart? (bytes : Array UInt8) (position : Nat) : Option Nat := do
  match (← Layout.entry.at? bytes position).reverse with
  | extraLength :: nameLength :: _ =>
    return position + Layout.entry.size + nameLength + extraLength
  | _ => none

/-- The method of content that a further field has to tell more about. -/
def cipherMethod : Nat := 99

/-- The entry of a line of the directory. It is in front of the directory. -/
def entryOf? (bytes : Array UInt8) (d : Directory) (line : DirectoryLine) : Option StoredEntry := do
  if line.method = cipherMethod ∧ !line.cipherGiven then none
  let position := line.offset + d.base
  if d.start ≤ position then none
  let start ← dataStart? bytes position
  if d.start < start then none
  return {
    name := line.name
    method := .ofCode line.method
    locked := line.encrypted || line.cipherGiven
    modified := line.modified
    crc := line.crc
    size := line.size
    length := line.length
    data := slice bytes start (start + line.length) }

/-- The entries of so many lines of the directory from a position on. -/
def entriesFrom? (bytes : Array UInt8) (d : Directory) (position : Nat) :
    Nat → Option (List StoredEntry)
  | 0 => some []
  | count + 1 => do
    let framed ← DirectoryLine.at? bytes position
    let e ← entryOf? bytes d (← ExtraField.amended? framed.extra framed.line)
    return e :: (← entriesFrom? bytes d framed.stop count)

/-- Puts an entry in the place of the one of its name, or behind all others. -/
def place (entries : List StoredEntry) (e : StoredEntry) : List StoredEntry :=
  if entries.any (·.name == e.name) then
    entries.map fun old => if old.name == e.name then e else old
  else entries ++ [e]

/-- The entries of an archive whose end record is at a position. -/
def entriesBefore? (bytes : Array UInt8) (position : Nat) : Option (List StoredEntry) := do
  let d ← Directory.before? bytes position
  return (← entriesFrom? bytes d d.start d.lines).foldl place []

/-- The entries of an archive. -/
def decode? (octets : Bytes) : Option (List StoredEntry) :=
  let bytes := octets.toArray
  lastBelow? (entriesBefore? bytes) bytes.size

end JarGate.Archive
