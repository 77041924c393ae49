import JarGate.Archive.Record

/-!
# Where the directory of an archive is

The end record of an archive says where its directory starts and how many lines it has. If a number
there does not fit, a wide end record in front of it has the numbers, and a locator between the two
says where it is. Octets may have been put in front of an archive after it was written; the record or
the line that offsets lead to is then found behind the position where it was written, and that moves
the base from which offsets are counted.
-/

namespace JarGate.Archive

/-- Where the directory is. -/
structure Directory where
  /-- The position from which offsets are counted. -/
  base : Nat
  /-- Where the first line is. -/
  start : Nat
  /-- How many lines there are. -/
  lines : Nat
  deriving DecidableEq, Repr

/-- What an end record says. -/
structure EndRecord where
  disk : Nat
  /-- The disk on which the directory starts. -/
  directoryDisk : Nat
  /-- How many entries this disk has. -/
  entriesHere : Nat
  /-- How many entries there are on all disks. -/
  entries : Nat
  /-- Where the directory starts. -/
  offset : Nat
  deriving DecidableEq, Repr

namespace EndRecord

/-- The end record at a position. The comment behind it has to be complete. -/
def at? (bytes : Array UInt8) (position : Nat) : Option EndRecord := do
  match ← Layout.endRecord.at? bytes position with
  | [disk, directoryDisk, entriesHere, entries, _, offset, comment] =>
    if position + Layout.endRecord.size + comment ≤ bytes.size then
      some { disk, directoryDisk, entriesHere, entries, offset }
    else none
  | _ => none

/-- Whether a number may not have fitted. -/
def isFull (r : EndRecord) : Bool :=
  r.entries == shortLimit || r.offset == longLimit

/-- The directory of an archive that ends with a record at a position. The first line at or behind
the place that the record gives is the first one of the directory. -/
def directory? (r : EndRecord) (bytes : Array UInt8) (position : Nat) : Option Directory := do
  let base ←
    if r.entries = 0 then some (position - r.offset)
    else
      (firstFrom? (fun p => if Layout.line.marks bytes p then some p else none) r.offset
        (position - r.offset)).map (· - r.offset)
  if r.disk = r.directoryDisk then return ⟨base, r.offset + base, r.entriesHere⟩ else none

end EndRecord

/-- What a locator says. -/
structure Locator where
  /-- The disk on which the directory starts. -/
  directoryDisk : Nat
  /-- Where the wide end record is. -/
  offset : Nat
  disks : Nat
  deriving DecidableEq, Repr

namespace Locator

/-- The locator at a position. -/
def at? (bytes : Array UInt8) (position : Nat) : Option Locator := do
  match ← Layout.locator.at? bytes position with
  | [directoryDisk, offset, disks] => some { directoryDisk, offset, disks }
  | _ => none

/-- What a wide end record says, and where it was found. -/
structure Target where
  position : Nat
  /-- The version of the format that the archive was written by. -/
  version : Nat
  /-- The version that is needed to read it. -/
  needed : Nat
  record : EndRecord

/-- The wide end record at a position, if it is the one in front of a locator at `stop`: it says the
same as the locator, nothing is between the two, and all lines have room in front of it. -/
def targetAt? (l : Locator) (bytes : Array UInt8) (stop position : Nat) : Option Target := do
  match ← Layout.wideEndRecord.at? bytes position with
  | [size, version, needed, disk, directoryDisk, entriesHere, entries, _, offset] =>
    if 44 ≤ size ∧ position + 12 + size = stop ∧ directoryDisk = l.directoryDisk ∧
        offset + entries * Layout.line.size ≤ position then
      some { position, version, needed
             record := { disk, directoryDisk, entriesHere, entries, offset } }
    else none
  | _ => none

/-- The directory of an archive with a locator at a position. -/
def directory? (l : Locator) (bytes : Array UInt8) (position : Nat) : Option Directory := do
  if 1 < l.disks then none
  let t ← firstFrom? (l.targetAt? bytes position) l.offset (position - l.offset)
  let base := t.position - l.offset
  let r := t.record
  if r.entriesHere ≤ r.entries ∧ t.needed ≤ t.version ∧ r.disk = r.directoryDisk then
    return ⟨base, r.offset + base, r.entries⟩
  else none

end Locator

/-- The directory of an archive with an end record at a position. -/
def Directory.before? (bytes : Array UInt8) (position : Nat) : Option Directory := do
  let r ← EndRecord.at? bytes position
  let locator? :=
    if r.isFull ∧ Layout.locator.size ≤ position then
      Locator.at? bytes (position - Layout.locator.size)
    else none
  match locator? with
  | some l => l.directory? bytes (position - Layout.locator.size)
  | none => r.directory? bytes position

end JarGate.Archive
