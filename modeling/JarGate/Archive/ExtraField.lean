import JarGate.Archive.Crc32
import JarGate.Archive.DirectoryLine
import JarGate.Edit

/-!
# Further fields of a directory line

A row of fields, each behind its number and the length that it claims. Some say what the line itself
has no room for: sizes of eight octets, how the content is encrypted, and the name and the comment in
UTF-8. The fields change the line one after another. One that cannot be is refused, and the line with
it; where the octets end inside a field, what came before them counts.
-/

namespace JarGate.Archive.ExtraField

/-- Why reading stopped. -/
inductive Stop where
  /-- The octets ended. -/
  | ended
  /-- A field cannot be. -/
  | refused

/-- The line so far, and the octets of the fields that are left. -/
structure Reading where
  line : DirectoryLine
  rest : Bytes

/-- A step of reading. -/
abbrev Step (α : Type) := Edit Stop Reading α

/-- The next octets. -/
def octets (count : Nat) : Step Bytes := fun s =>
  if count ≤ s.rest.length then
    .ok (s.rest.take count) { s with rest := s.rest.drop count }
  else .error .ended s

/-- The number in the next octets. -/
def number (width : Nat) : Step Nat := do
  return Bytes.toNatLittle (← octets width)

/-- Passes over octets. -/
def skip (count : Nat) : Step Unit := do
  let _ ← octets count

/-- Refuses the field unless a condition holds. -/
def require (condition : Bool) : Step Unit :=
  if condition then pure () else throw .refused

/-- Changes the line. -/
def change (f : DirectoryLine → DirectoryLine) : Step Unit :=
  modify fun s => { s with line := f s.line }

/-! ### Sizes -/

/-- Reads a number of eight octets in the place of one that did not fit the line, or in any case, and
answers how many octets that took. -/
def wideNumber (always : Bool) (narrow : DirectoryLine → Nat)
    (put : Nat → DirectoryLine → DirectoryLine) : Step Nat := do
  if always || narrow (← get).line == longLimit then
    change (put (← number 8))
    return 8
  else return 0

/-- The numbers that do not fit the line. If the field has room for all of them, it has all. -/
def wideNumbers (length : Nat) : Step Unit := do
  let all := 24 ≤ length
  let first ← wideNumber all (·.size) fun n line => { line with size := n }
  let second ← wideNumber all (·.length) fun n line => { line with length := n }
  let third ← wideNumber all (·.offset) fun n line => { line with offset := n }
  let taken := first + second + third
  require (taken ≤ length)
  skip (length - taken)

/-! ### Times -/

/-- Three times as counts of tenths of microseconds. They have no part in the line. -/
def fineTimes (length : Nat) : Step Unit := do
  require (length == 32)
  skip 4
  require ((← number 2) == 1)
  require ((← number 2) == 24)
  skip 24

/-- Up to three times as counts of seconds, a flag for each. In the directory the field may have the
first of them alone, whatever the flags say. They have no part in the line. -/
def times (length : Nat) : Step Unit := do
  let flags ← number 1
  require (flags < 8)
  let given := flags % 2 + flags / 2 % 2 + flags / 4
  require (length == 5 || length == 1 + 4 * given)
  skip (length - 1)

/-! ### Encryption -/

/-- The letters of the cipher's vendor, as a number. -/
def cipherVendor : Nat := 0x4541

/-- How the content is encrypted, and the method by which it was kept before. -/
def cipher (length : Nat) : Step Unit := do
  require (length == 7)
  let version ← number 2
  let vendor ← number 2
  let strength ← number 1
  let method ← number 2
  require (vendor == cipherVendor && 1 ≤ version && version ≤ 2 && 1 ≤ strength && strength ≤ 3)
  change fun line => { line with method, cipherGiven := true }

/-! ### Texts -/

/-- A text in UTF-8 with the checksum of the octets that it stands for. -/
def text (length : Nat) (written : DirectoryLine → Bytes) : Step String := do
  skip 1
  let crc ← number 4
  require (5 ≤ length)
  let content ← octets (length - 5)
  require (crc == (Crc32.ofBytes (written (← get).line)).toNat)
  match Text.Utf8.decode? content with
  | some text => return text
  | none => throw .refused

/-- The name of the entry. -/
def name (length : Nat) : Step Unit := do
  let name ← text length (·.nameBytes)
  change fun line => { line with name, nameBytes := Text.Utf8.encode name }

/-- The comment of the entry. -/
def comment (length : Nat) : Step Unit := do
  let comment ← text length fun line => Text.Utf8.encode line.comment
  change fun line => { line with comment }

/-! ### Fields -/

/-- The number of `wideNumbers`. -/
def wideNumbersId : Nat := 0x0001

/-- A field of a number and a length. -/
def field (id length : Nat) : Step Unit :=
  if id = wideNumbersId then wideNumbers length
  else if id = 0x000A then fineTimes length
  else if id = 0x5455 then times length
  else if id = 0x6375 then comment length
  else if id = 0x7075 then name length
  else if id = 0x9901 then cipher length
  else skip length

/-- Reads fields until the octets end. Each has four octets at least. -/
def fields : Nat → Step Unit
  | 0 => pure ()
  | rounds + 1 => do
    let id ← number 2
    let length ← number 2
    field id length
    fields rounds

/-- The line with what its further fields say, unless one is refused. -/
def amended? (extra : Bytes) (line : DirectoryLine) : Option DirectoryLine :=
  match fields extra.length ⟨line, extra⟩ with
  | .ok () s => some s.line
  | .error .ended s => some s.line
  | .error .refused _ => none

end JarGate.Archive.ExtraField
