import JarGate.Archive.Crc32
import JarGate.Archive.Deflate
import JarGate.Archive.Inflate
import JarGate.Archive.Timestamp

/-!
# Entries as archives keep them

`StoredEntry.content?` gives the content of an entry. It answers nothing for entries that are
locked, that are kept in an unknown way, or whose content is not what their checksum says.
-/

namespace JarGate.Archive

/-- How the content of an entry is kept. -/
inductive Method where
  | stored
  | deflated
  | other (code : Nat)
  deriving DecidableEq, Repr

namespace Method

/-- The number of a method. -/
def code : Method → Nat
  | .stored => 0
  | .deflated => 8
  | .other code => code

/-- The method of a number. -/
def ofCode (code : Nat) : Method :=
  if code = 0 then .stored else if code = 8 then .deflated else .other code

/-- The name of a method. -/
def name : Method → String
  | .stored => "stored"
  | .deflated => "deflated"
  | .other code => "method " ++ toString code

end Method

/-- An entry of an archive. -/
structure StoredEntry where
  name : String
  method : Method
  /-- Whether the content is encrypted. -/
  locked : Bool
  modified : Timestamp
  /-- The checksum of the content. -/
  crc : UInt32
  /-- The length of the content. -/
  size : Nat
  /-- The length of the data. -/
  length : Nat
  /-- The content as it is kept. It is shorter than `length` if the archive ends before. -/
  data : Bytes
  deriving DecidableEq, Repr

namespace StoredEntry

/-- A new entry. -/
def ofContent (name : String) (content : Bytes) : StoredEntry :=
  let data := Deflate.deflate content
  { name, data
    method := .deflated
    locked := false
    modified := .earliest
    crc := Crc32.ofBytes content
    size := content.length
    length := data.length }

/-- What the data of an entry expands to. -/
def expanded? (e : StoredEntry) : Option Bytes :=
  if e.locked then none
  else
    match e.method with
    | .stored => some e.data
    | .deflated => Inflate.inflate? e.data
    | .other _ => none

/-- The content of an entry. -/
def content? (e : StoredEntry) : Option Bytes :=
  e.expanded?.filter fun content => Crc32.ofBytes content == e.crc

end StoredEntry

end JarGate.Archive
