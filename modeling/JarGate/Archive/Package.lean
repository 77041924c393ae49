import JarGate.Archive.Format
import JarGate.Text.Quoted

/-!
# Packages

A package is an archive under edit: an ordered row of paths, and for each of them where its content
is, either in the entry at some place of the archive that was opened or in an edit. Edits move paths and
leave the archive as it was, so that the place of a path and that of its entry soon differ. Entries that no
edit touched are written as they were read; all others are written anew. An edit that fails changes
nothing.
-/

namespace JarGate

/-- Why a package cannot be read. -/
inductive Corruption where
  /-- The octets are no archive. -/
  | noArchive
  /-- Two entries are to have one name. -/
  | repeatedName
  /-- The content of an entry cannot be told. -/
  | unreadable
  deriving DecidableEq, Repr

/-- The text of such a fault. -/
def Corruption.text : Corruption → String
  | .noArchive => "invalid Zip archive: Could not find EOCD"
  | .repeatedName => "invalid Zip archive: Duplicate filename"
  | .unreadable => "Invalid checksum"

/-- Failures of packages. -/
inductive PackageError where
  | corrupt (why : Corruption)
  | duplicateEntry (path : String)
  | noSuchEntry (path : String)
  deriving DecidableEq, Repr

/-- The full text of an error. -/
def PackageError.message : PackageError → String
  | .corrupt why => "corrupt container: " ++ why.text
  | .duplicateEntry path => "entry " ++ Text.Quoted.quote path ++ " already exists"
  | .noSuchEntry path => "no entry " ++ Text.Quoted.quote path

/-- What an entry of a package holds. -/
inductive Payload where
  /-- What it was opened with. -/
  | kept (e : Archive.StoredEntry)
  /-- What an edit gave it. -/
  | given (content : Bytes)
  deriving DecidableEq, Repr

/-- An entry of a package. -/
structure PackageEntry where
  path : String
  payload : Payload
  deriving DecidableEq, Repr

namespace PackageEntry

/-- The content of an entry. -/
def content (e : PackageEntry) : Except PackageError Bytes :=
  match e.payload with
  | .given content => .ok content
  | .kept stored =>
    match stored.content? with
    | some content => .ok content
    | none => .error (.corrupt .unreadable)

/-- The entry as an archive keeps it. -/
def stored (e : PackageEntry) : Archive.StoredEntry :=
  match e.payload with
  | .kept stored => stored
  | .given content => .ofContent e.path content

/-- An entry that was read from an archive. -/
def ofStored (stored : Archive.StoredEntry) : PackageEntry :=
  ⟨stored.name, .kept stored⟩

/-- Whether no edit touched an entry. -/
def isUntouched (e : PackageEntry) : Bool :=
  match e.payload with
  | .kept _ => true
  | .given _ => false

end PackageEntry

/-- Where the content at a path is, if the archive has `n` entries. -/
inductive PackageSource (n : Nat) where
  /-- In the entry at a place of the archive. -/
  | original (index : Fin n)
  /-- In an edit. -/
  | modified (content : Bytes)
  deriving DecidableEq, Repr

/-- A path and where its content is. -/
structure PackageSlot (n : Nat) where
  path : String
  source : PackageSource n
  deriving DecidableEq, Repr

/-- The entry at a path. -/
def PackageSlot.entry (archive : List Archive.StoredEntry) (s : PackageSlot archive.length) : PackageEntry where
  path := s.path
  payload :=
    match s.source with
    | .original index => .kept archive[index]
    | .modified content => .given content

/-- An archive under edit. -/
structure Package where
  /-- The entries of the archive that was opened. -/
  archive : List Archive.StoredEntry
  slots : List (PackageSlot archive.length)

namespace Package

/-- The entries, in their order. -/
def entries (p : Package) : List PackageEntry :=
  p.slots.map (PackageSlot.entry p.archive)

/-- The package that the entries of an archive open as. -/
def ofStored (archive : List Archive.StoredEntry) : Package where
  archive := archive
  slots := List.ofFn fun index => ⟨archive[index].name, .original index⟩

/-- The package that an archive holds. -/
def ofBytes (bytes : Bytes) : Except PackageError Package :=
  match Archive.decode? bytes with
  | some entries => .ok (.ofStored entries)
  | none => .error (.corrupt .noArchive)

/-- The archive of a package. -/
def toBytes (p : Package) : Bytes :=
  Archive.encode (p.entries.map (·.stored))

/-- The package of new entries. -/
def new (contents : List (String × Bytes)) : Package where
  archive := []
  slots := contents.map fun (path, content) => ⟨path, .modified content⟩

/-- The package of new entries, whose paths have to be distinct. -/
def ofContents (contents : List (String × Bytes)) : Except PackageError Package :=
  if (contents.map (·.1)).Nodup then .ok (.new contents) else .error (.corrupt .repeatedName)

/-- The paths of the entries, in their order. -/
def paths (p : Package) : List String :=
  p.slots.map (·.path)

/-- How many entries there are. -/
def size (p : Package) : Nat :=
  p.slots.length

/-- Where a path stands. -/
def position? (p : Package) (path : String) : Option Nat :=
  p.slots.findIdx? (·.path == path)

/-- The entry of a path. -/
def find? (p : Package) (path : String) : Option PackageEntry :=
  p.entries.find? (·.path == path)

/-- Whether there is an entry of a path. -/
def contains (p : Package) (path : String) : Bool :=
  (p.position? path).isSome

/-- Whether there is an entry of a path that no edit touched. -/
def isUntouched (p : Package) (path : String) : Bool :=
  (p.find? path).any (·.isUntouched)

/-- The content of the entry of a path. -/
def read (p : Package) (path : String) : Except PackageError Bytes :=
  match p.find? path with
  | some e => e.content
  | none => .error (.noSuchEntry path)

/-- Gives the entry of a path another content. -/
def replace (p : Package) (path : String) (content : Bytes) : Except PackageError Package :=
  match p.position? path with
  | some position => .ok { p with slots := p.slots.set position ⟨path, .modified content⟩ }
  | none => .error (.noSuchEntry path)

/-- Adds an entry behind all others. -/
def add (p : Package) (path : String) (content : Bytes) : Except PackageError Package :=
  if p.contains path then .error (.duplicateEntry path)
  else .ok { p with slots := p.slots ++ [⟨path, .modified content⟩] }

/-- Removes the entry of a path. -/
def remove (p : Package) (path : String) : Except PackageError Package :=
  match p.position? path with
  | some position => .ok { p with slots := p.slots.eraseIdx position }
  | none => .error (.noSuchEntry path)

/-- Puts a content at a path, in the place of what is there or behind all others. -/
def put (p : Package) (path : String) (content : Bytes) : Except PackageError Package :=
  if p.contains path then p.replace path content else p.add path content

end Package

end JarGate
