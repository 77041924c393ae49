import JarGate.CommandLine.Run

/-!
# Files in memory

A table of files on which commands can run without a disk. A directory is there when a file lies in
it. A path is followed part by part from the directory that the table is about; what it leads to says
whether it can be read or written, and if not, why.
-/

namespace JarGate.CommandLine

/-- Why a path cannot be used. -/
inductive PathFault where
  | missing
  | notDirectory
  | isDirectory
  | nameTooLong
  deriving DecidableEq, Repr

/-- What is said about such a path. -/
def PathFault.text : PathFault → String
  | .missing => "No such file or directory (os error 2)"
  | .notDirectory => "Not a directory (os error 20)"
  | .isDirectory => "Is a directory (os error 21)"
  | .nameTooLong => "File name too long (os error 36)"

/-- Files with the parts of their paths and with their contents, the one written last first. -/
abbrev FileTable := List (List String × Bytes)

namespace FileTable

/-- The parts of a path. -/
def parts (path : String) : List String :=
  Text.parts '/' path

/-- Whether a part stays where it is. -/
def isIdle (part : String) : Bool :=
  part.isEmpty || part == "."

/-- The table of some files, of which the last one counts where two have one path. -/
def ofFiles (files : List (String × Bytes)) : FileTable :=
  files.reverse.map fun (path, content) => ((parts path).filter (!isIdle ·), content)

/-- Whether a directory is there. -/
def hasDirectory (files : FileTable) (directory : List String) : Bool :=
  directory.isEmpty ||
    files.any fun (path, _) => directory.isPrefixOf path && directory.length < path.length

/-- What a path leads to. -/
inductive Target where
  | file (path : List String) (content : Bytes)
  | directory
  /-- Nothing, where a file may be put. -/
  | free (path : List String)
  /-- Nothing, where only a directory could be. -/
  | noDirectory
  | fault (why : PathFault)

/-- The greatest number of octets of a part. -/
def maxPart : Nat := 255

/-- The number of octets that no path reaches. -/
def pathLimit : Nat := 4096

/-- What is reached from a directory by some parts. A slash at the end asks for a directory. -/
def follow (files : FileTable) (directory : List String) : List String → Target
  | [] => .directory
  | part :: rest =>
    let path := directory ++ [part]
    if isIdle part then follow files directory rest
    else if part = ".." then follow files directory.dropLast rest
    else if maxPart < part.utf8ByteSize then .fault .nameTooLong
    else if files.hasDirectory path then follow files path rest
    else
      match files.lookup path, rest with
      | some content, [] => .file path content
      | some _, _ :: _ => .fault .notDirectory
      | none, [] => .free path
      | none, _ :: _ => if rest.all String.isEmpty then .noDirectory else .fault .missing

/-- What a path leads to. -/
def target (files : FileTable) (path : String) : Target :=
  if path.isEmpty then .fault .missing
  else if pathLimit ≤ path.utf8ByteSize then .fault .nameTooLong
  else files.follow [] (parts path)

/-- The content of a file. -/
def read (files : FileTable) (path : String) : Except PathFault Bytes :=
  match files.target path with
  | .file _ content => .ok content
  | .directory => .error .isDirectory
  | .free _ | .noDirectory => .error .missing
  | .fault why => .error why

/-- Whether there is a file or a directory. -/
def has (files : FileTable) (path : String) : Bool :=
  match files.target path with
  | .file _ _ | .directory => true
  | .free _ | .noDirectory | .fault _ => false

/-- Writes a file, whose directory has to be there. -/
def write (files : FileTable) (path : String) (content : Bytes) : Except PathFault FileTable :=
  match files.target path with
  | .file path _ | .free path => .ok ((path, content) :: files)
  | .directory | .noDirectory => .error .isDirectory
  | .fault why => .error why

/-- The operations on a table. -/
def operations : Files (StateM FileTable) where
  read path := do return ((← get).read path).mapError PathFault.text
  exists? path := do return (← get).has path
  write path content := do
    match (← get).write path content with
    | .ok files =>
      set files
      return .ok ()
    | .error why => return .error why.text

end FileTable

end JarGate.CommandLine
