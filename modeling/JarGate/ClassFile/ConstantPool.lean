import JarGate.ClassFile.Constant
import JarGate.Edit
import JarGate.Text.ModifiedUtf8

/-!
# Constant pools

The table of constants of a class. Indices start at one; index zero and the index after a constant
of eight octets hold `Constant.unusable`, so that the entry at a position is the constant of that
index. `ConstantPool.check?` says what is wrong with the links between the constants, and a pool
that was read has nothing wrong with them.
-/

namespace JarGate

/-- A reference to a field or a method: the class, and the name and descriptor of the member. -/
structure MemberRef where
  owner : String
  name : String
  descriptor : String
  deriving DecidableEq, Repr

/-- The constants of a class, by index. -/
structure ConstantPool where
  entries : Array Constant
  deriving DecidableEq, Repr

namespace ConstantPool

/-- A pool without constants. -/
def empty : ConstantPool := ⟨#[.unusable]⟩

/-- The number of indices, zero included. -/
def count (pool : ConstantPool) : Nat := pool.entries.size

/-! ### Looking constants up -/

/-- The constant of an index. -/
def get (pool : ConstantPool) (index : UInt16) : Except ClassError Constant :=
  match pool.entries[index.toNat]? with
  | none => .error (.malformed (.indexOutOfRange index pool.count))
  | some .unusable => .error (.malformed (.indexUnusable index))
  | some c => .ok c

/-- The failure of an index whose constant has another role. -/
def wrongKind {α : Type} (index : UInt16) (found : Constant) (wanted : ConstantRole) :
    Except ClassError α :=
  .error (.malformed (.wrongKind index found.kind wanted))

/-- The octets of a `Utf8` constant. -/
def utf8Octets (pool : ConstantPool) (index : UInt16) : Except ClassError Bytes := do
  match ← pool.get index with
  | .utf8 octets => return octets
  | other => wrongKind index other .utf8

/-- The text of a `Utf8` constant. -/
def utf8 (pool : ConstantPool) (index : UInt16) : Except ClassError String := do
  match Text.ModifiedUtf8.decode (← pool.utf8Octets index) with
  | .ok text => return text
  | .error pos => throw (.malformed (.modifiedUtf8 pos))

/-- The name that a `Class` constant stands for. -/
def className (pool : ConstantPool) (index : UInt16) : Except ClassError String := do
  match ← pool.get index with
  | .classInfo name => pool.utf8 name
  | other => wrongKind index other .classInfo

/-- The name and the descriptor of a `NameAndType` constant. -/
def nameAndType (pool : ConstantPool) (index : UInt16) : Except ClassError (String × String) := do
  match ← pool.get index with
  | .nameAndType name descriptor => return (← pool.utf8 name, ← pool.utf8 descriptor)
  | other => wrongKind index other .nameAndType

/-- What a reference to a field or a method stands for. -/
def memberRef (pool : ConstantPool) (index : UInt16) : Except ClassError MemberRef := do
  let resolve (owner signature : UInt16) : Except ClassError MemberRef := do
    let (name, descriptor) ← pool.nameAndType signature
    return { owner := ← pool.className owner, name, descriptor }
  match ← pool.get index with
  | .fieldRef owner signature => resolve owner signature
  | .methodRef owner signature => resolve owner signature
  | .interfaceMethodRef owner signature => resolve owner signature
  | other => wrongKind index other .memberRef

/-- The descriptor of a dynamically computed constant or call. -/
def dynamicDescriptor (pool : ConstantPool) (index : UInt16) : Except ClassError String := do
  match ← pool.get index with
  | .dynamic _ signature => return (← pool.nameAndType signature).2
  | .invokeDynamic _ signature => return (← pool.nameAndType signature).2
  | other => wrongKind index other .dynamic

/-- The first index of a `Class` constant with a given name. -/
def findClass? (pool : ConstantPool) (name : String) : Option Nat :=
  let wanted := Text.ModifiedUtf8.encode name
  pool.entries.findIdx? fun
    | .classInfo index =>
      match pool.entries[index.toNat]? with
      | some (.utf8 octets) => octets == wanted
      | _ => false
    | _ => false

/-! ### The links between constants -/

/-- What is wrong with the links of the constant at an index. -/
def linkFault? (pool : ConstantPool) (index : Nat) (c : Constant) : Option Fault :=
  let text (field : TextField) (target : UInt16) : Option Fault :=
    match pool.utf8Octets target with
    | .error (.malformed why) => some (.badText c.kind index field why)
    | _ => none
  let owner (target : UInt16) : Option Fault :=
    match pool.get target with
    | .ok (.classInfo _) => none
    | _ => some (.badLink c.kind index .notClass)
  let signature (target : UInt16) : Option Fault :=
    match pool.get target with
    | .ok (.nameAndType _ _) => none
    | _ => some (.badLink c.kind index .notNameAndType)
  match c with
  | .classInfo name | .moduleInfo name | .packageInfo name => text .name name
  | .string value => text .value value
  | .methodType descriptor => text .descriptor descriptor
  | .fieldRef cls nt | .methodRef cls nt | .interfaceMethodRef cls nt =>
    (owner cls).or (signature nt)
  | .nameAndType name descriptor => (text .name name).or (text .descriptor descriptor)
  | .dynamic _ nt | .invokeDynamic _ nt => signature nt
  | .methodHandle kind reference =>
    if 1 ≤ kind ∧ kind ≤ 9 then
      match pool.get reference with
      | .ok (.fieldRef _ _) | .ok (.methodRef _ _) | .ok (.interfaceMethodRef _ _) => none
      | _ => some (.badLink c.kind index .notMember)
    else some (.badLink c.kind index .referenceKind)
  | _ => none

/-- The first fault in the links of the constants `cs`, which start at an index. -/
def linkFaultFrom? (pool : ConstantPool) (index : Nat) : List Constant → Option Fault
  | [] => none
  | c :: cs =>
    match pool.linkFault? index c with
    | some why => some why
    | none => linkFaultFrom? pool (index + 1) cs

/-- The first fault in the links between the constants. -/
def check? (pool : ConstantPool) : Option Fault :=
  pool.linkFaultFrom? 0 pool.entries.toList

/-! ### Reading and writing -/

/-- Reads constants until there are `count` entries. Each round adds at least one, so as many rounds
as entries are enough. -/
def readEntries (count : Nat) : Nat → Array Constant → Cursor →
    Except ClassError (Array Constant × Cursor)
  | 0, entries, c => .ok (entries, c)
  | rounds + 1, entries, c =>
    if entries.size < count then
      match Constant.read entries.size c with
      | .error e => .error e
      | .ok (constant, c) =>
        if constant.isWide then
          if entries.size + 1 < count then
            readEntries count rounds ((entries.push constant).push .unusable) c
          else .error (.malformed (.wideConstantOverruns entries.size))
        else readEntries count rounds (entries.push constant) c
    else .ok (entries, c)

/-- Reads a pool, and refuses it if its links are wrong. -/
def read : Decoder ConstantPool := do
  let count := (← Decoder.u16).toNat
  if count = 0 then Decoder.fault .emptyPool
  let pool : ConstantPool := ⟨← readEntries count count #[.unusable]⟩
  match pool.check? with
  | some why => Decoder.fault why
  | none => return pool

/-- The octets of a pool. -/
def write (pool : ConstantPool) : Except ClassError Bytes := do
  if pool.count < 0x10000 then
    let entries ← (pool.entries.toList.drop 1).mapM Constant.write
    return be16 (UInt16.ofNat pool.count) ++ entries.flatten
  else throw (.overflow (.poolSlots pool.count))

/-! ### Additions

Each addition answers the index of what was asked for. A constant that is there already is not added
again, and the constants that are there keep their indices. When the pool is full, the additions that
came before in the same request stay. -/

/-- An edit of a pool. -/
abbrev Addition (α : Type) := Edit ClassError ConstantPool α

/-- Appends a constant. -/
def push (c : Constant) : Addition UInt16 := fun pool =>
  let slots := if c.isWide then 2 else 1
  if pool.count + slots < 0x10000 then
    let entries := pool.entries.push c
    .ok (UInt16.ofNat pool.count) ⟨if c.isWide then entries.push .unusable else entries⟩
  else .error (.overflow .poolFull) pool

/-- The first index of a constant, which is appended if it is not there. -/
def findOrPush (c : Constant) : Addition UInt16 := fun pool =>
  match pool.entries.findIdx? (· == c) with
  | some (i + 1) => .ok (UInt16.ofNat (i + 1)) pool
  | _ => push c pool

/-- A `Utf8` constant. -/
def addUtf8 (text : String) : Addition UInt16 :=
  findOrPush (.utf8 (Text.ModifiedUtf8.encode text))

/-- A `Class` constant. -/
def addClass (name : String) : Addition UInt16 := do
  findOrPush (.classInfo (← addUtf8 name))

/-- A `String` constant. -/
def addString (value : String) : Addition UInt16 := do
  findOrPush (.string (← addUtf8 value))

/-- A `NameAndType` constant. -/
def addNameAndType (name descriptor : String) : Addition UInt16 := do
  let name ← addUtf8 name
  let descriptor ← addUtf8 descriptor
  findOrPush (.nameAndType name descriptor)

/-- A `Fieldref` constant. -/
def addFieldRef (owner name descriptor : String) : Addition UInt16 := do
  let owner ← addClass owner
  let signature ← addNameAndType name descriptor
  findOrPush (.fieldRef owner signature)

/-- A `Methodref` constant. -/
def addMethodRef (owner name descriptor : String) : Addition UInt16 := do
  let owner ← addClass owner
  let signature ← addNameAndType name descriptor
  findOrPush (.methodRef owner signature)

end ConstantPool

end JarGate
