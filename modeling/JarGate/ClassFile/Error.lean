import JarGate.Text.Quoted

/-!
# What can be wrong with a class file

Reading fails with a `Fault`, writing with an `Overflow` where a value outgrows the field that the
format gives it. `ClassError.message` is the one place where the wording lives.
-/

namespace JarGate

/-- The kinds of constant in a constant pool. -/
inductive ConstantKind where
  | unusable | utf8 | integer | float | long | double | classInfo | string | fieldRef | methodRef
  | interfaceMethodRef | nameAndType | methodHandle | methodType | dynamic | invokeDynamic
  | moduleInfo | packageInfo
  deriving DecidableEq, Repr

/-- The name of a kind in messages. -/
def ConstantKind.name : ConstantKind → String
  | .unusable => "unusable"
  | .utf8 => "Utf8"
  | .integer => "Integer"
  | .float => "Float"
  | .long => "Long"
  | .double => "Double"
  | .classInfo => "Class"
  | .string => "String"
  | .fieldRef => "Fieldref"
  | .methodRef => "Methodref"
  | .interfaceMethodRef => "InterfaceMethodref"
  | .nameAndType => "NameAndType"
  | .methodHandle => "MethodHandle"
  | .methodType => "MethodType"
  | .dynamic => "Dynamic"
  | .invokeDynamic => "InvokeDynamic"
  | .moduleInfo => "Module"
  | .packageInfo => "Package"

/-- What an index into the constant pool was used as. -/
inductive ConstantRole where
  | utf8 | classInfo | nameAndType | memberRef | dynamic
  deriving DecidableEq, Repr

/-- The name of a role in messages. -/
def ConstantRole.name : ConstantRole → String
  | .utf8 => "Utf8"
  | .classInfo => "Class"
  | .nameAndType => "NameAndType"
  | .memberRef => "a member reference"
  | .dynamic => "a dynamic constant"

/-- The index fields of a constant that must name a `Utf8` constant. -/
inductive TextField where
  | name | value | descriptor
  deriving DecidableEq, Repr

/-- The name of such a field in messages. -/
def TextField.label : TextField → String
  | .name => "name"
  | .value => "value"
  | .descriptor => "descriptor"

/-- The ways in which a constant's link to another constant, other than to a text, can be wrong. -/
inductive BadLink where
  | notClass | notNameAndType | referenceKind | notMember
  deriving DecidableEq, Repr

/-- What a message says about a bad link. -/
def BadLink.label : BadLink → String
  | .notClass => "class is not a Class"
  | .notNameAndType => "name_and_type is not a NameAndType"
  | .referenceKind => "reference kind out of range"
  | .notMember => "reference is not a member ref"

/-- Reasons why octets, or a value under construction, are no class file. Positions count from the
start of the structure being read: the file, an attribute body, or a code array. -/
inductive Fault where
  | truncated (offset wanted left : Nat)
  | lengthOverflow
  | badMagic (found : UInt32)
  | ancientVersion (major : UInt16)
  | emptyPool
  | unknownTag (tag : UInt8) (index : Nat)
  | wideConstantOverruns (index : Nat)
  | badLink (kind : ConstantKind) (index : Nat) (link : BadLink)
  | badText (kind : ConstantKind) (index : Nat) (field : TextField) (why : Fault)
  | indexOutOfRange (index : UInt16) (count : Nat)
  | indexUnusable (index : UInt16)
  | wrongKind (index : UInt16) (found : ConstantKind) (wanted : ConstantRole)
  | modifiedUtf8 (pos : Nat)
  | descriptor (text : String)
  | wideOpcode (op : UInt8) (pos : Nat)
  | branchOutside (pos : Nat) (target : Int) (length : Nat)
  | branchInside (pos target : Nat)
  | switchBounds (pos : Nat) (high low : Int32)
  | switchTruncated (pos : Nat)
  | pairCount (pos : Nat) (count : Int32)
  | badOpcode (op : UInt8) (pos : Nat)
  | displaced (recorded actual : Nat)
  | noStackEffect (op : UInt8)
  | notBoundary (offset : Nat)
  | unboundLabel (label : Nat)
  | verificationTag (tag : UInt8)
  | frameType (tag : UInt8)
  | frameTrailing (count : Nat)
  | chop (count left : Nat)
  | frameOrder (offset previous : Nat)
  | codeLength (length : UInt32)
  | handlerRange (start stop handler : Nat)
  | catchType (index : UInt16)
  | lineNumber (offset : Nat)
  | lineNumberLength
  | variableRange (start length : Nat)
  | variableLength
  | codeTrailing (count : Nat)
  | attributeName (index : UInt16)
  | classTrailing (count : Nat)
  deriving DecidableEq, Repr

/-- The sentence that describes a fault. -/
def Fault.message : Fault → String
  | .truncated offset wanted left =>
    s!"truncated at offset {offset} (wanted {wanted} bytes, {left} left)"
  | .lengthOverflow => "length overflow"
  | .badMagic found => "bad magic 0x" ++ Text.Hex.padded 8 found.toNat
  | .ancientVersion major => s!"major version {major}"
  | .emptyPool => "constant_pool_count is zero"
  | .unknownTag tag index => s!"unknown constant tag {tag} at index {index}"
  | .wideConstantOverruns index => s!"8-byte constant at index {index} overruns the pool"
  | .badLink kind index link => s!"{kind.name} at index {index}: {link.label}"
  | .badText kind index field why => s!"{kind.name} at index {index}: {field.label}: {why.message}"
  | .indexOutOfRange index count => s!"constant pool index {index} out of range (count {count})"
  | .indexUnusable index => s!"constant pool index {index} is not usable"
  | .wrongKind index found wanted => s!"index {index} is {found.name} not {wanted.name}"
  | .modifiedUtf8 pos => s!"invalid modified UTF-8 at byte {pos}"
  | .descriptor text => "invalid descriptor " ++ Text.Quoted.quote text
  | .wideOpcode op pos => s!"wide prefix on opcode 0x{Text.Hex.padded 2 op.toNat} at {pos}"
  | .branchOutside pos target length =>
    s!"branch at {pos} targets {target} outside code of length {length}"
  | .branchInside pos target =>
    s!"branch at {pos} targets {target}, which is not an instruction boundary"
  | .switchBounds pos high low =>
    s!"tableswitch at {pos} has high {high.toInt} < low {low.toInt}"
  | .switchTruncated pos => s!"tableswitch at {pos} truncated"
  | .pairCount pos count => s!"lookupswitch at {pos} has bad pair count {count.toInt}"
  | .badOpcode op pos => s!"invalid opcode 0x{Text.Hex.padded 2 op.toNat} at offset {pos}"
  | .displaced recorded actual => s!"instruction recorded at {recorded} but laid out at {actual}"
  | .noStackEffect op => s!"no stack effect for opcode 0x{Text.Hex.padded 2 op.toNat}"
  | .notBoundary offset => s!"offset {offset} is not an instruction boundary"
  | .unboundLabel label => s!"label {label} never bound"
  | .verificationTag tag => s!"unknown verification type tag {tag}"
  | .frameType tag => s!"reserved frame type {tag}"
  | .frameTrailing count => s!"StackMapTable has {count} trailing bytes"
  | .chop count left => s!"chop frame removes {count} locals from {left}"
  | .frameOrder offset previous => s!"frame at {offset} does not follow frame at {previous}"
  | .codeLength length => s!"code_length {length}"
  | .handlerRange start stop handler =>
    s!"exception handler [{start}, {stop}) -> {handler} is not on instruction boundaries"
  | .catchType index => s!"catch type {index} is not a Class"
  | .lineNumber offset => s!"line number entry at {offset} is not an instruction boundary"
  | .lineNumberLength => "LineNumberTable length disagrees with its entries"
  | .variableRange start length =>
    s!"local variable range [{start}, +{length}) is not on instruction boundaries"
  | .variableLength => "LocalVariableTable length disagrees with its entries"
  | .codeTrailing count => s!"Code attribute has {count} bytes past its content"
  | .attributeName index => s!"attribute name index {index} is not Utf8"
  | .classTrailing count => s!"{count} trailing bytes after class attributes"

/-- Values that do not fit the field the format gives them. -/
inductive Overflow where
  | entries (what : String) (count : Nat)
  | octets (what : String) (length : Nat)
  | poolSlots (count : Nat)
  | utf8Length (length : Nat)
  | poolFull
  | branch (pos target : Nat)
  | iincDelta
  | narrowLocal (index : UInt16)
  | uninitialized (offset : Nat)
  | frameDelta (delta : Nat)
  | codeSize (length : Nat)
  | codeOffset (offset : Nat)
  | maxStack (depth : Nat)
  deriving DecidableEq, Repr

/-- The largest length of a code array that a class may have. -/
def maxCodeLength : Nat := 65535

/-- The sentence that describes an overflow. -/
def Overflow.message : Overflow → String
  | .entries what count => s!"{what} has {count} entries"
  | .octets what length => s!"{what} is {length} bytes"
  | .poolSlots count => s!"constant pool has {count} slots"
  | .utf8Length length => s!"Utf8 constant of {length} bytes"
  | .poolFull => "constant pool is full"
  | .branch pos target => s!"branch at {pos} to {target} does not fit a 16-bit offset"
  | .iincDelta => "iinc delta needs wide form"
  | .narrowLocal index => s!"local {index} needs wide form"
  | .uninitialized offset => s!"uninitialized offset {offset} exceeds u16"
  | .frameDelta delta => s!"frame offset delta {delta}"
  | .codeSize length => s!"code is {length} bytes, limit is {maxCodeLength}"
  | .codeOffset offset => s!"code offset {offset} exceeds 16 bits"
  | .maxStack depth => s!"max stack {depth}"

/-- The newest major version that is understood. -/
def maxMajorVersion : UInt16 := 69

/-- Failures of reading, editing and writing a class. -/
inductive ClassError where
  | unsupportedVersion (major minor : UInt16)
  | malformed (why : Fault)
  | overflow (what : Overflow)
  deriving DecidableEq, Repr

/-- The full text of an error. -/
def ClassError.message : ClassError → String
  | .unsupportedVersion major minor =>
    s!"unsupported class file version {major}.{minor} " ++
      s!"(newest supported major is {maxMajorVersion})"
  | .malformed why => "malformed class file: " ++ why.message
  | .overflow what => "encoding overflow: " ++ what.message

end JarGate
