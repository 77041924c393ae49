import JarGate.ClassFile.Basic
import JarGate.ClassFile.Code.Format

/-!
# The class file format

Reading and writing whole classes. A class that nobody touched is written as it was read, apart from
reserved octets, which are written as zero, and declared stack and local variable sizes that were too
small.
-/

namespace JarGate

namespace ClassFile

/-- The number that every class file starts with. -/
def magic : UInt32 := 0xCAFEBABE

/-- The major version of the oldest format. -/
def oldestMajor : UInt16 := 45

/-! ### Reading -/

/-- Reads an attribute whose body is not looked into. -/
def readRaw (pool : ConstantPool) : Decoder RawAttribute := do
  let name ← Decoder.u16
  match ← (pool.get name : Except ClassError Constant) with
  | .utf8 _ => pure ()
  | _ => Decoder.fault (.attributeName name)
  return { name, body := ← Decoder.take (← Decoder.u32).toNat }

/-- Reads a table of such attributes. -/
def readRaws (pool : ConstantPool) : Decoder (List RawAttribute) := do
  Decoder.many (← Decoder.u16).toNat (readRaw pool)

/-- Reads an index and checks that it names a class. -/
def readClass (pool : ConstantPool) : Decoder UInt16 := do
  let index ← Decoder.u16
  let _ ← (pool.className index : Except ClassError String)
  return index

/-- Reads a field. -/
def readField (pool : ConstantPool) : Decoder FieldInfo := do
  let access ← Decoder.u16
  let name ← Decoder.u16
  let descriptor ← Decoder.u16
  let _ ← (pool.utf8 name : Except ClassError String)
  let _ ← (pool.utf8 descriptor : Except ClassError String)
  return { access, name, descriptor, attributes := ← readRaws pool }

/-- Reads an attribute of a method. -/
def readMethodAttribute (pool : ConstantPool) : Decoder MethodAttribute := do
  let name ← Decoder.u16
  let body ← Decoder.take (← Decoder.u32).toNat
  if (← (pool.utf8 name : Except ClassError String)) == "Code" then
    return .code name (← (Code.read pool body : Except ClassError Code))
  else return .raw { name, body }

/-- Reads a method. -/
def readMethod (pool : ConstantPool) : Decoder MethodInfo := do
  let access ← Decoder.u16
  let name ← Decoder.u16
  let descriptor ← Decoder.u16
  let _ ← (pool.utf8 name : Except ClassError String)
  let _ ← (do MethodDescriptor.parse (← pool.utf8 descriptor) :
    Except ClassError MethodDescriptor)
  let attributes ← Decoder.many (← Decoder.u16).toNat (readMethodAttribute pool)
  return { access, name, descriptor, attributes }

/-- Reads the parts of a class one after another. -/
def readParts : Decoder ClassFile := do
  let found ← Decoder.u32
  if found ≠ magic then Decoder.fault (.badMagic found)
  let minor ← Decoder.u16
  let major ← Decoder.u16
  if maxMajorVersion < major then throw (.unsupportedVersion major minor)
  if major < oldestMajor then Decoder.fault (.ancientVersion major)
  let pool ← ConstantPool.read
  let access ← Decoder.u16
  let thisClass ← Decoder.u16
  let superClass ← Decoder.u16
  let _ ← (pool.className thisClass : Except ClassError String)
  if superClass ≠ 0 then
    let _ ← (pool.className superClass : Except ClassError String)
  let interfaces ← Decoder.many (← Decoder.u16).toNat (readClass pool)
  let fields ← Decoder.many (← Decoder.u16).toNat (readField pool)
  let methods ← Decoder.many (← Decoder.u16).toNat (readMethod pool)
  let attributes ← readRaws pool
  return {
    minor, major, pool, access, thisClass, superClass, interfaces, fields, methods, attributes }

/-- The class that a file holds. -/
def decode (file : Bytes) : Except ClassError ClassFile :=
  Decoder.onAll readParts .classTrailing file

/-! ### Writing -/

/-- The octets of a table of attributes whose bodies are not looked into. -/
def writeRaws (attributes : List RawAttribute) : Except ClassError Bytes :=
  Code.writeTable "attributes" (fun a => attributeBytes a.name a.body) attributes

/-- The octets of a field. -/
def writeField (f : FieldInfo) : Except ClassError Bytes := do
  return be16 f.access ++ be16 f.name ++ be16 f.descriptor ++ (← writeRaws f.attributes)

/-- The octets of an attribute of a method. -/
def writeMethodAttribute (c : ClassFile) (m : MethodInfo) :
    MethodAttribute → Except ClassError Bytes
  | .code name code => do
    let descriptor ← MethodDescriptor.parse (← c.methodDescriptor m)
    attributeBytes name (← code.write c.pool descriptor m.isStatic)
  | .raw raw => attributeBytes raw.name raw.body

/-- The octets of a method. -/
def writeMethod (c : ClassFile) (m : MethodInfo) : Except ClassError Bytes := do
  return be16 m.access ++ be16 m.name ++ be16 m.descriptor ++
    (← Code.writeTable "method attributes" (c.writeMethodAttribute m) m.attributes)

/-- The file that holds a class. -/
def encode (c : ClassFile) : Except ClassError Bytes := do
  let pool ← c.pool.write
  let interfaces ← Code.writeTable "interfaces" (fun i => .ok (be16 i)) c.interfaces
  let fields ← Code.writeTable "fields" writeField c.fields
  let methods ← Code.writeTable "methods" c.writeMethod c.methods
  let attributes ← writeRaws c.attributes
  return be32 magic ++ be16 c.minor ++ be16 c.major ++ pool ++ be16 c.access ++
    be16 c.thisClass ++ be16 c.superClass ++ interfaces ++ fields ++ methods ++ attributes

end ClassFile

end JarGate
