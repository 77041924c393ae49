import JarGate.ClassFile.Code

/-!
# Classes

The contents of a class file: the constant pool, the class itself, its fields and its methods. Names
and types are indices into the pool; the queries resolve them.
-/

namespace JarGate

namespace Access

/-! Bits of the access flags of classes, fields and methods. Some mean one thing on a class and
another on a member. -/

def isPublic : UInt16 := 0x0001
def isPrivate : UInt16 := 0x0002
def isStatic : UInt16 := 0x0008
def isFinal : UInt16 := 0x0010
def isSuper : UInt16 := 0x0020
def isSynchronized : UInt16 := 0x0020
def isVolatile : UInt16 := 0x0040
def isBridge : UInt16 := 0x0040
def isInterface : UInt16 := 0x0200
def isSynthetic : UInt16 := 0x1000
def isAnnotation : UInt16 := 0x2000

/-- Whether some of the bits of a mask are set. -/
def hasAny (flags mask : UInt16) : Bool :=
  flags &&& mask != 0

end Access

/-- A field of a class. -/
structure FieldInfo where
  access : UInt16
  name : UInt16
  descriptor : UInt16
  attributes : List RawAttribute
  deriving DecidableEq, Repr

/-- An attribute of a method. -/
inductive MethodAttribute where
  | code (name : UInt16) (code : Code)
  | raw (raw : RawAttribute)
  deriving DecidableEq, Repr

/-- A method of a class. -/
structure MethodInfo where
  access : UInt16
  name : UInt16
  descriptor : UInt16
  attributes : List MethodAttribute
  deriving DecidableEq, Repr

namespace MethodInfo

/-- The body that an attribute holds. -/
def codeOf? : MethodAttribute → Option Code
  | .code _ c => some c
  | .raw _ => none

/-- The body of the method, which is its first if it has several. -/
def code? (m : MethodInfo) : Option Code :=
  m.attributes.findSome? codeOf?

/-- Puts a body in place of the first one. -/
def withCode (c : Code) : List MethodAttribute → List MethodAttribute
  | [] => []
  | .code name _ :: rest => .code name c :: rest
  | other :: rest => other :: withCode c rest

/-- Replaces the body, if there is one. -/
def setCode (m : MethodInfo) (c : Code) : MethodInfo :=
  { m with attributes := withCode c m.attributes }

/-- Whether the method is called without a receiver. -/
def isStatic (m : MethodInfo) : Bool :=
  Access.hasAny m.access Access.isStatic

end MethodInfo

/-- A class. -/
structure ClassFile where
  minor : UInt16
  major : UInt16
  pool : ConstantPool
  access : UInt16
  thisClass : UInt16
  /-- Zero only where there is no superclass. -/
  superClass : UInt16
  interfaces : List UInt16
  fields : List FieldInfo
  methods : List MethodInfo
  attributes : List RawAttribute
  deriving DecidableEq, Repr

namespace ClassFile

/-! ### Building -/

/-- An edit of a class. -/
abbrev Change (α : Type) := Edit ClassError ClassFile α

/-- An addition to the constant pool. -/
def inPool {α : Type} (e : ConstantPool.Addition α) : Change α :=
  Edit.within ClassFile.pool (fun pool c => { c with pool }) e

/-- A class without members. -/
def empty (name superName : String) (access major : UInt16) : Except ClassError ClassFile :=
  let names : ConstantPool.Addition (UInt16 × UInt16) := do
    return (← ConstantPool.addClass name, ← ConstantPool.addClass superName)
  match names ConstantPool.empty with
  | .ok (thisClass, superClass) pool => .ok {
      minor := 0, major, pool, access, thisClass, superClass
      interfaces := [], fields := [], methods := [], attributes := [] }
  | .error e _ => .error e

/-- Appends a field and answers its position. -/
def addField (access : UInt16) (name descriptor : String) : Change Nat := do
  let name ← inPool (ConstantPool.addUtf8 name)
  let descriptor ← inPool (ConstantPool.addUtf8 descriptor)
  let c ← get
  let field : FieldInfo := { access, name, descriptor, attributes := [] }
  set { c with fields := c.fields ++ [field] }
  return c.fields.length

/-- Appends a method and answers its position. -/
def addMethod (access : UInt16) (name descriptor : String) (code : Option Code) : Change Nat := do
  let _ ← Edit.lift (MethodDescriptor.parse descriptor)
  let name ← inPool (ConstantPool.addUtf8 name)
  let descriptor ← inPool (ConstantPool.addUtf8 descriptor)
  let attributes ← match code with
    | none => pure []
    | some code => do
      pure [MethodAttribute.code (← inPool (ConstantPool.addUtf8 "Code")) code]
  let c ← get
  let method : MethodInfo := { access, name, descriptor, attributes }
  set { c with methods := c.methods ++ [method] }
  return c.methods.length

/-! ### Queries -/

/-- The name of the class, with slashes between its parts. -/
def name (c : ClassFile) : Except ClassError String :=
  c.pool.className c.thisClass

/-- The name of the superclass, if there is one. -/
def superName (c : ClassFile) : Except ClassError (Option String) :=
  if c.superClass = 0 then .ok none else (c.pool.className c.superClass).map some

/-- Whether the class is an interface. -/
def isInterface (c : ClassFile) : Bool :=
  Access.hasAny c.access Access.isInterface

/-- Whether the class is an annotation type. -/
def isAnnotation (c : ClassFile) : Bool :=
  Access.hasAny c.access Access.isAnnotation

/-- The name of a method. -/
def methodName (c : ClassFile) (m : MethodInfo) : Except ClassError String :=
  c.pool.utf8 m.name

/-- The written descriptor of a method. -/
def methodDescriptor (c : ClassFile) (m : MethodInfo) : Except ClassError String :=
  c.pool.utf8 m.descriptor

/-- Whether a lookup of a text succeeded with a given text. -/
def isText (found : Except ClassError String) (wanted : String) : Bool :=
  match found with
  | .ok text => text == wanted
  | .error _ => false

/-- The position of the first method with a name and a descriptor. -/
def findMethod? (c : ClassFile) (name descriptor : String) : Option Nat :=
  c.methods.findIdx? fun m =>
    isText (c.methodName m) name && isText (c.methodDescriptor m) descriptor

/-- The first major version whose verifier asks for stack map frames. -/
def stackMapMajor : UInt16 := 50

/-- Whether the verifier asks for stack map frames. -/
def requiresStackMap (c : ClassFile) : Bool :=
  stackMapMajor ≤ c.major

/-- Replaces the method at a position. -/
def setMethod (c : ClassFile) (index : Nat) (m : MethodInfo) : ClassFile :=
  { c with methods := c.methods.set index m }

end ClassFile

end JarGate
