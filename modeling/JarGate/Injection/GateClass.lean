import JarGate.ClassFile.Code.Assembler
import JarGate.ClassFile.Format
import JarGate.Injection.Prologue
import JarGate.License.Policy

/-!
# The gate class

The class that patched entry points ask. Its static method `check` makes a license client when there
is none yet, and answers the client's verdict. Where no client can be made, it answers no and tries
again the next time. In limited mode it always answers yes and keeps the negated verdict in a flag,
which is set as well where no client can be made.
-/

namespace JarGate.GateClass

/-- The class of the license client. -/
def clientClass : String := "jarlock/runtime/LicenseClient"

/-- The type of the license client. -/
def clientType : String := (FieldType.object clientClass).print

/-- The field that keeps the client. -/
def clientField : String := "client"

/-- The field that tells that the license is not valid, in limited mode. -/
def limitedField : String := "limited"

/-- The major version of the class. -/
def majorVersion : UInt16 := 52

/-- The instruction that pushes a constant, in the shorter form where it fits. -/
def pushConstant (index : UInt16) : Instruction :=
  if index.toNat < 0x100 then .ldc (UInt8.ofNat index.toNat) else .ldcW index

/-- The pool indices that `check` refers to. -/
structure Refs where
  client : UInt16
  limited : UInt16
  resource : UInt16
  fromResource : UInt16
  validate : UInt16
  throwable : UInt16
  tableName : UInt16

/-- Adds what `check` refers to. -/
def addRefs : ConstantPool.Addition Refs := do
  let client ← ConstantPool.addFieldRef gateName.owner clientField clientType
  let limited ← ConstantPool.addFieldRef gateName.owner limitedField "Z"
  let resource ← ConstantPool.addString LicensePolicy.propertiesPath
  let fromResource ← ConstantPool.addMethodRef clientClass "fromResource"
    ("(Ljava/lang/String;)" ++ clientType)
  let validate ← ConstantPool.addMethodRef clientClass "validate" "()Z"
  let throwable ← ConstantPool.addClass "java/lang/Throwable"
  let tableName ← ConstantPool.addUtf8 "StackMapTable"
  return { client, limited, resource, fromResource, validate, throwable, tableName }

/-- The labels of `check`: the guarded range, its handler, and the place where there is a client. The
last two are there in limited mode only. -/
inductive Label where
  | tryStart | tryEnd | handler | ready | valid | store

/-- The numbers of the labels. -/
def Label.number : Label → Nat
  | tryStart => 0
  | tryEnd => 1
  | handler => 2
  | ready => 3
  | valid => 4
  | store => 5

/-- Making a client where there is none. -/
def loadItems (r : Refs) : List AsmItem := [
  .insn (.constant Opcode.getstatic r.client),
  .jump Opcode.ifnonnull Label.ready.number,
  .bind Label.tryStart.number,
  .insn (pushConstant r.resource),
  .insn (.constant Opcode.invokestatic r.fromResource),
  .insn (.constant Opcode.putstatic r.client),
  .bind Label.tryEnd.number,
  .jump Opcode.goto Label.ready.number,
  .bind Label.handler.number,
  .op Opcode.pop]

/-- Asking the client. -/
def askItems (r : Refs) : List AsmItem := [
  .bind Label.ready.number,
  .insn (.constant Opcode.getstatic r.client),
  .insn (.constant Opcode.invokevirtual r.validate)]

/-- The body of `check` in the modes that enforce the verdict. -/
def enforcingItems (r : Refs) : List AsmItem :=
  loadItems r ++ [.op Opcode.iconst0, .op Opcode.ireturn] ++ askItems r ++ [.op Opcode.ireturn]

/-- The body of `check` in limited mode. -/
def limitedItems (r : Refs) : List AsmItem :=
  loadItems r ++ [
    .op Opcode.iconst1,
    .insn (.constant Opcode.putstatic r.limited),
    .op Opcode.iconst1,
    .op Opcode.ireturn] ++
  askItems r ++ [
    .jump Opcode.ifne Label.valid.number,
    .op Opcode.iconst1,
    .jump Opcode.goto Label.store.number,
    .bind Label.valid.number,
    .op Opcode.iconst0,
    .bind Label.store.number,
    .insn (.constant Opcode.putstatic r.limited),
    .op Opcode.iconst1,
    .op Opcode.ireturn]

/-- The states at the places that `check` branches to, by the offsets of its labels. -/
def states (r : Refs) (offsets : List Nat) : List (Nat × FrameState) :=
  let stateAt (label : Label) (stack : List VerificationType) : Option (Nat × FrameState) :=
    offsets[label.number]?.map fun offset => (offset, ⟨[], stack⟩)
  [stateAt .handler [.object r.throwable], stateAt .ready [], stateAt .valid [],
    stateAt .store [.integer]].filterMap id

/-- The body of `check`. -/
def checkCode (mode : FailureMode) (r : Refs) : Except ClassError Code := do
  let (code, offsets) ← match mode.shape with
    | .callOnly => Code.assemble 6 (limitedItems r)
    | .earlyReturn => Code.assemble 4 (enforcingItems r)
  let offset (label : Label) : Nat := offsets.getD label.number 0
  let frames ← Frame.compress (states r offsets) [] []
  return { code with
    handlers := [⟨offset .tryStart, offset .tryEnd, offset .handler, r.throwable⟩]
    attributes := [.stackMap r.tableName frames] }

/-- Adds the members of the class. -/
def addMembers (mode : FailureMode) : ClassFile.Change Unit := do
  let _ ← ClassFile.addField (Access.isPrivate ||| Access.isStatic) clientField clientType
  let _ ← ClassFile.addField (Access.isPublic ||| Access.isStatic ||| Access.isVolatile)
    limitedField "Z"
  let superInit ← ClassFile.inPool (ConstantPool.addMethodRef "java/lang/Object" "<init>" "()V")
  let initCode := Code.ofInstructions [
    .simple Opcode.aload0, .constant Opcode.invokespecial superInit, .simple Opcode.vreturn]
  let _ ← ClassFile.addMethod Access.isPrivate "<init>" "()V" (some initCode)
  let refs ← ClassFile.inPool addRefs
  let check ← Edit.lift (checkCode mode refs)
  let _ ← ClassFile.addMethod (Access.isPublic ||| Access.isStatic ||| Access.isSynchronized)
    gateName.method gateName.descriptor (some check)

/-- The gate class for a failure mode. -/
def build (mode : FailureMode) : Except ClassError ClassFile := do
  let c ← ClassFile.empty gateName.owner "java/lang/Object"
    (Access.isPublic ||| Access.isFinal ||| Access.isSuper) majorVersion
  match addMembers mode c with
  | .ok () c => return c
  | .error e _ => throw e

/-- The file of the gate class for a failure mode. -/
def file (mode : FailureMode) : Except ClassError Bytes := do
  (← build mode).encode

end JarGate.GateClass
