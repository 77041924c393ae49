import JarGate.ClassFile.Basic
import JarGate.License.Mode

/-!
# Injecting the gate call

The code that asks the license gate is put in front of the body of a method:

    nop …                        fills up to a multiple of four octets
    invokestatic gate.check()Z
    ifne L                       in the early-return shape
    exit …                       a return, or a zero value and its return
    L: the body as it was

or, in the call-only shape, the call and a `pop`. Because the length is a multiple of four, the
switches of the body keep their padding, and everything moves by exactly that length.
-/

namespace JarGate

/-- The names of the license gate. -/
structure GateName where
  owner : String
  method : String
  descriptor : String

/-- The gate that entry points ask. -/
def gateName : GateName := ⟨"jarlock/runtime/LicenseGate", "check", "()Z"⟩

/-- The entry of a package that holds the gate. -/
def gateEntry : String := gateName.owner ++ ".class"

/-- Failures of injecting the gate call. -/
inductive InjectError where
  | unsupportedReturn (type : String)
  | alreadyInjected
  | noCode
  | classError (error : ClassError)
  deriving DecidableEq, Repr

namespace InjectError

/-- The full text of an error. -/
def message : InjectError → String
  | unsupportedReturn type =>
    s!"cannot exit early from a method returning {type}; approximate defaults are disabled"
  | alreadyInjected => "method already calls the license gate"
  | noCode => "method has no code"
  | classError error => error.message

/-- Whether the method is left out, rather than the whole patch given up. -/
def isRecoverable : InjectError → Bool
  | unsupportedReturn _ | alreadyInjected => true
  | _ => false

end InjectError

/-- What the injected code is to look like. -/
structure PrologueOptions where
  shape : PrologueShape
  /-- Whether a method may be left with a zero value its callers may not expect. -/
  approximateDefaults : Bool
  deriving DecidableEq, Repr

namespace Prologue

open Instruction (simple)

/-- The instructions that leave a method with a zero value of its result type. -/
def exitSequence (result : Option FieldType) (approximate : Bool) :
    Except InjectError (List Instruction) :=
  match result with
  | none => .ok [simple Opcode.vreturn]
  | some .boolean => .ok [simple Opcode.iconst0, simple Opcode.ireturn]
  | some t =>
    if approximate then
      .ok <| match t with
      | .long => [simple Opcode.lconst0, simple Opcode.lreturn]
      | .float => [simple Opcode.fconst0, simple Opcode.freturn]
      | .double => [simple Opcode.dconst0, simple Opcode.dreturn]
      | .object _ | .array _ => [simple Opcode.aconstNull, simple Opcode.areturn]
      | _ => [simple Opcode.iconst0, simple Opcode.ireturn]
    else .error (.unsupportedReturn t.print)

/-- How many octets are missing to a multiple of four. -/
def padding (len : Nat) : Nat :=
  (4 - len % 4) % 4

/-- How many octets some instructions take that do not depend on their place. -/
def sizeOf (insns : List Instruction) : Nat :=
  insns.foldl (fun len insn => len + insn.size 0) 0

/-- The call of the gate through a reference in the pool. -/
def gateCall (gateRef : UInt16) : Instruction :=
  .constant Opcode.invokestatic gateRef

/-- The injected code. The branch of the early-return shape goes to the first octet after it. -/
def build (gateRef : UInt16) (shape : PrologueShape) (exit : List Instruction) :
    List Instruction :=
  match shape with
  | .callOnly =>
    let body := [gateCall gateRef, simple Opcode.pop]
    List.replicate (padding (sizeOf body)) (simple Opcode.nop) ++ body
  | .earlyReturn =>
    let len := sizeOf [gateCall gateRef] + 3 + sizeOf exit
    List.replicate (padding len) (simple Opcode.nop) ++
      gateCall gateRef :: .branch Opcode.ifne (len + padding len) :: exit

/-- Whether an instruction calls the gate. -/
def isGateCall (pool : ConstantPool) : Instruction → Bool
  | .constant op index =>
    op == Opcode.invokestatic &&
      match pool.memberRef index with
      | .ok r => r.owner == gateName.owner && r.name == gateName.method &&
          r.descriptor == gateName.descriptor
      | .error _ => false
  | _ => false

/-- Whether code starts, after any `nop`, with a call of the gate. -/
def callsGateFirst (pool : ConstantPool) (code : Code) : Bool :=
  match code.instructions.find? fun p => p.instruction != simple Opcode.nop with
  | some p => isGateCall pool p.instruction
  | none => false

/-- An edit of a class that injects the gate call. -/
abbrev Injection (α : Type) := Edit InjectError ClassFile α

/-- An edit of a class under the errors of an injection. -/
def ofChange {α : Type} (e : ClassFile.Change α) : Injection α :=
  Edit.mapError .classError e

/-- A lookup under the errors of an injection. -/
def ofLookup {α : Type} (x : Except ClassError α) : Injection α :=
  ofChange (Edit.lift x)

/-- Replaces the body of a method. -/
def setCode (index : Nat) (method : MethodInfo) (code : Code) : Injection Unit :=
  modify fun c => c.setMethod index (method.setCode code)

/-- Injects the gate call into the method at a position, and answers how many octets it took. -/
def inject (index : Nat) (options : PrologueOptions) : Injection Nat := do
  let c ← get
  match c.methods[index]? with
  | none => throw .noCode
  | some method =>
    let name ← ofLookup (c.methodName method)
    let descriptor ← ofLookup (do MethodDescriptor.parse (← c.methodDescriptor method))
    match method.code? with
    | none => throw .noCode
    | some code =>
      if callsGateFirst c.pool code then throw .alreadyInjected
      let exit ← match options.shape with
        | .earlyReturn => Edit.lift (exitSequence descriptor.result options.approximateDefaults)
        | .callOnly => pure []
      let className ← ofLookup c.name
      let gateRef ← ofChange <| ClassFile.inPool <|
        ConstantPool.addMethodRef gateName.owner gateName.method gateName.descriptor
      let prologue := build gateRef options.shape exit
      if c.requiresStackMap && (code.stackMap?.isSome || options.shape == .earlyReturn) then
        let initial ← ofChange <| ClassFile.inPool <|
          Frame.initialLocals className method.isStatic name descriptor
        let tableName ← ofChange <| ClassFile.inPool <| ConstantPool.addUtf8 "StackMapTable"
        let (code, len) := code.insertAt 0 prologue
        setCode index method code
        let live := match options.shape with
          | .earlyReturn => some (FrameState.entry initial)
          | .callOnly => none
        let frames ← ofLookup (Frame.splice (code.stackMap?.getD []) initial 0 len live)
        setCode index method (code.setStackMap tableName frames)
        return len
      else
        let (code, len) := code.insertAt 0 prologue
        setCode index method code
        return len

end Prologue

end JarGate
