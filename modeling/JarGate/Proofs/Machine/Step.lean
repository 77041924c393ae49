import JarGate.ClassFile.Code
import JarGate.ClassFile.Descriptor

/-!
# The machine that runs method bodies

A small-step semantics of the instructions that the gate consists of: the prologues of patched methods
and the body of the gate class. Static fields and other methods are up to a host. The step function
has no answer for an instruction that the gate does not use, or for one that finds the wrong operands.
-/

namespace JarGate

/-- The instruction at an offset. -/
def Code.instructionAt? (c : Code) (offset : Nat) : Option Instruction :=
  (c.instructions.find? (·.offset == offset)).map Placed.instruction

/-- Whether a body starts with some instructions. -/
def Code.StartsWith (code : Code) (insns : List Instruction) : Prop :=
  ∀ p ∈ Instruction.placeFrom 0 insns, code.instructionAt? p.offset = some p.instruction

namespace Machine

/-- A value on the operand stack or in a local variable. Numbers with a fraction are known by their
bits, objects other than texts by a number. -/
inductive Value where
  | int (n : Int32)
  | long (n : Int64)
  | float (bits : UInt32)
  | double (bits : UInt64)
  | null
  | text (s : String)
  | object (id : Nat)
  deriving DecidableEq, Repr

namespace Value

/-- Whether a value takes two slots of the operand stack. -/
def isWide : Value → Bool
  | long _ | double _ => true
  | _ => false

/-- Whether a value is a reference. -/
def isReference : Value → Bool
  | null | text _ | object _ => true
  | _ => false

/-- The opcode that returns a value. -/
def returnOpcode : Value → UInt8
  | int _ => Opcode.ireturn
  | long _ => Opcode.lreturn
  | float _ => Opcode.freturn
  | double _ => Opcode.dreturn
  | null | text _ | object _ => Opcode.areturn

end Value

/-- How a call ends. -/
inductive CallOutcome where
  /-- The call returns, with a value unless the method has no result. -/
  | returns (result : Option Value)
  | throws (exception : Value)
  deriving DecidableEq, Repr

/-- What a method body finds around it, in a state `ω` of the world. -/
structure Host (ω : Type) where
  getStatic : MemberRef → ω → Value
  putStatic : MemberRef → Value → ω → ω
  /-- A call of another method; the receiver, if there is one, comes first. -/
  call : MemberRef → List Value → ω → CallOutcome × ω
  /-- Whether an exception is an instance of a class. -/
  isInstance : Value → String → Bool

variable {ω : Type}

/-- A machine in the middle of a method body. -/
structure State (ω : Type) where
  pc : Nat
  stack : List Value
  locals : Nat → Value
  world : ω

/-- What an instruction does. -/
inductive Effect (ω : Type) where
  | falls (stack : List Value) (world : ω)
  | jumps (target : Nat) (stack : List Value)
  | returns (op : UInt8) (result : Option Value)
  | throws (exception : Value) (world : ω)

/-- What follows a step: the body goes on, or it is left by an instruction that returns or by an
exception. -/
inductive Next (ω : Type) where
  | runs (s : State ω)
  | returned (op : UInt8) (result : Option Value) (world : ω)
  | thrown (exception : Value) (world : ω)

/-- The value that an opcode pushes. -/
def pushed? (op : UInt8) : Option Value :=
  if op = Opcode.aconstNull then some .null
  else if op = Opcode.iconst0 then some (.int 0)
  else if op = Opcode.iconst1 then some (.int 1)
  else if op = Opcode.lconst0 then some (.long 0)
  else if op = Opcode.fconst0 then some (.float 0)
  else if op = Opcode.dconst0 then some (.double 0)
  else none

/-- The effect of an instruction of a single octet. -/
def simpleEffect (op : UInt8) (stack : List Value) (world : ω) : Option (Effect ω) :=
  if op = Opcode.nop then some (.falls stack world)
  else if op = Opcode.vreturn then some (.returns op none)
  else
    match pushed? op, stack with
    | some v, _ => some (.falls (v :: stack) world)
    | none, [] => none
    | none, v :: rest =>
      if op = Opcode.pop then if v.isWide then none else some (.falls rest world)
      else if op = v.returnOpcode then some (.returns op (some v))
      else none

/-- The text of a `String` constant. -/
def text? (pool : ConstantPool) (index : UInt16) : Option String :=
  match pool.get index with
  | .ok (.string value) => (pool.utf8 value).toOption
  | _ => none

/-- The effect of pushing a constant. -/
def loadEffect (pool : ConstantPool) (index : UInt16) (stack : List Value) (world : ω) :
    Option (Effect ω) :=
  (text? pool index).map fun s => .falls (.text s :: stack) world

/-- The effect of a call with some receivers. -/
def callEffect (host : Host ω) (ref : MemberRef) (receivers : Nat) (stack : List Value) (world : ω) :
    Option (Effect ω) :=
  match MethodDescriptor.parse ref.descriptor with
  | .error _ => none
  | .ok descriptor =>
    let count := receivers + descriptor.params.length
    if stack.length < count then none
    else
      match host.call ref (stack.take count).reverse world with
      | (.throws e, world) => some (.throws e world)
      | (.returns result, world) =>
        if result.isSome = descriptor.result.isSome then
          some (.falls (result.toList ++ stack.drop count) world)
        else none

/-- The effect of an instruction on a member of a class. -/
def memberEffect (host : Host ω) (op : UInt8) (ref : MemberRef) (stack : List Value) (world : ω) :
    Option (Effect ω) :=
  if op = Opcode.getstatic then some (.falls (host.getStatic ref world :: stack) world)
  else if op = Opcode.putstatic then
    match stack with
    | v :: rest => some (.falls rest (host.putStatic ref v world))
    | [] => none
  else if op = Opcode.invokestatic then callEffect host ref 0 stack world
  else if op = Opcode.invokevirtual then callEffect host ref 1 stack world
  else none

/-- The effect of a branch. -/
def branchEffect (op : UInt8) (target : Nat) (stack : List Value) (world : ω) : Option (Effect ω) :=
  if op = Opcode.goto then some (.jumps target stack)
  else
    match stack with
    | [] => none
    | v :: rest =>
      let go (taken : Bool) : Effect ω := if taken then .jumps target rest else .falls rest world
      match v with
      | .int n => if op = Opcode.ifne then some (go (n != 0)) else none
      | v => if op = Opcode.ifnonnull ∧ v.isReference then some (go (v != .null)) else none

/-- The effect of an instruction. -/
def effect (host : Host ω) (pool : ConstantPool) (insn : Instruction) (stack : List Value) (world : ω) :
    Option (Effect ω) :=
  match insn with
  | .simple op => simpleEffect op stack world
  | .ldc index => loadEffect pool index.toUInt16 stack world
  | .ldcW index => loadEffect pool index stack world
  | .constant op index =>
    match pool.memberRef index with
    | .ok ref => memberEffect host op ref stack world
    | .error _ => none
  | .branch op target => branchEffect op target stack world
  | _ => none

/-- Whether a handler catches an exception that is thrown at an offset. -/
def catches (host : Host ω) (pool : ConstantPool) (pc : Nat) (exception : Value) (h : Handler) : Bool :=
  h.start ≤ pc && pc < h.stop &&
    (h.catchType == 0 || (pool.className h.catchType).toOption.any (host.isInstance exception))

/-- One step of the machine. -/
def step (host : Host ω) (pool : ConstantPool) (code : Code) (s : State ω) : Option (Next ω) :=
  (code.instructionAt? s.pc).bind fun insn =>
    (effect host pool insn s.stack s.world).map fun
      | .falls stack world => .runs { s with pc := s.pc + insn.size s.pc, stack, world }
      | .jumps target stack => .runs { s with pc := target, stack }
      | .returns op result => .returned op result s.world
      | .throws exception world =>
        match code.handlers.find? (catches host pool s.pc exception) with
        | some h => .runs { s with pc := h.handler, stack := [exception], world }
        | none => .thrown exception world

/-- A run of at least one step; the trace gives the offsets of the instructions that are run. -/
inductive Steps (host : Host ω) (pool : ConstantPool) (code : Code) :
    List Nat → State ω → Next ω → Prop
  | last {s : State ω} {n : Next ω} (h : step host pool code s = some n) :
      Steps host pool code [s.pc] s n
  | cons {s t : State ω} {n : Next ω} {trace : List Nat} (h : step host pool code s = some (.runs t))
      (rest : Steps host pool code trace t n) : Steps host pool code (s.pc :: trace) s n

/-- Runs follow one another. -/
theorem Steps.trans {host : Host ω} {pool : ConstantPool} {code : Code} {s t : State ω} {n : Next ω}
    {trace trace' : List Nat} (h : Steps host pool code trace s (.runs t))
    (rest : Steps host pool code trace' t n) : Steps host pool code (trace ++ trace') s n := by
  generalize reached : Next.runs t = next at h
  induction h with
  | last first =>
      subst reached
      exact .cons first rest
  | cons first _ ih => exact .cons first (ih reached)

/-- A run of at least one step, through whichever instructions. -/
def Leads (host : Host ω) (pool : ConstantPool) (code : Code) (s : State ω) (n : Next ω) : Prop :=
  ∃ trace, Steps host pool code trace s n

section

variable {host : Host ω} {pool : ConstantPool} {code : Code} {s t : State ω} {n : Next ω}

theorem Leads.last (h : step host pool code s = some n) : Leads host pool code s n :=
  ⟨_, .last h⟩

theorem Leads.cons (h : step host pool code s = some (.runs t)) (rest : Leads host pool code t n) :
    Leads host pool code s n :=
  ⟨_, .cons h rest.choose_spec⟩

theorem Leads.trans (h : Leads host pool code s (.runs t)) (rest : Leads host pool code t n) :
    Leads host pool code s n :=
  ⟨_, h.choose_spec.trans rest.choose_spec⟩

end

/-- Whether a body was left. -/
def Next.isLeft : Next ω → Prop
  | .runs _ => False
  | .returned _ _ _ | .thrown _ _ => True

/-- There is only one way to run a body until it is left. -/
theorem Steps.unique {host : Host ω} {pool : ConstantPool} {code : Code} {s : State ω} {n m : Next ω}
    {trace trace' : List Nat} (h : Steps host pool code trace s n) (left : n.isLeft)
    (h' : Steps host pool code trace' s m) (left' : m.isLeft) : trace = trace' ∧ n = m := by
  induction h generalizing trace' with
  | last first =>
      cases h' with
      | last first' => exact ⟨rfl, Option.some.inj (first.symm.trans first')⟩
      | cons first' _ =>
          obtain rfl := Option.some.inj (first.symm.trans first')
          exact left.elim
  | cons first _ ih =>
      cases h' with
      | last first' =>
          obtain rfl := Option.some.inj (first.symm.trans first')
          exact left'.elim
      | cons first' rest' =>
          obtain ⟨⟩ := Option.some.inj (first.symm.trans first')
          obtain ⟨same, rfl⟩ := ih left rest'
          exact ⟨congrArg _ same, rfl⟩

/-! ### Calls whose outcome is known -/

/-- A call of a method with some receivers and parameters that returns a value. -/
theorem callEffect_of_returns {host : Host ω} {ref : MemberRef} {receivers : Nat}
    {descriptor : MethodDescriptor} {stack : List Value} {result : Value} {world world' : ω}
    (args : List Value)
    (parsed : MethodDescriptor.parse ref.descriptor = .ok descriptor) (known : descriptor.result.isSome)
    (count : args.length = receivers + descriptor.params.length)
    (answer : host.call ref args.reverse world = (.returns (some result), world')) :
    callEffect host ref receivers (args ++ stack) world = some (.falls (result :: stack) world') := by
  simp [callEffect, parsed, ← count, answer, known]

theorem callEffect_of_throws {host : Host ω} {ref : MemberRef} {receivers : Nat}
    {descriptor : MethodDescriptor} {stack : List Value} {exception : Value} {world world' : ω}
    (args : List Value)
    (parsed : MethodDescriptor.parse ref.descriptor = .ok descriptor)
    (count : args.length = receivers + descriptor.params.length)
    (answer : host.call ref args.reverse world = (.throws exception, world')) :
    callEffect host ref receivers (args ++ stack) world = some (.throws exception world') := by
  simp [callEffect, parsed, ← count, answer]

/-! ### Steps whose instruction is known -/

section

variable {ω : Type} {host : Host ω} {pool : ConstantPool} {code : Code} {s : State ω}
  {insn : Instruction} {stack : List Value} {world : ω}

theorem step_falls (found : code.instructionAt? s.pc = some insn)
    (falls : effect host pool insn s.stack s.world = some (.falls stack world)) :
    step host pool code s = some (.runs { s with pc := s.pc + insn.size s.pc, stack, world }) := by
  rw [step, found, Option.bind_some, falls]
  rfl

theorem step_jumps {target : Nat} (found : code.instructionAt? s.pc = some insn)
    (jumps : effect host pool insn s.stack s.world = some (.jumps target stack)) :
    step host pool code s = some (.runs { s with pc := target, stack }) := by
  rw [step, found, Option.bind_some, jumps]
  rfl

theorem step_returns {op : UInt8} {result : Option Value} (found : code.instructionAt? s.pc = some insn)
    (returns : effect host pool insn s.stack s.world = some (.returns op result)) :
    step host pool code s = some (.returned op result s.world) := by
  rw [step, found, Option.bind_some, returns]
  rfl

theorem step_caught {exception : Value} {handler : Handler}
    (found : code.instructionAt? s.pc = some insn)
    (throws : effect host pool insn s.stack s.world = some (.throws exception world))
    (caught : code.handlers.find? (catches host pool s.pc exception) = some handler) :
    step host pool code s = some (.runs { s with pc := handler.handler, stack := [exception], world }) := by
  rw [step, found, Option.bind_some, throws]
  simp only [Option.map_some, caught]

/-! ### Runs whose first instruction is known -/

variable {o : Nat} {before : List Value} {locals : Nat → Value} {world' : ω} {n : Next ω}

theorem Leads.falls (found : code.instructionAt? o = some insn)
    (falls : effect host pool insn before world = some (.falls stack world'))
    (rest : Leads host pool code ⟨o + insn.size o, stack, locals, world'⟩ n) :
    Leads host pool code ⟨o, before, locals, world⟩ n :=
  .cons (step_falls found falls) rest

theorem Leads.jumps {target : Nat} (found : code.instructionAt? o = some insn)
    (jumps : effect host pool insn before world = some (.jumps target stack))
    (rest : Leads host pool code ⟨target, stack, locals, world⟩ n) :
    Leads host pool code ⟨o, before, locals, world⟩ n :=
  .cons (step_jumps found jumps) rest

theorem Leads.returns {op : UInt8} {result : Option Value} (found : code.instructionAt? o = some insn)
    (returns : effect host pool insn before world = some (.returns op result)) :
    Leads host pool code ⟨o, before, locals, world⟩ (.returned op result world) :=
  .last (step_returns found returns)

theorem Leads.caught {exception : Value} {handler : Handler}
    (found : code.instructionAt? o = some insn)
    (throws : effect host pool insn before world = some (.throws exception world'))
    (caught : code.handlers.find? (catches host pool o exception) = some handler)
    (rest : Leads host pool code ⟨handler.handler, [exception], locals, world'⟩ n) :
    Leads host pool code ⟨o, before, locals, world⟩ n :=
  .cons (step_caught found throws caught) rest

end

end Machine

end JarGate
