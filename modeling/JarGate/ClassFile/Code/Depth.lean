import JarGate.ClassFile.Code

/-!
# Stack depth and local variables

How deep the operand stack of a method gets on any path through its code, and how many local
variable slots it needs. Control is followed from the first instruction and from every handler; each
instruction is visited once, with the first depth that reaches it.
-/

namespace JarGate

namespace Instruction

/-- The stack effect of a call through a reference to a method. -/
def callEffect (pool : ConstantPool) (index receiver : UInt16) : Except ClassError StackEffect := do
  let d ← MethodDescriptor.parse (← pool.memberRef index).descriptor
  return ⟨d.argSlots + receiver, d.resultSlots⟩

/-- How many slots the field of a reference takes. -/
def fieldSlots (pool : ConstantPool) (index : UInt16) : Except ClassError UInt16 := do
  return (← FieldType.parse (← pool.memberRef index).descriptor).slots

/-- The stack effect that the opcode alone decides. -/
def plainEffect (op : UInt8) : Except ClassError StackEffect :=
  match Opcode.stackEffect? op with
  | some e => .ok e
  | none => .error (.malformed (.noStackEffect op))

/-- How many slots an instruction takes from the operand stack and how many it leaves there. -/
def stackEffect (pool : ConstantPool) (insn : Instruction) : Except ClassError StackEffect :=
  match insn with
  | constant op index =>
    if op = Opcode.getstatic then do return ⟨0, ← fieldSlots pool index⟩
    else if op = Opcode.putstatic then do return ⟨← fieldSlots pool index, 0⟩
    else if op = Opcode.getfield then do return ⟨1, ← fieldSlots pool index⟩
    else if op = Opcode.putfield then do return ⟨1 + (← fieldSlots pool index), 0⟩
    else if op = Opcode.invokevirtual ∨ op = Opcode.invokespecial then callEffect pool index 1
    else if op = Opcode.invokestatic then callEffect pool index 0
    else plainEffect op
  | invokeInterface index _ => callEffect pool index 1
  | invokeDynamic index => do
    let d ← MethodDescriptor.parse (← pool.dynamicDescriptor index)
    return ⟨d.argSlots, d.resultSlots⟩
  | multiNewArray _ dimensions => .ok ⟨dimensions.toUInt16, 1⟩
  | _ => plainEffect insn.opcode

/-- Whether an instruction calls a subroutine, so that the next instruction runs at the depth before
the return address was pushed. -/
def isSubroutineCall : Instruction → Bool
  | branch op _ => op == Opcode.jsr
  | wideBranch op _ => op == Opcode.jsrW
  | _ => false

/-- The end of the run of local variable slots that an instruction touches. -/
def localsEnd? : Instruction → Option Nat
  | localVar op index _ => some (index.toNat + (Opcode.localWidth op).toNat)
  | iinc index _ _ => some (index.toNat + 1)
  | simple op => (Opcode.implicitLocal? op).map fun s => s.first.toNat + s.width.toNat
  | _ => none

end Instruction

namespace Code

/-- The state of the search: the depth at which each instruction was reached, the instructions still
to be looked at, and the greatest depth so far. -/
structure Search where
  depth : Array (Option Nat)
  work : List Nat
  deepest : Nat

/-- Notes that an instruction is reached at a depth. Only the first depth counts. -/
def Search.reach (s : Search) (index depth : Nat) : Search :=
  match s.depth[index]? with
  | some none => { s with depth := s.depth.set! index (some depth), work := index :: s.work }
  | _ => s

/-- The position in the list of instructions of the one at an offset. -/
def indexAt (positions : Std.HashMap Nat Nat) (offset : Nat) : Except ClassError Nat :=
  match positions[offset]? with
  | some i => .ok i
  | none => .error (.malformed (.notBoundary offset))

/-- Notes that the instructions at some offsets are reached at a depth. -/
def reachAll (positions : Std.HashMap Nat Nat) (depth : Nat) :
    List Nat → Search → Except ClassError Search
  | [], s => .ok s
  | offset :: offsets, s =>
    match indexAt positions offset with
    | .error e => .error e
    | .ok i => reachAll positions depth offsets (s.reach i depth)

/-- Looks at one instruction and notes what it reaches. -/
def visit (pool : ConstantPool) (positions : Std.HashMap Nat Nat) (index : Nat)
    (insn : Instruction) (s : Search) : Except ClassError Search := do
  let before := (s.depth[index]?.join).getD 0
  let effect ← insn.stackEffect pool
  let after := before - effect.pops.toNat + effect.pushes.toNat
  let s := { s with deepest := max (max s.deepest before) after }
  let s ← reachAll positions after insn.targets s
  if insn.isSubroutineCall then return s.reach (index + 1) before
  else if Opcode.isTerminal insn.opcode then return s
  else return s.reach (index + 1) after

/-- Looks at instructions until none is left or the rounds are used up. No instruction becomes work
twice, so as many rounds as instructions are enough. -/
def explore (pool : ConstantPool) (positions : Std.HashMap Nat Nat) (insns : Array Placed) :
    Nat → Search → Except ClassError Search
  | 0, s => .ok s
  | rounds + 1, s =>
    match s.work with
    | [] => .ok s
    | index :: work =>
      let s := { s with work }
      match insns[index]? with
      | none => explore pool positions insns rounds s
      | some p =>
        match visit pool positions index p.instruction s with
        | .error e => .error e
        | .ok s => explore pool positions insns rounds s

/-- The positions in the list of instructions by offset. -/
def positions (insns : List Placed) : Std.HashMap Nat Nat :=
  insns.zipIdx.foldl (fun (map : Std.HashMap Nat Nat) (p, i) => map.insert p.offset i) ∅

/-- The greatest depth of the operand stack on the paths through the code. -/
def neededStack (c : Code) (pool : ConstantPool) : Except ClassError UInt16 :=
  if c.instructions.isEmpty then .ok 0
  else do
    let positions := positions c.instructions
    let insns := c.instructions.toArray
    let start : Search := ⟨Array.replicate insns.size none, [], 0⟩
    let start ← reachAll positions 1 (c.handlers.map Handler.handler) (start.reach 0 0)
    let s ← explore pool positions insns insns.size start
    if s.deepest < 0x10000 then return UInt16.ofNat s.deepest
    else throw (.overflow (.maxStack s.deepest))

/-- The number of local variable slots for the receiver, the arguments, and every slot that an
instruction touches, or the largest number that the format can hold. -/
def neededLocals (c : Code) (descriptor : MethodDescriptor) (isStatic : Bool) : UInt16 :=
  let arguments := descriptor.argSlots.toNat + (if isStatic then 0 else 1)
  let needed := c.instructions.foldl
    (fun n p => max n ((p.instruction.localsEnd?).getD 0)) arguments
  UInt16.ofNat (min needed 0xFFFF)

end Code

end JarGate
