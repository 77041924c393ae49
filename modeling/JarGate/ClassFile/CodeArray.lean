import JarGate.ClassFile.Instruction
import Std.Data.HashSet.Basic

/-!
# Reading code arrays

Reads the instructions of a code array. Every branch has to stay inside the array and to land on the
first octet of an instruction.
-/

namespace JarGate

namespace Instruction

/-- The place at a distance from `pos` in code of some length. -/
def targetAt (pos length : Nat) (distance : Int) : Decoder Nat :=
  let t : Int := pos + distance
  if 0 ≤ t ∧ t < length then return t.toNat
  else Decoder.fault (.branchOutside pos t length)

/-- Reads a target that is given by a distance of 32 bits. -/
def readTarget (pos length : Nat) : Decoder Nat := do
  targetAt pos length (← Decoder.i32).toInt

/-- Reads what follows the prefix that widens the operands of an instruction. -/
def readWide (pos : Nat) : Decoder Instruction := do
  let op ← Decoder.u8
  if Opcode.hasLocal op then return localVar op (← Decoder.u16) true
  else if op = Opcode.iinc then return iinc (← Decoder.u16) (← Decoder.i16) true
  else Decoder.fault (.wideOpcode op pos)

/-- Reads the operands of a switch over a range of keys. -/
def readTableSwitch (pos length : Nat) : Decoder Instruction := do
  Decoder.align4
  let default ← readTarget pos length
  let low ← Decoder.i32
  let high ← Decoder.i32
  if high < low then Decoder.fault (.switchBounds pos high low)
  let count := (high.toInt - low.toInt + 1).toNat
  if hasAtLeast (count * 4) (← get).rest then
    return tableSwitch default low high (← Decoder.many count (readTarget pos length))
  else Decoder.fault (.switchTruncated pos)

/-- Reads the operands of a switch over a set of keys. -/
def readLookupSwitch (pos length : Nat) : Decoder Instruction := do
  Decoder.align4
  let default ← readTarget pos length
  let count ← Decoder.i32
  if 0 ≤ count.toInt ∧ hasAtLeast (count.toInt.toNat * 8) (← get).rest then
    let pair : Decoder (Int32 × Nat) := do
      return (← Decoder.i32, ← readTarget pos length)
    return lookupSwitch default (← Decoder.many count.toInt.toNat pair)
  else Decoder.fault (.pairCount pos count)

/-- Reads the instruction at the current position of code of some length. -/
def read (length : Nat) : Decoder Instruction := do
  let pos ← Decoder.position
  let op ← Decoder.u8
  if op = Opcode.bipush then return bipush (← Decoder.i8)
  else if op = Opcode.sipush then return sipush (← Decoder.i16)
  else if op = Opcode.ldc then return ldc (← Decoder.u8)
  else if op = Opcode.ldcW then return ldcW (← Decoder.u16)
  else if op = Opcode.ldc2W then return ldc2W (← Decoder.u16)
  else if Opcode.hasLocal op then return localVar op (← Decoder.u8).toUInt16 false
  else if op = Opcode.iinc then
    return iinc (← Decoder.u8).toUInt16 (← Decoder.i8).toInt16 false
  else if op = Opcode.wide then readWide pos
  else if Opcode.hasConstant op then return constant op (← Decoder.u16)
  else if op = Opcode.invokeinterface then
    let index ← Decoder.u16
    let count ← Decoder.u8
    let _ ← Decoder.u8
    return invokeInterface index count
  else if op = Opcode.invokedynamic then
    let index ← Decoder.u16
    let _ ← Decoder.u16
    return invokeDynamic index
  else if op = Opcode.newarray then return newArray (← Decoder.u8)
  else if op = Opcode.multianewarray then
    return multiNewArray (← Decoder.u16) (← Decoder.u8)
  else if Opcode.isBranch op then
    return branch op (← targetAt pos length (← Decoder.i16).toInt)
  else if Opcode.isWideBranch op then return wideBranch op (← readTarget pos length)
  else if op = Opcode.tableswitch then readTableSwitch pos length
  else if op = Opcode.lookupswitch then readLookupSwitch pos length
  else if (Opcode.stackEffect? op).isSome then return simple op
  else Decoder.fault (.badOpcode op pos)

/-- Reads instructions to the end of the code, behind those of `done` reversed. An instruction takes
at least one octet, so as many rounds as octets are enough. -/
def readOnto (length : Nat) : Nat → List Placed → Cursor → Except ClassError (List Placed)
  | 0, done, _ => .ok done.reverse
  | rounds + 1, done, c =>
    if c.atEnd then .ok done.reverse
    else
      match read length c with
      | .error e => .error e
      | .ok (insn, next) => readOnto length rounds (⟨c.pos, insn⟩ :: done) next

/-- The offsets of placed instructions. -/
def boundaries (placed : List Placed) : Std.HashSet Nat :=
  placed.foldl (fun set p => set.insert p.offset) ∅

/-- The first branch that does not land on an instruction. -/
def strayBranch? (starts : Std.HashSet Nat) : List Placed → Option Fault
  | [] => none
  | p :: ps =>
    match p.instruction.targets.find? fun t => !starts.contains t with
    | some t => some (.branchInside p.offset t)
    | none => strayBranch? starts ps

/-- The instructions of a code array. -/
def readAll (code : Bytes) : Except ClassError (List Placed) := do
  let placed ← readOnto code.length code.length [] (Cursor.ofBytes code)
  match strayBranch? (boundaries placed) placed with
  | some why => throw (.malformed why)
  | none => return placed

end Instruction

end JarGate
