import JarGate.ClassFile.Cursor
import JarGate.ClassFile.Opcode
import JarGate.Edit

/-!
# Instructions

An instruction names the places it may branch to by their offset in the code array, so moving code
around only needs the offsets to be moved (`moveTargets`). Relative distances and the padding of
switches come into being when an instruction is written at a place.
-/

namespace JarGate

/-- An instruction of the virtual machine. Targets are offsets in the code array. -/
inductive Instruction where
  /-- An instruction of a single octet. -/
  | simple (op : UInt8)
  | bipush (value : Int8)
  | sipush (value : Int16)
  | ldc (index : UInt8)
  | ldcW (index : UInt16)
  | ldc2W (index : UInt16)
  /-- A load, a store or `ret`; `wide` tells which of its two forms is meant. -/
  | localVar (op : UInt8) (index : UInt16) (wide : Bool)
  | iinc (index : UInt16) (delta : Int16) (wide : Bool)
  /-- An instruction whose only operand is an index into the constant pool. -/
  | constant (op : UInt8) (index : UInt16)
  | invokeInterface (index : UInt16) (count : UInt8)
  | invokeDynamic (index : UInt16)
  | newArray (type : UInt8)
  | multiNewArray (index : UInt16) (dimensions : UInt8)
  /-- A branch whose distance takes 16 bits. -/
  | branch (op : UInt8) (target : Nat)
  /-- A branch whose distance takes 32 bits. -/
  | wideBranch (op : UInt8) (target : Nat)
  | tableSwitch (default : Nat) (low high : Int32) (targets : List Nat)
  | lookupSwitch (default : Nat) (pairs : List (Int32 × Nat))
  deriving DecidableEq, Repr

/-- An instruction at an offset. -/
structure Placed where
  offset : Nat
  instruction : Instruction
  deriving DecidableEq, Repr

namespace Instruction

/-- The operation code. -/
def opcode : Instruction → UInt8
  | simple op => op
  | bipush _ => Opcode.bipush
  | sipush _ => Opcode.sipush
  | ldc _ => Opcode.ldc
  | ldcW _ => Opcode.ldcW
  | ldc2W _ => Opcode.ldc2W
  | localVar op _ _ => op
  | iinc _ _ _ => Opcode.iinc
  | constant op _ => op
  | invokeInterface _ _ => Opcode.invokeinterface
  | invokeDynamic _ => Opcode.invokedynamic
  | newArray _ => Opcode.newarray
  | multiNewArray _ _ => Opcode.multianewarray
  | branch op _ => op
  | wideBranch op _ => op
  | tableSwitch _ _ _ _ => Opcode.tableswitch
  | lookupSwitch _ _ => Opcode.lookupswitch

/-- How many octets follow the opcode of a switch at `pos` so that its operands start at a multiple
of four. -/
def switchPadding (pos : Nat) : Nat :=
  (4 - (pos + 1) % 4) % 4

/-- The number of octets an instruction takes at `pos`. Only switches depend on the place. -/
def size (pos : Nat) : Instruction → Nat
  | simple _ => 1
  | bipush _ | ldc _ | newArray _ => 2
  | sipush _ | ldcW _ | ldc2W _ => 3
  | localVar _ _ wide => if wide then 4 else 2
  | iinc _ _ wide => if wide then 6 else 3
  | constant _ _ | branch _ _ => 3
  | multiNewArray _ _ => 4
  | invokeInterface _ _ | invokeDynamic _ | wideBranch _ _ => 5
  | tableSwitch _ _ _ targets => 1 + switchPadding pos + 12 + 4 * targets.length
  | lookupSwitch _ pairs => 1 + switchPadding pos + 8 + 8 * pairs.length

/-- The offsets that control may branch to, in the order in which they are written. -/
def targets : Instruction → List Nat
  | branch _ target | wideBranch _ target => [target]
  | tableSwitch default _ _ targets => default :: targets
  | lookupSwitch default pairs => default :: pairs.map (·.2)
  | _ => []

/-! ### Moving targets -/

/-- Where a partial map sends an offset; it is a fault to ask for one it does not cover. -/
def moved (move : Nat → Option Nat) (offset : Nat) : Except ClassError Nat :=
  match move offset with
  | some o => .ok o
  | none => .error (.malformed (.notBoundary offset))

/-- Moves the targets one after another. -/
def moveTargets (move : Nat → Option Nat) : Edit ClassError Instruction Unit := fun insn =>
  match insn with
  | branch op target => Edit.replace ((moved move target).map (branch op)) insn
  | wideBranch op target => Edit.replace ((moved move target).map (wideBranch op)) insn
  | tableSwitch default low high targets =>
    match moved move default with
    | .error e => .error e insn
    | .ok default =>
      Edit.within (fun _ => targets) (fun targets _ => tableSwitch default low high targets)
        (Edit.each fun t => Edit.replace (moved move t) t) insn
  | lookupSwitch default pairs =>
    match moved move default with
    | .error e => .error e insn
    | .ok default =>
      Edit.within (fun _ => pairs) (fun pairs _ => lookupSwitch default pairs)
        (Edit.each fun p => Edit.replace ((moved move p.2).map (p.1, ·)) p) insn
  | other => .ok () other

/-! ### Writing -/

/-- The octet of a local variable index in the short forms. -/
def narrowIndex (index : UInt16) : Except ClassError UInt8 :=
  if index.toNat < 0x100 then .ok (UInt8.ofNat index.toNat)
  else .error (.overflow (.narrowLocal index))

/-- The octet of an increment in the short form. -/
def narrowDelta (delta : Int16) : Except ClassError UInt8 :=
  if -128 ≤ delta.toInt ∧ delta.toInt < 128 then .ok delta.toInt8.toUInt8
  else .error (.overflow .iincDelta)

/-- The distance from `pos` to a target in 16 bits. -/
def distance16 (pos target : Nat) : Except ClassError Bytes :=
  let d : Int := (target : Int) - pos
  if -0x8000 ≤ d ∧ d < 0x8000 then .ok (be16 (Int16.ofInt d).toUInt16)
  else .error (.overflow (.branch pos target))

/-- The distance from `pos` to a target in 32 bits. -/
def distance32 (pos target : Nat) : Bytes :=
  be32 (Int32.ofInt ((target : Int) - pos)).toUInt32

/-- The octets of an instruction at `pos`. -/
def write (pos : Nat) (insn : Instruction) : Except ClassError Bytes :=
  match insn with
  | simple op => .ok [op]
  | bipush value => .ok [insn.opcode, value.toUInt8]
  | sipush value => .ok (insn.opcode :: be16 value.toUInt16)
  | ldc index => .ok [insn.opcode, index]
  | ldcW index | ldc2W index => .ok (insn.opcode :: be16 index)
  | localVar op index wide =>
    if wide then .ok (Opcode.wide :: op :: be16 index)
    else do return [op, ← narrowIndex index]
  | iinc index delta wide =>
    if wide then .ok (Opcode.wide :: insn.opcode :: be16 index ++ be16 delta.toUInt16)
    else do return [insn.opcode, ← narrowIndex index, ← narrowDelta delta]
  | constant op index => .ok (op :: be16 index)
  | invokeInterface index count => .ok (insn.opcode :: be16 index ++ [count, 0])
  | invokeDynamic index => .ok (insn.opcode :: be16 index ++ [0, 0])
  | newArray type => .ok [insn.opcode, type]
  | multiNewArray index dimensions => .ok (insn.opcode :: be16 index ++ [dimensions])
  | branch op target => do return op :: (← distance16 pos target)
  | wideBranch op target => .ok (op :: distance32 pos target)
  | tableSwitch default low high targets =>
    .ok (insn.opcode :: List.replicate (switchPadding pos) 0 ++ distance32 pos default ++
      be32 low.toUInt32 ++ be32 high.toUInt32 ++ targets.flatMap (distance32 pos))
  | lookupSwitch default pairs =>
    .ok (insn.opcode :: List.replicate (switchPadding pos) 0 ++ distance32 pos default ++
      be32 (UInt32.ofNat pairs.length) ++
      pairs.flatMap fun (key, target) => be32 key.toUInt32 ++ distance32 pos target)

/-- `writeOnto done pos list` writes placed instructions from `pos` on, behind the chunks of `done`,
of which the last comes first. Each instruction has to stand where the ones before it end. -/
def writeOnto (done : List Bytes) (pos : Nat) : List Placed → Except ClassError Bytes
  | [] => .ok done.reverse.flatten
  | p :: ps =>
    if pos = p.offset then
      match p.instruction.write p.offset with
      | .ok chunk => writeOnto (chunk :: done) (pos + chunk.length) ps
      | .error e => .error e
    else .error (.malformed (.displaced p.offset pos))

/-- The code array of placed instructions. -/
def writeAll (placed : List Placed) : Except ClassError Bytes :=
  writeOnto [] 0 placed

/-- Places instructions one after another from an offset on, behind those of `done` reversed. -/
def placeOnto (done : List Placed) (pos : Nat) : List Instruction → List Placed
  | [] => done.reverse
  | i :: is => placeOnto (⟨pos, i⟩ :: done) (pos + i.size pos) is

/-- Places instructions one after another from an offset on. -/
def placeFrom (pos : Nat) (insns : List Instruction) : List Placed :=
  placeOnto [] pos insns

end Instruction

end JarGate
