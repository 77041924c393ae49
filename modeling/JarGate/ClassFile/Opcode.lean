/-!
# Opcodes

The operation codes of the virtual machine as octets, the classes into which their operands divide
them, and how many stack slots an operation takes and leaves where its opcode alone decides that.
-/

namespace JarGate

/-- How many operand stack slots an instruction takes and how many it leaves. -/
structure StackEffect where
  pops : UInt16
  pushes : UInt16
  deriving DecidableEq, Repr

/-- A run of local variable slots: the first, and how many. -/
structure LocalSlots where
  first : UInt16
  width : UInt16
  deriving DecidableEq, Repr

namespace Opcode

def nop : UInt8 := 0x00
def aconstNull : UInt8 := 0x01
def iconst0 : UInt8 := 0x03
def iconst1 : UInt8 := 0x04
def lconst0 : UInt8 := 0x09
def fconst0 : UInt8 := 0x0b
def dconst0 : UInt8 := 0x0e
def bipush : UInt8 := 0x10
def sipush : UInt8 := 0x11
def ldc : UInt8 := 0x12
def ldcW : UInt8 := 0x13
def ldc2W : UInt8 := 0x14
def lload : UInt8 := 0x16
def dload : UInt8 := 0x18
def aload0 : UInt8 := 0x2a
def lstore : UInt8 := 0x37
def dstore : UInt8 := 0x39
def pop : UInt8 := 0x57
def iinc : UInt8 := 0x84
def ifne : UInt8 := 0x9a
def goto : UInt8 := 0xa7
def jsr : UInt8 := 0xa8
def ret : UInt8 := 0xa9
def tableswitch : UInt8 := 0xaa
def lookupswitch : UInt8 := 0xab
def ireturn : UInt8 := 0xac
def lreturn : UInt8 := 0xad
def freturn : UInt8 := 0xae
def dreturn : UInt8 := 0xaf
def areturn : UInt8 := 0xb0
def vreturn : UInt8 := 0xb1
def getstatic : UInt8 := 0xb2
def putstatic : UInt8 := 0xb3
def getfield : UInt8 := 0xb4
def putfield : UInt8 := 0xb5
def invokevirtual : UInt8 := 0xb6
def invokespecial : UInt8 := 0xb7
def invokestatic : UInt8 := 0xb8
def invokeinterface : UInt8 := 0xb9
def invokedynamic : UInt8 := 0xba
def new : UInt8 := 0xbb
def newarray : UInt8 := 0xbc
def anewarray : UInt8 := 0xbd
def athrow : UInt8 := 0xbf
def checkcast : UInt8 := 0xc0
def instanceof : UInt8 := 0xc1
def wide : UInt8 := 0xc4
def multianewarray : UInt8 := 0xc5
def ifnull : UInt8 := 0xc6
def ifnonnull : UInt8 := 0xc7
def gotoW : UInt8 := 0xc8
def jsrW : UInt8 := 0xc9

/-- Loads, stores and `ret` with a local variable operand. -/
def hasLocal (op : UInt8) : Bool :=
  (0x15 ≤ op && op ≤ 0x19) || (0x36 ≤ op && op ≤ 0x3a) || op == ret

/-- Instructions whose only operand is an index into the constant pool, of 16 bits. -/
def hasConstant (op : UInt8) : Bool :=
  (getstatic ≤ op && op ≤ invokestatic) || op == new || op == anewarray || op == checkcast ||
    op == instanceof

/-- Branches with an offset of 16 bits. -/
def isBranch (op : UInt8) : Bool :=
  (0x99 ≤ op && op ≤ jsr) || op == ifnull || op == ifnonnull

/-- Branches with an offset of 32 bits. -/
def isWideBranch (op : UInt8) : Bool :=
  op == gotoW || op == jsrW

/-- Whether execution never goes on with the next instruction. -/
def isTerminal (op : UInt8) : Bool :=
  op == goto || op == gotoW || op == ret || op == tableswitch || op == lookupswitch ||
    (ireturn ≤ op && op ≤ vreturn) || op == athrow

/-- The opcodes with each stack effect, as runs from a first to a last opcode. The members of the
field and method access group, `invokeinterface`, `invokedynamic` and `multianewarray` are missing,
because their operands decide, and so is `wide`, which is no instruction of its own. -/
def effects : List (StackEffect × List (UInt8 × UInt8)) := [
  (⟨0, 0⟩, [(0x00, 0x00), (0x84, 0x84), (0xa7, 0xa7), (0xa9, 0xa9), (0xb1, 0xb1), (0xc8, 0xc8)]),
  (⟨0, 1⟩, [(0x01, 0x08), (0x0b, 0x0d), (0x10, 0x13), (0x15, 0x15), (0x17, 0x17), (0x19, 0x1d),
    (0x22, 0x25), (0x2a, 0x2d), (0xa8, 0xa8), (0xbb, 0xbb), (0xc9, 0xc9)]),
  (⟨0, 2⟩, [(0x09, 0x0a), (0x0e, 0x0f), (0x14, 0x14), (0x16, 0x16), (0x18, 0x18), (0x1e, 0x21),
    (0x26, 0x29)]),
  (⟨1, 0⟩, [(0x36, 0x36), (0x38, 0x38), (0x3a, 0x3e), (0x43, 0x46), (0x4b, 0x4e), (0x57, 0x57),
    (0x99, 0x9e), (0xaa, 0xac), (0xae, 0xae), (0xb0, 0xb0), (0xbf, 0xbf), (0xc2, 0xc3),
    (0xc6, 0xc7)]),
  (⟨1, 1⟩, [(0x74, 0x74), (0x76, 0x76), (0x86, 0x86), (0x8b, 0x8b), (0x91, 0x93), (0xbc, 0xbe),
    (0xc0, 0xc1)]),
  (⟨1, 2⟩, [(0x59, 0x59), (0x85, 0x85), (0x87, 0x87), (0x8c, 0x8d)]),
  (⟨2, 0⟩, [(0x37, 0x37), (0x39, 0x39), (0x3f, 0x42), (0x47, 0x4a), (0x58, 0x58), (0x9f, 0xa6),
    (0xad, 0xad), (0xaf, 0xaf)]),
  (⟨2, 1⟩, [(0x2e, 0x2e), (0x30, 0x30), (0x32, 0x35), (0x60, 0x60), (0x62, 0x62), (0x64, 0x64),
    (0x66, 0x66), (0x68, 0x68), (0x6a, 0x6a), (0x6c, 0x6c), (0x6e, 0x6e), (0x70, 0x70),
    (0x72, 0x72), (0x78, 0x78), (0x7a, 0x7a), (0x7c, 0x7c), (0x7e, 0x7e), (0x80, 0x80),
    (0x82, 0x82), (0x88, 0x89), (0x8e, 0x8e), (0x90, 0x90), (0x95, 0x96)]),
  (⟨2, 2⟩, [(0x2f, 0x2f), (0x31, 0x31), (0x5f, 0x5f), (0x75, 0x75), (0x77, 0x77), (0x8a, 0x8a),
    (0x8f, 0x8f)]),
  (⟨2, 3⟩, [(0x5a, 0x5a)]),
  (⟨2, 4⟩, [(0x5c, 0x5c)]),
  (⟨3, 0⟩, [(0x4f, 0x4f), (0x51, 0x51), (0x53, 0x56)]),
  (⟨3, 2⟩, [(0x79, 0x79), (0x7b, 0x7b), (0x7d, 0x7d)]),
  (⟨3, 4⟩, [(0x5b, 0x5b)]),
  (⟨3, 5⟩, [(0x5d, 0x5d)]),
  (⟨4, 0⟩, [(0x50, 0x50), (0x52, 0x52)]),
  (⟨4, 1⟩, [(0x94, 0x94), (0x97, 0x98)]),
  (⟨4, 2⟩, [(0x61, 0x61), (0x63, 0x63), (0x65, 0x65), (0x67, 0x67), (0x69, 0x69), (0x6b, 0x6b),
    (0x6d, 0x6d), (0x6f, 0x6f), (0x71, 0x71), (0x73, 0x73), (0x7f, 0x7f), (0x81, 0x81),
    (0x83, 0x83)]),
  (⟨4, 6⟩, [(0x5e, 0x5e)])]

/-- The stack effect of an opcode, where the opcode alone decides it. -/
def stackEffect? (op : UInt8) : Option StackEffect :=
  (effects.find? fun row => row.2.any fun run => run.1 ≤ op && op ≤ run.2).map (·.1)

/-- The slots that a load or store with a built-in index touches. The opcodes come in blocks of
four, one block for each type; `long` and `double` are the second and the fourth. -/
def implicitLocal? (op : UInt8) : Option LocalSlots :=
  let block (rel : Nat) : Option LocalSlots :=
    some ⟨UInt16.ofNat (rel % 4), if rel / 4 = 1 ∨ rel / 4 = 3 then 2 else 1⟩
  if 0x1a ≤ op ∧ op ≤ 0x2d then block (op.toNat - 0x1a)
  else if 0x3b ≤ op ∧ op ≤ 0x4e then block (op.toNat - 0x3b)
  else none

/-- How many slots a load or store with an explicit index touches. -/
def localWidth (op : UInt8) : UInt16 :=
  if op == lload || op == dload || op == lstore || op == dstore then 2 else 1

end Opcode

end JarGate
