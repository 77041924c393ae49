import JarGate.ClassFile.Code

/-!
# Assembling code

Code with named places. Branches name a label, `assemble` finds out where each label lies and gives
the branches their targets. A builder takes such code call by call and hands out the labels.
-/

namespace JarGate

/-- An item of code under construction. Labels are numbered. -/
inductive AsmItem where
  | insn (i : Instruction)
  /-- A branch of three octets to a label. -/
  | jump (op : UInt8) (label : Nat)
  /-- The place of the label is here, until it is bound again. -/
  | bind (label : Nat)
  deriving DecidableEq, Repr

namespace AsmItem

/-- An instruction of a single octet. -/
def op (op : UInt8) : AsmItem := .insn (.simple op)

/-- How many octets an item takes at `pos`. -/
def size (pos : Nat) : AsmItem → Nat
  | insn i => i.size pos
  | jump _ _ => 3
  | bind _ => 0

end AsmItem

namespace Code

/-- The places of labels after some items that start at `pos`. -/
def bindLabels (pos : Nat) (places : Array (Option Nat)) : List AsmItem → Array (Option Nat)
  | [] => places
  | .bind label :: items => bindLabels pos (places.setIfInBounds label (some pos)) items
  | item :: items => bindLabels (pos + item.size pos) places items

/-- The offsets of labels from a number on; each has to be bound. -/
def labelOffsets (label : Nat) : List (Option Nat) → Except ClassError (List Nat)
  | [] => .ok []
  | none :: _ => .error (.malformed (.unboundLabel label))
  | some offset :: rest => do return offset :: (← labelOffsets (label + 1) rest)

/-- The instruction that an item stands for, once the labels have offsets. -/
def resolve (offsets : Array Nat) : AsmItem → Option Instruction
  | .insn i => some i
  | .jump op label => some (.branch op (offsets.getD label 0))
  | .bind _ => none

/-- The code of items with a number of labels, and the offset of each label. -/
def assemble (labels : Nat) (items : List AsmItem) : Except ClassError (Code × List Nat) := do
  let places := bindLabels 0 (Array.replicate labels none) items
  let offsets ← labelOffsets 0 places.toList
  return (ofInstructions (items.filterMap (resolve offsets.toArray)), offsets)

end Code

/-! ### Builders -/

/-- A call to a builder of code. Labels are known by their numbers, in the order in which they were asked
for. -/
inductive BuilderCall where
  | label
  | push (i : Instruction)
  | op (op : UInt8)
  | jump (op : UInt8) (label : Nat)
  | bind (label : Nat)
  deriving DecidableEq, Repr

/-- A builder of code: the items so far and the number of labels that were asked for. -/
structure Builder where
  items : List AsmItem := []
  labels : Nat := 0

namespace Builder

/-- A call asks for a label or adds an item. -/
def call (b : Builder) : BuilderCall → Builder
  | .label => { b with labels := b.labels + 1 }
  | .push i => { b with items := b.items ++ [.insn i] }
  | .op o => { b with items := b.items ++ [.op o] }
  | .jump o l => { b with items := b.items ++ [.jump o l] }
  | .bind l => { b with items := b.items ++ [.bind l] }

/-- What calls make of an empty builder. -/
def run (calls : List BuilderCall) : Builder := calls.foldl call {}

/-- The code and the offsets of labels. -/
def build (b : Builder) : Except ClassError (Code × List Nat) := Code.assemble b.labels b.items

end Builder

end JarGate
