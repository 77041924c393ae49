import JarGate.ClassFile.CodeArray
import JarGate.ClassFile.FrameState
import Std.Data.HashMap.Basic

/-!
# Method bodies

The code of a method: its instructions, each at an offset, and everything that refers to them by
offset. `move` sends all these offsets through one map. On top of it, `insertAt` makes room for new
instructions, and `relayout` closes the gaps between instructions.
-/

namespace JarGate

/-- A range of code whose exceptions of a type are caught elsewhere. -/
structure Handler where
  start : Nat
  stop : Nat
  handler : Nat
  /-- The `Class` constant of the type that is caught, or zero for every type. -/
  catchType : UInt16
  deriving DecidableEq, Repr

/-- The line of the program text that the code from an offset on comes from. -/
structure LineNumber where
  start : Nat
  line : UInt16
  deriving DecidableEq, Repr

/-- The range of code in which a local variable has a value. -/
structure LocalVariable where
  start : Nat
  length : Nat
  name : UInt16
  /-- The descriptor of the variable, or in a table of signatures its generic type. -/
  type : UInt16
  slot : UInt16
  deriving DecidableEq, Repr

/-- Where the range of a variable ends. -/
def LocalVariable.stop (e : LocalVariable) : Nat := wrapped (e.start + e.length)

/-- An attribute whose body is not looked into. -/
structure RawAttribute where
  name : UInt16
  body : Bytes
  deriving DecidableEq, Repr

/-- An attribute of a method body. Each keeps the index of its name. -/
inductive CodeAttribute where
  | stackMap (name : UInt16) (frames : List Frame)
  | lineNumbers (name : UInt16) (entries : List LineNumber)
  /-- The local variables with their descriptors or, where `generic`, their generic types. -/
  | variables (generic : Bool) (name : UInt16) (entries : List LocalVariable)
  | other (raw : RawAttribute)
  deriving DecidableEq, Repr

/-- The body of a method. -/
structure Code where
  /-- The declared depth of the operand stack. What is written is at least what is needed. -/
  maxStack : UInt16
  /-- The declared number of local variable slots. What is written is at least what is needed. -/
  maxLocals : UInt16
  instructions : List Placed
  handlers : List Handler
  attributes : List CodeAttribute
  deriving DecidableEq, Repr

namespace Instruction

/-- The offset at which the last of some placed instructions ends. -/
def endOf (placed : List Placed) : Nat :=
  match placed.getLast? with
  | none => 0
  | some p => p.offset + p.instruction.size p.offset

/-- Whether each instruction stands where the one before it ends, the first at `pos`. -/
def tilesFrom (pos : Nat) : List Placed → Bool
  | [] => true
  | p :: ps => p.offset == pos && tilesFrom (pos + p.instruction.size pos) ps

end Instruction

namespace Code

/-- The code of instructions that follow each other from offset zero on. -/
def ofInstructions (insns : List Instruction) : Code where
  maxStack := 0
  maxLocals := 0
  instructions := Instruction.placeFrom 0 insns
  handlers := []
  attributes := []

/-- The length of the code array in the recorded layout. -/
def length (c : Code) : Nat :=
  wrapped (Instruction.endOf c.instructions)

/-- Whether the recorded layout has no gaps. -/
def isLaidOut (c : Code) : Bool :=
  Instruction.tilesFrom 0 c.instructions

/-- The frames of an attribute that holds frames. -/
def framesOf? : CodeAttribute → Option (List Frame)
  | .stackMap _ frames => some frames
  | _ => none

/-- The frames of the method. -/
def stackMap? (c : Code) : Option (List Frame) :=
  c.attributes.findSome? framesOf?

/-- Puts frames in place of those of the first attribute that holds any, or behind all attributes
under a name. -/
def withFrames (name : UInt16) (frames : List Frame) : List CodeAttribute → List CodeAttribute
  | [] => [.stackMap name frames]
  | .stackMap name _ :: rest => .stackMap name frames :: rest
  | other :: rest => other :: withFrames name frames rest

/-- Replaces the frames of the method; `name` is the name of their attribute where there is none
yet. -/
def setStackMap (c : Code) (name : UInt16) (frames : List Frame) : Code :=
  { c with attributes := withFrames name frames c.attributes }

/-! ### Moving offsets -/

open Instruction (moved)

/-- Moves an instruction: first the offset it stands at, then its targets. -/
def movePlaced (move : Nat → Option Nat) : Edit ClassError Placed Unit := do
  let p ← get
  set { p with offset := ← Edit.lift (moved move p.offset) }
  Edit.within Placed.instruction (fun i p => { p with instruction := i })
    (Instruction.moveTargets move)

/-- Moves the three offsets of a handler. -/
def moveHandler (move : Nat → Option Nat) : Edit ClassError Handler Unit := do
  let h ← get
  set { h with start := ← Edit.lift (moved move h.start) }
  let h ← get
  set { h with stop := ← Edit.lift (moved move h.stop) }
  let h ← get
  set { h with handler := ← Edit.lift (moved move h.handler) }

/-- Moves the start of a line. -/
def moveLine (move : Nat → Option Nat) : Edit ClassError LineNumber Unit := fun e =>
  Edit.replace ((moved move e.start).map fun start => { e with start }) e

/-- How far an offset lies behind another one. -/
def distance (start stop : Nat) : Nat := wrapped (stop + (0x100000000 - start))

/-- Moves the range of a variable by moving both of its ends. -/
def moveVariable (move : Nat → Option Nat) : Edit ClassError LocalVariable Unit := fun e =>
  Edit.replace (do
    let stop ← moved move e.stop
    let start ← moved move e.start
    return { e with start, length := distance start stop }) e

/-- Moves the offsets of an attribute; those of frames only where `frames` is set. -/
def moveAttribute (move : Nat → Option Nat) (frames : Bool) :
    Edit ClassError CodeAttribute Unit := fun a =>
  match a with
  | .stackMap name table =>
    if frames then Edit.replace ((Frame.renumber table move).map (.stackMap name)) a
    else .ok () a
  | .lineNumbers name entries =>
    Edit.within (fun _ => entries) (fun es _ => .lineNumbers name es)
      (Edit.each (moveLine move)) a
  | .variables generic name entries =>
    Edit.within (fun _ => entries) (fun es _ => .variables generic name es)
      (Edit.each (moveVariable move)) a
  | .other _ => .ok () a

/-- Moves every offset of a method body through a map. It fails at the first offset that the map
does not cover. -/
def move (move : Nat → Option Nat) (frames : Bool) : Edit ClassError Code Unit := do
  Edit.within Code.instructions (fun is c => { c with instructions := is })
    (Edit.each (movePlaced move))
  Edit.within Code.handlers (fun hs c => { c with handlers := hs })
    (Edit.each (moveHandler move))
  Edit.within Code.attributes (fun as c => { c with attributes := as })
    (Edit.each (moveAttribute move frames))

/-- Inserts instructions at an offset and moves all that lies there or later by the inserted length,
which is the answer. Frames are left alone; `Frame.splice` makes room in them. -/
def insertAt (c : Code) (pos : Nat) (insns : List Instruction) : Code × Nat :=
  let placed := Instruction.placeFrom pos insns
  let len := if placed.isEmpty then 0 else wrapped (Instruction.endOf placed - pos)
  let c := (move (fun o => some (Frame.shift pos len o)) false).final c
  let before := c.instructions.takeWhile (·.offset < pos)
  let after := c.instructions.drop before.length
  let inserted := placed.map fun p => { p with offset := wrapped p.offset }
  ({ c with instructions := before ++ inserted ++ after }, len)

/-- Where a layout without gaps puts each recorded offset, and the recorded end of the code. -/
def relayoutMap (c : Code) : Std.HashMap Nat Nat :=
  let placed := Instruction.placeFrom 0 (c.instructions.map Placed.instruction)
  let starts := (c.instructions.zip placed).foldl
    (fun (map : Std.HashMap Nat Nat) (old, new) => map.insert old.offset (wrapped new.offset)) ∅
  starts.insert c.length (wrapped (Instruction.endOf placed))

/-- Lays the instructions out without gaps from offset zero on, together with all that refers to
them. Code without gaps stays as it is. -/
def relayout : Edit ClassError Code Unit := do
  let c ← get
  if !c.isLaidOut then
    let map := c.relayoutMap
    move (fun o => map[o]?) true

end Code

end JarGate
