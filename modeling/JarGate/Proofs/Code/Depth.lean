import Mathlib
import JarGate.ClassFile.Code.Depth

/-!
# The search for the greatest depth on plain lists

The search finds the instruction at an offset in a hash table. Looking it up in the list of instructions
gives the same, and makes the search a function that can be evaluated.
-/

namespace JarGate

namespace Code

/-- The position of the instruction at an offset; of several, the last one counts. -/
def positionOf (insns : List Placed) (offset : Nat) : Except ClassError Nat :=
  match insns.zipIdx.reverse.find? (·.1.offset == offset) with
  | some (_, i) => .ok i
  | none => .error (.malformed (.notBoundary offset))

theorem indexAt_positions (insns : List Placed) : indexAt (positions insns) = positionOf insns := by
  have found (ps : List (Placed × Nat)) (map : Std.HashMap Nat Nat) (offset : Nat) :
      (ps.foldl (fun map p => map.insert p.1.offset p.2) map)[offset]? =
        ((ps.reverse.find? (·.1.offset == offset)).map (·.2)).or map[offset]? := by
    induction ps generalizing map with
    | nil => rfl
    | cons p ps ih =>
        rw [List.foldl_cons, ih, List.reverse_cons, List.find?_append, List.find?_singleton,
          Std.HashMap.getElem?_insert]
        cases ps.reverse.find? (·.1.offset == offset) <;> cases p.1.offset == offset <;> rfl
  funext offset
  have here := found insns.zipIdx ∅ offset
  rw [Std.HashMap.getElem?_empty, Option.or_none] at here
  rw [indexAt, positions, here, positionOf]
  cases insns.zipIdx.reverse.find? (·.1.offset == offset) <;> rfl

/-! ### The search with any way to find instructions -/

/-- Notes that the instructions at some offsets are reached at a depth. -/
def reachBy (find : Nat → Except ClassError Nat) (depth : Nat) :
    List Nat → Search → Except ClassError Search
  | [], s => .ok s
  | offset :: offsets, s =>
    match find offset with
    | .error e => .error e
    | .ok i => reachBy find depth offsets (s.reach i depth)

/-- Looks at one instruction and notes what it reaches. -/
def visitBy (pool : ConstantPool) (find : Nat → Except ClassError Nat) (index : Nat) (insn : Instruction)
    (s : Search) : Except ClassError Search := do
  let before := (s.depth[index]?.join).getD 0
  let effect ← insn.stackEffect pool
  let after := before - effect.pops.toNat + effect.pushes.toNat
  let s := { s with deepest := max (max s.deepest before) after }
  let s ← reachBy find after insn.targets s
  if insn.isSubroutineCall then return s.reach (index + 1) before
  else if Opcode.isTerminal insn.opcode then return s
  else return s.reach (index + 1) after

/-- Looks at instructions until none is left or the rounds are used up. -/
def exploreBy (pool : ConstantPool) (find : Nat → Except ClassError Nat) (insns : Array Placed) :
    Nat → Search → Except ClassError Search
  | 0, s => .ok s
  | rounds + 1, s =>
    match s.work with
    | [] => .ok s
    | index :: work =>
      let s := { s with work }
      match insns[index]? with
      | none => exploreBy pool find insns rounds s
      | some p =>
        match visitBy pool find index p.instruction s with
        | .error e => .error e
        | .ok s => exploreBy pool find insns rounds s

section

variable {pool : ConstantPool} {map : Std.HashMap Nat Nat}

theorem reachAll_eq (depth : Nat) (offsets : List Nat) (s : Search) :
    reachAll map depth offsets s = reachBy (indexAt map) depth offsets s := by
  induction offsets generalizing s with
  | nil => rfl
  | cons offset offsets ih =>
      rw [reachAll, reachBy]
      cases indexAt map offset with
      | error e => rfl
      | ok i => exact ih _

theorem visit_eq (index : Nat) (insn : Instruction) (s : Search) :
    visit pool map index insn s = visitBy pool (indexAt map) index insn s := by
  rw [visit, visitBy]
  simp only [reachAll_eq]

theorem explore_eq (insns : Array Placed) (rounds : Nat) (s : Search) :
    explore pool map insns rounds s = exploreBy pool (indexAt map) insns rounds s := by
  induction rounds generalizing s with
  | zero => rfl
  | succ rounds ih =>
      rw [explore, exploreBy]
      cases s.work with
      | nil => rfl
      | cons index work =>
          dsimp only
          cases insns[index]? with
          | none => exact ih _
          | some p =>
              dsimp only
              rw [visit_eq]
              cases visitBy pool (indexAt map) index p.instruction { s with work } with
              | error e => rfl
              | ok s => exact ih s

end

/-- The greatest depth of the operand stack, with instructions looked up in their list. -/
def neededStackListed (c : Code) (pool : ConstantPool) : Except ClassError UInt16 :=
  if c.instructions.isEmpty then .ok 0
  else do
    let find := positionOf c.instructions
    let insns := c.instructions.toArray
    let start : Search := ⟨Array.replicate insns.size none, [], 0⟩
    let start ← reachBy find 1 (c.handlers.map Handler.handler) (start.reach 0 0)
    let s ← exploreBy pool find insns insns.size start
    if s.deepest < 0x10000 then return UInt16.ofNat s.deepest
    else throw (.overflow (.maxStack s.deepest))

/-- Both ways to look instructions up give the same depth. -/
theorem neededStack_eq_listed (c : Code) (pool : ConstantPool) :
    c.neededStack pool = c.neededStackListed pool := by
  rw [neededStack, neededStackListed]
  simp only [reachAll_eq, explore_eq, indexAt_positions]

end Code

end JarGate
