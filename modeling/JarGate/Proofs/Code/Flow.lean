import Mathlib
import JarGate.Proofs.Code.Depth
import JarGate.Proofs.Success

/-!
# The flow of control from instruction to instruction

Where control enters code, where it passes to from each instruction, and at which depth of the operand
stack. The depths before the instructions fit together if they agree with every way in which control can
get there. The lists in which the search for the greatest depth finds all this are the same.
-/

namespace JarGate

/-- The depth behind an instruction. -/
def StackEffect.after (e : StackEffect) (before : Nat) : Nat := before - e.pops.toNat + e.pushes.toNat

namespace Code

variable {c : Code} {pool : ConstantPool} {before : Nat → Nat} {p : Placed} {i j n m : Nat}

/-! ### Where instructions are -/

/-- Whether the instruction at an offset, the last one if there are several, is at a position. -/
def Locates (c : Code) (offset i : Nat) : Prop :=
  (∃ p, c.instructions[i]? = some p ∧ p.offset = offset) ∧
    ∀ j p, i < j → c.instructions[j]? = some p → p.offset ≠ offset

/-- Whether the targets of all instructions and the entries of all handlers are offsets of instructions. -/
structure Joined (c : Code) : Prop where
  targets : ∀ p ∈ c.instructions, ∀ t ∈ p.instruction.targets, t ∈ c.instructions.map Placed.offset
  entries : ∀ h ∈ c.handlers, h.handler ∈ c.instructions.map Placed.offset

theorem positionOf_concat (insns : List Placed) (p : Placed) (offset : Nat) :
    positionOf (insns ++ [p]) offset =
      if p.offset = offset then .ok insns.length else positionOf insns offset := by
  rw [positionOf, List.zipIdx_append, List.reverse_append, List.zipIdx_singleton, Nat.zero_add,
    List.reverse_singleton, List.singleton_append, List.find?_cons]
  by_cases here : p.offset = offset
  · rw [if_pos here, beq_iff_eq.mpr here]
  · rw [if_neg here, beq_eq_false_iff_ne.mpr here]
    rfl

theorem exists_positionOf {insns : List Placed} {offset : Nat} (there : offset ∈ insns.map Placed.offset) :
    ∃ i, positionOf insns offset = .ok i := by
  induction insns using List.reverseRecOn with
  | nil => cases there
  | append_singleton insns p ih =>
      rw [positionOf_concat]
      split
      next => exact ⟨_, rfl⟩
      next elsewhere =>
        rw [List.map_append, List.mem_append] at there
        refine ih (there.resolve_right fun here => elsewhere ?_)
        exact (List.mem_singleton.mp here).symm

theorem getElem?_concat_eq_some_iff {α : Type} {xs : List α} {x y : α} :
    (xs ++ [x])[i]? = some y ↔ xs[i]? = some y ∨ i = xs.length ∧ x = y := by
  rcases lt_trichotomy i xs.length with before | rfl | behind
  · rw [List.getElem?_append_left before, or_iff_left fun h => absurd h.1 before.ne]
  · simp
  · have outside : (xs ++ [x]).length ≤ i := by simpa using behind
    rw [List.getElem?_eq_none outside, List.getElem?_eq_none behind.le]
    simp [behind.ne']

theorem positionOf_eq_ok_iff {offset : Nat} :
    positionOf c.instructions offset = .ok i ↔ c.Locates offset i := by
  rw [Locates]
  induction c.instructions using List.reverseRecOn with
  | nil => simp [positionOf]
  | append_singleton insns p ih =>
      rw [positionOf_concat]
      simp only [getElem?_concat_eq_some_iff]
      split
      next here =>
        constructor
        · intro same
          cases same
          refine ⟨⟨p, .inr ⟨rfl, rfl⟩, here⟩, fun j q after found => ?_⟩
          rcases found with found | ⟨rfl, -⟩
          · exact absurd (List.getElem?_eq_some_iff.mp found).1 after.not_gt
          · exact absurd after (lt_irrefl _)
        · rintro ⟨⟨q, found | ⟨rfl, rfl⟩, -⟩, last⟩
          · exact absurd here (last _ p (List.getElem?_eq_some_iff.mp found).1 (.inr ⟨rfl, rfl⟩))
          · rfl
      next elsewhere =>
        rw [ih]
        constructor
        · rintro ⟨⟨q, found, there⟩, last⟩
          refine ⟨⟨q, .inl found, there⟩, fun j r after found => ?_⟩
          rcases found with found | ⟨-, rfl⟩
          · exact last j r after found
          · exact elsewhere
        · rintro ⟨⟨q, found | ⟨-, rfl⟩, there⟩, last⟩
          · exact ⟨⟨q, found, there⟩, fun j r after found => last j r after (.inl found)⟩
          · exact absurd there elsewhere

theorem Locates.inside {offset : Nat} (there : c.Locates offset i) : i < c.instructions.length := by
  obtain ⟨⟨p, found, -⟩, -⟩ := there
  exact (List.getElem?_eq_some_iff.mp found).1

/-! ### The flow of control -/

/-- Where control enters code, and at which depth: at the first instruction, with nothing on the operand
stack, and at every handler, with what was thrown. -/
inductive Enters (c : Code) : Nat → Nat → Prop
  | first (nonempty : c.instructions ≠ []) : c.Enters 0 0
  | handler {h : Handler} {i : Nat} (listed : h ∈ c.handlers) (there : c.Locates h.handler i) : c.Enters i 1

/-- Where control passes to from the instruction at a position, with the depths before and behind it, and
at which depth: to a target; to the next instruction, except behind a terminal one; and from the end of a
subroutine to behind its call, where the return address has been taken from the operand stack again. -/
inductive Passes (c : Code) (i before after : Nat) : Nat → Nat → Prop
  | target {p : Placed} {t j : Nat} (here : c.instructions[i]? = some p)
      (listed : t ∈ p.instruction.targets) (there : c.Locates t j) : c.Passes i before after j after
  | next {p : Placed} (here : c.instructions[i]? = some p)
      (goesOn : Opcode.isTerminal p.instruction.opcode = false)
      (plain : p.instruction.isSubroutineCall = false) (inside : i + 1 < c.instructions.length) :
      c.Passes i before after (i + 1) after
  | back {p : Placed} (here : c.instructions[i]? = some p) (call : p.instruction.isSubroutineCall = true)
      (inside : i + 1 < c.instructions.length) : c.Passes i before after (i + 1) before

/-- Whether control can get to the instruction at a position. -/
inductive Reachable (c : Code) : Nat → Prop
  | entry {i n : Nat} (enters : c.Enters i n) : c.Reachable i
  | passed {i before after j n : Nat} (reached : c.Reachable i) (passes : c.Passes i before after j n) :
      c.Reachable j

/-- Whether the instruction at a position is reachable and has a stack effect in a pool. -/
def Runs (c : Code) (pool : ConstantPool) (i : Nat) (e : StackEffect) : Prop :=
  c.Reachable i ∧ ∃ p, c.instructions[i]? = some p ∧ p.instruction.stackEffect pool = .ok e

/-- Whether the depths before the instructions fit together along the flow of control. -/
structure Fits (c : Code) (pool : ConstantPool) (before : Nat → Nat) : Prop where
  entry : ∀ i n, c.Enters i n → before i = n
  enough : ∀ i e, c.Runs pool i e → e.pops.toNat ≤ before i
  passed : ∀ i e, c.Runs pool i e → ∀ j n, c.Passes i (before i) (e.after (before i)) j n → before j = n

/-- Whether a depth is that before or behind the instruction at a position, which is reachable. -/
def HasDepth (c : Code) (pool : ConstantPool) (before : Nat → Nat) (i n : Nat) : Prop :=
  ∃ e, c.Runs pool i e ∧ (n = before i ∨ n = e.after (before i))

/-- The depths before and behind all reachable instructions. -/
def depths (c : Code) (pool : ConstantPool) (before : Nat → Nat) : Set Nat :=
  {n | ∃ i, c.HasDepth pool before i n}

theorem Enters.inside (enters : c.Enters i n) : i < c.instructions.length := by
  cases enters with
  | first nonempty => exact List.length_pos_iff.mpr nonempty
  | handler _ there => exact there.inside

theorem Passes.inside {after : Nat} (passes : c.Passes i m after j n) : j < c.instructions.length := by
  cases passes with
  | target _ _ there => exact there.inside
  | next _ _ _ inside | back _ _ inside => exact inside

/-- Where control passes to does not depend on depths. -/
theorem Passes.at_depths {after : Nat} (passes : c.Passes i m after j n) (m' after' : Nat) :
    ∃ n', c.Passes i m' after' j n' := by
  cases passes with
  | target here listed there => exact ⟨_, .target here listed there⟩
  | next here goesOn plain inside => exact ⟨_, .next here goesOn plain inside⟩
  | back here call inside => exact ⟨_, .back here call inside⟩

theorem Reachable.inside (reachable : c.Reachable i) : i < c.instructions.length := by
  cases reachable with
  | entry enters => exact enters.inside
  | passed _ passes => exact passes.inside

theorem hasDepth_iff {e : StackEffect} (runs : c.Runs pool i e) :
    c.HasDepth pool before i n ↔ n = before i ∨ n = e.after (before i) := by
  constructor
  · rintro ⟨e', ⟨-, p', here', effect'⟩, depth⟩
    obtain ⟨-, p, here, effect⟩ := runs
    cases here.symm.trans here'
    cases effect.symm.trans effect'
    exact depth
  · exact fun depth => ⟨e, runs, depth⟩

theorem depths_of_nil (nil : c.instructions = []) : c.depths pool before = ∅ := by
  refine Set.eq_empty_iff_forall_notMem.mpr ?_
  rintro n ⟨i, e, ⟨reachable, -⟩, -⟩
  have inside := reachable.inside
  rw [nil] at inside
  cases inside

/-- Nothing is on the operand stack where code begins. -/
theorem zero_mem_depths (nonempty : c.instructions ≠ [])
    (runs : ∀ i, c.Reachable i → ∃ e, c.Runs pool i e) (fits : c.Fits pool before) :
    0 ∈ c.depths pool before := by
  obtain ⟨e, first⟩ := runs 0 (.entry (.first nonempty))
  exact ⟨0, e, first, .inl (fits.entry 0 0 (.first nonempty)).symm⟩

/-! ### The flow of control in lists -/

/-- The positions of the instructions at some offsets, with a depth. -/
def placedAt (c : Code) (depth : Nat) (offsets : List Nat) : List (Nat × Nat) :=
  offsets.filterMap fun offset => (positionOf c.instructions offset).toOption.map (·, depth)

theorem mem_placedAt {depth n : Nat} {offsets : List Nat} :
    (i, n) ∈ c.placedAt depth offsets ↔ n = depth ∧ ∃ offset ∈ offsets, c.Locates offset i := by
  simp only [placedAt, List.mem_filterMap, Option.map_eq_some_iff, toOption_eq_some_iff,
    positionOf_eq_ok_iff, Prod.mk.injEq]
  constructor
  · rintro ⟨offset, member, k, there, rfl, rfl⟩
    exact ⟨rfl, offset, member, there⟩
  · rintro ⟨rfl, offset, member, there⟩
    exact ⟨offset, member, i, there, rfl, rfl⟩

theorem isTerminal_of_isSubroutineCall {insn : Instruction} (call : insn.isSubroutineCall) :
    Opcode.isTerminal insn.opcode = false := by
  cases insn with
  | branch op target | wideBranch op target =>
      have opcode := eq_of_beq call
      rw [Instruction.opcode, opcode]
      decide
  | _ => cases call

/-- The instructions that control passes to from the one at a position, with the depth of each. -/
def passedOn (c : Code) (i : Nat) (insn : Instruction) (before after : Nat) : List (Nat × Nat) :=
  c.placedAt after insn.targets ++
    if Opcode.isTerminal insn.opcode then [] else [(i + 1, if insn.isSubroutineCall then before else after)]

theorem mem_passedOn_iff (here : c.instructions[i]? = some p) {after : Nat} :
    (j, n) ∈ c.passedOn i p.instruction m after ∧ j < c.instructions.length ↔ c.Passes i m after j n := by
  rw [passedOn, List.mem_append, mem_placedAt]
  constructor
  · rintro ⟨⟨rfl, t, listed, there⟩ | next, inside⟩
    · exact .target here listed there
    · by_cases terminal : Opcode.isTerminal p.instruction.opcode
      · simp [terminal] at next
      · simp only [terminal, Bool.false_eq_true, if_false, List.mem_singleton, Prod.mk.injEq] at next
        obtain ⟨rfl, rfl⟩ := next
        by_cases call : p.instruction.isSubroutineCall
        · rw [if_pos call]
          exact .back here call inside
        · rw [if_neg call]
          exact .next here (by simpa using terminal) (by simpa using call) inside
  · intro passes
    refine ⟨?_, passes.inside⟩
    cases passes with
    | target here' listed there =>
        cases Option.some.inj (here.symm.trans here')
        exact .inl ⟨rfl, _, listed, there⟩
    | next here' goesOn plain inside =>
        cases Option.some.inj (here.symm.trans here')
        exact .inr (by simp [goesOn, plain])
    | back here' call inside =>
        cases Option.some.inj (here.symm.trans here')
        exact .inr (by simp [isTerminal_of_isSubroutineCall call, call])

/-- The instructions where control enters, with the depth of each. -/
def entries (c : Code) : List (Nat × Nat) := (0, 0) :: c.placedAt 1 (c.handlers.map Handler.handler)

theorem mem_entries_iff : (i, n) ∈ c.entries ∧ i < c.instructions.length ↔ c.Enters i n := by
  rw [entries, List.mem_cons, mem_placedAt]
  constructor
  · rintro ⟨first | ⟨rfl, o, listed, there⟩, inside⟩
    · cases first
      exact .first (List.ne_nil_of_length_pos inside)
    · obtain ⟨h, member, rfl⟩ := List.mem_map.mp listed
      exact .handler member there
  · intro enters
    refine ⟨?_, enters.inside⟩
    cases enters with
    | first => exact .inl rfl
    | handler listed there => exact .inr ⟨rfl, _, List.mem_map_of_mem listed, there⟩

/-- Whether depths fit together at all instructions, reachable or not. -/
def fitsEverywhere (c : Code) (pool : ConstantPool) (before : Nat → Nat) : Bool :=
  let agree (notes : List (Nat × Nat)) : Bool :=
    notes.all fun note => decide (note.1 < c.instructions.length → before note.1 = note.2)
  agree c.entries && c.instructions.zipIdx.all fun (p, i) =>
    match p.instruction.stackEffect pool with
    | .error _ => true
    | .ok e =>
      e.pops.toNat ≤ before i && agree (c.passedOn i p.instruction (before i) (e.after (before i)))

theorem fits_of_fitsEverywhere (everywhere : c.fitsEverywhere pool before) : c.Fits pool before := by
  simp only [fitsEverywhere, Bool.and_eq_true, List.all_eq_true, decide_eq_true_eq] at everywhere
  obtain ⟨entries, each⟩ := everywhere
  have here {i : Nat} {e : StackEffect} (runs : c.Runs pool i e) :
      e.pops.toNat ≤ before i ∧ ∀ j n, c.Passes i (before i) (e.after (before i)) j n → before j = n := by
    obtain ⟨-, p, at_, effect⟩ := runs
    have both := each (p, i) (List.mk_mem_zipIdx_iff_getElem?.mpr at_)
    simp only [effect, Bool.and_eq_true, decide_eq_true_eq, List.all_eq_true] at both
    refine ⟨both.1, fun j n passes => ?_⟩
    obtain ⟨member, inside⟩ := (mem_passedOn_iff at_).mpr passes
    exact both.2 (j, n) member inside
  refine ⟨fun i n enters => ?_, fun i e runs => (here runs).1, fun i e runs => (here runs).2⟩
  obtain ⟨member, inside⟩ := mem_entries_iff.mpr enters
  exact entries (i, n) member inside

end Code

end JarGate
