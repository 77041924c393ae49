import JarGate.Proofs.Code.ControlFlow
import JarGate.Proofs.Code.Insertion
import JarGate.Proofs.Code.PoolGrowth
import JarGate.Proofs.Code.Relayout
import JarGate.Proofs.Code.StackDepth

/-!
# The flow of control behind code in front

Control gets from code that is put in front of a body only to the first instruction of the body, and from
there only to where it got before. So the search for the greatest depth of the operand stack can meet no
instruction without a stack effect if it met none before.
-/

namespace JarGate

namespace Instruction

/-- The effect of an instruction on the operand stack does not depend on its targets. -/
theorem stackEffect_mapTargets (f : Nat → Nat) (insn : Instruction) (pool : ConstantPool) :
    (insn.mapTargets f).stackEffect pool = insn.stackEffect pool := by
  cases insn <;> rfl

end Instruction

namespace Code

open Instruction (endFrom placeFrom)

variable {c : Code} {insns : List Instruction} {p q : ConstantPool} {i n : Nat}

theorem joined_of_wellFormed (sound : c.WellFormed p) : c.Joined :=
  ⟨sound.instructions.targets, fun h member => (sound.handlers h member).handler⟩

/-- The search for the greatest depth fails for two reasons only. -/
theorem neededStack_eq_error (joined : c.Joined) {why : ClassError}
    (failed : c.neededStack p = .error why) :
    (∃ m, why = .overflow (.maxStack m) ∧ 0xFFFF < m) ∨ ∃ i, c.Reachable i ∧ ∀ e, ¬ c.Runs p i e := by
  obtain ⟨⟨start, looked, outcome, started, loop, -, -, -, result⟩, -⟩ := neededStack_exact joined p
  rcases loop.cases joined started with ⟨t, rfl, -⟩ | ⟨-, i, -, reachable, stuck⟩
  · have answer : t.result = .error why := result.symm.trans failed
    rw [Search.result] at answer
    split at answer
    next => cases answer
    next large =>
      cases answer
      exact .inl ⟨t.deepest, rfl, Nat.lt_of_not_le fun small => large (Nat.lt_succ_of_le small)⟩
  · exact .inr ⟨i, reachable, stuck⟩

/-- An instruction of a body with code in front of it is one of that code or of the body. -/
theorem getElem?_inFront {r : Placed}
    (here : (c.inFront insns (endFrom 0 insns)).instructions[i]? = some r) :
    i < insns.length ∧ r ∈ placeFrom 0 insns ∨
      ∃ j s, i = insns.length + j ∧ c.instructions[j]? = some s ∧
        r = s.mapOffsets (· + endFrom 0 insns) := by
  have length := Instruction.length_placeFrom 0 insns
  rw [inFront] at here
  dsimp only at here
  by_cases front : i < insns.length
  · rw [List.getElem?_append_left (length ▸ front)] at here
    exact .inl ⟨front, List.mem_of_getElem? here⟩
  · have least := Nat.le_of_not_lt front
    rw [List.getElem?_append_right (length ▸ least), length, mapOffsets, List.getElem?_map] at here
    obtain ⟨s, there, rfl⟩ := Option.map_eq_some_iff.mp here
    exact .inr ⟨i - insns.length, s, (Nat.add_sub_cancel' least).symm, there, rfl⟩

/-- The body is found behind the code in front of it. -/
theorem getElem?_behind {j : Nat} :
    (c.inFront insns (endFrom 0 insns)).instructions[insns.length + j]? =
      (c.instructions[j]?).map (Placed.mapOffsets (· + endFrom 0 insns)) := by
  have length := Instruction.length_placeFrom 0 insns
  rw [inFront]
  dsimp only
  rw [List.getElem?_append_right (length ▸ Nat.le_add_right _ _), length, Nat.add_sub_cancel_left,
    mapOffsets, List.getElem?_map]

/-- An offset of the body is found where it was. -/
theorem Locates.behind {o : Nat}
    (there : (c.inFront insns (endFrom 0 insns)).Locates (o + endFrom 0 insns) i) :
    ∃ j, i = insns.length + j ∧ c.Locates o j := by
  obtain ⟨⟨r, here, at_⟩, last⟩ := there
  rcases getElem?_inFront here with ⟨-, front⟩ | ⟨j, s, rfl, found, rfl⟩
  · have before := (Instruction.bounds_of_mem_placeFrom front).2
    omega
  · refine ⟨j, rfl, ⟨s, found, Nat.add_right_cancel at_⟩, fun k t later found' same => ?_⟩
    refine last (insns.length + k) (t.mapOffsets (· + endFrom 0 insns)) (Nat.add_lt_add_left later _) ?_
      (congrArg (· + endFrom 0 insns) same)
    rw [getElem?_behind, found']
    rfl

/-- Offset zero is that of the first instruction only. -/
theorem Locates.first (laidOut : c.isLaidOut) (nonempty : c.instructions ≠ []) (there : c.Locates 0 i) :
    c.Reachable i := by
  obtain ⟨⟨r, here, at_⟩, -⟩ := there
  obtain ⟨s, ss, split⟩ := List.exists_cons_of_ne_nil nonempty
  have first : c.instructions[0]? = some s := by rw [split]; rfl
  have zero : i = 0 := by
    by_contra later
    have less := (Instruction.offset_lt_iff (increasing_of_laidOut laidOut) first here).mpr
      (Nat.pos_of_ne_zero later)
    rw [at_] at less
    exact Nat.not_lt_zero _ less
  rw [zero]
  exact .entry (.first nonempty)

theorem length_instructions_inFront : (c.inFront insns (endFrom 0 insns)).instructions.length =
    insns.length + c.instructions.length := by
  rw [inFront, List.length_append, Instruction.length_placeFrom, mapOffsets, List.length_map]

/-- The instruction behind one that is reached is one in front, or the first one of the body, or is reached
in the body if control goes on there. -/
theorem reached_next {r : Placed} (nonempty : c.instructions ≠ [])
    (reached : i < insns.length ∨ ∃ k, i = insns.length + k ∧ c.Reachable k)
    (here : (c.inFront insns (endFrom 0 insns)).instructions[i]? = some r)
    (inside : i + 1 < (c.inFront insns (endFrom 0 insns)).instructions.length)
    (goesOn : ∀ k s, c.instructions[k]? = some s → r = s.mapOffsets (· + endFrom 0 insns) →
      k + 1 < c.instructions.length → c.Reachable k → c.Reachable (k + 1)) :
    i + 1 < insns.length ∨ ∃ k, i + 1 = insns.length + k ∧ c.Reachable k := by
  rw [length_instructions_inFront] at inside
  rcases reached with front | ⟨k, rfl, reachable⟩
  · rcases Nat.lt_or_eq_of_le front with less | last
    · exact .inl less
    · exact .inr ⟨0, last, .entry (.first nonempty)⟩
  · rw [getElem?_behind] at here
    obtain ⟨s, found, rfl⟩ := Option.map_eq_some_iff.mp here
    exact .inr ⟨k + 1, rfl, goesOn k s found rfl (by omega) reachable⟩

section

variable (targets : ∀ insn ∈ insns, ∀ t ∈ insn.targets, t = endFrom 0 insns) (laidOut : c.isLaidOut)
  (nonempty : c.instructions ≠ [])

include targets laidOut nonempty

/-- Where control passes to from a body with code in front of it. -/
theorem Passes.behind {j before after m : Nat}
    (reached : i < insns.length ∨ ∃ k, i = insns.length + k ∧ c.Reachable k)
    (passes : (c.inFront insns (endFrom 0 insns)).Passes i before after j m) :
    j < insns.length ∨ ∃ k, j = insns.length + k ∧ c.Reachable k := by
  cases passes with
  | @target r t j here listed there =>
      rcases reached with front | ⟨k, rfl, reachable⟩
      · rcases getElem?_inFront here with ⟨-, member⟩ | ⟨k, s, rfl, -, -⟩
        · have ends : t = 0 + endFrom 0 insns :=
            (targets _ (Instruction.mem_placeFrom member) t listed).trans (Nat.zero_add _).symm
          rw [ends] at there
          obtain ⟨k, rfl, found⟩ := there.behind
          exact .inr ⟨k, rfl, found.first laidOut nonempty⟩
        · omega
      · rw [getElem?_behind] at here
        obtain ⟨s, found, rfl⟩ := Option.map_eq_some_iff.mp here
        rw [Placed.mapOffsets, Instruction.targets_mapTargets] at listed
        obtain ⟨u, member, rfl⟩ := List.mem_map.mp listed
        obtain ⟨k', rfl, found'⟩ := there.behind
        have passed : c.Passes k before after k' after := .target found member found'
        exact .inr ⟨k', rfl, .passed reachable passed⟩
  | next here goesOn plain inside =>
      refine reached_next nonempty reached here inside fun k s found same inside reachable => ?_
      rw [same, Placed.mapOffsets, Behind.opcode_mapTargets] at goesOn
      rw [same, Placed.mapOffsets, Behind.isSubroutineCall_mapTargets] at plain
      have passed : c.Passes k before after (k + 1) after := .next found goesOn plain inside
      exact .passed reachable passed
  | back here call inside =>
      refine reached_next nonempty reached here inside fun k s found same inside reachable => ?_
      rw [same, Placed.mapOffsets, Behind.isSubroutineCall_mapTargets] at call
      have passed : c.Passes k before after (k + 1) before := .back found call inside
      exact .passed reachable passed

theorem Reachable.behind (reachable : (c.inFront insns (endFrom 0 insns)).Reachable i)
    (front : insns ≠ []) : i < insns.length ∨ ∃ k, i = insns.length + k ∧ c.Reachable k := by
  induction reachable with
  | entry enters =>
      cases enters with
      | first => exact .inl (List.length_pos_iff.mpr front)
      | handler listed there =>
          obtain ⟨h, member, rfl⟩ := List.mem_map.mp listed
          obtain ⟨k, rfl, found⟩ := there.behind
          exact .inr ⟨k, rfl, .entry (.handler member found)⟩
  | passed _ passes ih => exact Passes.behind targets laidOut nonempty ih passes

end

/-- Behind code in front whose instructions all have a stack effect, the greatest depth can only become
too large, even in a pool that has grown. -/
theorem neededStack_inFront_eq_error (sound : c.WellFormed p) (grown : p.Extends q)
    (joined : (c.inFront insns (endFrom 0 insns)).Joined) (front : insns ≠ [])
    (targets : ∀ insn ∈ insns, ∀ t ∈ insn.targets, t = endFrom 0 insns)
    (effects : ∀ insn ∈ insns, ∃ e, insn.stackEffect q = .ok e) {stack : UInt16}
    (needed : c.neededStack p = .ok stack) {why : ClassError}
    (failed : (c.inFront insns (endFrom 0 insns)).neededStack q = .error why) :
    ∃ m, why = .overflow (.maxStack m) ∧ 0xFFFF < m := by
  refine (neededStack_eq_error joined failed).resolve_right ?_
  -- An instruction without an effect would be one in front, or one that was reached before.
  rintro ⟨i, reachable, stuck⟩
  have runs (k : Nat) (reached : c.Reachable k) : ∃ e, c.Runs p k e := by
    by_contra none
    obtain ⟨-, malformed, -⟩ := neededStack_exact (joined_of_wellFormed sound) p
    obtain ⟨why, failed⟩ := malformed.mpr ⟨k, reached, fun e here => none ⟨e, here⟩⟩
    rw [needed] at failed
    cases failed
  obtain ⟨r, here⟩ : ∃ r, (c.inFront insns (endFrom 0 insns)).instructions[i]? = some r :=
    ⟨_, List.getElem?_eq_getElem reachable.inside⟩
  rcases Reachable.behind targets sound.laidOut sound.nonempty reachable front with less | ⟨k, rfl, reached⟩
  · rcases getElem?_inFront here with ⟨-, member⟩ | ⟨k, s, rfl, -, -⟩
    · obtain ⟨e, effect⟩ := effects _ (Instruction.mem_placeFrom member)
      exact stuck e ⟨reachable, r, here, effect⟩
    · omega
  · obtain ⟨e, -, s, found, effect⟩ := runs k reached
    refine stuck e ⟨reachable, s.mapOffsets (· + endFrom 0 insns), ?_, ?_⟩
    · rw [getElem?_behind, found]
      rfl
    · rw [Placed.mapOffsets, Instruction.stackEffect_mapTargets]
      exact Instruction.keeps_stackEffect grown _ e effect

end Code

end JarGate
