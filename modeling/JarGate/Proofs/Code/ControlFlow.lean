import JarGate.ClassFile.Code.Depth
import JarGate.Proofs.Code.Insertion
import JarGate.Proofs.Machine.Step

/-!
# Control flow behind inserted code

Where control may go from an instruction, and what becomes of that when code is put in front of a
body: the body keeps its control flow, moved by the length of the code in front of it.
-/

namespace JarGate

namespace Code

/-- Whether control may go from one offset to another: to the next instruction, to a target, to a
handler, or from the end of a subroutine to behind one of its calls. -/
inductive Edge (c : Code) : Nat → Nat → Prop
  | next {o : Nat} {insn : Instruction} (found : c.instructionAt? o = some insn)
      (goesOn : Opcode.isTerminal insn.opcode = false) : c.Edge o (o + insn.size o)
  | branch {o t : Nat} {insn : Instruction} (found : c.instructionAt? o = some insn)
      (target : t ∈ insn.targets) : c.Edge o t
  | caught {o : Nat} {insn : Instruction} {h : Handler} (found : c.instructionAt? o = some insn)
      (member : h ∈ c.handlers) (inside : h.start ≤ o ∧ o < h.stop) : c.Edge o h.handler
  | back {o a : Nat} {insn call : Instruction} (found : c.instructionAt? o = some insn)
      (ends : insn.opcode = Opcode.ret) (called : c.instructionAt? a = some call)
      (subroutine : call.isSubroutineCall = true) : c.Edge o (a + call.size a)

/-- Whether control may get from one offset to another in some steps. -/
def Reaches (c : Code) : Nat → Nat → Prop := Relation.ReflTransGen c.Edge

/-- What it means that a body is found, with its control flow, behind some octets of another body. -/
structure Behind (len : Nat) (c c' : Code) : Prop where
  instruction : ∀ o, c'.instructionAt? (o + len) =
    (c.instructionAt? o).map (Instruction.mapTargets (· + len))
  /-- The instruction that follows is found where it should be. -/
  successor : ∀ o insn, c.instructionAt? o = some insn →
    o + len + (insn.mapTargets (· + len)).size (o + len) = o + insn.size o + len
  handlers : c'.handlers = c.handlers.map (Handler.mapOffsets (· + len))
  /-- No subroutine is called in front. -/
  noCalls : ∀ o < len, ∀ insn, c'.instructionAt? o = some insn → insn.isSubroutineCall = false

namespace Behind

variable {len : Nat} {c c' : Code}

/-- No handler covers what stands in front of the body. -/
theorem uncovered (h : Behind len c c') : ∀ handler ∈ c'.handlers, len ≤ handler.start := by
  rw [h.handlers]
  intro handler member
  obtain ⟨old, -, rfl⟩ := List.mem_map.mp member
  exact Nat.le_add_left len old.start

theorem opcode_mapTargets (f : Nat → Nat) (insn : Instruction) :
    (insn.mapTargets f).opcode = insn.opcode := by
  cases insn <;> rfl

theorem isSubroutineCall_mapTargets (f : Nat → Nat) (insn : Instruction) :
    (insn.mapTargets f).isSubroutineCall = insn.isSubroutineCall := by
  cases insn <;> rfl

/-- An instruction behind the octets in front is one of the body. -/
theorem found (h : Behind len c c') {o : Nat} {insn' : Instruction}
    (at_ : c'.instructionAt? (o + len) = some insn') :
    ∃ insn, c.instructionAt? o = some insn ∧ insn' = insn.mapTargets (· + len) := by
  rw [h.instruction] at at_
  obtain ⟨insn, old, same⟩ := Option.map_eq_some_iff.mp at_
  exact ⟨insn, old, same.symm⟩

theorem edge_of_edge (h : Behind len c c') {a b : Nat} (edge : c.Edge a b) :
    c'.Edge (a + len) (b + len) := by
  have at_ {o : Nat} {insn : Instruction} (old : c.instructionAt? o = some insn) :
      c'.instructionAt? (o + len) = some (insn.mapTargets (· + len)) := by
    rw [h.instruction, old]
    rfl
  cases edge with
  | next old goesOn =>
      rw [← h.successor _ _ old]
      exact .next (at_ old) (by rwa [opcode_mapTargets])
  | branch old target =>
      refine .branch (at_ old) ?_
      rw [Instruction.targets_mapTargets]
      exact List.mem_map_of_mem target
  | @caught insn handler old member inside =>
      have moved : handler.mapOffsets (· + len) ∈ c'.handlers := by
        rw [h.handlers]
        exact List.mem_map_of_mem member
      exact .caught (at_ old) moved
        ⟨Nat.add_le_add_right inside.1 len, Nat.add_lt_add_right inside.2 len⟩
  | back old ends called subroutine =>
      rw [← h.successor _ _ called]
      exact .back (at_ old) (by rwa [opcode_mapTargets]) (at_ called)
        (by rwa [isSubroutineCall_mapTargets])

theorem edge_back (h : Behind len c c') {a b : Nat} (edge : c'.Edge (a + len) b) :
    ∃ b', b = b' + len ∧ c.Edge a b' := by
  cases edge with
  | next new goesOn =>
      obtain ⟨insn, old, rfl⟩ := h.found new
      rw [opcode_mapTargets] at goesOn
      exact ⟨_, h.successor _ _ old, .next old goesOn⟩
  | branch new target =>
      obtain ⟨insn, old, rfl⟩ := h.found new
      rw [Instruction.targets_mapTargets] at target
      obtain ⟨t, before, rfl⟩ := List.mem_map.mp target
      exact ⟨t, rfl, .branch old before⟩
  | caught new member inside =>
      obtain ⟨insn, old, -⟩ := h.found new
      rw [h.handlers] at member
      obtain ⟨handler, before, rfl⟩ := List.mem_map.mp member
      exact ⟨handler.handler, rfl, .caught old before
        ⟨Nat.le_of_add_le_add_right inside.1, Nat.lt_of_add_lt_add_right inside.2⟩⟩
  | @back at_ insn' call new ends called subroutine =>
      obtain ⟨insn, old, rfl⟩ := h.found new
      rw [opcode_mapTargets] at ends
      by_cases front : at_ < len
      · rw [h.noCalls at_ front call called] at subroutine
        cases subroutine
      · obtain ⟨o, rfl⟩ := Nat.exists_eq_add_of_le' (Nat.le_of_not_lt front)
        obtain ⟨call, before, rfl⟩ := h.found called
        rw [isSubroutineCall_mapTargets] at subroutine
        exact ⟨_, h.successor _ _ before, .back old ends before subroutine⟩

/-- The control flow of the body is carried over exactly. -/
theorem edge_iff (h : Behind len c c') {a b : Nat} :
    c'.Edge (a + len) b ↔ ∃ b', b = b' + len ∧ c.Edge a b' := by
  constructor
  · exact h.edge_back
  · rintro ⟨b', rfl, edge⟩
    exact h.edge_of_edge edge

/-- From the body nothing is reached that the body does not reach itself, and nothing is lost. -/
theorem reaches_iff (h : Behind len c c') {a b : Nat} :
    c'.Reaches (a + len) b ↔ ∃ b', b = b' + len ∧ c.Reaches a b' := by
  constructor
  · intro reached
    induction reached with
    | refl => exact ⟨a, rfl, .refl⟩
    | tail _ edge ih =>
        obtain ⟨b', rfl, before⟩ := ih
        obtain ⟨b'', rfl, last⟩ := h.edge_back edge
        exact ⟨b'', rfl, before.tail last⟩
  · rintro ⟨b', rfl, reached⟩
    induction reached with
    | refl => exact .refl
    | tail _ edge ih => exact ih.tail (h.edge_of_edge edge)

end Behind

/-! ### Code in front of a body -/

theorem instructionAt?_inFront (c : Code) (insns : List Instruction) (o : Nat) :
    (c.inFront insns (Instruction.endFrom 0 insns)).instructionAt?
      (o + Instruction.endFrom 0 insns) =
    (c.instructionAt? o).map (Instruction.mapTargets (· + Instruction.endFrom 0 insns)) := by
  have front : (Instruction.placeFrom 0 insns).find?
      (·.offset == o + Instruction.endFrom 0 insns) = none := by
    rw [List.find?_eq_none]
    intro p member
    have before := (Instruction.bounds_of_mem_placeFrom member).2
    rw [beq_iff_eq]
    omega
  have shifted : ((·.offset == o + Instruction.endFrom 0 insns) : Placed → Bool) ∘
      Placed.mapOffsets (· + Instruction.endFrom 0 insns) = (·.offset == o) := by
    funext p
    change (p.offset + _ == o + _) = (p.offset == o)
    rw [Bool.eq_iff_iff, beq_iff_eq, beq_iff_eq]
    omega
  rw [instructionAt?, inFront, mapOffsets, List.find?_append, front, Option.none_or, List.find?_map,
    shifted, Option.map_map, instructionAt?, Option.map_map]
  rfl

/-- A body is found, with its control flow, behind code that was put in front of it. -/
theorem behind_inFront (c : Code) {insns : List Instruction}
    (aligned : Instruction.endFrom 0 insns % 4 = 0)
    (noCalls : ∀ i ∈ insns, i.isSubroutineCall = false) :
    Behind (Instruction.endFrom 0 insns) c (c.inFront insns (Instruction.endFrom 0 insns)) where
  instruction := instructionAt?_inFront c insns
  successor := fun o insn _ => by
    rw [Instruction.size_mapTargets, Instruction.size_add aligned]
    omega
  handlers := rfl
  noCalls := fun o front insn found => by
    obtain ⟨p, first, rfl⟩ := Option.map_eq_some_iff.mp found
    have here := List.find?_some first
    rw [beq_iff_eq] at here
    rcases List.mem_append.mp (List.mem_of_find?_eq_some first) with new | old
    · exact noCalls _ (Instruction.mem_placeFrom new)
    · obtain ⟨q, -, rfl⟩ := List.mem_map.mp old
      change q.offset + _ = o at here
      omega

end Code

end JarGate
