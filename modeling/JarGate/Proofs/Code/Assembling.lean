import JarGate.ClassFile.Code.Assembler
import JarGate.Proofs.Code.Places

/-!
# The places of labels

Code is assembled by calls to a builder that hands out labels. Where a label lies is found out in a pass
over the items, before any branch has a target; the layout is a pass over the instructions behind that. The
two agree, since an item takes as many octets as the instruction that it becomes, whatever the labels lie at.
So each branch has the place of its label as its target, and that is where the first instruction
behind the label was laid out.
-/

namespace JarGate

/-! ### Calls -/

namespace BuilderCall

/-- The label that a call uses. -/
def label? : BuilderCall → Option Nat
  | jump _ l | bind l => some l
  | _ => none

/-- The item that a call adds. -/
def item? : BuilderCall → Option AsmItem
  | label => none
  | push i => some (.insn i)
  | op o => some (.op o)
  | jump o l => some (.jump o l)
  | bind l => some (.bind l)

/-- Whether a call adds an instruction. -/
def adds : BuilderCall → Bool
  | push _ | op _ | jump _ _ => true
  | label | bind _ => false

/-- Whether an instruction is what a call added, where labels have offsets. -/
inductive Becomes (offsets : List Nat) : BuilderCall → Instruction → Prop
  | push (i : Instruction) : Becomes offsets (push i) i
  | op (o : UInt8) : Becomes offsets (op o) (.simple o)
  | jump {o : UInt8} {l target : Nat} (place : offsets[l]? = some target) :
      Becomes offsets (jump o l) (.branch o target)

end BuilderCall

namespace Builder

theorem call_eq (b : Builder) (c : BuilderCall) :
    b.call c = ⟨b.items ++ c.item?.toList, b.labels + if c = .label then 1 else 0⟩ := by
  cases c <;> simp [call, BuilderCall.item?]

theorem run_eq (calls : List BuilderCall) :
    run calls = ⟨calls.filterMap BuilderCall.item?, calls.count .label⟩ := by
  have onto (b : Builder) : calls.foldl call b =
      ⟨b.items ++ calls.filterMap BuilderCall.item?, b.labels + calls.count .label⟩ := by
    induction calls generalizing b with
    | nil => simp
    | cons c calls ih =>
        rw [List.foldl_cons, ih, call_eq, List.count_cons, List.filterMap_cons]
        cases c <;> simp [BuilderCall.item?, Nat.add_comm, Nat.add_left_comm]
  have whole := onto {}
  rwa [List.nil_append, Nat.zero_add] at whole

end Builder

namespace Code

open Instruction (placeFrom endFrom endOf tilesFrom)

variable {pos l : Nat} {places : Array (Option Nat)} {items : List AsmItem} {offsets : List Nat}

/-! ### The pass over the items -/

/-- The instructions that items become. -/
def resolveAll (offsets : List Nat) (items : List AsmItem) : List Instruction :=
  items.filterMap (resolve offsets.toArray)

/-- An item takes as many octets as the instruction that it becomes. -/
theorem endFrom_resolveAll_cons (offsets : List Nat) (item : AsmItem) (pos : Nat)
    (items : List AsmItem) :
    endFrom pos (resolveAll offsets (item :: items)) =
      endFrom (pos + item.size pos) (resolveAll offsets items) := by
  cases item <;> rfl

theorem size_bindLabels (pos : Nat) (places : Array (Option Nat)) (items : List AsmItem) :
    (bindLabels pos places items).size = places.size := by
  induction items generalizing pos places with
  | nil => rfl
  | cons item items ih =>
      cases item with
      | bind l => rw [bindLabels, ih, Array.size_setIfInBounds]
      | insn i | jump op l => rw [bindLabels, ih]; nofun

/-- A label that is not bound stays where it was. -/
theorem getElem?_bindLabels_of_not_mem (free : AsmItem.bind l ∉ items) :
    (bindLabels pos places items)[l]? = places[l]? := by
  induction items generalizing pos places with
  | nil => rfl
  | cons item items ih =>
      obtain ⟨other, later⟩ := List.ne_and_not_mem_of_not_mem_cons free
      cases item with
      | bind k =>
          rw [bindLabels, ih later, Array.getElem?_setIfInBounds_ne]
          rintro rfl
          exact other rfl
      | insn i | jump op k =>
          rw [bindLabels, ih later]
          nofun

/-- The places behind the first items are those that the others start from. -/
theorem bindLabels_append (offsets : List Nat) (pos : Nat) (places : Array (Option Nat))
    (xs ys : List AsmItem) : bindLabels pos places (xs ++ ys) =
      bindLabels (endFrom pos (resolveAll offsets xs)) (bindLabels pos places xs) ys := by
  induction xs generalizing pos places with
  | nil => rfl
  | cons item xs ih =>
      rw [endFrom_resolveAll_cons, List.cons_append]
      cases item with
      | bind k => rw [bindLabels, bindLabels, ih]; rfl
      | insn i | jump op k =>
          rw [bindLabels, bindLabels, ih]
          · nofun
          · nofun

/-- A label lies where it was bound last. -/
theorem getElem?_bindLabels_bind (offsets : List Nat) (pos : Nat) {xs ys : List AsmItem}
    (inside : l < places.size) (last : AsmItem.bind l ∉ ys) :
    (bindLabels pos places (xs ++ .bind l :: ys))[l]? =
      some (some (endFrom pos (resolveAll offsets xs))) := by
  rw [bindLabels_append offsets, bindLabels, getElem?_bindLabels_of_not_mem last,
    Array.getElem?_setIfInBounds_self_of_lt]
  rwa [size_bindLabels]

theorem exists_last_of_mem {α : Type} {a : α} {as : List α} (member : a ∈ as) :
    ∃ xs ys, as = xs ++ a :: ys ∧ a ∉ ys := by
  obtain ⟨xs, ys, same, first⟩ := List.eq_append_cons_of_mem (List.mem_reverse.mpr member)
  refine ⟨ys.reverse, xs.reverse, ?_, fun member => first (List.mem_reverse.mp member)⟩
  rw [← List.reverse_reverse as, same, List.reverse_append, List.reverse_cons, List.append_assoc]
  rfl

/-! ### Labels without a place -/

theorem labelOffsets_eq_ok_iff {ps : List (Option Nat)} :
    labelOffsets l ps = .ok offsets ↔ ps = offsets.map some := by
  induction ps generalizing l offsets with
  | nil =>
      rw [labelOffsets, Except.ok.injEq, eq_comm, eq_comm (a := []), List.map_eq_nil_iff]
  | cons p ps ih =>
      cases p with
      | none =>
          refine ⟨nofun, fun same => ?_⟩
          cases offsets <;> cases same
      | some o =>
          simp only [labelOffsets, bind_eq_ok_iff, pure_eq_ok_iff, ih]
          constructor
          · rintro ⟨os, rfl, rfl⟩
            rfl
          · intro same
            cases offsets with
            | nil => cases same
            | cons o' os =>
                obtain ⟨⟨⟩, rest⟩ := List.cons.inj same
                exact ⟨os, rest, rfl⟩

theorem labelOffsets_eq_error_iff {ps : List (Option Nat)} {why : ClassError} :
    labelOffsets l ps = .error why ↔
      ∃ i, ps[i]? = some none ∧ (∀ j < i, ps[j]? ≠ some none) ∧
        why = .malformed (.unboundLabel (l + i)) := by
  induction ps generalizing l with
  | nil => simp [labelOffsets]
  | cons p ps ih =>
      cases p with
      | none =>
          rw [labelOffsets, Except.error.injEq, eq_comm]
          constructor
          · rintro rfl
            exact ⟨0, rfl, nofun, rfl⟩
          · rintro ⟨i, -, first, rfl⟩
            cases i with
            | zero => rfl
            | succ i => exact absurd rfl (first 0 (Nat.succ_pos i))
      | some o =>
          rw [labelOffsets, bind_pure_eq_error_iff, ih]
          constructor
          · rintro ⟨i, found, first, rfl⟩
            refine ⟨i + 1, found, ?_, by rw [Nat.add_assoc, Nat.add_comm 1 i]⟩
            intro j before
            cases j with
            | zero => nofun
            | succ j => exact first j (Nat.lt_of_succ_lt_succ before)
          · rintro ⟨i, found, first, rfl⟩
            cases i with
            | zero => cases found
            | succ i =>
                refine ⟨i, found, fun j before => first (j + 1) (Nat.succ_lt_succ before), ?_⟩
                rw [Nat.add_assoc, Nat.add_comm 1 i]

/-! ### The layout -/

/-- The offset of the instruction at an index, or the end of the code if there is none. -/
def offsetFrom (c : Code) (k : Nat) : Nat :=
  ((c.instructions[k]?).map Placed.offset).getD (endOf c.instructions)

theorem laidOut_ofInstructions (insns : List Instruction) : (ofInstructions insns).isLaidOut := by
  have tiles : tilesFrom 0 (placeFrom 0 insns ++ []) = tilesFrom (endFrom 0 insns) [] :=
    Instruction.tilesFrom_append
  rw [List.append_nil] at tiles
  rw [isLaidOut, ofInstructions, tiles]
  rfl

/-- Instructions that follow others start where those end, if there are any. -/
theorem offsetFrom_ofInstructions (is js : List Instruction) :
    (ofInstructions (is ++ js)).offsetFrom is.length = endFrom 0 is := by
  have behind (pos : Nat) : (((placeFrom pos (is ++ js))[is.length]?).map Placed.offset).getD
      (endFrom pos (is ++ js)) = endFrom pos is := by
    induction is generalizing pos with
    | nil =>
        cases js with
        | nil => rfl
        | cons j js => rw [List.nil_append, Instruction.placeFrom_cons]; rfl
    | cons i is ih =>
        rw [List.cons_append, Instruction.placeFrom_cons, List.length_cons, List.getElem?_cons_succ, endFrom,
          ih, endFrom]
  have stop := Instruction.endOf_of_tiles (laidOut_ofInstructions (is ++ js))
  rw [ofInstructions, Instruction.map_instruction_placeFrom] at stop
  rw [offsetFrom, ofInstructions, stop, behind]

/-! ### Assembled code -/

section

variable {labels : Nat} {code : Code} {why : ClassError}

theorem unplaced_iff :
    (bindLabels 0 (Array.replicate labels none) items).toList[l]? = some none ↔
      l < labels ∧ AsmItem.bind l ∉ items := by
  rw [Array.getElem?_toList]
  by_cases inside : l < labels
  · by_cases bound : AsmItem.bind l ∈ items
    · obtain ⟨xs, ys, rfl, last⟩ := exists_last_of_mem bound
      rw [getElem?_bindLabels_bind [] 0 (by rwa [Array.size_replicate]) last]
      exact iff_of_false nofun fun free => free.2 bound
    · rw [getElem?_bindLabels_of_not_mem bound, Array.getElem?_replicate, if_pos inside]
      exact iff_of_true rfl ⟨inside, bound⟩
  · have outside : (bindLabels 0 (Array.replicate labels none) items)[l]? = none := by
      rw [Array.getElem?_eq_none_iff, size_bindLabels, Array.size_replicate]
      exact Nat.le_of_not_lt inside
    rw [outside]
    exact iff_of_false nofun fun free => inside free.1

theorem assemble_eq_ok_iff : assemble labels items = .ok (code, offsets) ↔
    (bindLabels 0 (Array.replicate labels none) items).toList = offsets.map some ∧
      code = ofInstructions (resolveAll offsets items) := by
  simp only [assemble, bind_eq_ok_iff, pure_eq_ok_iff, labelOffsets_eq_ok_iff, Prod.mk.injEq]
  constructor
  · rintro ⟨_, places, rfl, rfl⟩
    exact ⟨places, rfl⟩
  · rintro ⟨places, rfl⟩
    exact ⟨offsets, places, rfl, rfl⟩

/-- Assembling fails with the first label that is not bound. -/
theorem assemble_eq_error_iff : assemble labels items = .error why ↔
    ∃ l < labels, AsmItem.bind l ∉ items ∧ (∀ k < l, AsmItem.bind k ∈ items) ∧
      why = .malformed (.unboundLabel l) := by
  rw [assemble, bind_pure_eq_error_iff, labelOffsets_eq_error_iff]
  simp only [Nat.zero_add, Ne, unplaced_iff, not_and, not_not]
  constructor
  · rintro ⟨l, ⟨inside, free⟩, first, rfl⟩
    exact ⟨l, inside, free, fun k before => first k before (Nat.lt_trans before inside), rfl⟩
  · rintro ⟨l, inside, free, first, rfl⟩
    exact ⟨l, ⟨inside, free⟩, fun k before _ => first k before, rfl⟩

theorem exists_assemble_iff :
    (∃ code offsets, assemble labels items = .ok (code, offsets)) ↔
      ∀ l < labels, AsmItem.bind l ∈ items := by
  constructor
  · rintro ⟨code, offsets, done⟩ l inside
    by_contra free
    have unplaced := unplaced_iff.mpr ⟨inside, free⟩
    rw [(assemble_eq_ok_iff.mp done).1, List.getElem?_map] at unplaced
    cases found : offsets[l]? <;> rw [found] at unplaced <;> cases unplaced
  · intro bound
    cases done : assemble labels items with
    | ok result => exact ⟨result.1, result.2, rfl⟩
    | error why =>
        obtain ⟨l, inside, free, -⟩ := assemble_eq_error_iff.mp done
        exact absurd (bound l inside) free

theorem length_offsets (done : assemble labels items = .ok (code, offsets)) : offsets.length = labels := by
  have places := congrArg List.length (assemble_eq_ok_iff.mp done).1
  rwa [List.length_map, Array.length_toList, size_bindLabels, Array.size_replicate, eq_comm] at places

/-- The offset of a label is that of the first instruction behind the place where it was bound last. -/
theorem offset_of_bind (xs : List AsmItem) {ys : List AsmItem} (inside : l < labels)
    (last : AsmItem.bind l ∉ ys)
    (done : assemble labels (xs ++ .bind l :: ys) = .ok (code, offsets)) :
    offsets[l]? = some (code.offsetFrom (resolveAll offsets xs).length) := by
  obtain ⟨places, rfl⟩ := assemble_eq_ok_iff.mp done
  have here : (bindLabels 0 (Array.replicate labels none) (xs ++ .bind l :: ys))[l]? =
      some (some (endFrom 0 (resolveAll offsets xs))) :=
    getElem?_bindLabels_bind offsets 0 (by rwa [Array.size_replicate]) last
  rw [← Array.getElem?_toList, places, List.getElem?_map] at here
  have whole : resolveAll offsets (xs ++ .bind l :: ys) = resolveAll offsets xs ++ resolveAll offsets ys := by
    rw [resolveAll, List.filterMap_append]
    rfl
  rw [whole, offsetFrom_ofInstructions]
  simpa using here

end

end Code

/-! ### Whole builders -/

namespace BuilderCall

variable {calls : List BuilderCall} {offsets : List Nat} {l : Nat}

theorem bind_mem_items_iff : AsmItem.bind l ∈ calls.filterMap item? ↔ bind l ∈ calls := by
  rw [List.mem_filterMap]
  constructor
  · rintro ⟨c, member, same⟩
    cases c <;> cases same
    exact member
  · exact fun member => ⟨_, member, rfl⟩

/-- The instructions of code are what the calls added, in the same order. -/
theorem becomes_resolveAll (own : ∀ c ∈ calls, ∀ l ∈ c.label?, l < offsets.length) :
    List.Forall₂ (Becomes offsets) (calls.filter adds)
      (Code.resolveAll offsets (calls.filterMap item?)) := by
  induction calls with
  | nil => exact .nil
  | cons c calls ih =>
      obtain ⟨here, others⟩ := List.forall_mem_cons.mp own
      cases c with
      | label | bind l => exact ih others
      | push i => exact .cons (.push i) (ih others)
      | op o => exact .cons (.op o) (ih others)
      | jump o l =>
          have inside : l < offsets.length := here l rfl
          refine .cons (.jump ?_) (ih others)
          rw [List.getElem?_eq_getElem inside, Array.getD_eq_getD_getElem?, List.getElem?_toArray,
            List.getElem?_eq_getElem inside]
          rfl

end BuilderCall

namespace Builder

open BuilderCall (Becomes adds)

/-- A builder resolves labels to the layout it makes. It succeeds exactly if each label it handed out was
bound, and otherwise names the first one that was not. The code then has no gaps; its instructions are
what the calls added, in their order; a branch has the offset of its label as its target; and a label has
the offset of the first instruction that was added since it was bound for the last time, or the end of
the code if there is none. -/
theorem build_resolves (calls : List BuilderCall)
    (own : ∀ c ∈ calls, ∀ l ∈ c.label?, l < calls.count .label) :
    ((∃ code offsets, (run calls).build = .ok (code, offsets)) ↔
      ∀ l < calls.count .label, .bind l ∈ calls) ∧
    (∀ why, (run calls).build = .error why ↔ ∃ l < calls.count .label, .bind l ∉ calls ∧
      (∀ k < l, .bind k ∈ calls) ∧ why = .malformed (.unboundLabel l)) ∧
    ∀ code offsets, (run calls).build = .ok (code, offsets) →
      code.isLaidOut ∧ offsets.length = calls.count .label ∧
      List.Forall₂ (Becomes offsets) (calls.filter adds) (code.instructions.map Placed.instruction) ∧
      ∀ before l after, calls = before ++ .bind l :: after → .bind l ∉ after →
        offsets[l]? = some (code.offsetFrom (before.countP adds)) := by
  rw [run_eq]
  refine ⟨?_, fun why => ?_, fun code offsets done => ?_⟩
  · simp only [build, Code.exists_assemble_iff, BuilderCall.bind_mem_items_iff]
  · simp only [build, Code.assemble_eq_error_iff, BuilderCall.bind_mem_items_iff]
  · rw [build] at done
    have length : offsets.length = calls.count .label := Code.length_offsets done
    obtain ⟨-, rfl⟩ := Code.assemble_eq_ok_iff.mp done
    rw [← length] at own
    refine ⟨Code.laidOut_ofInstructions _, length, ?_, ?_⟩
    · rw [Code.ofInstructions, Instruction.map_instruction_placeFrom]
      exact BuilderCall.becomes_resolveAll own
    · rintro before l after rfl last
      have inside := own (.bind l) (List.mem_append_right _ List.mem_cons_self) l rfl
      have front := BuilderCall.becomes_resolveAll fun c (member : c ∈ before) =>
        own c (List.mem_append_left _ member)
      rw [length] at inside
      rw [List.countP_eq_length_filter, front.length_eq]
      rw [List.filterMap_append, List.filterMap_cons] at done ⊢
      exact Code.offset_of_bind _ inside (BuilderCall.bind_mem_items_iff.not.mpr last) done

/-- Calls with a branch forward, a switch, a branch back to a label that is bound twice, and a label behind
all instructions; nothing is bound to the last label that was asked for, if the last call is left out. -/
def mixedCalls : List BuilderCall :=
  [.label, .label, .jump 0x99 1, .bind 0, .push (.lookupSwitch 0 []), .bind 0, .op 0x00, .jump 0xA7 0,
    .label, .bind 1, .op 0xB1, .bind 2]

/-- The switch takes nine octets where it stands, so the label that is bound behind it lies at twelve. -/
theorem build_resolves_rebound :
    (∃ code offsets, (run mixedCalls).build = .ok (code, offsets) ∧ code.isLaidOut ∧
      offsets[0]? = some 12 ∧ offsets[2]? = some 17 ∧ code.length = 17 ∧
      code.instructions.map Placed.instruction =
        [.branch 0x99 16, .lookupSwitch 0 [], .simple 0x00, .branch 0xA7 12, .simple 0xB1]) ∧
    (run mixedCalls.dropLast).build = .error (.malformed (.unboundLabel 2)) := by
  obtain ⟨succeeds, -, resolved⟩ := build_resolves mixedCalls (by decide)
  obtain ⟨-, fails, -⟩ := build_resolves mixedCalls.dropLast (by decide)
  refine ⟨?_, (fails _).mpr ⟨2, by decide, by decide, by decide, rfl⟩⟩
  obtain ⟨code, offsets, done⟩ := succeeds.mpr (by decide)
  obtain ⟨laidOut, -, -, places⟩ := resolved code offsets done
  have rebound := places [.label, .label, .jump 0x99 1, .bind 0, .push (.lookupSwitch 0 [])] 0
    [.op 0x00, .jump 0xA7 0, .label, .bind 1, .op 0xB1, .bind 2] rfl (by decide)
  have last := places mixedCalls.dropLast 2 [] rfl (by decide)
  have built : (run mixedCalls).build = .ok (Code.ofInstructions [.branch 0x99 16, .lookupSwitch 0 [],
      .simple 0x00, .branch 0xA7 12, .simple 0xB1], [12, 16, 17]) := by
    decide
  obtain ⟨rfl, rfl⟩ := Prod.mk.inj (Except.ok.inj (done.symm.trans built))
  exact ⟨_, _, done, laidOut, rebound, last, by decide, by decide⟩

end Builder

end JarGate
