import Mathlib
import JarGate.Proofs.Code.Flow

/-!
# What the search for the greatest depth notes

The search keeps the depth at which each instruction was first reached, and a list of those still to be
looked at. All that it does to them is to note instructions at depths: those where control enters at the
start, and those that control passes to whenever it looks at one.
-/

namespace JarGate

namespace Code

/-! ### Noting instructions at depths -/

namespace Search

variable {s : Search} {seen : List Nat} {i j n m : Nat}

/-- The search before any of some instructions was reached. -/
def blank (size : Nat) : Search := ⟨Array.replicate size none, [], 0⟩

/-- Whether the instruction at a position was reached, first at a depth. -/
def NotedAt (s : Search) (i n : Nat) : Prop := s.depth[i]? = some (some n)

/-- Whether the instruction at a position was reached. -/
def Noted (s : Search) (i : Nat) : Prop := ∃ n, s.NotedAt i n

/-- Notes instructions at depths, one after another. -/
def noteAll (s : Search) (notes : List (Nat × Nat)) : Search :=
  notes.foldl (fun s note => s.reach note.1 note.2) s

@[simp] theorem noteAll_nil (s : Search) : s.noteAll [] = s := rfl

@[simp] theorem noteAll_cons (s : Search) (i n : Nat) (notes : List (Nat × Nat)) :
    s.noteAll ((i, n) :: notes) = (s.reach i n).noteAll notes := rfl

theorem noteAll_append (s : Search) (notes more : List (Nat × Nat)) :
    s.noteAll (notes ++ more) = (s.noteAll notes).noteAll more :=
  List.foldl_append

theorem not_notedAt_blank (size i n : Nat) : ¬ (blank size).NotedAt i n := by
  rw [NotedAt, blank, Array.getElem?_replicate]
  split <;> simp

theorem Noted.lt_size (noted : s.Noted i) : i < s.depth.size := by
  obtain ⟨n, at_⟩ := noted
  exact (Array.getElem?_eq_some_iff.mp at_).1

theorem unreached_iff : s.depth[i]? = some none ↔ i < s.depth.size ∧ ¬ s.Noted i := by
  simp only [Noted, NotedAt]
  by_cases inside : i < s.depth.size
  · rw [Array.getElem?_eq_getElem inside]
    cases s.depth[i] <;> simp [inside]
  · simp [inside]

/-- Noting an instruction does something where the instruction was not reached before, and only there. -/
theorem reach_cases (s : Search) (i n : Nat) :
    (s.reach i n = s ∧ (i < s.depth.size → s.Noted i)) ∨
      (i < s.depth.size ∧ ¬ s.Noted i ∧
        s.reach i n = { s with depth := s.depth.set! i (some n), work := i :: s.work }) := by
  by_cases unreached : s.depth[i]? = some none
  · obtain ⟨inside, unnoted⟩ := unreached_iff.mp unreached
    exact .inr ⟨inside, unnoted, by rw [reach, unreached]⟩
  · refine .inl ⟨?_, fun inside => not_not.mp fun unnoted => unreached (unreached_iff.mpr ⟨inside, unnoted⟩)⟩
    rw [reach]
    split
    next none => exact absurd none unreached
    next => rfl

@[simp] theorem deepest_reach (s : Search) (i n : Nat) : (s.reach i n).deepest = s.deepest := by
  obtain ⟨same, -⟩ | ⟨-, -, noted⟩ := reach_cases s i n
  · rw [same]
  · rw [noted]

@[simp] theorem size_reach (s : Search) (i n : Nat) : (s.reach i n).depth.size = s.depth.size := by
  obtain ⟨same, -⟩ | ⟨-, -, noted⟩ := reach_cases s i n
  · rw [same]
  · rw [noted]
    exact Array.size_setIfInBounds

theorem notedAt_set (inside : i < s.depth.size) (work : List Nat) :
    NotedAt { s with depth := s.depth.set! i (some n), work } j m ↔
      if j = i then m = n else s.NotedAt j m := by
  rw [NotedAt, Array.set!_eq_setIfInBounds, Array.getElem?_setIfInBounds]
  by_cases same : i = j
  · subst same
    simp [inside, eq_comm]
  · simp [same, Ne.symm same, NotedAt]

theorem NotedAt.of_reach (noted : (s.reach i n).NotedAt j m) : s.NotedAt j m ∨ j = i ∧ m = n := by
  obtain ⟨same, -⟩ | ⟨inside, -, changed⟩ := reach_cases s i n
  · rw [same] at noted
    exact .inl noted
  · rw [changed, notedAt_set inside] at noted
    split at noted
    next here => exact .inr ⟨here, noted⟩
    next => exact .inl noted

theorem noted_reach : (s.reach i n).Noted j ↔ s.Noted j ∨ j = i ∧ i < s.depth.size := by
  obtain ⟨same, noted⟩ | ⟨inside, -, changed⟩ := reach_cases s i n
  · rw [same]
    refine ⟨.inl, ?_⟩
    rintro (before | ⟨rfl, inside⟩)
    · exact before
    · exact noted inside
  · rw [changed]
    simp only [Noted, notedAt_set inside]
    by_cases here : j = i <;> simp [here, inside]

/-- Whether the instructions that were reached are those seen and those still to be looked at, each of
them once. -/
structure Queued (seen : List Nat) (s : Search) : Prop where
  noted : ∀ i, s.Noted i ↔ i ∈ seen ++ s.work
  distinct : (seen ++ s.work).Nodup

theorem queued_blank (size : Nat) : Queued [] (blank size) :=
  ⟨fun i => iff_of_false (fun ⟨n, noted⟩ => not_notedAt_blank size i n noted) List.not_mem_nil, .nil⟩

theorem Queued.reach (q : Queued seen s) (i n : Nat) : Queued seen (s.reach i n) := by
  have noted (j : Nat) := noted_reach (s := s) (i := i) (j := j) (n := n)
  obtain ⟨same, -⟩ | ⟨inside, unnoted, changed⟩ := reach_cases s i n
  · rwa [same]
  · rw [changed] at noted ⊢
    have perm : List.Perm (seen ++ i :: s.work) (i :: (seen ++ s.work)) := List.perm_middle
    refine ⟨fun j => ?_, ?_⟩
    · rw [noted, q.noted, perm.mem_iff, List.mem_cons, and_iff_left inside]
      exact or_comm
    · refine perm.nodup_iff.mpr (List.nodup_cons.mpr ⟨?_, q.distinct⟩)
      rwa [← q.noted]

section

variable (notes : List (Nat × Nat))

@[simp] theorem deepest_noteAll : (s.noteAll notes).deepest = s.deepest := by
  induction notes generalizing s with
  | nil => rfl
  | cons note notes ih => rw [noteAll_cons, ih, deepest_reach]

@[simp] theorem size_noteAll : (s.noteAll notes).depth.size = s.depth.size := by
  induction notes generalizing s with
  | nil => rfl
  | cons note notes ih => rw [noteAll_cons, ih, size_reach]

theorem Queued.noteAll (q : Queued seen s) : Queued seen (s.noteAll notes) := by
  induction notes generalizing s with
  | nil => exact q
  | cons note notes ih => exact ih (q.reach note.1 note.2)

variable {notes}

theorem NotedAt.of_noteAll (noted : (s.noteAll notes).NotedAt j m) :
    s.NotedAt j m ∨ (j, m) ∈ notes := by
  induction notes generalizing s with
  | nil => exact .inl noted
  | cons note notes ih =>
      rcases ih noted with here | behind
      · rcases here.of_reach with before | ⟨rfl, rfl⟩
        · exact .inl before
        · exact .inr (List.mem_cons_self ..)
      · exact .inr (List.mem_cons_of_mem _ behind)

theorem noted_noteAll :
    (s.noteAll notes).Noted j ↔ s.Noted j ∨ j < s.depth.size ∧ ∃ n, (j, n) ∈ notes := by
  induction notes generalizing s with
  | nil => simp
  | cons note notes ih =>
      rw [noteAll_cons, ih, noted_reach, size_reach, or_assoc]
      refine or_congr_right ⟨?_, ?_⟩
      · rintro (⟨rfl, inside⟩ | ⟨inside, n, member⟩)
        · exact ⟨inside, note.2, List.mem_cons_self ..⟩
        · exact ⟨inside, n, List.mem_cons_of_mem _ member⟩
      · rintro ⟨inside, n, member⟩
        rcases List.mem_cons.mp member with rfl | member
        · exact .inl ⟨rfl, inside⟩
        · exact .inr ⟨inside, n, member⟩

end

end Search

/-! ### What a visit notes -/

variable {c : Code} {pool : ConstantPool} {p : Placed} {i : Nat}

theorem reachAll_eq_noteAll {offsets : List Nat} (there : ∀ o ∈ offsets, o ∈ c.instructions.map Placed.offset)
    (depth : Nat) (s : Search) :
    reachAll (positions c.instructions) depth offsets s = .ok (s.noteAll (c.placedAt depth offsets)) := by
  rw [reachAll_eq, indexAt_positions]
  induction offsets generalizing s with
  | nil => rfl
  | cons offset offsets ih =>
      obtain ⟨here, behind⟩ := List.forall_mem_cons.mp there
      obtain ⟨i, found⟩ := exists_positionOf here
      have first : c.placedAt depth (offset :: offsets) = (i, depth) :: c.placedAt depth offsets := by
        rw [placedAt, List.filterMap_cons, found]
        rfl
      rw [reachBy, found, first]
      exact ih behind _

/-- A visit fails where the instruction has no stack effect. Otherwise it notes those that control passes
to, and all that it changes else is the greatest depth so far. -/
theorem visit_eq_noteAll (joined : c.Joined) (here : c.instructions[i]? = some p) {s : Search} {n : Nat}
    (noted : s.NotedAt i n) :
    visit pool (positions c.instructions) i p.instruction s =
      (p.instruction.stackEffect pool).map fun e =>
        Search.noteAll { s with deepest := max (max s.deepest n) (e.after n) }
          (c.passedOn i p.instruction n (e.after n)) := by
  have before : (s.depth[i]?.join).getD 0 = n := by
    rw [Search.NotedAt] at noted
    rw [noted]
    rfl
  have targets := joined.targets p (List.mem_of_getElem? here)
  rw [visit, before]
  cases p.instruction.stackEffect pool with
  | error e => rfl
  | ok e =>
      change (do
        let s ← reachAll (positions c.instructions) (e.after n) p.instruction.targets
          { s with deepest := max (max s.deepest n) (e.after n) }
        if p.instruction.isSubroutineCall then return s.reach (i + 1) n
        else if Opcode.isTerminal p.instruction.opcode then return s
        else return s.reach (i + 1) (e.after n)) = _
      rw [reachAll_eq_noteAll targets]
      simp only [Except.map, passedOn, Search.noteAll_append]
      by_cases call : p.instruction.isSubroutineCall
      · rw [isTerminal_of_isSubroutineCall call]
        simp only [call]
        rfl
      · by_cases terminal : Opcode.isTerminal p.instruction.opcode
        · simp only [call, terminal]
          rfl
        · simp only [call, terminal]
          rfl

end Code

end JarGate
