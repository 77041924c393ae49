import Mathlib
import JarGate.Proofs.Code.Effects
import JarGate.Proofs.Code.Search

/-!
# The greatest depth of the operand stack

The search looks at each instruction that control can reach, once, and at no others. Where the depths of
the operand stack fit together, they do not depend on the path, so the first depth at which an instruction
is reached is the only one, and the greatest depth that the search has met is the greatest there is.
-/

namespace JarGate

namespace Code

variable {c : Code} {pool : ConstantPool} {before : Nat → Nat} {s t : Search} {seen looked : List Nat}
  {outcome : Except ClassError Search} {p : Placed} {i j n m : Nat}

/-! ### The loop of the search -/

/-- One round of the loop: the position that is taken from the work, and what comes of the visit. -/
def Turn (c : Code) (pool : ConstantPool) (s : Search) (i : Nat)
    (outcome : Except ClassError Search) : Prop :=
  ∃ work p, s.work = i :: work ∧ c.instructions[i]? = some p ∧
    visit pool (positions c.instructions) i p.instruction { s with work } = outcome

/-- The loop as long as there is work, without a bound on its rounds: the positions that it looks at, and
what comes of it. -/
inductive Loop (c : Code) (pool : ConstantPool) : Search → List Nat → Except ClassError Search → Prop
  | done {s : Search} (idle : s.work = []) : c.Loop pool s [] (.ok s)
  | fails {s : Search} {i : Nat} {why : ClassError} (turn : c.Turn pool s i (.error why)) :
      c.Loop pool s [i] (.error why)
  | goesOn {s t : Search} {i : Nat} {looked : List Nat} {outcome : Except ClassError Search}
      (turn : c.Turn pool s i (.ok t)) (rest : c.Loop pool t looked outcome) :
      c.Loop pool s (i :: looked) outcome

/-- What every round that succeeds keeps holds when the loop ends, be it without work or in a round that
fails. -/
theorem Loop.keeps {P : List Nat → Search → Prop}
    (step : ∀ seen s i t, P seen s → c.Turn pool s i (.ok t) → P (i :: seen) t)
    (loop : c.Loop pool s looked outcome) (start : P seen s) :
    (∃ t, outcome = .ok t ∧ P (looked.reverse ++ seen) t ∧ t.work = []) ∨
      ∃ others i t why, outcome = .error why ∧ looked = others ++ [i] ∧
        P (others.reverse ++ seen) t ∧ c.Turn pool t i (.error why) := by
  induction loop generalizing seen with
  | done idle => exact .inl ⟨_, rfl, start, idle⟩
  | fails turn => exact .inr ⟨[], _, _, _, rfl, rfl, start, turn⟩
  | @goesOn s t i looked outcome turn rest ih =>
      rcases ih (step seen s i t start turn) with
        ⟨u, ended, kept, idle⟩ | ⟨others, k, u, why, failed, rfl, kept, last⟩
      · refine .inl ⟨u, ended, ?_, idle⟩
        rwa [List.reverse_cons, List.append_assoc]
      · refine .inr ⟨i :: others, k, u, why, failed, rfl, ?_, last⟩
        rwa [List.reverse_cons, List.append_assoc]

theorem Turn.unique {outcome' : Except ClassError Search} (turn : c.Turn pool s i outcome)
    (turn' : c.Turn pool s j outcome') : j = i ∧ outcome' = outcome := by
  obtain ⟨work, p, taken, here, rfl⟩ := turn
  obtain ⟨work', p', taken', here', rfl⟩ := turn'
  cases taken.symm.trans taken'
  cases here.symm.trans here'
  exact ⟨rfl, rfl⟩

theorem Turn.busy (turn : c.Turn pool s i outcome) : s.work ≠ [] := by
  obtain ⟨work, p, taken, -⟩ := turn
  rw [taken]
  exact List.cons_ne_nil i work

/-- The loop takes one course only. -/
theorem Loop.unique {looked' : List Nat} {outcome' : Except ClassError Search}
    (loop : c.Loop pool s looked outcome) (loop' : c.Loop pool s looked' outcome') :
    looked' = looked ∧ outcome' = outcome := by
  induction loop generalizing looked' with
  | done idle =>
      cases loop' with
      | done => exact ⟨rfl, rfl⟩
      | fails turn' | goesOn turn' _ => exact absurd idle turn'.busy
  | fails turn =>
      cases loop' with
      | done idle => exact absurd idle turn.busy
      | fails turn' =>
          obtain ⟨rfl, same⟩ := turn.unique turn'
          exact ⟨rfl, same⟩
      | goesOn turn' _ => cases (turn.unique turn').2
  | goesOn turn rest ih =>
      cases loop' with
      | done idle => exact absurd idle turn.busy
      | fails turn' => cases (turn.unique turn').2
      | goesOn turn' rest' =>
          obtain ⟨rfl, same⟩ := turn.unique turn'
          cases same
          obtain ⟨rfl, rfl⟩ := ih rest'
          exact ⟨rfl, rfl⟩

/-! ### What the loop keeps -/

/-- What holds while the instructions at some positions have been seen: those that were reached are
reachable, and control enters and passes from those that have been seen only to those that were reached. -/
structure Searching (c : Code) (pool : ConstantPool) (seen : List Nat) (s : Search) : Prop
    extends Search.Queued seen s where
  size : s.depth.size = c.instructions.length
  reachable : ∀ i, s.Noted i → c.Reachable i
  entered : ∀ i n, c.Enters i n → s.Noted i
  runs : ∀ i ∈ seen, ∃ e, c.Runs pool i e
  followed : ∀ i ∈ seen, ∀ m after j n, c.Passes i m after j n → s.Noted j

/-- What holds besides where depths fit together: instructions were reached at their depths, and the
greatest depth so far is that of the instructions that have been seen. -/
structure Measured (c : Code) (pool : ConstantPool) (before : Nat → Nat) (seen : List Nat) (s : Search) :
    Prop where
  depth : ∀ i n, s.NotedAt i n → n = before i
  deepest : IsGreatest (insert 0 {n | ∃ i ∈ seen, c.HasDepth pool before i n}) s.deepest

/-- What one round does: it takes the position of an instruction that was reached from the work, and it
fails if the instruction has no stack effect. Otherwise it notes the instructions that control passes to. -/
theorem turn_cases (joined : c.Joined) (searching : c.Searching pool seen s)
    (turn : c.Turn pool s i outcome) :
    ∃ work p n, s.work = i :: work ∧ c.instructions[i]? = some p ∧ s.NotedAt i n ∧
      outcome = (p.instruction.stackEffect pool).map fun e =>
        Search.noteAll { s with work, deepest := max (max s.deepest n) (e.after n) }
          (c.passedOn i p.instruction n (e.after n)) := by
  obtain ⟨work, p, taken, here, rfl⟩ := turn
  have member : i ∈ seen ++ s.work := by simp [taken]
  obtain ⟨n, noted⟩ := (searching.noted i).mpr member
  exact ⟨work, p, n, taken, here, noted, visit_eq_noteAll (s := { s with work }) joined here noted⟩

/-- A round that succeeds, with the stack effect of its instruction. -/
theorem turn_ok (joined : c.Joined) (searching : c.Searching pool seen s) (turn : c.Turn pool s i (.ok t)) :
    ∃ work p n e, s.work = i :: work ∧ c.instructions[i]? = some p ∧ s.NotedAt i n ∧
      p.instruction.stackEffect pool = .ok e ∧
      t = Search.noteAll { s with work, deepest := max (max s.deepest n) (e.after n) }
        (c.passedOn i p.instruction n (e.after n)) := by
  obtain ⟨work, p, n, taken, here, noted, visited⟩ := turn_cases joined searching turn
  obtain ⟨e, effect, same⟩ := map_eq_ok_iff.mp visited.symm
  exact ⟨work, p, n, e, taken, here, noted, effect, same.symm⟩

theorem searching_turn (joined : c.Joined) (searching : c.Searching pool seen s)
    (turn : c.Turn pool s i (.ok t)) : c.Searching pool (i :: seen) t := by
  obtain ⟨work, p, n, e, taken, here, noted, effect, rfl⟩ := turn_ok joined searching turn
  have reached : c.Reachable i := searching.reachable i ⟨n, noted⟩
  have perm : List.Perm (seen ++ s.work) (i :: seen ++ work) := by
    rw [taken]
    exact List.perm_middle
  have queued : Search.Queued (i :: seen) { s with work, deepest := max (max s.deepest n) (e.after n) } :=
    ⟨fun j => (searching.noted j).trans perm.mem_iff, perm.nodup_iff.mp searching.distinct⟩
  have notes (j : Nat) : (Search.noteAll { s with work, deepest := max (max s.deepest n) (e.after n) }
      (c.passedOn i p.instruction n (e.after n))).Noted j ↔
        s.Noted j ∨ j < s.depth.size ∧ ∃ m, (j, m) ∈ c.passedOn i p.instruction n (e.after n) :=
    Search.noted_noteAll
  have kept {j : Nat} (before : s.Noted j) := (notes j).mpr (.inl before)
  refine ⟨queued.noteAll _, by simpa using searching.size, ?_, ?_, ?_, ?_⟩
  · intro j noted
    rcases (notes j).mp noted with before | ⟨inside, m, passed⟩
    · exact searching.reachable j before
    · refine .passed reached ((mem_passedOn_iff here).mp ⟨passed, ?_⟩)
      rwa [← searching.size]
  · exact fun j m enters => kept (searching.entered j m enters)
  · exact List.forall_mem_cons.mpr ⟨⟨e, reached, p, here, effect⟩, searching.runs⟩
  · refine List.forall_mem_cons.mpr ⟨fun m after j k passes => ?_, fun j old m after k l passes => ?_⟩
    · obtain ⟨k', passes'⟩ := passes.at_depths n (e.after n)
      obtain ⟨member, inside⟩ := (mem_passedOn_iff here).mpr passes'
      exact (notes j).mpr (.inr ⟨by rwa [← searching.size] at inside, k', member⟩)
    · exact kept (searching.followed j old m after k l passes)

theorem measured_turn (joined : c.Joined) (fits : c.Fits pool before) (searching : c.Searching pool seen s)
    (measured : c.Measured pool before seen s) (turn : c.Turn pool s i (.ok t)) :
    c.Measured pool before (i :: seen) t := by
  obtain ⟨work, p, n, e, taken, here, noted, effect, rfl⟩ := turn_ok joined searching turn
  have runs : c.Runs pool i e := ⟨searching.reachable i ⟨n, noted⟩, p, here, effect⟩
  obtain rfl := measured.depth i n noted
  refine ⟨fun j m at_ => ?_, ?_⟩
  · have inside : j < c.instructions.length := by
      have bound := Search.Noted.lt_size ⟨m, at_⟩
      rwa [Search.size_noteAll, searching.size] at bound
    rcases at_.of_noteAll with old | passed
    · exact measured.depth j m old
    · exact (fits.passed i e runs j m ((mem_passedOn_iff here).mp ⟨passed, inside⟩)).symm
  · have more : insert 0 {n | ∃ k ∈ i :: seen, c.HasDepth pool before k n} = insert (e.after (before i))
        (insert (before i) (insert 0 {n | ∃ k ∈ seen, c.HasDepth pool before k n})) := by
      ext n
      simp only [Set.mem_insert_iff, Set.mem_ofPred_eq, List.exists_mem_cons_iff, hasDepth_iff runs]
      tauto
    rw [Search.deepest_noteAll, more, max_comm _ (e.after _), max_comm _ (before i)]
    exact (measured.deepest.insert _).insert _

theorem Searching.inside (searching : c.Searching pool seen s) (member : i ∈ seen ++ s.work) :
    i < c.instructions.length :=
  searching.size ▸ ((searching.noted i).mpr member).lt_size

theorem Searching.room (searching : c.Searching pool seen s) :
    seen.length + s.work.length ≤ c.instructions.length := by
  have inside : seen ++ s.work ⊆ List.range c.instructions.length :=
    fun i member => List.mem_range.mpr (searching.inside member)
  have count := (searching.distinct.subperm inside).length_le
  rwa [List.length_append, List.length_range] at count

/-- The rounds of the search do not run out before the work does. -/
theorem exists_loop (joined : c.Joined) (searching : c.Searching pool seen s) {rounds : Nat}
    (enough : c.instructions.length ≤ seen.length + rounds) :
    ∃ looked, c.Loop pool s looked
      (explore pool (positions c.instructions) c.instructions.toArray rounds s) := by
  induction rounds generalizing seen s with
  | zero =>
      have room := searching.room
      exact ⟨[], .done (List.length_eq_zero_iff.mp (by omega))⟩
  | succ rounds ih =>
      rw [explore]
      cases taken : s.work with
      | nil => exact ⟨[], .done taken⟩
      | cons i work =>
          have inside : i < c.instructions.length := searching.inside (by simp [taken])
          have here : c.instructions[i]? = some c.instructions[i] := List.getElem?_eq_getElem inside
          dsimp only
          rw [List.getElem?_toArray, here]
          dsimp only
          cases visited : visit pool (positions c.instructions) i c.instructions[i].instruction
            { s with work } with
          | error why => exact ⟨[i], .fails ⟨work, _, taken, here, visited⟩⟩
          | ok t =>
              have turn : c.Turn pool s i (.ok t) := ⟨work, _, taken, here, visited⟩
              have searching' := searching_turn joined searching turn
              obtain ⟨looked, rest⟩ := ih searching' (by rw [List.length_cons]; omega)
              exact ⟨i :: looked, .goesOn turn rest⟩

/-- When no work is left, exactly the reachable instructions have been seen. -/
theorem Searching.seen_iff (searching : c.Searching pool seen s) (idle : s.work = []) :
    i ∈ seen ↔ c.Reachable i := by
  have noted (i : Nat) : s.Noted i ↔ i ∈ seen := by
    rw [searching.noted, idle, List.append_nil]
  constructor
  · exact fun member => searching.reachable i ((noted i).mpr member)
  · intro reachable
    induction reachable with
    | entry enters => exact (noted _).mp (searching.entered _ _ enters)
    | passed _ passes ih => exact (noted _).mp (searching.followed _ ih _ _ _ _ passes)

/-! ### The start and the result of the search -/

/-- The search before its first round: the first instruction was reached, and the entries of all handlers. -/
def startSearch (c : Code) : Except ClassError Search :=
  reachAll (positions c.instructions) 1 (c.handlers.map Handler.handler)
    ((Search.blank c.instructions.length).reach 0 0)

/-- The greatest depth that the search has met, if a count of 16 bits can hold it. -/
def Search.result (s : Search) : Except ClassError UInt16 :=
  if s.deepest < 0x10000 then .ok (UInt16.ofNat s.deepest) else .error (.overflow (.maxStack s.deepest))

theorem startSearch_eq (joined : c.Joined) :
    c.startSearch = .ok ((Search.blank c.instructions.length).noteAll c.entries) :=
  reachAll_eq_noteAll (List.forall_mem_map.mpr joined.entries) 1 _

theorem searching_start (joined : c.Joined) (started : c.startSearch = .ok s) : c.Searching pool [] s := by
  rw [startSearch_eq joined, Except.ok.injEq] at started
  subst started
  have size : (Search.blank c.instructions.length).depth.size = c.instructions.length := Array.size_replicate
  have noted (i : Nat) :
      ((Search.blank c.instructions.length).noteAll c.entries).Noted i ↔ ∃ n, c.Enters i n := by
    have unnoted : ¬ (Search.blank c.instructions.length).Noted i :=
      fun ⟨n, noted⟩ => Search.not_notedAt_blank _ i n noted
    rw [Search.noted_noteAll, or_iff_right unnoted, size]
    simp only [← mem_entries_iff, exists_and_right]
    exact and_comm
  refine ⟨(Search.queued_blank _).noteAll _, (Search.size_noteAll _).trans size, ?_, ?_, nofun, nofun⟩
  · intro i reached
    obtain ⟨n, enters⟩ := (noted i).mp reached
    exact .entry enters
  · exact fun i n enters => (noted i).mpr ⟨n, enters⟩

theorem measured_start (joined : c.Joined) (fits : c.Fits pool before) (started : c.startSearch = .ok s) :
    c.Measured pool before [] s := by
  have searching : c.Searching pool [] s := searching_start joined started
  have size := searching.size
  rw [startSearch_eq joined, Except.ok.injEq] at started
  subst started
  refine ⟨fun i n noted => ?_, ?_⟩
  · have inside : i < c.instructions.length := size ▸ Search.Noted.lt_size ⟨n, noted⟩
    have entered := noted.of_noteAll.resolve_left (Search.not_notedAt_blank _ i n)
    exact (fits.entry i n (mem_entries_iff.mp ⟨entered, inside⟩)).symm
  · rw [Search.deepest_noteAll, Search.blank]
    simp

theorem neededStack_eq_result (joined : c.Joined) (started : c.startSearch = .ok s)
    (pool : ConstantPool) :
    c.neededStack pool =
      explore pool (positions c.instructions) c.instructions.toArray c.instructions.length s >>=
        Search.result := by
  rw [neededStack]
  split
  next empty =>
    have nil : c.instructions = [] := List.isEmpty_iff.mp empty
    have unhandled : c.handlers = [] :=
      List.eq_nil_iff_forall_not_mem.mpr fun h member => by simpa [nil] using joined.entries h member
    rw [startSearch, nil, unhandled] at started
    cases started
    rw [nil, List.length_nil, explore]
    refine (bind_eq_ok_iff.mpr ⟨_, rfl, ?_⟩).symm
    rw [Search.result, Search.deepest_reach]
    rfl
  next =>
    rw [startSearch, Search.blank] at started
    dsimp only
    rw [List.size_toArray, started]
    rfl

/-! ### What the search finds -/

theorem Loop.nodup (joined : c.Joined) (searching : c.Searching pool [] s)
    (loop : c.Loop pool s looked outcome) : looked.Nodup ∧ ∀ i ∈ looked, i < c.instructions.length := by
  rcases loop.keeps (fun _ _ _ _ => searching_turn joined) searching with
    ⟨t, -, kept, -⟩ | ⟨others, i, t, why, -, rfl, kept, work, p, taken, -⟩
  · have distinct : looked.reverse.Nodup := kept.distinct.of_append_left.of_append_left
    exact ⟨List.nodup_reverse.mp distinct, fun i member => kept.inside (by simp [member])⟩
  · obtain ⟨distinct, -, apart⟩ := List.nodup_append.mp kept.distinct
    rw [List.append_nil] at distinct apart
    rw [taken] at apart
    have last : i ∉ others.reverse := fun member => apart i member i (List.mem_cons_self ..) rfl
    refine ⟨List.nodup_reverse.mp ?_, fun j member => kept.inside ?_⟩
    · rw [List.reverse_concat]
      exact List.nodup_cons.mpr ⟨last, distinct⟩
    · rcases List.mem_append.mp member with front | here
      · simp [front]
      · simp [List.mem_singleton.mp here, taken]

/-- The loop looks at all reachable instructions and finds the greatest depth, or it meets a reachable
instruction without a stack effect. -/
theorem Loop.cases (joined : c.Joined) (started : c.startSearch = .ok s)
    (loop : c.Loop pool s looked outcome) :
    (∃ t, outcome = .ok t ∧ (∀ i, c.Reachable i → ∃ e, c.Runs pool i e) ∧
      ∀ before, c.Fits pool before → IsGreatest (insert 0 (c.depths pool before)) t.deepest) ∨
    ∃ why i, outcome = .error (.malformed why) ∧ c.Reachable i ∧ ∀ e, ¬ c.Runs pool i e := by
  have step (seen : List Nat) (s : Search) (i : Nat) (t : Search)
      (kept : c.Searching pool seen s ∧ ∀ before, c.Fits pool before → c.Measured pool before seen s)
      (turn : c.Turn pool s i (.ok t)) : c.Searching pool (i :: seen) t ∧
        ∀ before, c.Fits pool before → c.Measured pool before (i :: seen) t :=
    ⟨searching_turn joined kept.1 turn,
      fun before fits => measured_turn joined fits kept.1 (kept.2 before fits) turn⟩
  have start : c.Searching pool [] s ∧ ∀ before, c.Fits pool before → c.Measured pool before [] s :=
    ⟨searching_start joined started, fun _ fits => measured_start joined fits started⟩
  rcases loop.keeps step start with
    ⟨t, ended, ⟨kept, measured⟩, idle⟩ | ⟨others, i, t, why, failed, -, ⟨kept, -⟩, turn⟩
  · have seen (i : Nat) := kept.seen_iff (i := i) idle
    refine .inl ⟨t, ended, fun i reachable => kept.runs i ((seen i).mpr reachable), fun before fits => ?_⟩
    have all : c.depths pool before =
        {n | ∃ i ∈ looked.reverse ++ [], c.HasDepth pool before i n} := by
      ext n
      refine exists_congr fun i => (and_iff_right_of_imp ?_).symm
      rintro ⟨e, ⟨reachable, -⟩, -⟩
      exact (seen i).mpr reachable
    rw [all]
    exact (measured before fits).deepest
  · obtain ⟨work, p, n, -, here, noted, visited⟩ := turn_cases joined kept turn
    cases effect : p.instruction.stackEffect pool with
    | ok e =>
        rw [effect] at visited
        cases visited
    | error e =>
        rw [effect] at visited
        cases visited
        obtain ⟨why, rfl⟩ := Instruction.faultsOnly_stackEffect pool _ _ effect
        refine .inr ⟨why, i, failed, kept.reachable i ⟨n, noted⟩, ?_⟩
        rintro e ⟨-, q, there, runs⟩
        cases here.symm.trans there
        rw [effect] at runs
        cases runs

/-- The greatest depth of the operand stack is exact. In code whose branch targets and handler entries are
instructions, the loop of the search ends on the one course that it takes, and no instruction is looked at
twice. The search fails for a malformed class file exactly if some reachable instruction has no stack
effect in the pool. If all have one, and there are depths that fit together along the flow of control,
then the answer is the greatest of all depths before and behind reachable instructions, and zero for code
without instructions, as long as 16 bits can hold it, and an overflow otherwise. -/
theorem neededStack_exact (joined : c.Joined) (pool : ConstantPool) :
    (∃ start looked outcome, c.startSearch = .ok start ∧ c.Loop pool start looked outcome ∧
      (∀ looked' outcome', c.Loop pool start looked' outcome' → looked' = looked ∧ outcome' = outcome) ∧
      looked.Nodup ∧ (∀ i ∈ looked, i < c.instructions.length) ∧
      c.neededStack pool = outcome >>= Search.result) ∧
    ((∃ why, c.neededStack pool = .error (.malformed why)) ↔
      ∃ i, c.Reachable i ∧ ∀ e, ¬ c.Runs pool i e) ∧
    ∀ before, (∀ i, c.Reachable i → ∃ e, c.Runs pool i e) → c.Fits pool before →
      ∃ m, (c.instructions = [] → m = 0) ∧
        (c.instructions ≠ [] → IsGreatest (c.depths pool before) m) ∧
        c.neededStack pool =
          if m < 0x10000 then .ok (UInt16.ofNat m) else .error (.overflow (.maxStack m)) := by
  obtain ⟨start, started⟩ : ∃ start, c.startSearch = .ok start := ⟨_, startSearch_eq joined⟩
  have searching : c.Searching pool [] start := searching_start joined started
  obtain ⟨looked, loop⟩ := exists_loop joined searching (Nat.le_add_left c.instructions.length 0)
  have result := neededStack_eq_result joined started pool
  have once := loop.nodup joined searching
  refine ⟨⟨start, looked, _, started, loop, fun _ _ => loop.unique, once.1, once.2, result⟩, ?_⟩
  rcases loop.cases joined started with ⟨t, ended, runs, greatest⟩ | ⟨why, i, failed, reachable, stuck⟩
  · rw [ended] at result
    have answer : c.neededStack pool = t.result := result
    rw [answer, Search.result]
    refine ⟨iff_of_false ?_ ?_, fun before _ fits => ⟨_, fun nil => ?_, fun nonempty => ?_, rfl⟩⟩
    · rintro ⟨why, malformed⟩
      split at malformed <;> cases malformed
    · rintro ⟨i, reachable, stuck⟩
      obtain ⟨e, here⟩ := runs i reachable
      exact stuck e here
    · have least := (greatest before fits).1
      rw [depths_of_nil nil, Set.mem_insert_iff] at least
      exact least.resolve_right (Set.notMem_empty _)
    · have zero := zero_mem_depths nonempty runs fits
      rw [← Set.insert_eq_of_mem zero]
      exact greatest before fits
  · rw [failed] at result
    refine ⟨iff_of_true ⟨why, result⟩ ⟨i, reachable, stuck⟩, fun before runs _ => ?_⟩
    obtain ⟨e, here⟩ := runs i reachable
    exact absurd here (stuck e)

/-- A branch, a subroutine and a handler that reads a field of two slots. No instruction passes control to
the call at the end, whose index is not in the pool. -/
def subroutineCode : Code where
  maxStack := 0
  maxLocals := 0
  instructions := [⟨0, .simple 0x03⟩, ⟨1, .branch 0x99 5⟩, ⟨4, .simple 0x00⟩, ⟨5, .branch Opcode.jsr 9⟩,
    ⟨8, .simple 0xb1⟩, ⟨9, .simple 0x4b⟩, ⟨10, .localVar Opcode.ret 0 false⟩, ⟨12, .simple 0x57⟩,
    ⟨13, .constant Opcode.getstatic 6⟩, ⟨16, .simple 0xb1⟩, ⟨17, .constant Opcode.invokestatic 9⟩]
  handlers := [⟨0, 9, 12, 0⟩]
  attributes := []

/-- A pool with a reference to a field of two slots. -/
def clockPool : ConstantPool :=
  ⟨#[.unusable, .utf8 (Text.ModifiedUtf8.encode "Clock"), .classInfo 1,
    .utf8 (Text.ModifiedUtf8.encode "ticks"), .utf8 (Text.ModifiedUtf8.encode "J"), .nameAndType 3 4,
    .fieldRef 2 5]⟩

theorem neededStack_exact_subroutineCode :
    let before (i : Nat) : Nat := [0, 1, 0, 0, 0, 1, 0, 1, 0, 2].getD i 0
    subroutineCode.Joined ∧ subroutineCode.Fits clockPool before ∧
      subroutineCode.neededStack clockPool = .ok 2 ∧
      IsGreatest (subroutineCode.depths clockPool before) 2 := by
  intro before
  have joined : subroutineCode.Joined := ⟨by decide +kernel, by decide +kernel⟩
  have fits : subroutineCode.Fits clockPool before := fits_of_fitsEverywhere (by decide +kernel)
  have answer : subroutineCode.neededStack clockPool = .ok 2 := by
    rw [neededStack_eq_listed]
    decide +kernel
  obtain ⟨-, malformed, exact_⟩ := neededStack_exact joined clockPool
  have runs (i : Nat) (reachable : subroutineCode.Reachable i) :
      ∃ e, subroutineCode.Runs clockPool i e := by
    by_contra stuck
    obtain ⟨why, failed⟩ := malformed.mpr ⟨i, reachable, fun e here => stuck ⟨e, here⟩⟩
    rw [answer] at failed
    cases failed
  obtain ⟨m, -, greatest, depth⟩ := exact_ before runs fits
  have two : m = 2 := by
    rw [answer] at depth
    split at depth
    next small =>
      have same : (2 : UInt16).toNat = (UInt16.ofNat m).toNat :=
        congrArg UInt16.toNat (Except.ok.inj depth)
      rw [UInt16.toNat_ofNat_of_lt' small] at same
      exact same.symm
    next => cases depth
  exact ⟨joined, fits, answer, two ▸ greatest nofun⟩

end Code

end JarGate
