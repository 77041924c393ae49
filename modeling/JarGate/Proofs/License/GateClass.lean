import JarGate.Proofs.Machine.GateBody
import JarGate.Proofs.Success

/-!
# The gate class and the gate

The gate class that is put into a jar and the gate of the library are the same machine: whatever the
surroundings do, they give the same answers and leave the same flag and the same surroundings behind.
One call is compared first, then any number of calls.
-/

namespace JarGate.GateClass

open Machine

variable {τ σ : Type}

/-! ### The body that is built -/

/-- The body of `check` in a mode. -/
def bodyInsns (mode : FailureMode) (r : Refs) : List Instruction :=
  match mode.shape with
  | .callOnly => limitedInsns r
  | .earlyReturn => enforcingInsns r

/-- The pool indices in every gate class. -/
def refs : Refs := ⟨15, 17, 19, 25, 29, 31, 32⟩

/-- What is known of the pool and the body of `check` in a mode. -/
structure Built (mode : FailureMode) (pool : ConstantPool) (code : Code) : Prop where
  sound : refs.Sound pool
  instructions : code.instructions = Instruction.placeFrom 0 (bodyInsns mode refs)
  handlers : code.handlers = [⟨6, 14, 17, refs.throwable⟩]

instance (mode : FailureMode) (pool : ConstantPool) (code : Code) : Decidable (Built mode pool code) :=
  decidable_of_iff
    (refs.Sound pool ∧ code.instructions = Instruction.placeFrom 0 (bodyInsns mode refs) ∧
      code.handlers = [⟨6, 14, 17, refs.throwable⟩])
    ⟨fun ⟨sound, instructions, handlers⟩ => ⟨sound, instructions, handlers⟩,
      fun h => ⟨h.sound, h.instructions, h.handlers⟩⟩

/-- The body of `check` in a class. -/
def HasCheck (c : ClassFile) (code : Code) : Prop :=
  ∃ index method, c.findMethod? gateName.method gateName.descriptor = some index ∧
    c.methods[index]? = some method ∧ method.code? = some code

/-- The gate class is built in every mode. -/
theorem exists_built (mode : FailureMode) :
    ∃ c code, build mode = .ok c ∧ HasCheck c code ∧ Built mode c.pool code := by
  have evaluated : ((build mode).toOption.bind fun c =>
      (c.findMethod? gateName.method gateName.descriptor).bind fun index =>
        c.methods[index]?.bind fun method =>
          method.code?.map fun code => decide (Built mode c.pool code)) = some true := by
    cases mode <;> decide +kernel
  obtain ⟨c, made, rest⟩ := Option.bind_eq_some_iff.mp evaluated
  obtain ⟨index, found, rest⟩ := Option.bind_eq_some_iff.mp rest
  obtain ⟨method, there, rest⟩ := Option.bind_eq_some_iff.mp rest
  obtain ⟨code, body, known⟩ := Option.map_eq_some_iff.mp rest
  exact ⟨c, code, toOption_eq_some_iff.mp made, ⟨index, method, found, there, body⟩,
    of_decide_eq_true known⟩

section

variable {mode : FailureMode} {pool : ConstantPool} {code : Code}

theorem Built.instructionAt? (h : Built mode pool code) (o : Nat) :
    code.instructionAt? o =
      ((Instruction.placeFrom 0 (bodyInsns mode refs)).find? (·.offset == o)).map Placed.instruction := by
  rw [Code.instructionAt?, h.instructions]

theorem Built.enforces (h : Built mode pool code) (enforced : mode ≠ .limitedMode) :
    Enforces refs code := by
  have body : bodyInsns mode refs = enforcingInsns refs := by
    cases mode with
    | limitedMode => exact absurd rfl enforced
    | _ => rfl
  have at? (o : Nat) := body ▸ h.instructionAt? o
  exact {
    first := at? 0, test := at? 3, path := at? 6, load := at? 8, keep := at? 11, skip := at? 14
    drop := at? 17, again := at? 20, ask := at? 23, short := rfl, handlers := h.handlers
    refuse := at? 18, leave := at? 19, answer := at? 26 }

theorem Built.records (h : Built .limitedMode pool code) : Records refs code where
  first := h.instructionAt? 0
  test := h.instructionAt? 3
  path := h.instructionAt? 6
  load := h.instructionAt? 8
  keep := h.instructionAt? 11
  skip := h.instructionAt? 14
  drop := h.instructionAt? 17
  again := h.instructionAt? 24
  ask := h.instructionAt? 27
  short := rfl
  handlers := h.handlers
  flag := h.instructionAt? 18
  set := h.instructionAt? 19
  pass := h.instructionAt? 22
  leave := h.instructionAt? 23
  verdict := h.instructionAt? 30
  bad := h.instructionAt? 33
  join := h.instructionAt? 34
  good := h.instructionAt? 37
  store := h.instructionAt? 38
  go := h.instructionAt? 41
  answer := h.instructionAt? 42

end

/-! ### One call -/

section

open LicenseGate (answerIn limitedIn decide? observe decisions attempts Observation)

variable {mode : FailureMode} {pool : ConstantPool} {code : Code} {env : Surroundings τ σ}
  {load : ClientLoader τ σ} {w : World τ σ} {g : LicenseGate τ} {s : σ}

/-- A body does with a decision what its mode asks for. -/
theorem leads_of_built (built : Built mode pool code) {client : Option (LicenseClient τ)} {limited : Bool}
    (unset : mode ≠ .limitedMode → limited = false) (shown : w.Shows client limited s) :
    ∃ w' : World τ σ,
      (∀ locals, Leads (host env load) pool code ⟨0, [], locals, w⟩
        (.returned Opcode.ireturn (some (.ofBool (answerIn mode (decide? env load client s).1))) w')) ∧
      w'.Shows (decide? env load client s).2.1 (limitedIn mode (decide? env load client s).1)
        (decide? env load client s).2.2 := by
  by_cases recorded : mode = .limitedMode
  · subst recorded
    have body := built.records
    obtain ⟨w', decided, keeps, -, outside⟩ :=
      leads_of_decision env load built.sound body.toAsks shown
    exact ⟨_, fun locals => (decided locals).trans (leads_of_recorded built.sound body _), keeps, rfl, outside⟩
  · have body := built.enforces recorded
    obtain ⟨w', decided, keeps, flag, outside⟩ :=
      leads_of_decision env load built.sound body.toAsks shown
    have answer (decision : Option Bool) : answerIn mode decision = decision.getD false := by
      simp [answerIn, recorded]
    have limited' (decision : Option Bool) : limitedIn mode decision = limited := by
      simp [limitedIn, recorded, unset recorded]
    rw [answer, limited']
    exact ⟨w', fun locals => (decided locals).trans (leads_of_enforced body _), keeps, flag, outside⟩

/-- The method `check` answers as the gate does, and leaves the same behind. -/
theorem leads_of_check (env : Surroundings τ σ) (load : ClientLoader τ σ)
    (built : Built mode pool code) (follows : g.Follows mode)
    (shown : w.Shows g.client g.limited s) :
    ∃ w' : World τ σ,
      (∀ locals, Leads (host env load) pool code ⟨0, [], locals, w⟩
        (.returned Opcode.ireturn (some (.ofBool (g.check env load s).1)) w')) ∧
      w'.Shows (g.check env load s).2.1.client (g.check env load s).2.1.limited
        (g.check env load s).2.2 := by
  rw [LicenseGate.check_eq follows]
  exact leads_of_built built follows.unset shown

/-! ### Any number of calls -/

/-- A body without parameters is run again and again in one world, and this is what is seen each time
when it has returned. -/
inductive Serves (env : Surroundings τ σ) (load : ClientLoader τ σ) (pool : ConstantPool) (code : Code) :
    World τ σ → List (Observation σ) → Prop
  | nil {w : World τ σ} : Serves env load pool code w []
  | cons {w w' : World τ σ} {o : Observation σ} {rest : List (Observation σ)}
      (returns : ∀ locals, Leads (host env load) pool code ⟨0, [], locals, w⟩
        (.returned Opcode.ireturn (some (.ofBool o.answer)) w'))
      (limited : w'.limited = .ofBool o.limited) (outside : w'.outside = o.outside)
      (later : Serves env load pool code w' rest) : Serves env load pool code w (o :: rest)

/-- What is seen is determined by the number of calls. -/
theorem Serves.unique {seen seen' : List (Observation σ)} (h : Serves env load pool code w seen)
    (h' : Serves env load pool code w seen') (length : seen.length = seen'.length) : seen = seen' := by
  induction h generalizing seen' with
  | nil => exact (List.eq_nil_of_length_eq_zero length.symm).symm
  | cons returns limited outside _ ih =>
      cases h' with
      | nil => cases length
      | cons returns' limited' outside' later' =>
          obtain ⟨_, run⟩ := returns fun _ => .null
          obtain ⟨_, run'⟩ := returns' fun _ => .null
          obtain ⟨-, same⟩ := run.unique trivial run' trivial
          injection same with _ value world
          have answer := Value.ofBool_inj.mp (Option.some.inj value)
          subst world
          have flag := Value.ofBool_inj.mp (limited.symm.trans limited')
          have around := outside.symm.trans outside'
          exact congrArg₂ List.cons (Observation.ext answer flag around) (ih later' (Nat.succ.inj length))

theorem serves_observe (env : Surroundings τ σ) (load : ClientLoader τ σ)
    (built : Built mode pool code) (follows : g.Follows mode)
    (shown : w.Shows g.client g.limited s) (n : Nat) :
    Serves env load pool code w (observe env load n g s) := by
  induction n generalizing g s w with
  | zero => exact .nil
  | succ n ih =>
      obtain ⟨w', returns, after⟩ := leads_of_check env load built follows shown
      have follows' : (g.check env load s).2.1.Follows mode := by
        rw [LicenseGate.check_eq follows]
        exact LicenseGate.follows_after follows _ _
      exact .cons returns after.limited after.outside (ih follows' after)

/-- The gate class and the gate are the same machine. Whatever the surroundings do, any number of calls
of `check`, with whatever is in its local variables, shows what the gate shows when it is asked as
often: the same answers, the same flag after every call, and the same surroundings, in which the
attempts to make a client are counted. Each answer and each flag is what the mode asks for, and a
client is to be made until that succeeds, and never again. -/
theorem same_as_gate (mode : FailureMode) (env : Surroundings τ σ) (load : ClientLoader τ σ) (s : σ)
    (n : Nat) :
    ∃ c code, build mode = .ok c ∧ HasCheck c code ∧
      (∀ seen, seen.length = n →
        (Serves env.counted load.counted c.pool code (.cold (s, 0)) seen ↔
          seen = observe env.counted load.counted n (.new (some mode)) (s, 0))) ∧
      ∀ i < n, ∃ o decision,
        (observe env.counted load.counted n (.new (some mode)) (s, 0))[i]? = some o ∧
        (decisions env load n none s)[i]? = some decision ∧
        o.answer = answerIn mode decision ∧ o.limited = limitedIn mode decision ∧
        o.outside.2 = attempts ((decisions env load n none s).take i) := by
  obtain ⟨c, code, made, check, built⟩ := exists_built mode
  have follows := LicenseGate.follows_new (τ := τ) mode
  have serves := serves_observe env.counted load.counted built follows
    (World.shows_cold (s, 0)) n
  refine ⟨c, code, made, check, fun seen length => ⟨fun h => ?_, fun h => h ▸ serves⟩, fun i bound => ?_⟩
  · exact h.unique serves (length.trans (LicenseGate.length_observe _ _ n _ _).symm)
  · rw [← LicenseGate.length_observe env.counted load.counted n (.new (some mode)) (s, 0)] at bound
    have seen := List.getElem?_eq_getElem bound
    have known := LicenseGate.getElem?_observe follows seen
    rw [LicenseGate.decisions_counted] at known
    obtain ⟨decision, decided, answer, flag⟩ := known
    refine ⟨_, decision, seen, decided, answer, flag, ?_⟩
    exact (LicenseGate.outside_eq_attempts follows rfl seen).trans (Nat.zero_add _)

end

end JarGate.GateClass
