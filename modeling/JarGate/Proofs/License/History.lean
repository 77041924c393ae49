import JarGate.License.Gate

/-!
# Histories of a gate

What a gate answers when it is asked again and again. What the surroundings decide each time does not
depend on the mode of the gate: either no client can be made, or the client gives its verdict. The mode
decides what becomes of that. The surroundings can count how often a client was to be made, so that the
times when a gate tries can be read off the history.
-/

namespace JarGate

variable {τ σ : Type}

/-- Loads clients, or fails to. -/
abbrev ClientLoader (τ σ : Type) : Type := σ → Except ClientError (LicenseClient τ) × σ

namespace LicenseGate

/-- The verdict of a client. -/
def verdictOf (env : Surroundings τ σ) (client : LicenseClient τ) (s : σ) :
    Option Bool × Option (LicenseClient τ) × σ :=
  let (valid, client, s) := client.validate env s
  (some valid, some client, s)

/-- What the surroundings decide when a gate that keeps a client, or none yet, is asked: the verdict,
unless there is no client and none can be made. -/
def decide? (env : Surroundings τ σ) (load : ClientLoader τ σ) (client : Option (LicenseClient τ))
    (s : σ) : Option Bool × Option (LicenseClient τ) × σ :=
  match client with
  | some client => verdictOf env client s
  | none =>
    match load s with
    | (.ok client, s) => verdictOf env client s
    | (.error _, s) => (none, none, s)

/-- The decisions of the surroundings when a gate is asked a number of times. -/
def decisions (env : Surroundings τ σ) (load : ClientLoader τ σ) :
    Nat → Option (LicenseClient τ) → σ → List (Option Bool)
  | 0, _, _ => []
  | n + 1, client, s =>
    let (decision, client, s) := decide? env load client s
    decision :: decisions env load n client s

/-- What is seen of a gate when it has answered. -/
@[ext]
structure Observation (σ : Type) where
  answer : Bool
  limited : Bool
  outside : σ
  deriving DecidableEq, Repr

/-- What is seen of a gate that is asked a number of times. -/
def observe (env : Surroundings τ σ) (load : ClientLoader τ σ) :
    Nat → LicenseGate τ → σ → List (Observation σ)
  | 0, _, _ => []
  | n + 1, g, s =>
    let (answer, g, s) := g.check env load s
    ⟨answer, g.limited, s⟩ :: observe env load n g s

/-- The answer of a gate in a mode to a decision. -/
def answerIn (mode : FailureMode) (decision : Option Bool) : Bool :=
  mode = .limitedMode || decision.getD false

/-- The flag of a gate in a mode after a decision. -/
def limitedIn (mode : FailureMode) (decision : Option Bool) : Bool :=
  mode = .limitedMode && !decision.getD false

section

variable {env : Surroundings τ σ} {load : ClientLoader τ σ} {mode : FailureMode} {g : LicenseGate τ}

/-- A gate has a mode of its own, and its flag is unset where the verdict is enforced. -/
structure Follows (mode : FailureMode) (g : LicenseGate τ) : Prop where
  own : g.mode = some mode
  unset : mode ≠ .limitedMode → g.limited = false

theorem follows_new (mode : FailureMode) : Follows mode (new (some mode) : LicenseGate τ) :=
  ⟨rfl, fun _ => rfl⟩

/-- A gate in a mode after a decision. -/
def after (mode : FailureMode) (g : LicenseGate τ) (decision : Option Bool)
    (client : Option (LicenseClient τ)) : LicenseGate τ :=
  { g with client, limited := limitedIn mode decision }

theorem follows_after (follows : Follows mode g) (decision : Option Bool)
    (client : Option (LicenseClient τ)) : Follows mode (g.after mode decision client) where
  own := follows.own
  unset enforced := by simp [after, limitedIn, enforced]

theorem askClient_eq (follows : Follows mode g) (client : LicenseClient τ) (s : σ) :
    g.askClient env client s =
      (answerIn mode (some (client.validate env s).1),
        g.after mode (some (client.validate env s).1) (some (client.validate env s).2.1),
        (client.validate env s).2.2) := by
  obtain ⟨kept, limited, _⟩ := g
  obtain rfl := follows.own
  by_cases recorded : mode = .limitedMode
  · subst recorded
    rfl
  · obtain rfl : limited = false := follows.unset recorded
    simp [askClient, answerIn, after, limitedIn, recorded]

theorem withoutClient_eq (follows : Follows mode g) :
    g.withoutClient = (answerIn mode none, g.after mode none g.client) := by
  obtain ⟨kept, limited, _⟩ := g
  obtain rfl := follows.own
  by_cases recorded : mode = .limitedMode
  · subst recorded
    rfl
  · obtain rfl : limited = false := follows.unset recorded
    simp [withoutClient, answerIn, after, limitedIn, recorded]

theorem decide?_of_loaded {client : LicenseClient τ} {s s' : σ} (loaded : load s = (.ok client, s')) :
    decide? env load none s = verdictOf env client s' := by
  simp only [decide?, loaded]

theorem decide?_of_failed {e : ClientError} {s s' : σ} (failed : load s = (.error e, s')) :
    decide? env load none s = (none, none, s') := by
  simp only [decide?, failed]

/-- A gate does with a decision what its mode asks for. -/
theorem check_eq (follows : Follows mode g) (s : σ) :
    g.check env load s =
      (answerIn mode (decide? env load g.client s).1,
        g.after mode (decide? env load g.client s).1 (decide? env load g.client s).2.1,
        (decide? env load g.client s).2.2) := by
  cases kept : g.client with
  | some client =>
      rw [check, kept]
      exact askClient_eq follows client s
  | none =>
      cases loading : load s with
      | mk outcome s' =>
          cases outcome with
          | ok client =>
              rw [decide?_of_loaded loading]
              simp only [check, kept, loading]
              exact askClient_eq follows client s'
          | error e =>
              rw [decide?_of_failed loading]
              simp only [check, kept, loading, withoutClient_eq follows]

theorem length_observe (env : Surroundings τ σ) (load : ClientLoader τ σ) (n : Nat) (g : LicenseGate τ) (s : σ) :
    (observe env load n g s).length = n := by
  induction n generalizing g s with
  | zero => rfl
  | succ n ih =>
      rw [observe, List.length_cons, ih]

/-- What is seen of a gate is what its mode makes of the decisions. -/
theorem getElem?_observe (follows : Follows mode g) {n i : Nat} {s : σ} {o : Observation σ}
    (seen : (observe env load n g s)[i]? = some o) :
    ∃ decision, (decisions env load n g.client s)[i]? = some decision ∧
      o.answer = answerIn mode decision ∧ o.limited = limitedIn mode decision := by
  induction n generalizing g s i with
  | zero => cases seen
  | succ n ih =>
      rw [observe, check_eq follows] at seen
      cases i with
      | zero =>
          obtain rfl := Option.some.inj seen
          exact ⟨_, rfl, rfl, rfl⟩
      | succ i => exact ih (follows_after follows _ _) seen

/-- A gate has a client as soon as there was a verdict. -/
theorem isSome_decide? (env : Surroundings τ σ) (load : ClientLoader τ σ)
    (client : Option (LicenseClient τ)) (s : σ) :
    (decide? env load client s).2.1.isSome = (decide? env load client s).1.isSome := by
  cases client with
  | some client => rfl
  | none =>
      cases loading : load s with
      | mk outcome s' =>
          cases outcome with
          | ok client =>
              rw [decide?_of_loaded loading]
              rfl
          | error e =>
              rw [decide?_of_failed loading]
              rfl

end

end LicenseGate

/-! ### Counting -/

/-- Surroundings with a count beside them. -/
def Surroundings.counted (env : Surroundings τ σ) : Surroundings τ (σ × Nat) where
  wallClock s := env.wallClock s.1
  steadyClock s := env.steadyClock s.1
  send handle request s :=
    let (outcome, outside) := env.send handle request s.1
    (outcome, outside, s.2)

/-- Counts how often clients are loaded. -/
def ClientLoader.counted (load : ClientLoader τ σ) : ClientLoader τ (σ × Nat) := fun s =>
  let (outcome, outside) := load s.1
  (outcome, outside, s.2 + 1)

theorem LicenseClient.validate_counted (env : Surroundings τ σ) (c : LicenseClient τ) (s : σ × Nat) :
    c.validate env.counted s =
      ((c.validate env s.1).1, (c.validate env s.1).2.1, (c.validate env s.1).2.2, s.2) := by
  have clock : env.counted.steadyClock s = env.steadyClock s.1 := rfl
  rw [validate, validate, clock]
  cases c.cached? (env.steadyClock s.1) with
  | some verdict => rfl
  | none => rfl

namespace LicenseGate

section

variable {env : Surroundings τ σ} {load : ClientLoader τ σ} {mode : FailureMode} {g : LicenseGate τ}

theorem verdictOf_counted (client : LicenseClient τ) (s : σ × Nat) :
    verdictOf env.counted client s =
      ((verdictOf env client s.1).1, (verdictOf env client s.1).2.1,
        (verdictOf env client s.1).2.2, s.2) := by
  rw [verdictOf, LicenseClient.validate_counted]
  rfl

/-- A gate tries to make a client just where it has none. -/
theorem decide?_counted (client : Option (LicenseClient τ)) (s : σ × Nat) :
    decide? env.counted load.counted client s =
      ((decide? env load client s.1).1, (decide? env load client s.1).2.1,
        (decide? env load client s.1).2.2, if client.isSome then s.2 else s.2 + 1) := by
  cases client with
  | some client => exact verdictOf_counted client s
  | none =>
      have counted : load.counted s = ((load s.1).1, (load s.1).2, s.2 + 1) := rfl
      cases loading : load s.1 with
      | mk outcome outside =>
          rw [loading] at counted
          cases outcome with
          | ok client =>
              rw [decide?_of_loaded loading, decide?_of_loaded counted]
              exact verdictOf_counted client _
          | error e =>
              rw [decide?_of_failed loading, decide?_of_failed counted]
              rfl

theorem decisions_counted (n : Nat) (client : Option (LicenseClient τ)) (s : σ × Nat) :
    decisions env.counted load.counted n client s = decisions env load n client s.1 := by
  induction n generalizing client s with
  | zero => rfl
  | succ n ih =>
      rw [decisions, decisions, decide?_counted]
      exact congrArg (List.cons _) (ih _ _)

/-- How often a client was to be made for the answer after some decisions and all answers before. -/
def attempts (earlier : List (Option Bool)) : Nat :=
  (earlier.takeWhile Option.isNone).length + 1

theorem attempts_some (valid : Bool) (earlier : List (Option Bool)) :
    attempts (some valid :: earlier) = 1 := rfl

theorem attempts_none (earlier : List (Option Bool)) :
    attempts (none :: earlier) = 1 + attempts earlier :=
  Nat.add_comm _ _

/-- A gate with a client does not try again. -/
theorem outside_of_client (follows : Follows mode g) (client : g.client.isSome) (n : Nat) (s : σ × Nat) :
    ∀ o ∈ observe env.counted load.counted n g s, o.outside.2 = s.2 := by
  induction n generalizing g s with
  | zero => nofun
  | succ n ih =>
      rw [observe, check_eq follows, decide?_counted, if_pos client]
      refine List.forall_mem_cons.mpr ⟨rfl, ih (follows_after follows _ _) ?_ _⟩
      obtain ⟨kept, known⟩ := Option.isSome_iff_exists.mp client
      rw [after, known]
      rfl

/-- A gate without a client tries until it succeeds, and never again. -/
theorem outside_eq_attempts (follows : Follows mode g) (fresh : g.client = none) {n i : Nat}
    {s : σ × Nat} {o : Observation (σ × Nat)}
    (seen : (observe env.counted load.counted n g s)[i]? = some o) :
    o.outside.2 = s.2 + attempts ((decisions env load n g.client s.1).take i) := by
  induction n generalizing g s i with
  | zero => cases seen
  | succ n ih =>
      rw [observe, check_eq follows, decide?_counted, fresh] at seen
      rw [decisions, fresh]
      have tried : (if (none : Option (LicenseClient τ)).isSome then s.2 else s.2 + 1) = s.2 + 1 := rfl
      rw [tried] at seen
      cases i with
      | zero =>
          obtain rfl := Option.some.inj seen
          rfl
      | succ i =>
          rw [List.getElem?_cons_succ] at seen
          rw [List.take_succ_cons]
          have agree := isSome_decide? env load none s.1
          cases decision : (decide? env load none s.1).1 with
          | some valid =>
              rw [decision] at agree
              rw [attempts_some]
              exact outside_of_client (follows_after follows _ _) agree n _ o
                (List.mem_of_getElem? seen)
          | none =>
              rw [decision] at agree
              have still : (decide? env load none s.1).2.1 = none :=
                Option.not_isSome_iff_eq_none.mp (Bool.eq_false_iff.mp agree)
              rw [attempts_none, ← Nat.add_assoc]
              exact ih (follows_after follows _ _) still seen

end

end LicenseGate

end JarGate
