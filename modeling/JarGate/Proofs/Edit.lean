import Mathlib
import JarGate.Edit

/-!
# Edits that succeed

How a sequence of edits runs, and edits that are functions where they succeed: so is such an edit of a
part or of every element.
-/

namespace JarGate

namespace Edit

variable {ε ε' σ τ α β : Type}

theorem bind_run (e : Edit ε σ α) (f : α → Edit ε σ β) (s : σ) :
    (e >>= f) s = match e s with
      | .ok a s => f a s
      | .error err s => .error err s := rfl

theorem bind_of_ok {e : Edit ε σ α} {f : α → Edit ε σ β} {s t : σ} {a : α} (h : e s = .ok a t) :
    (e >>= f) s = f a t := by
  rw [bind_run, h]

theorem get_bind (f : σ → Edit ε σ β) (s : σ) : ((get : Edit ε σ σ) >>= f) s = f s s := rfl

/-! ### What a successful edit did -/

theorem bind_eq_ok {e : Edit ε σ α} {f : α → Edit ε σ β} {s u : σ} {b : β} :
    (e >>= f) s = .ok b u ↔ ∃ a t, e s = .ok a t ∧ f a t = .ok b u := by
  rw [bind_run]
  cases e s with
  | ok a t =>
      constructor
      · exact fun h => ⟨a, t, rfl, h⟩
      · rintro ⟨_, _, same, h⟩
        cases same
        exact h
  | error err t =>
      constructor
      · intro h
        cases h
      · rintro ⟨_, _, same, _⟩
        cases same

theorem pure_eq_ok {s t : σ} {a b : α} : (pure a : Edit ε σ α) s = .ok b t ↔ b = a ∧ t = s := by
  constructor
  · rintro ⟨⟩
    exact ⟨rfl, rfl⟩
  · rintro ⟨rfl, rfl⟩
    rfl

theorem lift_eq_ok {x : Except ε α} {s t : σ} {a : α} : lift x s = .ok a t ↔ x = .ok a ∧ t = s := by
  cases x with
  | error e =>
      constructor
      · intro h
        cases h
      · rintro ⟨h, -⟩
        cases h
  | ok b =>
      constructor
      · rintro ⟨⟩
        exact ⟨rfl, rfl⟩
      · rintro ⟨h, rfl⟩
        cases h
        rfl

theorem mapError_eq_ok {f : ε → ε'} {e : Edit ε σ α} {s t : σ} {a : α} :
    mapError f e s = .ok a t ↔ e s = .ok a t := by
  rw [mapError]
  cases e s with
  | ok b u => exact ⟨fun h => by cases h; rfl, fun h => by cases h; rfl⟩
  | error err u => exact ⟨nofun, nofun⟩

theorem within_eq_ok {part : σ → τ} {put : τ → σ → σ} {e : Edit ε τ α} {s u : σ} {a : α} :
    within part put e s = .ok a u ↔ ∃ t, e (part s) = .ok a t ∧ u = put t s := by
  rw [within]
  cases e (part s) with
  | ok b t =>
      constructor
      · rintro ⟨⟩
        exact ⟨t, rfl, rfl⟩
      · rintro ⟨_, same, rfl⟩
        cases same
        rfl
  | error err t =>
      constructor
      · intro h
        cases h
      · rintro ⟨_, same, _⟩
        cases same

theorem outcome_eq_ok_iff {e : Edit ε σ α} {s : σ} {a : α} :
    outcome e s = .ok a ↔ ∃ t, e s = .ok a t := by
  rw [outcome]
  cases e s with
  | ok b t =>
      constructor
      · intro same
        rw [Except.ok.inj same]
        exact ⟨t, rfl⟩
      · rintro ⟨_, same⟩
        cases same
        rfl
  | error err t =>
      constructor
      · intro same
        cases same
      · rintro ⟨_, same⟩
        cases same

/-- The answer of an edit and the edited value, unless it fails. -/
def finished? (e : Edit ε σ α) (s : σ) : Option (α × σ) :=
  match e s with
  | .ok a t => some (a, t)
  | .error _ _ => none

theorem finished?_eq_some_iff {e : Edit ε σ α} {s t : σ} {a : α} :
    finished? e s = some (a, t) ↔ e s = .ok a t := by
  rw [finished?]
  cases e s with
  | ok b u =>
      constructor
      · rintro ⟨⟩
        rfl
      · rintro ⟨⟩
        rfl
  | error err u =>
      constructor
      · intro h
        cases h
      · intro h
        cases h

/-- The error of an edit and what it leaves behind, if it fails. -/
def stopped? (e : Edit ε σ α) (s : σ) : Option (ε × σ) :=
  match e s with
  | .ok _ _ => none
  | .error err t => some (err, t)

theorem stopped?_eq_some_iff {e : Edit ε σ α} {s t : σ} {err : ε} :
    stopped? e s = some (err, t) ↔ e s = .error err t := by
  rw [stopped?]
  cases e s with
  | ok b u =>
      constructor
      · intro h
        cases h
      · intro h
        cases h
  | error err' u =>
      constructor
      · rintro ⟨⟩
        rfl
      · rintro ⟨⟩
        rfl

theorem set_bind (t : σ) (f : PUnit → Edit ε σ β) (s : σ) :
    ((set t : Edit ε σ PUnit) >>= f) s = f ⟨⟩ t := rfl

theorem set_eq_ok {s t u : σ} : (set t : Edit ε σ PUnit) s = .ok ⟨⟩ u ↔ u = t := by
  constructor
  · rintro ⟨⟩
    rfl
  · rintro rfl
    rfl

theorem replace_eq_ok {x : Except ε σ} {s t : σ} : replace x s = .ok () t ↔ x = .ok t := by
  cases x with
  | error e => exact ⟨nofun, nofun⟩
  | ok u => exact ⟨fun same => by cases same; rfl, fun same => by cases same; rfl⟩

/-! ### Edits that are functions -/

/-- Whether an edit succeeds on just the values of which `P` holds, and changes them by `g`. -/
def Does (e : Edit ε σ Unit) (P : σ → Prop) (g : σ → σ) : Prop :=
  ∀ s t, e s = .ok () t ↔ P s ∧ t = g s

namespace Does

variable {e e' : Edit ε σ Unit} {P Q : σ → Prop} {g k : σ → σ}

theorem run (does : Does e P g) {s : σ} (holds : P s) : e s = .ok () (g s) :=
  (does s _).mpr ⟨holds, rfl⟩

theorem bind (first : Does e P g) (second : Does e' Q k) :
    Does (e >>= fun _ => e') (fun s => P s ∧ Q (g s)) fun s => k (g s) := by
  intro s t
  rw [bind_eq_ok]
  constructor
  · rintro ⟨_, u, early, late⟩
    obtain ⟨holds, rfl⟩ := (first s u).mp early
    obtain ⟨holds', rfl⟩ := (second _ t).mp late
    exact ⟨⟨holds, holds'⟩, rfl⟩
  · rintro ⟨⟨holds, holds'⟩, rfl⟩
    exact ⟨(), g s, first.run holds, second.run holds'⟩

theorem within {part : τ → σ} {put : σ → τ → τ} (does : Does e P g) :
    Does (within part put e) (fun s => P (part s)) fun s => put (g (part s)) s := by
  intro s t
  rw [within_eq_ok]
  constructor
  · rintro ⟨u, done, rfl⟩
    obtain ⟨holds, rfl⟩ := (does _ u).mp done
    exact ⟨holds, rfl⟩
  · rintro ⟨holds, rfl⟩
    exact ⟨_, does.run holds, rfl⟩

theorem each (does : Does e P g) : Does (each e) (fun as => ∀ a ∈ as, P a) (List.map g) := by
  have onto (done as out : List σ) :
      eachOnto e done as = .ok () out ↔ (∀ a ∈ as, P a) ∧ out = done.reverse ++ as.map g := by
    induction as generalizing done with
    | nil =>
        rw [eachOnto, List.map_nil, List.append_nil]
        exact ⟨fun same => by cases same; exact ⟨nofun, rfl⟩, fun ⟨_, same⟩ => by rw [same]⟩
    | cons a as ih =>
        rw [eachOnto, List.forall_mem_cons, List.map_cons]
        cases here : e a with
        | ok u b =>
            obtain ⟨holds, rfl⟩ := (does a b).mp here
            refine (ih (g a :: done)).trans ?_
            rw [List.reverse_cons, List.append_assoc, List.singleton_append, and_iff_right holds]
        | error err b =>
            refine ⟨nofun, fun ⟨⟨holds, _⟩, _⟩ => ?_⟩
            rw [does.run holds] at here
            cases here
  exact fun as out => onto [] as out

end Does

end Edit

end JarGate
