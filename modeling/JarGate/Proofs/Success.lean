import Mathlib
import JarGate.Edit

/-!
# Computations that succeed

A computation that may fail succeeds exactly when each of its steps does. These equivalences open a
`do` block from the outside, without unfolding the monad.
-/

namespace JarGate

variable {ε α β : Type}

@[simp] theorem bind_eq_ok_iff {x : Except ε α} {f : α → Except ε β} {b : β} :
    x >>= f = .ok b ↔ ∃ a, x = .ok a ∧ f a = .ok b := by
  cases x with
  | error e =>
      constructor
      · intro h
        cases h
      · rintro ⟨a, h, _⟩
        cases h
  | ok a =>
      constructor
      · exact fun h => ⟨a, rfl, h⟩
      · rintro ⟨a', h, hf⟩
        cases h
        exact hf

@[simp] theorem map_eq_ok_iff {x : Except ε α} {f : α → β} {b : β} :
    x.map f = .ok b ↔ ∃ a, x = .ok a ∧ f a = b := by
  cases x <;> simp [Except.map]

@[simp] theorem mapError_eq_ok_iff {ε' : Type} {f : ε → ε'} {x : Except ε α} {a : α} :
    x.mapError f = .ok a ↔ x = .ok a := by
  cases x <;> simp [Except.mapError]

@[simp] theorem pure_eq_ok_iff {a b : α} : (pure a : Except ε α) = .ok b ↔ a = b :=
  ⟨Except.ok.inj, congrArg _⟩

@[simp] theorem throw_ne_ok {e : ε} {a : α} : (throw e : Except ε α) ≠ .ok a := by
  intro h
  cases h

theorem toOption_eq_some_iff {x : Except ε α} {a : α} : x.toOption = some a ↔ x = .ok a := by
  cases x with
  | error e => exact ⟨nofun, nofun⟩
  | ok b =>
      constructor
      · intro same
        rw [Option.some.inj same]
      · intro same
        cases same
        rfl

/-- A computation that goes on only where a test fails. -/
theorem refuse_eq_ok_iff {γ : Type} {p : Prop} [Decidable p] {e : ε} {f : γ → Except ε β}
    {x : Except ε β} {b : β} :
    (if p then (throw e : Except ε γ) >>= f else x) = .ok b ↔ ¬ p ∧ x = .ok b := by
  by_cases test : p
  · rw [if_pos test]
    exact ⟨nofun, fun h => absurd test h.1⟩
  · rw [if_neg test, and_iff_right test]

/-- A list is computed element by element. -/
theorem mapM_eq_ok_iff {f : α → Except ε β} {as : List α} {bs : List β} :
    as.mapM f = .ok bs ↔ List.Forall₂ (fun a b => f a = .ok b) as bs := by
  induction as generalizing bs with
  | nil => cases bs <;> simp
  | cons a as ih =>
      rw [List.mapM_cons]
      constructor
      · intro h
        obtain ⟨b, hb, rest, hrest, h⟩ := by simpa only [bind_eq_ok_iff] using h
        cases h
        exact .cons hb (ih.mp hrest)
      · rintro (_ | ⟨hb, hrest⟩)
        simp only [bind_eq_ok_iff]
        exact ⟨_, hb, _, ih.mpr hrest, rfl⟩

theorem exists_mapM {f : α → Except ε β} {as : List α} (each : ∀ a ∈ as, ∃ b, f a = .ok b) :
    ∃ bs, as.mapM f = .ok bs := by
  induction as with
  | nil => exact ⟨[], rfl⟩
  | cons a as ih =>
      obtain ⟨⟨b, here⟩, others⟩ := List.forall_mem_cons.mp each
      obtain ⟨bs, behind⟩ := ih others
      exact ⟨b :: bs, mapM_eq_ok_iff.mpr (.cons here (mapM_eq_ok_iff.mp behind))⟩

/-- In lists that are related element by element, each element of the first has one in the second. -/
theorem exists_of_forall₂ {R : α → β → Prop} {as : List α} {bs : List β} (each : List.Forall₂ R as bs) :
    ∀ a ∈ as, ∃ b ∈ bs, R a b := by
  induction each with
  | nil => nofun
  | cons head _ ih =>
      refine List.forall_mem_cons.mpr ⟨⟨_, List.mem_cons_self .., head⟩, fun a member => ?_⟩
      obtain ⟨b, there, related⟩ := ih a member
      exact ⟨b, List.mem_cons_of_mem _ there, related⟩

/-! ### Failures -/

section

variable {e : ε}

theorem bind_eq_error_iff {x : Except ε α} {f : α → Except ε β} :
    x >>= f = .error e ↔ x = .error e ∨ ∃ a, x = .ok a ∧ f a = .error e := by
  cases x with
  | error e' =>
      constructor
      · intro failed
        cases failed
        exact .inl rfl
      · rintro (same | ⟨a, found, -⟩)
        · cases same
          rfl
        · cases found
  | ok a =>
      constructor
      · exact fun failed => .inr ⟨a, rfl, failed⟩
      · rintro (same | ⟨a', found, failed⟩)
        · cases same
        · cases found
          exact failed

/-- Behind a step that succeeded, it is the rest that failed. -/
theorem error_of_bind {x : Except ε α} {f : α → Except ε β} {a : α} (found : x = .ok a)
    (failed : x >>= f = .error e) : f a = .error e := by
  rw [found] at failed
  exact failed

/-- What is returned at the end makes no computation fail. -/
theorem bind_pure_eq_error_iff {x : Except ε α} {f : α → β} :
    (x >>= fun a => pure (f a)) = .error e ↔ x = .error e := by
  rw [bind_eq_error_iff]
  exact or_iff_left fun ⟨_, _, failed⟩ => nomatch failed

end

end JarGate
