import JarGate.Proofs.Injection.Selection
import JarGate.Proofs.Injection.Verdicts

/-!
# What becomes of each target

Targets are taken one after another, and each is either patched or passed over. So those that were patched
and those that were passed over make up the targets so far, and both are in their order. Which of the two
happens to a target is told by its class as it is behind the injections in front of it.
-/

namespace JarGate

/-! ### Targets of a plan -/

namespace Plan

variable {d : PluginDescriptor} {classes : List PackagedClass} {callbackClasses : List String} {plan : Plan}

/-- No two targets of a plan are the same method, where each class lies in an entry of its own. -/
theorem nodup_keys (readable : ∀ p ∈ classes, Readable p.content)
    (made : make d classes callbackClasses = .ok plan) (distinct : (classes.map (·.entry)).Nodup) :
    (plan.targets.map fun t => (t.entry, t.index)).Nodup := by
  refine ((lists_of_make readable made).image _).nodup (fun place less => ?_) ?_
  · rcases Prod.lex_def.mp less with less | ⟨-, less⟩
    · exact lt_irrefl _ less
    · exact lt_irrefl _ less
  · rintro place place' _ ⟨t, selects, rfl⟩ ⟨t', selects', same⟩
    exact place_of_key distinct selects selects' same.symm

/-- Each target of a plan is a method of a class in its entry that has a body and is written with the type
of the target. -/
theorem method_of_target (readable : ∀ p ∈ classes, Readable p.content)
    (made : make d classes callbackClasses = .ok plan) {t : InjectionTarget} (member : t ∈ plan.targets) :
    ∃ p ∈ classes, p.entry = t.entry ∧ ∃ m code, p.content.methods[t.index]? = some m ∧
      m.code? = some code ∧ p.content.methodDescriptor m = .ok t.descriptor := by
  obtain ⟨places, -, each, -⟩ := lists_of_make readable made
  obtain ⟨place, -, p, there, rule⟩ := exists_of_forall₂ each.flip t member
  refine ⟨p, List.mem_of_getElem? there, ?_⟩
  have hasBody {m : MethodInfo} (injectable : m.Injectable) : ∃ code, m.code? = some code :=
    Option.isSome_iff_exists.mp (isSome_code?_iff.mpr injectable.hasCode)
  rcases rule with ⟨-, method, spelled, -, injectable⟩ | ⟨-, -, -, method, spelled, -, injectable⟩
  · obtain ⟨code, body⟩ := hasBody injectable
    exact ⟨rfl, _, code, method, body, spelled.2⟩
  · obtain ⟨code, body⟩ := hasBody injectable
    exact ⟨rfl, _, code, method, body, spelled.2⟩

end Plan

namespace Patch

open Prologue (PassedOver Unleavable StartsWithCall Strays)

variable {options : PrologueOptions} {before : List PackagedClass} {state state' : Progress}
  {t : InjectionTarget} {done targets : List InjectionTarget}

/-! ### One target -/

/-- The targets that were passed over. -/
def Progress.passed (state : Progress) : List InjectionTarget := state.skipped.map (·.1)

/-- A target is patched or passed over, which depends on what the patched targets have made of its
class. -/
theorem injectTarget_cases (follows : state.Follows options before)
    (known : t.entry ∈ before.map (·.entry)) (ran : injectTarget options state t = .ok state') :
    ∃ b ∈ before, ∃ c, b.entry = t.entry ∧
      ClassEdit.run (editsOf options state.patched t.entry) b.content = some c ∧
      ((¬ PassedOver options t.index c ∧ state'.patched = state.patched ++ [t] ∧
          state'.passed = state.passed) ∨
        (PassedOver options t.index c ∧ state'.patched = state.patched ∧
          state'.passed = state.passed ++ [t])) := by
  have became {position : Nat} {p : PackagedClass} (found : state.classes[position]? = some p)
      (same : p.entry = t.entry) : ∃ b ∈ before, b.entry = t.entry ∧
        ClassEdit.run (editsOf options state.patched t.entry) b.content = some p.content := by
    obtain ⟨b, member, became⟩ := exists_of_forall₂ follows.classes.flip p (List.mem_of_getElem? found)
    have entry : b.entry = t.entry := became.entry.symm.trans same
    exact ⟨b, member, entry, entry ▸ became.edited⟩
  cases taken_of_injectTarget ran with
  | absent none =>
      rw [← entries_of_became follows.classes] at known
      obtain ⟨p, member, entry⟩ := List.mem_map.mp known
      exact absurd entry (none p member)
  | @patched position p c len found same injected =>
      obtain ⟨b, member, entry, edited⟩ := became found same
      refine ⟨b, member, p.content, entry, edited, .inl ⟨?_, rfl, rfl⟩⟩
      rintro ⟨err, c', failed, -⟩
      cases injected.symm.trans failed
  | @skipped position p c err found same failed recoverable =>
      obtain ⟨b, member, entry, edited⟩ := became found same
      refine ⟨b, member, p.content, entry, edited, .inr ⟨⟨_, _, failed, recoverable⟩, rfl, ?_⟩⟩
      rw [Progress.passed, List.map_append]
      rfl

/-! ### All targets -/

/-- What is known after some targets: they are patched or passed over, each once and in their order, and each
is passed over that is to be, in its class behind the injections before it. -/
structure Progress.Accounts (options : PrologueOptions) (before : List PackagedClass)
    (done : List InjectionTarget) (state : Progress) : Prop where
  follows : state.Follows options before
  patched : state.patched = done.filter (· ∉ state.passed)
  passed : state.passed = done.filter (· ∈ state.passed)
  verdict : ∀ earlier t later, done = earlier ++ t :: later → ∃ b ∈ before, ∃ c, b.entry = t.entry ∧
    ClassEdit.run (editsOf options (earlier.filter (· ∉ state.passed)) t.entry) b.content = some c ∧
    (t ∈ state.passed ↔ PassedOver options t.index c)

namespace Progress.Accounts

theorem start (options : PrologueOptions) (before : List PackagedClass) :
    Accounts options before [] ⟨before, [], [], []⟩ where
  follows := .start options before
  patched := rfl
  passed := rfl
  verdict _ _ _ whole := absurd whole.symm (List.append_ne_nil_of_right_ne_nil _ nofun)

theorem mem_of_passed (h : Accounts options before done state) {x : InjectionTarget}
    (passed : x ∈ state.passed) : x ∈ done := by
  rw [h.passed] at passed
  exact (List.mem_filter.mp passed).1

theorem passed_eq_iff (h : Accounts options before done state) :
    state.passed = done ↔ ∀ t ∈ done, t ∈ state.passed := by
  constructor
  · intro all t member
    rwa [all]
  · intro each
    rw [h.passed, List.filter_eq_self]
    intro t member
    exact decide_eq_true (each t member)

/-- No target was patched just if all of them were passed over. -/
theorem patched_eq_nil_iff (h : Accounts options before done state) :
    state.patched = [] ↔ state.passed = done := by
  rw [h.passed_eq_iff, h.patched, List.filter_eq_nil_iff]
  simp only [decide_eq_true_eq, not_not]

/-- What a new target preserves, if it is told from the others whether it is passed over. -/
theorem concat (h : Accounts options before done state) (follows : state'.Follows options before)
    (same : ∀ x ∈ done, x ∈ state'.passed ↔ x ∈ state.passed)
    (patched : state'.patched = state.patched ++ [t].filter (· ∉ state'.passed))
    (passed : state'.passed = state.passed ++ [t].filter (· ∈ state'.passed))
    (verdict : ∃ b ∈ before, ∃ c, b.entry = t.entry ∧
      ClassEdit.run (editsOf options state.patched t.entry) b.content = some c ∧
      (t ∈ state'.passed ↔ PassedOver options t.index c)) :
    Accounts options before (done ++ [t]) state' := by
  have kept {xs : List InjectionTarget} (among : ∀ x ∈ xs, x ∈ done) :
      xs.filter (· ∉ state'.passed) = xs.filter (· ∉ state.passed) :=
    List.filter_congr fun x member => by rw [decide_eq_decide, same x (among x member)]
  refine ⟨follows, ?_, ?_, ?_⟩
  · rw [patched, h.patched, List.filter_append, kept fun _ => id]
  · have old : done.filter (· ∈ state'.passed) = done.filter (· ∈ state.passed) :=
      List.filter_congr fun x member => by rw [decide_eq_decide, same x member]
    rw [List.filter_append, old, ← h.passed]
    exact passed
  · intro earlier u later whole
    rcases List.eq_nil_or_concat later with rfl | ⟨later, last, rfl⟩
    · obtain ⟨rfl, rfl⟩ : done = earlier ∧ t = u := by
        obtain ⟨first, second⟩ := List.append_inj' whole rfl
        exact ⟨first, List.singleton_inj.mp second⟩
      rwa [kept fun _ => id, ← h.patched]
    · rw [List.concat_eq_append, ← List.cons_append, ← List.append_assoc] at whole
      obtain ⟨inner, -⟩ := List.append_inj' whole rfl
      have among : ∀ x ∈ earlier, x ∈ done := fun x member => by
        rw [inner]
        exact List.mem_append_left _ member
      have here : u ∈ done := by
        rw [inner]
        exact List.mem_append_right _ List.mem_cons_self
      rw [kept among, same u here]
      exact h.verdict earlier u later inner

/-- What one target preserves. -/
theorem step (h : Accounts options before done state) (distinct : (before.map (·.entry)).Nodup)
    (fresh : t ∉ done) (known : t.entry ∈ before.map (·.entry))
    (ran : injectTarget options state t = .ok state') : Accounts options before (done ++ [t]) state' := by
  have follows := h.follows.step distinct ran
  have new : t ∉ state.passed := fun old => fresh (h.mem_of_passed old)
  obtain ⟨b, member, c, entry, edited, fate⟩ := injectTarget_cases h.follows known ran
  rcases fate with ⟨goes, patched, passed⟩ | ⟨stays, patched, passed⟩
  · have out : t ∉ state'.passed := by rwa [passed]
    refine h.concat follows (fun x _ => by rw [passed]) ?_ ?_ ⟨b, member, c, entry, edited, ?_⟩
    · rw [patched, List.filter_cons_of_pos (by simpa using out), List.filter_nil]
    · rw [List.filter_cons_of_neg (by simpa using out), List.filter_nil, List.append_nil, passed]
    · exact iff_of_false out goes
  · have inside : t ∈ state'.passed := by
      rw [passed]
      exact List.mem_append_right _ (List.mem_singleton.mpr rfl)
    refine h.concat follows (fun x old => ?_) ?_ ?_ ⟨b, member, c, entry, edited, ?_⟩
    · have apart : x ≠ t := fun same => fresh (same ▸ old)
      rw [passed, List.mem_append, List.mem_singleton, or_iff_left apart]
    · rw [List.filter_cons_of_neg (by simpa using inside), List.filter_nil, List.append_nil, patched]
    · rw [List.filter_cons_of_pos (by simpa using inside), List.filter_nil, passed]
    · exact iff_of_true inside stays

/-- What all targets preserve. -/
theorem run (h : Accounts options before done state) (distinct : (before.map (·.entry)).Nodup)
    (fresh : (done ++ targets).Nodup) (known : ∀ t ∈ targets, t.entry ∈ before.map (·.entry))
    (ran : targets.foldlM (injectTarget options) state = .ok state') :
    Accounts options before (done ++ targets) state' := by
  induction targets generalizing done state with
  | nil =>
      cases ran
      rwa [List.append_nil]
  | cons t targets ih =>
      rw [List.foldlM_cons, bind_eq_ok_iff] at ran
      obtain ⟨next, first, rest⟩ := ran
      obtain ⟨here, known⟩ := List.forall_mem_cons.mp known
      have new : t ∉ done := fun old => (List.nodup_append.mp fresh).2.2 t old t List.mem_cons_self rfl
      rw [List.append_cons] at fresh ⊢
      exact ih (h.step distinct new here first) fresh known rest

end Progress.Accounts

theorem accounts_injectAll (distinct : (before.map (·.entry)).Nodup) (fresh : targets.Nodup)
    (known : ∀ t ∈ targets, t.entry ∈ before.map (·.entry))
    (ran : injectAll options before targets = .ok state) : state.Accounts options before targets :=
  (Progress.Accounts.start options before).run distinct fresh known ran

/-- Where each target is to be passed over in the classes as they are, all of them are. -/
theorem injectAll_of_passedOver (distinct : (before.map (·.entry)).Nodup)
    (each : ∀ t ∈ targets, ∃ b ∈ before, b.entry = t.entry ∧ PassedOver options t.index b.content) :
    ∃ skipped, injectAll options before targets = .ok ⟨before, [], [], skipped⟩ ∧
      skipped.map (·.1) = targets := by
  have onto (passed : List (InjectionTarget × InjectError)) :
      ∃ skipped, targets.foldlM (injectTarget options) ⟨before, [], [], passed⟩ =
        .ok ⟨before, [], [], passed ++ skipped⟩ ∧ skipped.map (·.1) = targets := by
    induction targets generalizing passed with
    | nil => exact ⟨[], by rw [List.append_nil]; rfl, rfl⟩
    | cons t targets ih =>
        obtain ⟨⟨b, member, entry, err, c, failed, recoverable⟩, each⟩ := List.forall_mem_cons.mp each
        obtain ⟨i, bound, rfl⟩ := List.getElem_of_mem member
        obtain rfl := Prologue.eq_of_inject_recoverable failed recoverable
        have found : before.findIdx? (·.entry == t.entry) = some i := by
          refine List.findIdx?_eq_some_iff_getElem.mpr ⟨bound, beq_iff_eq.mpr entry, fun j less same => ?_⟩
          have alike : (before.map (·.entry))[j]? = (before.map (·.entry))[i]? := by
            simp only [List.getElem?_map, List.getElem?_eq_getElem (Nat.lt_trans less bound),
              List.getElem?_eq_getElem bound, Option.map_some, entry, eq_of_beq same]
          have within : j < (before.map (·.entry)).length := by
            rw [List.length_map]
            exact Nat.lt_trans less bound
          exact Nat.ne_of_lt less ((List.getElem?_inj within distinct).mp alike)
        have first : injectTarget options ⟨before, [], [], passed⟩ t =
            .ok ⟨before, [], [], passed ++ [(t, err)]⟩ := by
          have back : before.set i { before[i] with content := before[i].content } = before :=
            List.set_getElem_self bound
          simp only [injectTarget, found, injectAt, List.getElem?_eq_getElem bound, failed, recoverable,
            if_true, back]
        obtain ⟨skipped, rest, all⟩ := ih each (passed ++ [(t, err)])
        refine ⟨(t, err) :: skipped, ?_, by rw [List.map_cons, all]⟩
        rw [List.foldlM_cons, first]
        rw [List.append_assoc] at rest
        exact rest
  exact onto []

end Patch

end JarGate
