import JarGate.Injection.Patch
import JarGate.Proofs.Injection.WellFormed

/-!
# Injecting into many targets

Targets are taken one after another, and a target that cannot ask the gate is passed over without a
trace in its class. `Progress.Follows` says what the classes have become after some of the targets, class
by class; one target preserves it, and so do all of them.
-/

namespace JarGate

namespace Prologue

variable {α β : Type} {options : PrologueOptions} {index : Nat} {c c' : ClassFile} {err : InjectError}

/-- Whether an injection can only fail in a way after which the patch is given up. -/
def Fatal (e : Injection α) : Prop :=
  ∀ c err c', e c = .error err c' → err.isRecoverable = false

namespace Fatal

theorem pure (a : α) : Fatal (Pure.pure a : Injection α) := nofun

theorem ofChange (e : ClassFile.Change α) : Fatal (Prologue.ofChange e) := by
  intro c err c' failed
  rw [Prologue.ofChange, Edit.mapError] at failed
  cases result : e c with
  | ok a d =>
      rw [result] at failed
      cases failed
  | error why d =>
      rw [result] at failed
      cases failed
      rfl

theorem setCode (index : Nat) (method : MethodInfo) (code : Code) :
    Fatal (Prologue.setCode index method code) := nofun

theorem bind {e : Injection α} {f : α → Injection β} (first : Fatal e) (next : ∀ a, Fatal (f a)) :
    Fatal (e >>= f) := by
  intro c err c' failed
  rw [Edit.bind_run] at failed
  cases result : e c with
  | ok a d =>
      rw [result] at failed
      exact next a d err c' failed
  | error why d =>
      rw [result] at failed
      cases failed
      exact first c _ _ result

end Fatal

/-- Behind its checks an injection does not fail in a way that can be passed over. -/
theorem fatal_rewrite (index : Nat) (shape : PrologueShape) (c : ClassFile) (method : MethodInfo)
    (name : String) (descriptor : MethodDescriptor) (code : Code) (exit : List Instruction) :
    Fatal (rewrite index shape c method name descriptor code exit) := by
  refine (Fatal.ofChange _).bind fun className => (Fatal.ofChange _).bind fun gateRef => ?_
  dsimp only
  split
  · refine (Fatal.ofChange _).bind fun initial => (Fatal.ofChange _).bind fun tableName => ?_
    refine (Fatal.setCode _ _ _).bind fun _ => (Fatal.ofChange _).bind fun frames => ?_
    exact (Fatal.setCode _ _ _).bind fun _ => .pure _
  · exact (Fatal.setCode _ _ _).bind fun _ => .pure _

/-- An injection that is passed over leaves the class as it was. -/
theorem eq_of_inject_recoverable (h : inject index options c = .error err c')
    (recoverable : err.isRecoverable = true) : c' = c := by
  cases checked_inject index options c with
  | failed stopped _ =>
      cases h.symm.trans stopped
      rfl
  | passed _ _ _ _ _ _ _ goes =>
      rw [fatal_rewrite _ _ _ _ _ _ _ _ _ _ _ (goes.symm.trans h)] at recoverable
      cases recoverable

end Prologue

theorem ClassEdit.run_concat (edits : List ClassEdit) (e : ClassEdit) (c : ClassFile) :
    run (edits ++ [e]) c = (run edits c).bind (apply · e) := by
  rw [run, List.foldlM_append]
  exact bind_congr fun d => List.foldlM_cons.trans (bind_pure _)

namespace Patch

/-- The injections into those of some targets that lie in the class of an entry. -/
def editsOf (options : PrologueOptions) (targets : List InjectionTarget) (entry : String) :
    List ClassEdit :=
  (targets.filter (·.entry == entry)).map fun t => .inject t.index options

/-- Whether a class is what the injections into targets have made of a class of the same entry. -/
structure Became (options : PrologueOptions) (targets : List InjectionTarget)
    (before after : PackagedClass) : Prop where
  entry : after.entry = before.entry
  edited : ClassEdit.run (editsOf options targets before.entry) before.content = some after.content

/-- What is known after some targets: each class is what the patched targets in it have made of it, and
the touched classes are just those that have a patched target. -/
structure Progress.Follows (options : PrologueOptions) (before : List PackagedClass)
    (state : Progress) : Prop where
  classes : List.Forall₂ (Became options state.patched) before state.classes
  known : ∀ t ∈ state.patched, t.entry ∈ before.map (·.entry)
  distinct : state.touched.Nodup
  touched : ∀ i, i ∈ state.touched ↔ ∃ t ∈ state.patched, (before.map (·.entry))[i]? = some t.entry

variable {options : PrologueOptions} {before : List PackagedClass} {state state' : Progress}
  {target : InjectionTarget} {targets : List InjectionTarget}

theorem editsOf_concat_self (targets : List InjectionTarget) (t : InjectionTarget) :
    editsOf options (targets ++ [t]) t.entry =
      editsOf options targets t.entry ++ [.inject t.index options] := by
  simp [editsOf]

theorem editsOf_concat_other {entry : String} (other : target.entry ≠ entry) :
    editsOf options (targets ++ [target]) entry = editsOf options targets entry := by
  simp [editsOf, other]

/-- Injections leave the classes of a list in the entries where they were. -/
theorem entries_of_became {after : List PackagedClass}
    (h : List.Forall₂ (Became options targets) before after) :
    after.map (·.entry) = before.map (·.entry) := by
  induction h with
  | nil => rfl
  | cons head _ ih => rw [List.map_cons, List.map_cons, head.entry, ih]

/-- One more injection, into the class at a position. -/
theorem became_set {after : List PackagedClass} {position : Nat} {p : PackagedClass} {c : ClassFile}
    {len : Nat} (distinct : (before.map (·.entry)).Nodup)
    (h : List.Forall₂ (Became options targets) before after) (found : after[position]? = some p)
    (same : p.entry = target.entry)
    (injected : Prologue.inject target.index options p.content = .ok len c) :
    List.Forall₂ (Became options (targets ++ [target])) before
      (after.set position { p with content := c }) := by
  obtain ⟨bound, here⟩ := List.getElem?_eq_some_iff.mp found
  have entries := entries_of_became h
  obtain ⟨length, each⟩ := List.forall₂_iff_get.mp h
  refine List.forall₂_iff_get.mpr ⟨by rw [List.length_set, length], fun i inside inside' => ?_⟩
  rw [List.length_set] at inside'
  have was := each i inside inside'
  simp only [List.get_eq_getElem, List.getElem_set] at was ⊢
  by_cases at_ : position = i
  · subst at_
    rw [if_pos rfl]
    rw [here] at was
    have entry : target.entry = before[position].entry := same.symm.trans was.entry
    refine ⟨was.entry, ?_⟩
    rw [← entry, editsOf_concat_self, ClassEdit.run_concat, entry, was.edited, Option.bind_some,
      ClassEdit.apply, injected]
  · rw [if_neg at_]
    have other : target.entry ≠ before[i].entry := by
      intro alike
      have first : (before.map (·.entry))[position]? = some target.entry := by
        rw [← entries, List.getElem?_map, found, Option.map_some, same]
      have second : (before.map (·.entry))[i]? = some target.entry := by
        rw [List.getElem?_map, List.getElem?_eq_getElem inside, Option.map_some, alike]
      have within := (List.getElem?_eq_some_iff.mp first).1
      exact at_ ((List.getElem?_inj within distinct).mp (first.trans second.symm))
    refine ⟨was.entry, ?_⟩
    rw [editsOf_concat_other other]
    exact was.edited

/-! ### Positions that are noted once -/

section

variable {position : Nat} {touched : List Nat}

theorem mem_note (i : Nat) : (i ∈ if touched.contains position then touched else touched ++ [position]) ↔
    i ∈ touched ∨ i = position := by
  by_cases old : touched.contains position
  · rw [if_pos old]
    constructor
    · exact .inl
    · rintro (before | rfl)
      · exact before
      · exact List.contains_iff_mem.mp old
  · rw [if_neg old, List.mem_append, List.mem_singleton]

theorem nodup_note (distinct : touched.Nodup) :
    (if touched.contains position then touched else touched ++ [position]).Nodup := by
  by_cases old : touched.contains position
  · rwa [if_pos old]
  · rw [if_neg old]
    have absent : position ∉ touched := fun member => old (List.contains_iff_mem.mpr member)
    exact List.nodup_append'.mpr ⟨distinct, List.nodup_singleton _, List.disjoint_singleton.mpr absent⟩

end

/-! ### Target by target -/

/-- What the patch of a target does to the progress of a patch. Where the entry of the target has no class,
nothing happens. Otherwise its first class is injected into, or is left as it was and the target is noted
as skipped. -/
inductive Taken (options : PrologueOptions) (state : Progress) (target : InjectionTarget) : Progress → Prop
  | absent (none : ∀ p ∈ state.classes, p.entry ≠ target.entry) : Taken options state target state
  | patched {position : Nat} {p : PackagedClass} {c : ClassFile} {len : Nat}
      (found : state.classes[position]? = some p) (same : p.entry = target.entry)
      (injected : Prologue.inject target.index options p.content = .ok len c) :
    Taken options state target { state with
      classes := state.classes.set position { p with content := c }
      touched := if state.touched.contains position then state.touched else state.touched ++ [position]
      patched := state.patched ++ [target] }
  | skipped {position : Nat} {p : PackagedClass} {c : ClassFile} {err : InjectError}
      (found : state.classes[position]? = some p) (same : p.entry = target.entry)
      (failed : Prologue.inject target.index options p.content = .error err c)
      (recoverable : err.isRecoverable = true) :
    Taken options state target { state with skipped := state.skipped ++ [(target, err)] }

theorem taken_of_injectTarget (done : injectTarget options state target = .ok state') :
    Taken options state target state' := by
  rw [injectTarget] at done
  split at done
  next none =>
    cases done
    refine .absent fun p member => ?_
    exact beq_eq_false_iff_ne.mp (List.findIdx?_eq_none_iff.mp none p member)
  next position first =>
    obtain ⟨bound, match_, -⟩ := List.findIdx?_eq_some_iff_getElem.mp first
    have found := List.getElem?_eq_getElem bound
    have same : state.classes[position].entry = target.entry := eq_of_beq match_
    rw [injectAt, found] at done
    dsimp only at done
    split at done
    next len c injected =>
      cases done
      exact .patched found same injected
    next err c failed =>
      split at done
      next recoverable =>
        cases done
        obtain rfl := Prologue.eq_of_inject_recoverable failed recoverable
        rw [List.set_getElem_self]
        exact .skipped found same failed recoverable
      next => cases done

namespace Progress.Follows

theorem start (options : PrologueOptions) (before : List PackagedClass) :
    Follows options before ⟨before, [], [], []⟩ where
  classes := List.forall₂_same.mpr fun _ _ => ⟨rfl, rfl⟩
  known := nofun
  distinct := List.nodup_nil
  touched _ := ⟨nofun, nofun⟩

/-- A target that is passed over changes nothing. -/
theorem skip (h : Follows options before state) (skipped : List (InjectionTarget × InjectError)) :
    Follows options before { state with skipped } :=
  ⟨h.classes, h.known, h.distinct, h.touched⟩

/-- A target that is patched. -/
theorem patch (h : Follows options before state) (distinct : (before.map (·.entry)).Nodup)
    {position : Nat} {p : PackagedClass} {c : ClassFile} {len : Nat}
    (found : state.classes[position]? = some p) (same : p.entry = target.entry)
    (injected : Prologue.inject target.index options p.content = .ok len c) :
    Follows options before { state with
      classes := state.classes.set position { p with content := c }
      touched := if state.touched.contains position then state.touched else state.touched ++ [position]
      patched := state.patched ++ [target] } := by
  have there : (before.map (·.entry))[position]? = some target.entry := by
    rw [← entries_of_became h.classes, List.getElem?_map, found, Option.map_some, same]
  have within := (List.getElem?_eq_some_iff.mp there).1
  refine ⟨became_set distinct h.classes found same injected, ?_, nodup_note h.distinct, fun i => ?_⟩
  · intro t patched
    rcases List.mem_append.mp patched with old | new
    · exact h.known t old
    · rw [List.mem_singleton.mp new]
      exact List.mem_of_getElem? there
  · rw [mem_note, h.touched]
    constructor
    · rintro (⟨t, old, entry⟩ | rfl)
      · exact ⟨t, List.mem_append_left _ old, entry⟩
      · exact ⟨target, List.mem_append_right _ (List.mem_singleton.mpr rfl), there⟩
    · rintro ⟨t, patched, entry⟩
      rcases List.mem_append.mp patched with old | new
      · exact .inl ⟨t, old, entry⟩
      · rw [List.mem_singleton.mp new, ← there] at entry
        exact .inr ((List.getElem?_inj within distinct).mp entry.symm).symm

/-- What one target preserves. -/
theorem step (h : Follows options before state) (distinct : (before.map (·.entry)).Nodup)
    (done : injectTarget options state target = .ok state') : Follows options before state' := by
  cases taken_of_injectTarget done with
  | absent => exact h
  | patched found same injected => exact h.patch distinct found same injected
  | skipped => exact h.skip _

/-- What all targets preserve. -/
theorem run (h : Follows options before state) (distinct : (before.map (·.entry)).Nodup)
    (done : targets.foldlM (injectTarget options) state = .ok state') :
    Follows options before state' := by
  induction targets generalizing state with
  | nil =>
      cases done
      exact h
  | cons target targets ih =>
      rw [List.foldlM_cons, bind_eq_ok_iff] at done
      obtain ⟨next, first, rest⟩ := done
      exact ih (h.step distinct first) rest

end Progress.Follows

theorem follows_injectAll (distinct : (before.map (·.entry)).Nodup)
    (done : injectAll options before targets = .ok state) : state.Follows options before :=
  (Progress.Follows.start options before).run distinct done

/-! ### The classes that changed -/

/-- The classes that have a patched target. -/
def changed (state : Progress) : List PackagedClass := state.touched.filterMap (state.classes[·]?)

namespace Progress.Follows

theorem mem_changed (h : Follows options before state) {p : PackagedClass} (member : p ∈ changed state) :
    (∃ t ∈ state.patched, t.entry = p.entry) ∧
      ∃ b ∈ before, Became options state.patched b p := by
  obtain ⟨i, touched, found⟩ := List.mem_filterMap.mp member
  obtain ⟨t, patched, entry⟩ := (h.touched i).mp touched
  rw [← entries_of_became h.classes, List.getElem?_map, found] at entry
  exact ⟨⟨t, patched, (Option.some.inj entry).symm⟩,
    exists_of_forall₂ h.classes.flip p (List.mem_of_getElem? found)⟩

theorem exists_changed (h : Follows options before state) {t : InjectionTarget}
    (patched : t ∈ state.patched) : ∃ p ∈ changed state, p.entry = t.entry := by
  have known := h.known t patched
  obtain ⟨i, bound, there⟩ := List.getElem_of_mem known
  have entry := List.getElem?_eq_some_iff.mpr ⟨bound, there⟩
  have touched := (h.touched i).mpr ⟨t, patched, entry⟩
  rw [← entries_of_became h.classes, List.getElem?_map] at entry
  obtain ⟨p, found, same⟩ := Option.map_eq_some_iff.mp entry
  exact ⟨p, List.mem_filterMap.mpr ⟨i, touched, found⟩, same⟩

theorem nodup_changed (h : Follows options before state) (distinct : (before.map (·.entry)).Nodup) :
    ((changed state).map (·.entry)).Nodup := by
  have entries : (changed state).map (·.entry) =
      state.touched.filterMap fun i => (before.map (·.entry))[i]? := by
    rw [changed, List.map_filterMap, ← entries_of_became h.classes]
    simp only [List.getElem?_map]
  rw [entries]
  refine h.distinct.filterMap fun i j entry first second => ?_
  have within := (List.getElem?_eq_some_iff.mp first).1
  exact (List.getElem?_inj within distinct).mp (first.trans second.symm)

end Progress.Follows

end Patch

end JarGate
