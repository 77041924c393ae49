import JarGate.CommandLine.FileTable
import JarGate.Proofs.Success

/-!
# Runs that succeed

A file that was written is read back from the same path. A run of `patch` that succeeds has read its input,
patched it, and written the package that came of it.
-/

namespace JarGate.CommandLine

namespace FileTable

variable {files files' : FileTable} {directory rest place : List String} {path : String}
  {content : Bytes}

/-- Whether a path leads to a place where a file lies or may be put. -/
def Target.Leads (target : Target) (place : List String) : Prop :=
  (∃ old, target = .file place old) ∨ target = .free place

/-- Further files leave all directories there. -/
theorem hasDirectory_cons {file : List String × Bytes} (there : files.hasDirectory directory = true) :
    FileTable.hasDirectory (file :: files) directory = true := by
  rw [hasDirectory, Bool.or_eq_true] at there ⊢
  refine there.imp_right fun inside => ?_
  rw [List.any_cons, inside, Bool.or_true]

/-- A file makes no directory of its own path. -/
theorem not_hasDirectory_cons (absent : files.hasDirectory place = false) :
    FileTable.hasDirectory ((place, content) :: files) place = false := by
  rw [hasDirectory, Bool.or_eq_false_iff] at absent ⊢
  refine ⟨absent.1, ?_⟩
  rw [List.any_cons, absent.2, Bool.or_false, Bool.and_eq_false_iff]
  exact .inr (decide_eq_false (Nat.lt_irrefl _))

/-- The path that led to a place leads to the file that was put there. -/
theorem follow_cons (leads : (files.follow directory rest).Leads place) :
    FileTable.follow ((place, content) :: files) directory rest = .file place content := by
  induction rest generalizing directory with
  | nil => obtain ⟨old, ⟨⟩⟩ | ⟨⟨⟩⟩ := leads
  | cons part rest ih =>
      rw [follow.eq_def] at leads ⊢
      dsimp only at leads ⊢
      by_cases idle : isIdle part
      · rw [if_pos idle] at leads ⊢
        exact ih leads
      rw [if_neg idle] at leads ⊢
      by_cases up : part = ".."
      · rw [if_pos up] at leads ⊢
        exact ih leads
      rw [if_neg up] at leads ⊢
      by_cases long : maxPart < part.utf8ByteSize
      · rw [if_pos long] at leads
        obtain ⟨old, ⟨⟩⟩ | ⟨⟨⟩⟩ := leads
      rw [if_neg long] at leads ⊢
      cases there : files.hasDirectory (directory ++ [part]) with
      | true =>
          rw [there, if_pos rfl] at leads
          rw [if_pos (hasDirectory_cons there)]
          exact ih leads
      | false =>
          rw [there, if_neg Bool.false_ne_true] at leads
          -- only the last part leads to a place, and the file that is put there makes it no directory
          have last : place = directory ++ [part] ∧ rest = [] := by
            split at leads
            next => obtain ⟨old, ⟨⟩⟩ | ⟨⟨⟩⟩ := leads; exact ⟨rfl, rfl⟩
            next => obtain ⟨old, ⟨⟩⟩ | ⟨⟨⟩⟩ := leads
            next => obtain ⟨old, ⟨⟩⟩ | ⟨⟨⟩⟩ := leads; exact ⟨rfl, rfl⟩
            next => split at leads <;> obtain ⟨old, ⟨⟩⟩ | ⟨⟨⟩⟩ := leads
          obtain ⟨rfl, rfl⟩ := last
          rw [not_hasDirectory_cons there, if_neg Bool.false_ne_true, List.lookup_cons_self]

/-- What is written to a file is read back from it. -/
theorem read_of_write (written : files.write path content = .ok files') :
    FileTable.read files' path = .ok content := by
  rw [write] at written
  have leads : ∃ place, (files.target path).Leads place ∧ files' = (place, content) :: files := by
    split at written
    next place old found => exact ⟨place, .inl ⟨old, found⟩, (Except.ok.inj written).symm⟩
    next place found => exact ⟨place, .inr found, (Except.ok.inj written).symm⟩
    all_goals cases written
  obtain ⟨place, leads, rfl⟩ := leads
  rw [target] at leads
  split at leads
  · obtain ⟨old, ⟨⟩⟩ | ⟨⟨⟩⟩ := leads
  next filled =>
    split at leads
    · obtain ⟨old, ⟨⟩⟩ | ⟨⟨⟩⟩ := leads
    next short => rw [read, target, if_neg filled, if_neg short, follow_cons leads]

theorem run_read (files : FileTable) (path : String) :
    (operations.read path).run files = pure ((files.read path).mapError PathFault.text, files) :=
  rfl

theorem run_exists? (files : FileTable) (path : String) :
    (operations.exists? path).run files = pure (files.has path, files) :=
  rfl

/-- What an attempt to write leaves behind. -/
theorem run_write (files : FileTable) (path : String) (content : Bytes) :
    (operations.write path content).run files = pure (match files.write path content with
      | .ok files' => (.ok (), files')
      | .error why => (.error why.text, files)) := by
  rw [operations, StateT.run_bind, StateT.run_get, pure_bind]
  cases files.write path content <;> rfl

end FileTable

/-! ### Patches -/

variable {files files' : FileTable} {input output : String} {options : Patch.Options} {outcome : Outcome}

/-- A run of `patch` that succeeds has read, patched and written. -/
theorem runPatch_inv
    (ran : (runPatch FileTable.operations input output options).run files = (outcome, files'))
    (success : outcome.success = true) :
    ∃ jar out summary, files.read input = .ok jar ∧ patchBytes options jar = .ok (out, summary) ∧
      files.write output out = .ok files' := by
  rw [runPatch, StateT.run_bind, FileTable.run_read, pure_bind] at ran
  cases content : files.read input with
  | error why =>
      rw [content] at ran
      obtain ⟨rfl, rfl⟩ := Prod.mk.inj ran
      cases success
  | ok jar =>
      rw [content] at ran
      dsimp only [Except.mapError] at ran
      cases patched : patchBytes options jar with
      | error why =>
          rw [patched] at ran
          obtain ⟨rfl, rfl⟩ := Prod.mk.inj ran
          cases success
      | ok result =>
          obtain ⟨out, summary⟩ := result
          rw [patched] at ran
          dsimp only at ran
          rw [StateT.run_bind, FileTable.run_exists?, pure_bind] at ran
          cases written : files.write output out with
          | error why =>
              rw [StateT.run_bind, FileTable.run_write, written, pure_bind] at ran
              obtain ⟨rfl, rfl⟩ := Prod.mk.inj ran
              cases success
          | ok files'' =>
              rw [StateT.run_bind, FileTable.run_write, written, pure_bind] at ran
              obtain ⟨-, rfl⟩ := Prod.mk.inj ran
              exact ⟨jar, out, summary, rfl, patched, written⟩

/-- A run of `patch` whose steps succeed leaves the package behind. -/
theorem runPatch_of_ok {jar out : Bytes} {summary : Patch.Summary} (content : files.read input = .ok jar)
    (patched : patchBytes options jar = .ok (out, summary)) (written : files.write output out = .ok files') :
    (runPatch FileTable.operations input output options).run files =
      (Outcome.done ((if files.has output then
          Report.beforePatch input output options ++ [Report.overwriting output]
        else Report.beforePatch input output options) ++ Report.afterPatch options summary), files') := by
  rw [runPatch, StateT.run_bind, FileTable.run_read, pure_bind, content]
  dsimp only [Except.mapError]
  rw [patched]
  dsimp only
  rw [StateT.run_bind, FileTable.run_exists?, pure_bind, StateT.run_bind, FileTable.run_write, written,
    pure_bind]
  rfl

end JarGate.CommandLine
