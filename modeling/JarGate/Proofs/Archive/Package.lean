import JarGate.Archive.Package
import JarGate.Proofs.Success

/-!
# Packages as rows of contents

A package finds what no edit touched by its place in the archive that was opened. That archive never
changes, while edits move the paths, so that the two places of a path have nothing to do with each other.
`Package.entries` looks all places up, and an edit does to this row what it does to the paths: it puts an
entry in the place of another, behind all others, or takes one away. From this follows what each operation
does to the row of paths and to what is read at a path. Everything that runs on packages is described by
these two, whatever the archive behind a package is.
-/

namespace JarGate

/-! ### First finds -/

section

variable {α : Type} {row : List α} {q r : α → Bool} {i : Nat} {x : α}

/-- Whatever is put in the place of the first find is found there. -/
theorem find?_set_findIdx? (found : row.findIdx? q = some i) (new : q x = true) :
    (row.set i x).find? q = some x := by
  induction row generalizing i with
  | nil => cases found
  | cons y row ih =>
      rw [List.findIdx?_cons] at found
      split at found
      next =>
        cases found
        rw [List.set_cons_zero, List.find?_cons, new]
      next old =>
        obtain ⟨j, later, rfl⟩ := Option.map_eq_some_iff.mp found
        rw [List.set_cons_succ, List.find?_cons, Bool.eq_false_iff.mpr old]
        exact ih later

/-- Putting something in the place of the first find changes nothing for other searches. -/
theorem find?_set_of_apart (found : row.findIdx? q = some i) (apart : ∀ y, q y = true → r y = false)
    (new : q x = true) : (row.set i x).find? r = row.find? r := by
  induction row generalizing i with
  | nil => rfl
  | cons y row ih =>
      rw [List.findIdx?_cons] at found
      split at found
      next old =>
        cases found
        rw [List.set_cons_zero, List.find?_cons, List.find?_cons, apart x new, apart y old]
      next =>
        obtain ⟨j, later, rfl⟩ := Option.map_eq_some_iff.mp found
        rw [List.set_cons_succ, List.find?_cons, List.find?_cons, ih later]

/-- Taking the first find away changes nothing for other searches. -/
theorem find?_eraseIdx_of_apart (found : row.findIdx? q = some i)
    (apart : ∀ y, q y = true → r y = false) : (row.eraseIdx i).find? r = row.find? r := by
  induction row generalizing i with
  | nil => rfl
  | cons y row ih =>
      rw [List.findIdx?_cons] at found
      split at found
      next old =>
        cases found
        rw [List.eraseIdx_cons_zero, List.find?_cons, apart y old]
      next =>
        obtain ⟨j, later, rfl⟩ := Option.map_eq_some_iff.mp found
        rw [List.eraseIdx_cons_succ, List.find?_cons, List.find?_cons, ih later]

end

namespace Package

variable {p p' : Package} {path x : String} {content : Bytes}

/-! ### Places and entries -/

theorem paths_eq (p : Package) : p.paths = p.entries.map (·.path) := by
  rw [entries, List.map_map]
  rfl

theorem position?_eq (p : Package) (path : String) :
    p.position? path = p.entries.findIdx? (·.path == path) := by
  rw [entries, List.findIdx?_map]
  rfl

/-- Every place of the archive is that of its own entry in a package that was just opened. -/
theorem entries_ofStored (archive : List Archive.StoredEntry) :
    (ofStored archive).entries = archive.map .ofStored := by
  rw [entries, ofStored, List.map_ofFn]
  exact List.ofFn_getElem_eq_map archive PackageEntry.ofStored

theorem contains_iff : p.contains path = true ↔ path ∈ p.paths := by
  rw [contains, position?, List.findIdx?_isSome, List.any_eq_true, paths, List.mem_map]
  simp only [beq_iff_eq]

theorem exists_position?_iff : (∃ position, p.position? path = some position) ↔ path ∈ p.paths := by
  rw [← contains_iff, contains, Option.isSome_iff_exists]

theorem contains_eq_false_iff : p.contains path = false ↔ path ∉ p.paths := by
  rw [← contains_iff, Bool.not_eq_true]

theorem find?_of_not_mem (h : path ∉ p.paths) : p.find? path = none := by
  rw [find?, List.find?_eq_none]
  intro e member here
  rw [paths_eq] at h
  exact h (eq_of_beq here ▸ List.mem_map_of_mem member)

/-! ### The operations -/

/-- What an operation that succeeds makes of a package: its paths are `paths`, and at one path another
content is read. -/
structure Wrote (p : Package) (path : String) (content : Bytes) (paths : List String) (p' : Package) :
    Prop where
  paths : p'.paths = paths
  here : p'.read path = .ok content
  elsewhere : ∀ x, x ≠ path → p'.read x = p.read x

/-- A search for a path is not one for another path. -/
theorem apart_of_ne (other : x ≠ path) (e : PackageEntry) (here : (e.path == path) = true) :
    (e.path == x) = false := by
  rw [eq_of_beq here]
  exact beq_false_of_ne other.symm

theorem entries_of_replace (h : p.replace path content = .ok p') : ∃ position,
    p.position? path = some position ∧ p'.entries = p.entries.set position ⟨path, .given content⟩ := by
  rw [replace] at h
  split at h
  next position placed =>
    cases h
    exact ⟨position, placed, List.map_set⟩
  next => cases h

theorem replace_eq_ok (h : p.replace path content = .ok p') :
    path ∈ p.paths ∧ p.Wrote path content p.paths p' := by
  obtain ⟨position, placed, entries'⟩ := entries_of_replace h
  have present := exists_position?_iff.mp ⟨position, placed⟩
  rw [position?_eq] at placed
  have new : (path == path) = true := beq_self_eq_true path
  refine ⟨present, ?_, ?_, fun x other => ?_⟩
  · obtain ⟨inside, same, -⟩ := List.findIdx?_eq_some_iff_getElem.mp placed
    have inside' : position < (p.entries.map (·.path)).length := by rwa [List.length_map]
    have kept : (p.entries.map (·.path))[position] = path := by
      rw [List.getElem_map]
      exact eq_of_beq same
    rw [paths_eq, paths_eq, entries', List.map_set]
    exact kept ▸ List.set_getElem_self _
  · rw [read, find?, entries', find?_set_findIdx? placed new]
    rfl
  · rw [read, read, find?, find?, entries', find?_set_of_apart placed (apart_of_ne other) new]

theorem exists_replace (present : path ∈ p.paths) (content : Bytes) :
    ∃ p', p.replace path content = .ok p' := by
  obtain ⟨position, placed⟩ := exists_position?_iff.mpr present
  rw [replace, placed]
  exact ⟨_, rfl⟩

theorem entries_of_add (h : p.add path content = .ok p') :
    path ∉ p.paths ∧ p'.entries = p.entries ++ [⟨path, .given content⟩] := by
  rw [add] at h
  split at h
  next => cases h
  next absent =>
    cases h
    exact ⟨by rwa [← contains_iff], List.map_append⟩

theorem add_eq_ok (h : p.add path content = .ok p') :
    path ∉ p.paths ∧ p.Wrote path content (p.paths ++ [path]) p' := by
  obtain ⟨missing, entries'⟩ := entries_of_add h
  have found (x : String) :
      p'.find? x = (p.find? x).or (if path == x then some ⟨path, .given content⟩ else none) := by
    rw [find?, find?, entries', List.find?_append, List.find?_singleton]
  refine ⟨missing, ?_, ?_, fun x other => ?_⟩
  · rw [paths_eq, paths_eq, entries', List.map_append, List.map_singleton]
  · rw [read, found, find?_of_not_mem missing, beq_self_eq_true]
    rfl
  · have apart : (path == x) = false := by simpa using other.symm
    rw [read, read, found, apart]
    simp only [Bool.false_eq_true, if_false, Option.or_none]

theorem put_eq_ok (h : p.put path content = .ok p') :
    p.Wrote path content (if p.contains path then p.paths else p.paths ++ [path]) p' := by
  rw [put] at h
  by_cases present : p.contains path
  · rw [if_pos present] at h ⊢
    exact (replace_eq_ok h).2
  · rw [if_neg present] at h ⊢
    exact (add_eq_ok h).2

theorem exists_remove (present : path ∈ p.paths) : ∃ p', p.remove path = .ok p' := by
  obtain ⟨position, placed⟩ := exists_position?_iff.mpr present
  rw [remove, placed]
  exact ⟨_, rfl⟩

theorem entries_of_remove (h : p.remove path = .ok p') : ∃ position,
    p.position? path = some position ∧ p'.entries = p.entries.eraseIdx position := by
  rw [remove] at h
  split at h
  next position placed =>
    cases h
    exact ⟨position, placed, (List.eraseIdx_map ..).symm⟩
  next => cases h

/-- Removing takes a path away from where it stands first. -/
theorem paths_of_remove (h : p.remove path = .ok p') : p'.paths = p.paths.erase path := by
  obtain ⟨position, placed, entries'⟩ := entries_of_remove h
  rw [position?_eq] at placed
  have first : (p.entries.map (·.path)).idxOf? path = some position := by
    rw [List.idxOf?, List.findIdx?_map]
    exact placed
  rw [paths_eq, paths_eq, entries', List.erase_eq_eraseIdx, first, ← List.eraseIdx_map]

theorem read_of_remove (h : p.remove path = .ok p') (other : x ≠ path) : p'.read x = p.read x := by
  obtain ⟨position, placed, entries'⟩ := entries_of_remove h
  rw [position?_eq] at placed
  rw [read, read, find?, find?, entries', find?_eraseIdx_of_apart placed (apart_of_ne other)]

/-! ### Distinct paths -/

theorem nodup_paths_add (distinct : p.paths.Nodup) (h : p.add path content = .ok p') : p'.paths.Nodup := by
  obtain ⟨absent, wrote⟩ := add_eq_ok h
  rw [wrote.paths]
  exact List.nodup_append'.mpr ⟨distinct, List.nodup_singleton _, List.disjoint_singleton.mpr absent⟩

theorem nodup_paths_replace (distinct : p.paths.Nodup) (h : p.replace path content = .ok p') :
    p'.paths.Nodup := by
  rw [(replace_eq_ok h).2.paths]
  exact distinct

theorem nodup_paths_put (distinct : p.paths.Nodup) (h : p.put path content = .ok p') : p'.paths.Nodup := by
  rw [put] at h
  split at h
  next => exact nodup_paths_replace distinct h
  next => exact nodup_paths_add distinct h

theorem nodup_paths_remove (distinct : p.paths.Nodup) (h : p.remove path = .ok p') : p'.paths.Nodup := by
  rw [paths_of_remove h]
  exact distinct.erase path

/-! ### Opening an archive -/

/-- Putting an entry into a row with distinct names keeps the names distinct. -/
theorem nodup_place {es : List Archive.StoredEntry} {e : Archive.StoredEntry}
    (distinct : (es.map (·.name)).Nodup) : ((Archive.place es e).map (·.name)).Nodup := by
  rw [Archive.place]
  split
  next =>
    have names : (es.map fun old => if old.name == e.name then e else old).map (·.name) =
        es.map (·.name) := by
      rw [List.map_map]
      refine List.map_congr_left fun old _ => ?_
      rw [Function.comp_apply]
      split
      next same => exact (eq_of_beq same).symm
      next => rfl
    rwa [names]
  next absent =>
    have fresh : e.name ∉ es.map (·.name) := by
      intro member
      obtain ⟨old, found, same⟩ := List.mem_map.mp member
      exact absent (List.any_eq_true.mpr ⟨old, found, beq_iff_eq.mpr same⟩)
    rw [List.map_append, List.map_singleton]
    exact List.nodup_append'.mpr ⟨distinct, List.nodup_singleton _,
      List.disjoint_singleton.mpr fresh⟩

theorem nodup_lastBelow? {bytes : Array UInt8} {bound : Nat} {es : List Archive.StoredEntry}
    (h : Archive.lastBelow? (Archive.entriesBefore? bytes) bound = some es) :
    (es.map (·.name)).Nodup := by
  have placed (es done : List Archive.StoredEntry) (distinct : (done.map (·.name)).Nodup) :
      ((es.foldl Archive.place done).map (·.name)).Nodup := by
    induction es generalizing done with
    | nil => exact distinct
    | cons e es ih => exact ih _ (nodup_place distinct)
  induction bound with
  | zero => cases h
  | succ position ih =>
      rw [Archive.lastBelow?] at h
      split at h
      next answer found =>
        cases h
        obtain ⟨d, -, read⟩ := Option.bind_eq_some_iff.mp found
        obtain ⟨rows, -, made⟩ := Option.bind_eq_some_iff.mp read
        obtain rfl := Option.some.inj made
        exact placed rows [] List.nodup_nil
      next => exact ih h

/-- The paths of a package that was read from an archive are distinct. -/
theorem nodup_paths_of_ofBytes {bytes : Bytes} (h : ofBytes bytes = .ok p) : p.paths.Nodup := by
  rw [ofBytes] at h
  split at h
  next es decoded =>
    cases h
    have names : paths (ofStored es) = es.map (·.name) := by
      rw [paths_eq, entries_ofStored, List.map_map]
      rfl
    rw [names]
    exact nodup_lastBelow? decoded
  next => cases h

/-! ### Reading an archive back -/

/-- Whether an archive is read back with the names, the order and the contents that it was written
with. -/
structure ReadBack (p q : Package) : Prop where
  opened : ofBytes p.toBytes = .ok q
  paths : q.paths = p.paths
  contents : ∀ path, q.read path = p.read path

end Package

end JarGate
