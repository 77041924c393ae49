import JarGate.Proofs.Archive.ReadBack

/-!
# Packages as ordered maps

To those who call it, a package is a map from paths to contents whose paths stand in an order. What was
called so far, each call with its answer, tells this map: a path stands where it was opened or, if it was
added since, behind all paths that were there then, and its content is the last one that it was given. No
call that fails leaves a trace, and writing the package gives an archive that opens as the same map.
-/

namespace JarGate

namespace Archive

/-- Whether the archive of some entries opens with their names and their contents, in their order. How the
entries are stored may change. -/
def Preserved (es : List StoredEntry) : Prop :=
  ∃ opened, decode? (encode es) = some opened ∧
    List.Forall₂ (fun e e' => e'.name = e.name ∧ e'.content? = e.content?) es opened

theorem Writable.preserved {es : List StoredEntry} (h : Writable es) : Preserved es := by
  refine ⟨es, decode?_encode h, List.forall₂_same.mpr ?_⟩
  intro e _
  exact ⟨rfl, rfl⟩

end Archive

namespace Package

/-! ### Calls -/

/-- A call on a package. -/
inductive Call where
  | add (path : String) (content : Bytes)
  | replace (path : String) (content : Bytes)
  | remove (path : String)
  | read (path : String)
  | write
  deriving DecidableEq, Repr

/-- The answer of a call. -/
inductive Reply where
  | done
  | content (content : Bytes)
  | archive (bytes : Bytes)
  | failed (why : PackageError)
  deriving DecidableEq, Repr

/-- The answer that tells what was read. -/
def Reply.ofRead : Except PackageError Bytes → Reply
  | .ok bytes => .content bytes
  | .error why => .failed why

/-- The answer of an edit and the package behind it. -/
def settle (p : Package) : Except PackageError Package → Reply × Package
  | .ok p' => (.done, p')
  | .error why => (.failed why, p)

/-- The answer of a call and the package behind it. -/
def call (p : Package) : Call → Reply × Package
  | .add path content => p.settle (p.add path content)
  | .replace path content => p.settle (p.replace path content)
  | .remove path => p.settle (p.remove path)
  | .read path => (.ofRead (p.read path), p)
  | .write => (.archive p.toBytes, p)

/-- A package behind some calls. -/
def run (p : Package) (calls : List Call) : Package :=
  calls.foldl (fun p c => (p.call c).2) p

/-- Calls in their order, each with its answer. -/
abbrev History := List (Call × Reply)

/-- The history of some calls. -/
def history (p : Package) : List Call → History
  | [] => []
  | c :: calls => (c, (p.call c).1) :: (p.call c).2.history calls

/-- The path that a call with its answer added, if it added one. -/
def added? : Call × Reply → Option String
  | (.add path _, .done) => some path
  | _ => none

/-- The paths that were added in a history and were not removed afterwards, in the order in which they
were added. -/
def History.additions : History → List String
  | [] => []
  | e :: later => ((added? e).toList.filter fun x => (.remove x, .done) ∉ later) ++ additions later

/-- The content that a path is given by a call with its answer. -/
def given? (x : String) : Call × Reply → Option Bytes
  | (.add path content, .done) | (.replace path content, .done) => if path = x then some content else none
  | _ => none

/-- The last content that a path was given since it was last removed, or since the beginning if it never
was. -/
def History.lastGiven? (h : History) (x : String) : Option Bytes :=
  (h.reverse.takeWhile (· ≠ (.remove x, .done))).findSome? (given? x)

variable {p : Package} {x path : String} {content : Bytes} {c : Call} {calls : List Call}

@[simp] theorem run_append_singleton : p.run (calls ++ [c]) = ((p.run calls).call c).2 := by
  rw [run, run, List.foldl_append, List.foldl_cons, List.foldl_nil]

theorem history_append_singleton :
    p.history (calls ++ [c]) = p.history calls ++ [(c, ((p.run calls).call c).1)] := by
  induction calls generalizing p with
  | nil => rfl
  | cons c' calls ih =>
      rw [List.cons_append, history, history, ih]
      rfl

/-! ### The answers -/

theorem settle_eq_done {e : Except PackageError Package} (h : (p.settle e).1 = .done) :
    e = .ok (p.settle e).2 := by
  cases e with
  | ok p' => rfl
  | error why => cases h

theorem settle_snd_of_ne_done {e : Except PackageError Package} (h : (p.settle e).1 ≠ .done) :
    (p.settle e).2 = p := by
  cases e with
  | ok p' => exact absurd rfl h
  | error why => rfl

theorem ofRead_ne_done (e : Except PackageError Bytes) : Reply.ofRead e ≠ .done := by
  cases e <;> exact nofun

/-- A call changes nothing unless it is an edit that succeeds. -/
theorem call_snd_of_ne_done (h : (p.call c).1 ≠ .done) : (p.call c).2 = p := by
  cases c with
  | add path content => exact settle_snd_of_ne_done h
  | replace path content => exact settle_snd_of_ne_done h
  | remove path => exact settle_snd_of_ne_done h
  | read path => rfl
  | write => rfl

theorem added?_eq_some_iff {e : Call × Reply} :
    added? e = some x ↔ ∃ content, e = (.add x content, .done) := by
  obtain ⟨c, r⟩ := e
  cases c <;> cases r <;> simp [added?]

theorem added?_of_ne_done {r : Reply} (h : r ≠ .done) : added? (c, r) = none := by
  rw [Option.eq_none_iff_forall_ne_some]
  intro x added
  obtain ⟨_, same⟩ := added?_eq_some_iff.mp added
  exact h (Prod.mk.inj same).2

theorem given?_of_ne_done {r : Reply} (h : r ≠ .done) : given? x (c, r) = none := by
  unfold given?
  split
  next same => exact absurd (Prod.mk.inj same).2 h
  next same => exact absurd (Prod.mk.inj same).2 h
  next => rfl

theorem call_add_fst : (p.call (.add path content)).1 =
    if path ∈ p.paths then .failed (.duplicateEntry path) else .done := by
  simp only [← contains_iff]
  rw [call, add]
  split
  · rfl
  · rfl

theorem call_replace_fst : (p.call (.replace path content)).1 =
    if path ∈ p.paths then .done else .failed (.noSuchEntry path) := by
  simp only [← contains_iff, contains]
  rw [call, replace]
  cases p.position? path with
  | none => rfl
  | some position => rfl

theorem call_remove_fst : (p.call (.remove path)).1 =
    if path ∈ p.paths then .done else .failed (.noSuchEntry path) := by
  simp only [← contains_iff, contains]
  rw [call, remove]
  cases p.position? path with
  | none => rfl
  | some position => rfl

theorem read_of_not_mem (h : path ∉ p.paths) : p.read path = .error (.noSuchEntry path) := by
  rw [read, find?_of_not_mem h]

/-! ### One call -/

/-- What an edit that succeeds makes of a package. -/
inductive Edited (p p' : Package) : Call → Prop
  | added {path : String} {content : Bytes} :
    path ∉ p.paths → p.Wrote path content (p.paths ++ [path]) p' → Edited p p' (.add path content)
  | replaced {path : String} {content : Bytes} :
    p.Wrote path content p.paths p' → Edited p p' (.replace path content)
  | removed {path : String} :
    p'.paths = p.paths.filter (· != path) → (∀ x, x ≠ path → p'.read x = p.read x) →
    Edited p p' (.remove path)

theorem edited_of_done (distinct : p.paths.Nodup) (done : (p.call c).1 = .done) :
    p.Edited (p.call c).2 c := by
  cases c with
  | add path content =>
      obtain ⟨absent, wrote⟩ := add_eq_ok (settle_eq_done done)
      exact .added absent wrote
  | replace path content => exact .replaced (replace_eq_ok (settle_eq_done done)).2
  | remove path =>
      have removed : p.remove path = .ok (p.call (.remove path)).2 := settle_eq_done done
      refine .removed ?_ fun _ other => read_of_remove removed other
      rw [paths_of_remove removed, distinct.erase_eq_filter]
  | read path => exact absurd done (ofRead_ne_done _)
  | write => cases done

theorem nodup_paths_call (distinct : p.paths.Nodup) (c : Call) : (p.call c).2.paths.Nodup := by
  by_cases done : (p.call c).1 = .done
  · cases c with
    | add path content => exact nodup_paths_add distinct (settle_eq_done done)
    | replace path content => exact nodup_paths_replace distinct (settle_eq_done done)
    | remove path => exact nodup_paths_remove distinct (settle_eq_done done)
    | read path => exact distinct
    | write => exact distinct
  · rwa [call_snd_of_ne_done done]

/-- A call removes what its answer says that it removed, and puts what it added behind all others. -/
theorem paths_call (distinct : p.paths.Nodup) (c : Call) : (p.call c).2.paths =
    (p.paths.filter fun x => (.remove x, .done) ≠ (c, (p.call c).1)) ++
      (added? (c, (p.call c).1)).toList := by
  by_cases done : (p.call c).1 = .done
  · have edited := edited_of_done distinct done
    rw [done]
    generalize (p.call c).2 = p' at edited
    cases edited with
    | added absent wrote =>
        rw [wrote.paths]
        simp [added?]
    | replaced wrote =>
        rw [wrote.paths]
        simp [added?]
    | @removed path paths _ =>
        have unadded : added? (.remove path, .done) = none := rfl
        rw [paths, unadded, Option.toList_none, List.append_nil]
        apply List.filter_congr
        intro x _
        simp [bne, Bool.beq_eq_decide_eq]
  · have unmoved (x : String) : (.remove x, .done) ≠ (c, (p.call c).1) := by
      intro same
      exact done (Prod.mk.inj same).2.symm
    rw [call_snd_of_ne_done done, added?_of_ne_done done]
    simp [unmoved]

/-- A path that is there behind a call was not removed by it, and it was there before unless the call gave
it its content. -/
theorem mem_paths_call (distinct : p.paths.Nodup) (present : x ∈ (p.call c).2.paths) :
    (c, (p.call c).1) ≠ (.remove x, .done) ∧
      (given? x (c, (p.call c).1) = none → x ∈ p.paths) := by
  rw [paths_call distinct, List.mem_append, List.mem_filter] at present
  rcases present with ⟨old, unremoved⟩ | new
  · refine ⟨?_, fun _ => old⟩
    exact (of_decide_eq_true unremoved).symm
  · rw [Option.mem_toList] at new
    obtain ⟨content, same⟩ := added?_eq_some_iff.mp new
    rw [same, given?, if_pos rfl]
    exact ⟨nofun, nofun⟩

/-- What a call leaves at the paths that are there behind it. -/
theorem read_call (distinct : p.paths.Nodup) (present : x ∈ (p.call c).2.paths) :
    (p.call c).2.read x = (given? x (c, (p.call c).1)).elim (p.read x) .ok := by
  have wrote {row : List String} {path : String} {content : Bytes} {p' : Package}
      (h : p.Wrote path content row p') :
      p'.read x = (if path = x then some content else none).elim (p.read x) .ok := by
    split
    next same =>
      subst same
      exact h.here
    next other => exact h.elsewhere x (Ne.symm other)
  by_cases done : (p.call c).1 = .done
  · have unremoved := (mem_paths_call distinct present).1
    have edited := edited_of_done distinct done
    rw [done] at unremoved ⊢
    generalize (p.call c).2 = p' at edited
    cases edited with
    | added absent h => exact wrote h
    | replaced h => exact wrote h
    | removed _ elsewhere =>
        apply elsewhere
        rintro rfl
        exact unremoved rfl
  · rw [call_snd_of_ne_done done, given?_of_ne_done done]
    rfl

/-- Whether each entry is stored under its path. -/
def Named (p : Package) : Prop := ∀ e ∈ p.entries, e.stored.name = e.path

theorem named_of_ofBytes {bytes : Bytes} (h : ofBytes bytes = .ok p) : p.Named := by
  rw [ofBytes] at h
  split at h
  next es decoded =>
    cases h
    rw [Named, entries_ofStored]
    exact List.forall_mem_map.mpr fun _ _ => rfl
  next => cases h

/-- However an edit moves the paths, each of them keeps to its own entry of the archive. -/
theorem Named.call (h : p.Named) (c : Call) : (p.call c).2.Named := by
  by_cases done : (p.call c).1 = .done
  · cases c with
    | add path content =>
        obtain ⟨-, entries'⟩ := entries_of_add (settle_eq_done done)
        rw [Named, Package.call, entries', List.forall_mem_append, List.forall_mem_singleton]
        exact ⟨h, rfl⟩
    | replace path content =>
        obtain ⟨position, -, entries'⟩ := entries_of_replace (settle_eq_done done)
        rw [Named, Package.call, entries']
        intro e member
        rcases List.mem_or_eq_of_mem_set member with old | rfl
        · exact h e old
        · rfl
    | remove path =>
        obtain ⟨position, -, entries'⟩ := entries_of_remove (settle_eq_done done)
        rw [Named, Package.call, entries']
        exact fun e member => h e (List.mem_of_mem_eraseIdx member)
    | read path => exact h
    | write => exact h
  · rwa [call_snd_of_ne_done done]

/-! ### A run of calls -/

theorem Named.run (h : p.Named) (calls : List Call) : (p.run calls).Named := by
  induction calls using List.reverseRecOn with
  | nil => exact h
  | append_singleton calls c ih =>
      rw [run_append_singleton]
      exact ih.call c

theorem nodup_paths_run (distinct : p.paths.Nodup) (calls : List Call) :
    (p.run calls).paths.Nodup := by
  induction calls using List.reverseRecOn with
  | nil => exact distinct
  | append_singleton calls c ih =>
      rw [run_append_singleton]
      exact nodup_paths_call ih c

/-- A run keeps the paths that it does not remove, in their order, and puts what it adds behind them. -/
theorem paths_run (distinct : p.paths.Nodup) (calls : List Call) : (p.run calls).paths =
    (p.paths.filter fun x => (.remove x, .done) ∉ p.history calls) ++ (p.history calls).additions := by
  induction calls generalizing p with
  | nil => simp [run, history, History.additions]
  | cons c calls ih =>
      have both (x : String) : decide ((.remove x, .done) ∉ p.history (c :: calls)) =
          (decide ((.remove x, .done) ∉ (p.call c).2.history calls) &&
            decide ((.remove x, .done) ≠ (c, (p.call c).1))) := by
        rw [history, ← Bool.decide_and, decide_eq_decide, List.mem_cons, not_or, and_comm]
      calc (p.run (c :: calls)).paths
          = ((p.call c).2.paths.filter fun x => (.remove x, .done) ∉ (p.call c).2.history calls) ++
              ((p.call c).2.history calls).additions := ih (nodup_paths_call distinct c)
        _ = _ := by
          simp only [both]
          rw [paths_call distinct, List.filter_append, List.filter_filter, List.append_assoc]
          rfl

/-- What is read behind a run is what its history gave last, or what was read before. -/
theorem read_run (distinct : p.paths.Nodup) (present : x ∈ (p.run calls).paths) :
    (p.run calls).read x = ((p.history calls).lastGiven? x).elim (p.read x) .ok := by
  induction calls using List.reverseRecOn with
  | nil => rfl
  | append_singleton calls c ih =>
      rw [run_append_singleton] at present ⊢
      have behind := nodup_paths_run distinct calls
      obtain ⟨unremoved, before⟩ := mem_paths_call behind present
      have last : (p.history (calls ++ [c])).lastGiven? x =
          (given? x (c, ((p.run calls).call c).1)).or ((p.history calls).lastGiven? x) := by
        rw [History.lastGiven?, history_append_singleton, List.reverse_concat,
          List.takeWhile_cons, if_pos (decide_eq_true unremoved), List.findSome?_cons]
        cases given? x (c, ((p.run calls).call c).1) <;> rfl
      rw [read_call behind present, last]
      cases given : given? x (c, ((p.run calls).call c).1) with
      | some content => rfl
      | none => exact ih (before given)

/-! ### Writing and opening -/

/-- What is read depends on nothing of the entry of a path but its content. -/
theorem read_eq (p : Package) (x : String) :
    p.read x = ((p.find? x).map (·.content)).getD (.error (.noSuchEntry x)) := by
  rw [read]
  cases p.find? x <;> rfl

/-- Entries that are opened with their names and contents have the same paths and are read alike. -/
theorem opened_alike {es : List PackageEntry} {opened : List Archive.StoredEntry}
    (named : ∀ e ∈ es, e.stored.name = e.path)
    (same : List.Forall₂ (fun e e' => e'.name = e.stored.name ∧ e'.content? = e.stored.content?)
      es opened) :
    (opened.map PackageEntry.ofStored).map (·.path) = es.map (·.path) ∧
      ∀ x, ((opened.map PackageEntry.ofStored).find? (·.path == x)).map (·.content) =
        (es.find? (·.path == x)).map (·.content) := by
  induction same with
  | nil => exact ⟨rfl, fun _ => rfl⟩
  | @cons e e' es opened here _ ih =>
      obtain ⟨name, rest⟩ := List.forall_mem_cons.mp named
      obtain ⟨paths, reads⟩ := ih rest
      have path : (PackageEntry.ofStored e').path = e.path := here.1.trans name
      have content : (PackageEntry.ofStored e').content = e.content := by
        rw [← e.content_ofStored]
        simp only [PackageEntry.ofStored, PackageEntry.content, here.2]
      refine ⟨List.cons_eq_cons.mpr ⟨path, paths⟩, fun x => ?_⟩
      rw [List.map_cons, List.find?_cons, List.find?_cons, path]
      cases e.path == x with
      | true => exact congrArg some content
      | false => exact reads x

/-- The archive of a package is read back if the names and contents of its entries are preserved. -/
theorem readBack_of_preserved (named : p.Named) (h : Archive.Preserved (p.entries.map (·.stored))) :
    ∃ q, p.ReadBack q := by
  obtain ⟨opened, decoded, same⟩ := h
  obtain ⟨paths, reads⟩ := opened_alike named (List.forall₂_map_left_iff.mp same)
  refine ⟨.ofStored opened, ?_, ?_, fun x => ?_⟩
  · rw [ofBytes, toBytes, decoded]
  · rw [paths_eq, paths_eq, entries_ofStored, paths]
  · rw [read_eq, read_eq, find?, find?, entries_ofStored, reads]

/-! ### The map behind a run -/

/-- What a package that was opened as `p` is behind some calls. -/
structure MapBehind (p : Package) (calls : List Call) : Prop where
  /-- No path is there twice. -/
  distinct : (p.run calls).paths.Nodup
  /-- The paths that were there at first and were never removed keep their order; what was added stands
  behind them in the order of the additions. -/
  order : (p.run calls).paths =
    (p.paths.filter fun x => (.remove x, .done) ∉ p.history calls) ++ (p.history calls).additions
  /-- At each path there is the content that it was given last, or else its first one. -/
  contents : ∀ x ∈ (p.run calls).paths,
    (p.run calls).read x = ((p.history calls).lastGiven? x).elim (p.read x) .ok
  add : ∀ x content, ((p.run calls).call (.add x content)).1 =
    if x ∈ (p.run calls).paths then .failed (.duplicateEntry x) else .done
  replace : ∀ x content, ((p.run calls).call (.replace x content)).1 =
    if x ∈ (p.run calls).paths then .done else .failed (.noSuchEntry x)
  remove : ∀ x, ((p.run calls).call (.remove x)).1 =
    if x ∈ (p.run calls).paths then .done else .failed (.noSuchEntry x)
  read : ∀ x, ((p.run calls).call (.read x)).1 =
    if x ∈ (p.run calls).paths then .ofRead (((p.history calls).lastGiven? x).elim (p.read x) .ok)
    else .failed (.noSuchEntry x)
  /-- Only an edit that succeeds changes the package. -/
  kept : ∀ c, ((p.run calls).call c).1 ≠ .done → ((p.run calls).call c).2 = p.run calls
  /-- The package can be written, and what is written opens as the same map. -/
  written : ((p.run calls).call .write).1 = .archive (p.run calls).toBytes ∧
    (Archive.Preserved ((p.run calls).entries.map (·.stored)) → ∃ q, (p.run calls).ReadBack q)

/-- A package of three entries. -/
def threeNotes : Package := .new [("a", [1]), ("b", [2]), ("c", [3])]

/-- These entries as they are read from their archive. -/
def openedNotes : Package := .ofStored (threeNotes.entries.map (·.stored))

/-- Calls that remove a path and add it again, with calls that fail in between. -/
def reshuffle : List Call :=
  [.remove "a", .replace "a" [4], .add "d" [5], .add "a" [6], .add "b" [7], .replace "b" [8], .write,
    .replace "a" [9], .remove "d", .remove "d", .read "a"]

example : (openedNotes.run reshuffle).paths = ["b", "c", "a"] ∧
    (openedNotes.run reshuffle).read "a" = .ok [9] := by
  decide +kernel

end Package

end JarGate
