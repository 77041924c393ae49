import JarGate.CommandLine.Run
import JarGate.Proofs.Archive.ReadBack
import JarGate.Proofs.Code.Depth
import JarGate.Proofs.Format.ReadBack
import JarGate.Proofs.Injection.Targets

/-!
# What a patch changes

A patch is a row of operations on a package. Each of them is described by the paths and the contents that
it leaves, and from these it follows what the whole patch leaves: the classes of patched targets, the gate
and the policy are new, signature files are gone, and everything else is as it was.
-/

namespace JarGate

open Package (Wrote)

namespace Patch

variable {p p' : Package} {classes : List PackagedClass} {options : Options} {summary : Summary}

/-! ### The steps of a patch -/

/-- The classes of a package are those of its class files, in their order. -/
theorem readClasses_eq_ok (h : readClasses p = .ok classes) :
    classes.map (·.entry) = p.paths.filter isPluginClass ∧
      ∀ c ∈ classes, ∃ data, p.read c.entry = .ok data ∧ ClassFile.decode data = .ok c.content := by
  simp only [readClasses, Package.classFiles, bind_eq_ok_iff, mapError_eq_ok_iff, mapM_eq_ok_iff,
    PackagedClass.decode, pure_eq_ok_iff] at h
  obtain ⟨files, read, decoded⟩ := h
  generalize p.paths.filter isPluginClass = paths at read
  induction decoded generalizing paths with
  | nil =>
      cases read
      exact ⟨rfl, List.forall_mem_nil _⟩
  | cons head _ ih =>
      cases read with
      | cons first rest =>
          obtain ⟨content, read, name, -, rfl⟩ := head
          obtain ⟨data, found, rfl⟩ := first
          obtain ⟨entries, each⟩ := ih _ rest
          rw [List.map_cons, entries, List.forall_mem_cons]
          exact ⟨rfl, ⟨data, found, read⟩, each⟩

/-- An analysis is that of the classes of a package, and its plan is made for them. -/
theorem analyze_eq_ok {callbackClasses : List String} {found : Analysis}
    (h : analyze p callbackClasses = .ok found) :
    found.classes.map (·.entry) = p.paths.filter isPluginClass ∧
      (∀ c ∈ found.classes, ∃ data,
        p.read c.entry = .ok data ∧ ClassFile.decode data = .ok c.content) ∧
      ∃ d, Plan.make d found.classes callbackClasses = .ok found.plan := by
  simp only [analyze, bind_eq_ok_iff, mapError_eq_ok_iff, pure_eq_ok_iff] at h
  obtain ⟨descriptor, -, classes, read, plan, made, rfl⟩ := h
  obtain ⟨entries, each⟩ := readClasses_eq_ok read
  exact ⟨entries, each, descriptor, made⟩

/-- Each class is put in the place of its entry, and no other entry changes. -/
theorem replaceClasses_eq_ok (distinct : (classes.map (·.entry)).Nodup)
    (h : replaceClasses classes p = .ok p') :
    p'.paths = p.paths ∧
      (∀ c ∈ classes, ∃ out, c.content.encode = .ok out ∧ p'.read c.entry = .ok out) ∧
      ∀ x, x ∉ classes.map (·.entry) → p'.read x = p.read x := by
  induction classes generalizing p with
  | nil =>
      cases h
      exact ⟨rfl, nofun, fun _ _ => rfl⟩
  | cons c classes ih =>
      rw [replaceClasses, List.foldlM_cons] at h
      simp only [bind_eq_ok_iff, mapError_eq_ok_iff] at h
      obtain ⟨q, ⟨out, written, replaced⟩, rest⟩ := h
      rw [List.map_cons, List.nodup_cons] at distinct
      obtain ⟨-, wrote⟩ := Package.replace_eq_ok replaced
      obtain ⟨paths, each, others⟩ := ih distinct.2 rest
      rw [List.forall_mem_cons]
      refine ⟨paths.trans wrote.paths, ⟨⟨out, written, ?_⟩, each⟩, fun x other => ?_⟩
      · rw [others _ distinct.1, wrote.here]
      · rw [List.map_cons, List.mem_cons, not_or] at other
        rw [others x other.2, wrote.elsewhere x other.1]

/-- The entries that a patch adds, in their order. -/
def addedPaths (p : Package) : List String :=
  gateEntry :: if p.contains LicensePolicy.propertiesPath then [] else [LicensePolicy.propertiesPath]

example : addedPaths (.new []) = ["jarlock/runtime/LicenseGate.class", "license.properties"] := by decide +kernel

theorem gateEntry_ne_propertiesPath : gateEntry ≠ LicensePolicy.propertiesPath := by decide +kernel

theorem addGate_eq_ok {policy : LicensePolicy} (h : addGate policy p = .ok p') :
    p'.paths = p.paths ++ addedPaths p ∧
      (∃ file, GateClass.file policy.mode = .ok file ∧ p'.read gateEntry = .ok file) ∧
      p'.read LicensePolicy.propertiesPath = .ok (Text.Utf8.encode policy.toProperties) ∧
      ∀ x, x ≠ gateEntry → x ≠ LicensePolicy.propertiesPath → p'.read x = p.read x := by
  simp only [addGate, bind_eq_ok_iff, mapError_eq_ok_iff] at h
  obtain ⟨file, built, q, added, put⟩ := h
  obtain ⟨-, gate⟩ := Package.add_eq_ok added
  have policy' := Package.put_eq_ok put
  refine ⟨?_, ⟨file, built, ?_⟩, policy'.here, fun x other other' => ?_⟩
  · have same : q.contains LicensePolicy.propertiesPath = p.contains LicensePolicy.propertiesPath := by
      rw [Bool.eq_iff_iff, Package.contains_iff, Package.contains_iff, gate.paths, List.mem_append,
        List.mem_singleton, or_iff_left gateEntry_ne_propertiesPath.symm]
    rw [policy'.paths, gate.paths, same, addedPaths]
    split
    · rfl
    · rw [List.append_assoc]
      rfl
  · rw [policy'.elsewhere _ gateEntry_ne_propertiesPath, gate.here]
  · rw [policy'.elsewhere x other', gate.elsewhere x other]

theorem nodup_paths_addGate {policy : LicensePolicy} (distinct : p.paths.Nodup)
    (h : addGate policy p = .ok p') : p'.paths.Nodup := by
  simp only [addGate, bind_eq_ok_iff, mapError_eq_ok_iff] at h
  obtain ⟨file, -, q, added, put⟩ := h
  exact Package.nodup_paths_put (Package.nodup_paths_add distinct added) put

theorem removeAll_cons_eq_ok_iff {path : String} {removed : List String} :
    removeAll (path :: removed) p = .ok p' ↔ ∃ q, p.remove path = .ok q ∧ removeAll removed q = .ok p' := by
  rw [removeAll, List.foldlM_cons]
  simp only [bind_eq_ok_iff, mapError_eq_ok_iff]
  rfl

theorem paths_of_removeAll {removed : List String} (distinct : p.paths.Nodup)
    (h : removeAll removed p = .ok p') : p'.paths = p.paths.filter (· ∉ removed) := by
  induction removed generalizing p with
  | nil =>
      cases h
      rw [List.filter_eq_self.mpr fun _ _ => by simp]
  | cons path removed ih =>
      obtain ⟨q, first, rest⟩ := removeAll_cons_eq_ok_iff.mp h
      rw [ih (Package.nodup_paths_remove distinct first) rest, Package.paths_of_remove first,
        distinct.erase_eq_filter, List.filter_filter]
      congr 1
      funext x
      by_cases same : x = path <;> simp [same]

theorem read_of_removeAll {removed : List String} (h : removeAll removed p = .ok p') :
    ∀ x, x ∉ removed → p'.read x = p.read x := by
  induction removed generalizing p with
  | nil =>
      cases h
      exact fun _ _ => rfl
  | cons path removed ih =>
      obtain ⟨q, first, rest⟩ := removeAll_cons_eq_ok_iff.mp h
      intro x other
      rw [List.mem_cons, not_or] at other
      rw [ih rest x other.2, Package.read_of_remove first other.1]

/-- The steps of a patch that succeeds: what was found, what became of the targets, and the packages with
the changed classes and with the gate. -/
structure Applied (options : Options) (p p' : Package) (summary : Summary) (analysis : Analysis)
    (state : Progress) (p₁ p₂ : Package) : Prop where
  unlicensed : p.contains gateEntry = false
  found : analyze p options.callbackClasses = .ok analysis
  injected : injectAll options.prologue analysis.classes analysis.plan.targets = .ok state
  replaced : replaceClasses (changed state) p = .ok p₁
  gated : addGate options.policy p₁ = .ok p₂
  removed : removeAll (p₂.paths.filter isSignatureFile) p₂ = .ok p'
  patched : summary.patched = state.patched
  skipped : summary.skipped = state.skipped
  attempted : summary.attempted = analysis.plan.targets.length
  nonempty : state.patched ≠ []

theorem applied_of_apply (h : apply options p = .ok (p', summary)) :
    ∃ analysis state p₁ p₂, Applied options p p' summary analysis state p₁ p₂ := by
  unfold apply at h
  rw [refuse_eq_ok_iff] at h
  obtain ⟨unlicensed, h⟩ := h
  simp only [bind_eq_ok_iff] at h
  obtain ⟨analysis, found, state, injected, h⟩ := h
  rw [refuse_eq_ok_iff] at h
  simp only [bind_eq_ok_iff, pure_eq_ok_iff, Prod.mk.injEq] at h
  obtain ⟨busy, p₁, replaced, p₂, gated, p₃, removed, rfl, rfl⟩ := h
  have absent : p.contains gateEntry = false := by simpa using unlicensed
  have nonempty : state.patched ≠ [] := fun empty => busy (by rw [empty]; rfl)
  exact ⟨analysis, state, p₁, p₂, absent, found, injected, replaced, gated, removed, rfl, rfl, rfl, nonempty⟩

/-! ### Kinds of entries -/

/-- Whether a path is that of a signature file: it lies directly in the directory of the files about a
package, and its name has one of the endings in either case of letter. -/
def SignatureFile (path : String) : Prop :=
  ∃ name : String, path = "META-INF/" ++ name ∧ '/' ∉ name.toList ∧
    ∃ ending ∈ [".SF", ".RSA", ".DSA", ".EC"], ending.toList <:+ name.toList.map Char.toUpper

theorem isSignatureFile_iff {path : String} : isSignatureFile path = true ↔ SignatureFile path := by
  have length : "META-INF/".length = "META-INF/".toList.length := String.length_toList.symm
  rw [isSignatureFile, startsWith, metaDirectory, length]
  constructor
  · intro h
    split at h
    next start =>
      obtain ⟨name, whole⟩ := List.isPrefixOf_iff_prefix.mp start
      rw [← whole, List.drop_left] at h
      simp only [Bool.and_eq_true, Bool.not_eq_true', List.any_eq_true, List.isSuffixOf_iff_suffix,
        List.contains_eq_mem, decide_eq_false_iff_not] at h
      have back : (String.ofList name).toList = name := String.toList_ofList
      refine ⟨.ofList name, ?_, ?_, ?_⟩
      · apply String.toList_inj.mp
        rw [String.toList_append, back, whole]
      · rw [back]
        exact h.1
      · rw [back]
        exact h.2
    next => cases h
  · rintro ⟨name, rfl, flat, ending⟩
    have start : "META-INF/".toList.isPrefixOf ("META-INF/" ++ name).toList = true := by
      rw [String.toList_append]
      exact List.isPrefixOf_iff_prefix.mpr (List.prefix_append _ _)
    rw [if_pos start, String.toList_append, List.drop_left]
    simp only [Bool.and_eq_true, Bool.not_eq_true', List.any_eq_true, List.isSuffixOf_iff_suffix,
      List.contains_eq_mem, decide_eq_false_iff_not]
    exact ⟨flat, ending⟩

instance : DecidablePred SignatureFile := fun _ => decidable_of_iff _ isSignatureFile_iff

theorem decide_not_signatureFile (path : String) :
    decide (¬ SignatureFile path) = !isSignatureFile path := by
  rw [Bool.eq_iff_iff, decide_eq_true_iff, ← isSignatureFile_iff, Bool.not_eq_true, Bool.not_eq_true']

theorem not_isSignatureFile_propertiesPath : isSignatureFile LicensePolicy.propertiesPath = false := by
  decide +kernel

theorem not_isSignatureFile_addedPaths : ∀ path ∈ addedPaths p, isSignatureFile path = false := by
  have gate : isSignatureFile gateEntry = false := by decide +kernel
  rw [addedPaths]
  split <;> simp [gate, not_isSignatureFile_propertiesPath]

/-- A class that a plugin may run is neither a signature file nor the policy. -/
theorem other_of_isPluginClass {path : String} (h : isPluginClass path = true) :
    isSignatureFile path = false ∧ path ≠ LicensePolicy.propertiesPath := by
  have policy : isPluginClass LicensePolicy.propertiesPath = false := by decide +kernel
  refine ⟨?_, ?_⟩
  · simp only [isPluginClass, Bool.and_eq_true, Bool.not_eq_true'] at h
    rw [isSignatureFile, h.1.2]
    rfl
  · rintro rfl
    rw [policy] at h
    cases h

/-! ### The whole patch -/

/-- What a patch leaves of a package `p` in a package `q`: the entries in their order without the
signature files, and behind them those that are added; the gate and the policy in their entries; the class
of each patched target with the injections into just its patched methods; and whatever else there was. -/
structure Leaves (options : Options) (summary : Summary) (p q : Package) : Prop where
  paths : q.paths = p.paths.filter (¬ SignatureFile ·) ++ addedPaths p
  gate : ∃ file, GateClass.file options.policy.mode = .ok file ∧ q.read gateEntry = .ok file
  policy : q.read LicensePolicy.propertiesPath = .ok (Text.Utf8.encode options.policy.toProperties)
  classes : ∀ t ∈ summary.patched, t.entry ∈ p.paths ∧ t.entry ∈ q.paths ∧ ∃ data c c' out,
    p.read t.entry = .ok data ∧ ClassFile.decode data = .ok c ∧
    ClassEdit.run (editsOf options.prologue summary.patched t.entry) c = some c' ∧
    q.read t.entry = .ok out ∧ ClassFile.decode out = .ok c'.raised
  others : ∀ path ∈ q.paths, path ≠ gateEntry → path ≠ LicensePolicy.propertiesPath →
    (∀ t ∈ summary.patched, t.entry ≠ path) → q.read path = p.read path

/-- Whether every content of a package is short enough to be read. -/
def Addressable (p : Package) : Prop :=
  ∀ path content, p.read path = .ok content → content.length < Decoder.positionLimit

theorem addressable_of_entries
    (h : ∀ e ∈ p.entries, ∀ content ∈ e.content.toOption, content.length < Decoder.positionLimit) :
    Addressable p := by
  intro path content read
  rw [Package.read] at read
  split at read
  next e found =>
    apply h e (List.mem_of_find?_eq_some found)
    rw [read]
    rfl
  next => cases read

section

variable {analysis : Analysis} {state : Progress} {p₁ p₂ q : Package}

namespace Applied

variable (h : Applied options p p' summary analysis state p₁ p₂)

include h

/-- The classes that were analyzed are those of the class files. -/
theorem analyzed : analysis.classes.map (·.entry) = p.paths.filter isPluginClass ∧
    ∀ c ∈ analysis.classes, ∃ data,
      p.read c.entry = .ok data ∧ ClassFile.decode data = .ok c.content := by
  obtain ⟨entries, each, -⟩ := analyze_eq_ok h.found
  exact ⟨entries, each⟩

/-- What is known about the classes after all targets. -/
theorem follows (distinct : p.paths.Nodup) : state.Follows options.prologue analysis.classes ∧
    ((changed state).map (·.entry)).Nodup := by
  have entries : (analysis.classes.map (·.entry)).Nodup := by
    rw [h.analyzed.1]
    exact distinct.filter _
  have follows := follows_injectAll entries h.injected
  exact ⟨follows, follows.nodup_changed entries⟩

/-- Which paths there are in the end. -/
theorem paths (distinct : p.paths.Nodup) :
    p'.paths = (p.paths.filter fun path => !isSignatureFile path) ++ addedPaths p := by
  obtain ⟨replaced, -⟩ := replaceClasses_eq_ok (h.follows distinct).2 h.replaced
  obtain ⟨gated, -⟩ := addGate_eq_ok h.gated
  have distinct₁ : p₁.paths.Nodup := replaced ▸ distinct
  have removed := paths_of_removeAll (nodup_paths_addGate distinct₁ h.gated) h.removed
  have unsigned : p₂.paths.filter (· ∉ p₂.paths.filter isSignatureFile) =
      p₂.paths.filter fun path => !isSignatureFile path := by
    refine List.filter_congr fun path member => ?_
    simp [List.mem_filter, member]
  have same : addedPaths p₁ = addedPaths p := by
    have policy : p₁.contains LicensePolicy.propertiesPath = p.contains LicensePolicy.propertiesPath := by
      rw [Bool.eq_iff_iff, Package.contains_iff, Package.contains_iff, replaced]
    rw [addedPaths, addedPaths, policy]
  have added : ((addedPaths p).filter fun path => !isSignatureFile path) = addedPaths p := by
    rw [List.filter_eq_self]
    intro path member
    rw [not_isSignatureFile_addedPaths path member]
    rfl
  rw [removed, unsigned, gated, replaced, same, List.filter_append, added]

/-- No entry but a signature file is removed. -/
theorem read_of_unsigned {path : String} (unsigned : isSignatureFile path = false) :
    p'.read path = p₂.read path := by
  apply read_of_removeAll h.removed
  rw [List.mem_filter, unsigned]
  rintro ⟨-, signed⟩
  cases signed

/-- What is read in the end at a path that is neither signed nor added. -/
theorem read_eq {path : String} (unsigned : isSignatureFile path = false) (gate : path ≠ gateEntry)
    (policy : path ≠ LicensePolicy.propertiesPath) : p'.read path = p₁.read path := by
  obtain ⟨-, -, -, gated⟩ := addGate_eq_ok h.gated
  rw [h.read_of_unsigned unsigned, gated path gate policy]

theorem read_gate :
    ∃ file, GateClass.file options.policy.mode = .ok file ∧ p'.read gateEntry = .ok file := by
  obtain ⟨-, ⟨file, built, read⟩, -⟩ := addGate_eq_ok h.gated
  have unsigned := not_isSignatureFile_addedPaths (p := p) gateEntry (List.mem_cons_self ..)
  exact ⟨file, built, (h.read_of_unsigned unsigned).trans read⟩

theorem read_policy :
    p'.read LicensePolicy.propertiesPath = .ok (Text.Utf8.encode options.policy.toProperties) := by
  obtain ⟨-, -, policy, -⟩ := addGate_eq_ok h.gated
  exact (h.read_of_unsigned not_isSignatureFile_propertiesPath).trans policy

/-- The class of a patched target. -/
theorem target (distinct : p.paths.Nodup) {t : InjectionTarget} (patched : t ∈ state.patched) :
    t.entry ∈ p.paths ∧ isPluginClass t.entry = true ∧ ∃ data c c' out,
      p.read t.entry = .ok data ∧ ClassFile.decode data = .ok c ∧
      ClassEdit.run (editsOf options.prologue state.patched t.entry) c = some c' ∧
      p₁.read t.entry = .ok out ∧ c'.encode = .ok out := by
  obtain ⟨follows, entries⟩ := h.follows distinct
  obtain ⟨analyzed, each⟩ := h.analyzed
  obtain ⟨-, written, -⟩ := replaceClasses_eq_ok entries h.replaced
  obtain ⟨after, member, same⟩ := follows.exists_changed patched
  obtain ⟨-, before, member', became⟩ := follows.mem_changed member
  have entry : before.entry = t.entry := became.entry.symm.trans same
  have known : t.entry ∈ p.paths.filter isPluginClass := by
    rw [← analyzed, ← entry]
    exact List.mem_map_of_mem member'
  obtain ⟨data, read, decoded⟩ := each before member'
  obtain ⟨out, encoded, now⟩ := written after member
  have edited := became.edited
  rw [entry] at read edited
  rw [same] at now
  obtain ⟨present, plugin⟩ := List.mem_filter.mp known
  exact ⟨present, plugin, data, _, _, out, read, decoded, edited, now, encoded⟩

/-- The class of a patched target is read back with its injections. -/
theorem read_target (distinct : p.paths.Nodup) (fits : Addressable p') {t : InjectionTarget}
    (patched : t ∈ summary.patched) :
    t.entry ∈ p.paths ∧ t.entry ∈ p'.paths ∧ ∃ data c c' out,
      p.read t.entry = .ok data ∧ ClassFile.decode data = .ok c ∧
      ClassEdit.run (editsOf options.prologue summary.patched t.entry) c = some c' ∧
      p'.read t.entry = .ok out ∧ ClassFile.decode out = .ok c'.raised := by
  rw [h.patched] at patched ⊢
  obtain ⟨present, plugin, data, c, c', out, read, decoded, edited, now, encoded⟩ :=
    h.target distinct patched
  obtain ⟨unsigned, other⟩ := other_of_isPluginClass plugin
  have absent : gateEntry ∉ p.paths := Package.contains_eq_false_iff.mp h.unlicensed
  have apart : t.entry ≠ gateEntry := fun same => absent (same ▸ present)
  have now' : p'.read t.entry = .ok out := (h.read_eq unsigned apart other).trans now
  have sound := (ClassEdit.patchable_run (ClassFile.patchable_of_decode decoded) edited).toWellFormed
  have back := (ClassFile.decode_of_encode sound encoded (fits _ _ now')).1
  refine ⟨present, ?_, data, c, c', out, read, decoded, edited, now', back⟩
  rw [h.paths distinct, List.mem_append, List.mem_filter, unsigned]
  exact .inl ⟨present, rfl⟩

/-- What is neither added nor holds a patched target is read as before. -/
theorem read_other (distinct : p.paths.Nodup) {path : String} (member : path ∈ p'.paths)
    (gate : path ≠ gateEntry) (policy : path ≠ LicensePolicy.propertiesPath)
    (unpatched : ∀ t ∈ summary.patched, t.entry ≠ path) : p'.read path = p.read path := by
  obtain ⟨follows, entries⟩ := h.follows distinct
  obtain ⟨-, -, replaced⟩ := replaceClasses_eq_ok entries h.replaced
  have unsigned : isSignatureFile path = false := by
    rw [h.paths distinct, List.mem_append, List.mem_filter] at member
    rcases member with old | added
    · simpa using old.2
    · exact not_isSignatureFile_addedPaths path added
  have untouched : path ∉ (changed state).map (·.entry) := by
    intro touched
    obtain ⟨after, changed, same⟩ := List.mem_map.mp touched
    obtain ⟨⟨t, patched, entry⟩, -⟩ := follows.mem_changed changed
    rw [← h.patched] at patched
    exact unpatched t patched (entry.trans same)
  rw [h.read_eq unsigned gate policy, replaced path untouched]

theorem leaves (distinct : p.paths.Nodup) (fits : Addressable p') : Leaves options summary p p' where
  paths := by
    simp only [decide_not_signatureFile]
    exact h.paths distinct
  gate := h.read_gate
  policy := h.read_policy
  classes _ patched := h.read_target distinct fits patched
  others _ member gate policy unpatched := h.read_other distinct member gate policy unpatched

end Applied

/-- What is left in a package is left in every package that reads the same. -/
theorem Leaves.readBack (h : Leaves options summary p p') (kept : p'.ReadBack q) :
    Leaves options summary p q where
  paths := kept.paths.trans h.paths
  gate := by simpa only [kept.contents] using h.gate
  policy := (kept.contents _).trans h.policy
  classes := by simpa only [kept.contents, kept.paths] using h.classes
  others := by simpa only [kept.contents, kept.paths] using h.others

/-- A package that has the gate is not patched again. -/
theorem apply_of_contains (licensed : p.contains gateEntry = true) (options : Options) :
    apply options p = .error .alreadyLicensed := by
  unfold apply
  rw [if_pos licensed]
  rfl

/-- A patch changes nothing that it does not have to, provided that the archive that it writes is read
back with the same names, order and contents. Another patch of that archive is refused. -/
theorem patch_leaves {jar : Bytes} (opened : Package.ofBytes jar = .ok p)
    (patched : apply options p = .ok (p', summary)) (kept : p'.ReadBack q) (fits : Addressable p') :
    CommandLine.patchBytes options jar = .ok (p'.toBytes, summary) ∧ Leaves options summary p q ∧
      ∀ again, CommandLine.patchBytes again p'.toBytes = .error .alreadyLicensed := by
  obtain ⟨analysis, state, p₁, p₂, applied⟩ := applied_of_apply patched
  have leaves := (applied.leaves (Package.nodup_paths_of_ofBytes opened) fits).readBack kept
  refine ⟨?_, leaves, fun again => ?_⟩
  · rw [CommandLine.patchBytes, opened]
    change (apply options p >>= _) = _
    rw [patched]
    rfl
  · have licensed : q.contains gateEntry = true := by
      rw [Package.contains_iff, leaves.paths]
      exact List.mem_append_right _ (List.mem_cons_self ..)
    rw [CommandLine.patchBytes, kept.opened]
    change (apply again q >>= _) = _
    rw [apply_of_contains licensed]
    rfl

end

/-- A class `A` with a callback that only returns. -/
def callbackClass : Bytes :=
  [0xCA, 0xFE, 0xBA, 0xBE, 0, 0, 0, 52, 0, 6,
    1, 0, 1, 65, 7, 0, 1, 1, 0, 8, 111, 110, 69, 110, 97, 98, 108, 101, 1, 0, 3, 40, 41, 86,
    1, 0, 4, 67, 111, 100, 101, 0, 0, 0, 2, 0, 0, 0, 0, 0, 0, 0, 1,
    0, 0, 0, 3, 0, 4, 0, 1, 0, 5, 0, 0, 0, 13, 0, 0, 0, 1, 0, 0, 0, 1, 0xB1, 0, 0, 0, 0, 0, 0]

/-- A signed plugin of one class. -/
def signedPlugin : Package :=
  .new [("plugin.yml", Text.Utf8.encode "name: P\nmain: A\n"), ("META-INF/K.SF", []),
    ("A.class", callbackClass)]

/-- The signed plugin as it is read from its archive. -/
def openedPlugin : Package := .ofStored (signedPlugin.entries.map (·.stored))

/-- The patch of the signed plugin that leaves everything to defaults. -/
def defaultOptions : Options := ⟨.new "u" "p", []⟩

theorem readBack_signedPlugin : signedPlugin.ReadBack openedPlugin :=
  Package.readBack_of_writable (by decide +kernel) (by decide +kernel)

set_option maxRecDepth 10000 in
/-- What makes the patched package one that is read back, found by running the patch. -/
theorem exists_apply_openedPlugin : ∃ result ∈ (apply defaultOptions openedPlugin).toOption,
    (∀ e ∈ result.1.entries, e.stored.name = e.path) ∧
      Archive.Writable (result.1.entries.map (·.stored)) ∧
      ∀ e ∈ result.1.entries, ∀ content ∈ e.content.toOption, content.length < Decoder.positionLimit := by
  -- hash tables cannot be evaluated here, so the depth of the stack is searched with lists
  unfold apply replaceClasses addGate GateClass.file ClassFile.encode ClassFile.writeMethod
    ClassFile.writeMethodAttribute Code.write Code.writeLaidOut
  simp only [Code.neededStack_eq_listed]
  decide +kernel

theorem patch_leaves_signedPlugin : ∃ p' summary q,
    Package.ofBytes signedPlugin.toBytes = .ok openedPlugin ∧
      apply defaultOptions openedPlugin = .ok (p', summary) ∧ p'.ReadBack q ∧ Addressable p' ∧
      CommandLine.patchBytes defaultOptions signedPlugin.toBytes = .ok (p'.toBytes, summary) ∧
      Leaves defaultOptions summary openedPlugin q ∧
      ∀ again, CommandLine.patchBytes again p'.toBytes = .error .alreadyLicensed := by
  obtain ⟨⟨p', summary⟩, run, named, writable, short⟩ := exists_apply_openedPlugin
  have patched := toOption_eq_some_iff.mp run
  have kept := Package.readBack_of_writable named writable
  have fits : Addressable p' := addressable_of_entries short
  exact ⟨p', summary, _, readBack_signedPlugin.opened, patched, kept, fits,
    patch_leaves readBack_signedPlugin.opened patched kept fits⟩

end Patch

end JarGate
