import JarGate.CommandLine.FileTable
import JarGate.Proofs.Format.Overflows
import JarGate.Proofs.Injection.Patch
import JarGate.Proofs.Injection.Progress

/-!
# The account of a patch

A patch that succeeds accounts for all targets of the plan. Whether a target was passed over is told by its
method as the package holds it, except where that strays: what its first instruction calls may have been
made by the injections in front of it. A patch that finds all targets passed over fails, and so does nothing
else in the same way.
-/

namespace JarGate

namespace Patch

open Prologue (PassedOver Unleavable StartsWithCall Strays)

variable {options : PrologueOptions} {state : Progress} {t : InjectionTarget}
  {targets : List InjectionTarget}

/-! ### Targets in a package -/

/-- What a target names in a class: a method with its body and its type. -/
structure Aims (t : InjectionTarget) (c : ClassFile) (code : Code) (d : MethodDescriptor) : Prop where
  method : ∃ m, c.methods[t.index]? = some m ∧ m.code? = some code ∧
    c.methodDescriptor m = .ok t.descriptor
  type : MethodDescriptor.parse t.descriptor = .ok d

theorem Aims.passedOver_iff {c : ClassFile} {code : Code} {d : MethodDescriptor} (aims : Aims t c code d)
    (sound : c.WellFormed) :
    PassedOver options t.index c ↔ Unleavable options d ∨ StartsWithCall c.pool code := by
  obtain ⟨m, found, body, read⟩ := aims.method
  rw [Prologue.passedOver_iff sound found body read aims.type, or_comm]

/-- Behind injections into other methods of its class. -/
theorem Aims.passedOver_behind_iff {c c' : ClassFile} {code : Code} {d : MethodDescriptor}
    (aims : Aims t c code d) (sound : c.Patchable)
    (others : ∀ u ∈ targets, (u.entry, u.index) ≠ (t.entry, t.index))
    (edited : ClassEdit.run (editsOf options targets t.entry) c = some c') :
    PassedOver options t.index c' ↔ Unleavable options d ∨ StartsWithCall c.pool code ∨
      ∃ ref, Strays c.pool code ref ∧
        c'.pool.memberRef ref = .ok ⟨"jarlock/runtime/LicenseGate", "check", "()Z"⟩ := by
  obtain ⟨m, found, body, read⟩ := aims.method
  have indices : editsOf options targets t.entry =
      ((targets.filter (·.entry == t.entry)).map (·.index)).map fun k => .inject k options := by
    rw [editsOf, List.map_map]
    rfl
  rw [indices] at edited
  refine Prologue.passedOver_run_iff sound found body read aims.type ?_ edited
  intro k member
  obtain ⟨u, chosen, rfl⟩ := List.mem_map.mp member
  obtain ⟨among, here⟩ := List.mem_filter.mp chosen
  intro same
  exact others u among (Prod.ext (eq_of_beq here) same)

section

variable {p : Package} {callbackClasses : List String} {found : Analysis}

theorem nodup_entries (analyzed : analyze p callbackClasses = .ok found) (distinct : p.paths.Nodup) :
    (found.classes.map (·.entry)).Nodup := by
  rw [(analyze_eq_ok analyzed).1]
  exact distinct.filter _

theorem readable_of_analyze (analyzed : analyze p callbackClasses = .ok found) :
    ∀ c ∈ found.classes, Plan.Readable c.content := by
  intro c member
  obtain ⟨data, -, decoded⟩ := (analyze_eq_ok analyzed).2.1 c member
  exact Plan.readable_of_decode decoded

theorem nodup_targets (analyzed : analyze p callbackClasses = .ok found) (distinct : p.paths.Nodup) :
    (found.plan.targets.map fun t => (t.entry, t.index)).Nodup := by
  obtain ⟨-, -, d, made⟩ := analyze_eq_ok analyzed
  exact Plan.nodup_keys (readable_of_analyze analyzed) made (nodup_entries analyzed distinct)

/-- What a target of a plan names in the package. -/
theorem aims_of_target (analyzed : analyze p callbackClasses = .ok found)
    (member : t ∈ found.plan.targets) : ∃ b ∈ found.classes, b.entry = t.entry ∧ ∃ data code d,
      p.read t.entry = .ok data ∧ ClassFile.decode data = .ok b.content ∧ Aims t b.content code d := by
  obtain ⟨-, each, d, made⟩ := analyze_eq_ok analyzed
  obtain ⟨b, there, entry, m, code, method, body, read⟩ :=
    Plan.method_of_target (readable_of_analyze analyzed) made member
  obtain ⟨data, here, decoded⟩ := each b there
  have sound := ClassFile.wellFormed_of_decode decoded
  obtain ⟨text, type, written, parsed⟩ := (sound.methods m (List.mem_of_getElem? method)).descriptor
  obtain rfl := Except.ok.inj (read.symm.trans written)
  rw [entry] at here
  exact ⟨b, there, entry, data, code, type, here, decoded, ⟨m, method, body, read⟩, parsed⟩

/-- What is known about the targets of a plan after all of them. -/
theorem accounts_of_analyze (analyzed : analyze p callbackClasses = .ok found) (distinct : p.paths.Nodup)
    (ran : injectAll options found.classes found.plan.targets = .ok state) :
    state.Accounts options found.classes found.plan.targets := by
  refine accounts_injectAll (nodup_entries analyzed distinct) (nodup_targets analyzed distinct).of_map ?_ ran
  intro t member
  obtain ⟨b, there, entry, -⟩ := aims_of_target analyzed member
  rw [← entry]
  exact List.mem_map_of_mem there

/-- What a target names in the package, and what the injections in front of it have made of its class by
the time that it is patched or passed over. -/
theorem aims_of_accounts (analyzed : analyze p callbackClasses = .ok found) (distinct : p.paths.Nodup)
    (accounts : state.Accounts options found.classes found.plan.targets)
    {earlier later : List InjectionTarget} (whole : found.plan.targets = earlier ++ t :: later) :
    ∃ data c code d c', p.read t.entry = .ok data ∧ ClassFile.decode data = .ok c ∧ c.Patchable ∧
      Aims t c code d ∧
      ClassEdit.run (editsOf options (earlier.filter (· ∉ state.passed)) t.entry) c = some c' ∧
      (t ∈ state.passed ↔ PassedOver options t.index c') := by
  have member : t ∈ found.plan.targets := by
    rw [whole]
    exact List.mem_append_right _ List.mem_cons_self
  obtain ⟨b, there, entry, data, code, d, read, decoded, aims⟩ := aims_of_target analyzed member
  obtain ⟨b', there', c', entry', edited, verdict⟩ := accounts.verdict earlier t later whole
  obtain rfl : b' = b :=
    List.inj_on_of_nodup_map (nodup_entries analyzed distinct) there' there (entry'.trans entry.symm)
  have sound := ClassFile.patchable_of_decode decoded
  exact ⟨data, b'.content, code, d, c', read, decoded, sound, aims, edited, verdict⟩

/-- Whether a target is passed over is told by its method in the package, unless that strays. -/
theorem passed_iff_of_accounts (analyzed : analyze p callbackClasses = .ok found)
    (distinct : p.paths.Nodup) (accounts : state.Accounts options found.classes found.plan.targets)
    {earlier later : List InjectionTarget} (whole : found.plan.targets = earlier ++ t :: later) :
    ∃ data c code d, p.read t.entry = .ok data ∧ ClassFile.decode data = .ok c ∧ Aims t c code d ∧
      (t ∈ state.passed ↔ Unleavable options d ∨ StartsWithCall c.pool code ∨
        ∃ ref c', Strays c.pool code ref ∧
          ClassEdit.run (editsOf options (earlier.filter (· ∉ state.passed)) t.entry) c = some c' ∧
          c'.pool.memberRef ref = .ok ⟨"jarlock/runtime/LicenseGate", "check", "()Z"⟩) := by
  obtain ⟨data, c, code, d, c', read, decoded, sound, aims, edited, verdict⟩ :=
    aims_of_accounts analyzed distinct accounts whole
  have others : ∀ u ∈ earlier.filter (· ∉ state.passed), (u.entry, u.index) ≠ (t.entry, t.index) := by
    intro u chosen same
    have keys := nodup_targets analyzed distinct
    rw [whole, List.map_append, List.map_cons] at keys
    refine (List.nodup_append.mp keys).2.2 _ ?_ _ List.mem_cons_self same
    exact List.mem_map_of_mem (List.mem_filter.mp chosen).1
  refine ⟨data, c, code, d, read, decoded, aims, ?_⟩
  rw [verdict, aims.passedOver_behind_iff sound others edited]
  refine or_congr_right (or_congr_right ⟨?_, ?_⟩)
  · rintro ⟨ref, strays, resolved⟩
    exact ⟨ref, c', strays, edited, resolved⟩
  · rintro ⟨ref, c'', strays, edited', resolved⟩
    obtain rfl := Option.some.inj (edited.symm.trans edited')
    exact ⟨ref, strays, resolved⟩

/-- All targets of a plan are passed over just if each of them is to be by its method in the package. -/
theorem all_passed_iff (analyzed : analyze p callbackClasses = .ok found) (distinct : p.paths.Nodup) :
    (∃ state, injectAll options found.classes found.plan.targets = .ok state ∧
        state.passed = found.plan.targets) ↔
      ∀ t ∈ found.plan.targets, ∃ data c code d, p.read t.entry = .ok data ∧
        ClassFile.decode data = .ok c ∧ Aims t c code d ∧
        (Unleavable options d ∨ StartsWithCall c.pool code) := by
  constructor
  · rintro ⟨state, ran, all⟩ t member
    have accounts := accounts_of_analyze analyzed distinct ran
    obtain ⟨earlier, later, whole⟩ := List.append_of_mem member
    obtain ⟨data, c, code, d, c', read, decoded, sound, aims, edited, verdict⟩ :=
      aims_of_accounts analyzed distinct accounts whole
    -- no target was patched, so the class is still as it was read
    have unpatched : earlier.filter (· ∉ state.passed) = [] := by
      rw [List.filter_eq_nil_iff]
      intro u among
      have planned : u ∈ found.plan.targets := by
        rw [whole]
        exact List.mem_append_left _ among
      have passed : u ∈ state.passed := accounts.passed_eq_iff.mp all u planned
      simpa using passed
    rw [unpatched] at edited
    cases edited
    refine ⟨data, c, code, d, read, decoded, aims, ?_⟩
    rw [← aims.passedOver_iff sound.toWellFormed, ← verdict, all]
    exact member
  · intro each
    have there : ∀ t ∈ found.plan.targets, ∃ b ∈ found.classes, b.entry = t.entry ∧
        PassedOver options t.index b.content := by
      intro t member
      obtain ⟨data, c, code, d, read, decoded, aims, reason⟩ := each t member
      obtain ⟨b, there, entry, data', -, -, read', decoded', -⟩ := aims_of_target analyzed member
      obtain rfl := Except.ok.inj (read.symm.trans read')
      obtain rfl := Except.ok.inj (decoded.symm.trans decoded')
      have sound := ClassFile.wellFormed_of_decode decoded
      exact ⟨b, there, entry, (aims.passedOver_iff sound).mpr reason⟩
    obtain ⟨skipped, ran, all⟩ := injectAll_of_passedOver (nodup_entries analyzed distinct) there
    exact ⟨_, ran, all⟩

end

/-! ### Patches without a patched target -/

/-- Whether a computation does not fail for want of a patched target. -/
def NotIdle {α : Type} (x : Except PatchError α) : Prop := ∀ n, x ≠ .error (.noTargetsPatched n)

namespace NotIdle

variable {α β ε : Type}

theorem ok (a : α) : NotIdle (.ok a) := nofun

theorem bind {x : Except PatchError α} {f : α → Except PatchError β} (first : NotIdle x)
    (next : ∀ a, NotIdle (f a)) : NotIdle (x >>= f) := by
  intro n failed
  obtain stopped | ⟨a, -, stopped⟩ := bind_eq_error_iff.mp failed
  · exact first n stopped
  · exact next a n stopped

theorem mapError {f : ε → PatchError} (other : ∀ e n, f e ≠ .noTargetsPatched n) (x : Except ε α) :
    NotIdle (x.mapError f) := by
  intro n failed
  cases x with
  | ok a => cases failed
  | error e => exact other e n (Except.error.inj failed)

theorem mapM {f : α → Except PatchError β} (each : ∀ a, NotIdle (f a)) (as : List α) :
    NotIdle (as.mapM f) := by
  intro n failed
  obtain ⟨a, -, stopped⟩ := exists_of_mapM_eq_error failed
  exact each a n stopped

theorem foldlM {f : β → α → Except PatchError β} (each : ∀ b a, NotIdle (f b a)) (as : List α) (b : β) :
    NotIdle (as.foldlM f b) := by
  induction as generalizing b with
  | nil => exact ok b
  | cons a as ih =>
      rw [List.foldlM_cons]
      exact (each b a).bind ih

theorem analyze (p : Package) (callbackClasses : List String) : NotIdle (analyze p callbackClasses) := by
  refine (mapError nofun _).bind fun _ => bind ?_ fun _ => (mapError nofun _).bind fun _ => ok _
  exact (mapError nofun _).bind fun _ => mapM (fun _ => mapError nofun _) _

theorem injectAll (options : PrologueOptions) (classes : List PackagedClass)
    (targets : List InjectionTarget) : NotIdle (injectAll options classes targets) := by
  refine foldlM (fun state t n => ?_) targets _
  unfold injectTarget injectAt
  dsimp only
  repeat' split
  all_goals nofun

theorem replaceClasses (classes : List PackagedClass) (p : Package) : NotIdle (replaceClasses classes p) :=
  foldlM (fun _ _ => (mapError nofun _).bind fun _ => mapError nofun _) classes p

theorem addGate (policy : LicensePolicy) (p : Package) : NotIdle (addGate policy p) :=
  (mapError nofun _).bind fun _ => (mapError nofun _).bind fun _ => mapError nofun _

theorem removeAll (paths : List String) (p : Package) : NotIdle (removeAll paths p) :=
  foldlM (fun _ _ => mapError nofun _) paths p

end NotIdle

section

variable {p : Package} {options : Options} {n : Nat}

/-- A patch fails for want of a patched target just if all targets were passed over. -/
theorem apply_eq_idle_iff (distinct : p.paths.Nodup) :
    apply options p = .error (.noTargetsPatched n) ↔ p.contains gateEntry = false ∧
      ∃ found state, analyze p options.callbackClasses = .ok found ∧
        injectAll options.prologue found.classes found.plan.targets = .ok state ∧
        state.passed = found.plan.targets ∧ n = found.plan.targets.length := by
  have empty_iff {found : Analysis} {state : Progress}
      (analyzed : analyze p options.callbackClasses = .ok found)
      (ran : injectAll options.prologue found.classes found.plan.targets = .ok state) :
      state.patched.isEmpty ↔ state.passed = found.plan.targets :=
    List.isEmpty_iff.trans (accounts_of_analyze analyzed distinct ran).patched_eq_nil_iff
  unfold apply
  by_cases licensed : p.contains gateEntry = true
  · rw [if_pos licensed, licensed]
    exact iff_of_false nofun nofun
  rw [if_neg licensed]
  constructor
  · intro failed
    obtain stopped | ⟨found, analyzed, failed⟩ := bind_eq_error_iff.mp failed
    · exact absurd stopped (NotIdle.analyze _ _ n)
    obtain stopped | ⟨state, ran, failed⟩ := bind_eq_error_iff.mp failed
    · exact absurd stopped (NotIdle.injectAll _ _ _ n)
    by_cases idle : state.patched.isEmpty
    · rw [if_pos idle] at failed
      cases failed
      exact ⟨Bool.eq_false_iff.mpr licensed, found, state, analyzed, ran,
        (empty_iff analyzed ran).mp idle, rfl⟩
    · rw [if_neg idle] at failed
      refine absurd failed (NotIdle.bind (NotIdle.replaceClasses _ _) (fun _ => ?_) n)
      exact (NotIdle.addGate _ _).bind fun _ => (NotIdle.removeAll _ _).bind fun _ => .ok _
  · rintro ⟨-, found, state, analyzed, ran, all, rfl⟩
    rw [analyzed]
    change (injectAll options.prologue found.classes found.plan.targets >>= _) = _
    rw [ran]
    change (if state.patched.isEmpty then _ else _) = _
    rw [if_pos ((empty_iff analyzed ran).mpr all)]
    rfl

/-- The targets that were passed over. -/
def Summary.passed (summary : Summary) : List InjectionTarget := summary.skipped.map (·.1)

/-- What the summary of a patch says about the targets of a plan: each was patched or passed over and not
both, both in the order of the plan, and at least one was patched. One was passed over just if it cannot be
left early, or starts with the call of the gate in the package, or strays to a reference to the gate that
the injections in front of it made. -/
structure Accounted (options : Options) (p : Package) (targets : List InjectionTarget)
    (summary : Summary) : Prop where
  attempted : summary.attempted = targets.length
  total : targets.length = summary.patched.length + summary.skipped.length
  distinct : targets.Nodup
  patched : summary.patched = targets.filter (· ∉ summary.passed)
  passed : summary.passed = targets.filter (· ∈ summary.passed)
  nonempty : summary.patched ≠ []
  verdict : ∀ earlier t later, targets = earlier ++ t :: later → ∃ data c code d,
    p.read t.entry = .ok data ∧ ClassFile.decode data = .ok c ∧ Aims t c code d ∧
    (t ∈ summary.passed ↔ Unleavable options.prologue d ∨ StartsWithCall c.pool code ∨
      ∃ ref c', Strays c.pool code ref ∧
        ClassEdit.run (editsOf options.prologue (earlier.filter (· ∉ summary.passed)) t.entry) c =
          some c' ∧
        c'.pool.memberRef ref = .ok ⟨"jarlock/runtime/LicenseGate", "check", "()Z"⟩)

theorem Applied.accounted {p' p₁ p₂ : Package} {summary : Summary} {found : Analysis} {state : Progress}
    (h : Applied options p p' summary found state p₁ p₂) (distinct : p.paths.Nodup) :
    Accounted options p found.plan.targets summary := by
  have accounts := accounts_of_analyze h.found distinct h.injected
  have passed : summary.passed = state.passed := by rw [Summary.passed, h.skipped, Progress.passed]
  have patched : summary.patched = found.plan.targets.filter (· ∉ summary.passed) := by
    rw [h.patched, accounts.patched, passed]
  have skipped : summary.passed = found.plan.targets.filter (· ∈ summary.passed) := by
    rw [passed, ← accounts.passed]
  refine ⟨h.attempted, ?_, (nodup_targets h.found distinct).of_map, patched, skipped, ?_, ?_⟩
  · have lengths := List.length_eq_length_filter_add (l := found.plan.targets) (· ∈ summary.passed)
    have count : summary.passed.length = summary.skipped.length := List.length_map _
    simp only [← decide_not, ← patched, ← skipped] at lengths
    omega
  · rw [h.patched]
    exact h.nonempty
  · intro earlier t later whole
    rw [passed]
    exact passed_iff_of_accounts h.found distinct accounts whole

end

/-! ### Patches of archives -/

section

open CommandLine (patchBytes analyzeBytes runPatch FileTable Outcome Report.beforePatch)

variable {options : Options} {jar out : Bytes} {summary : Summary} {n : Nat}

theorem patchBytes_eq_ok_iff : patchBytes options jar = .ok (out, summary) ↔
    ∃ p p', Package.ofBytes jar = .ok p ∧ apply options p = .ok (p', summary) ∧ p'.toBytes = out := by
  simp only [patchBytes, bind_eq_ok_iff, mapError_eq_ok_iff, pure_eq_ok_iff, Prod.exists,
    Prod.mk.injEq]
  constructor
  · rintro ⟨p, opened, p', _, done, rfl, rfl⟩
    exact ⟨p, p', opened, done, rfl⟩
  · rintro ⟨p, p', opened, done, rfl⟩
    exact ⟨p, opened, p', summary, done, rfl, rfl⟩

theorem patchBytes_eq_idle_iff : patchBytes options jar = .error (.noTargetsPatched n) ↔
    ∃ p, Package.ofBytes jar = .ok p ∧ apply options p = .error (.noTargetsPatched n) := by
  have opens : NotIdle ((Package.ofBytes jar).mapError PatchError.package) := .mapError nofun _
  rw [patchBytes, bind_eq_error_iff, or_iff_right (opens n)]
  simp only [mapError_eq_ok_iff]
  exact exists_congr fun p => and_congr_right fun _ => bind_pure_eq_error_iff

theorem analyzeBytes_eq_ok_iff {callbackClasses : List String} {found : Analysis} :
    analyzeBytes callbackClasses jar = .ok found ↔
      ∃ p, Package.ofBytes jar = .ok p ∧ analyze p callbackClasses = .ok found := by
  simp only [analyzeBytes, bind_eq_ok_iff, mapError_eq_ok_iff]

/-- Where a patch fails, no file changes. -/
theorem runPatch_of_error {why : PatchError} {files : FileTable} {input : String}
    (failed : patchBytes options jar = .error why) (read : files.read input = .ok jar) (output : String) :
    (runPatch FileTable.operations input output options).run files =
      (Outcome.failed (Report.beforePatch input output options) why.fullMessage, files) := by
  have content : (FileTable.operations.read input).run files = pure (.ok jar, files) := by
    change ((files.read input).mapError _, files) = _
    rw [read]
    rfl
  rw [runPatch, StateT.run_bind, content]
  simp only [pure_bind, failed]
  rfl

/-- Every planned target is accounted for. If a patch succeeds, then so does the analysis of the same
octets, and the summary accounts for the targets of its plan. It fails for want of a patched target just if
the package has no gate, there is a plan, and no injection fails but all targets are passed over; that is
so just if each target cannot be left early or starts with the call of the gate in the package. And
whenever a patch fails, no file changes. -/
theorem patch_accounts (options : Options) (jar : Bytes) :
    (∀ out summary, patchBytes options jar = .ok (out, summary) → ∃ p found,
      Package.ofBytes jar = .ok p ∧ analyzeBytes options.callbackClasses jar = .ok found ∧
      Accounted options p found.plan.targets summary) ∧
    (∀ n, patchBytes options jar = .error (.noTargetsPatched n) ↔ ∃ p found state,
      Package.ofBytes jar = .ok p ∧ p.contains gateEntry = false ∧
      analyzeBytes options.callbackClasses jar = .ok found ∧
      injectAll options.prologue found.classes found.plan.targets = .ok state ∧
      state.passed = found.plan.targets ∧ n = found.plan.targets.length) ∧
    (∀ p found, Package.ofBytes jar = .ok p → analyzeBytes options.callbackClasses jar = .ok found →
      ((∃ state, injectAll options.prologue found.classes found.plan.targets = .ok state ∧
          state.passed = found.plan.targets) ↔
        ∀ t ∈ found.plan.targets, ∃ data c code d, p.read t.entry = .ok data ∧
          ClassFile.decode data = .ok c ∧ Aims t c code d ∧
          (Unleavable options.prologue d ∨ StartsWithCall c.pool code))) ∧
    ∀ why input output files, patchBytes options jar = .error why →
      FileTable.read files input = .ok jar →
      (runPatch FileTable.operations input output options).run files =
        (Outcome.failed (Report.beforePatch input output options) why.fullMessage, files) := by
  refine ⟨fun out summary done => ?_, fun n => ?_, fun p found opened analyzed => ?_, ?_⟩
  · obtain ⟨p, p', opened, applied, -⟩ := patchBytes_eq_ok_iff.mp done
    obtain ⟨found, state, p₁, p₂, steps⟩ := applied_of_apply applied
    exact ⟨p, found, opened, analyzeBytes_eq_ok_iff.mpr ⟨p, opened, steps.found⟩,
      steps.accounted (Package.nodup_paths_of_ofBytes opened)⟩
  · rw [patchBytes_eq_idle_iff]
    constructor
    · rintro ⟨p, opened, idle⟩
      obtain ⟨unlicensed, found, state, analyzed, ran, all, length⟩ :=
        (apply_eq_idle_iff (Package.nodup_paths_of_ofBytes opened)).mp idle
      exact ⟨p, found, state, opened, unlicensed, analyzeBytes_eq_ok_iff.mpr ⟨p, opened, analyzed⟩, ran,
        all, length⟩
    · rintro ⟨p, found, state, opened, unlicensed, analyzed, ran, all, length⟩
      obtain ⟨p', opened', analyzed⟩ := analyzeBytes_eq_ok_iff.mp analyzed
      obtain rfl := Except.ok.inj (opened.symm.trans opened')
      refine ⟨p, opened, (apply_eq_idle_iff (Package.nodup_paths_of_ofBytes opened)).mpr ?_⟩
      exact ⟨unlicensed, found, state, analyzed, ran, all, length⟩
  · obtain ⟨p', opened', analyzed⟩ := analyzeBytes_eq_ok_iff.mp analyzed
    obtain rfl := Except.ok.inj (opened.symm.trans opened')
    exact all_passed_iff analyzed (Package.nodup_paths_of_ofBytes opened)
  · intro why input output files failed read
    exact runPatch_of_error failed read output

/-- A listener with two callbacks. The second one first calls a method through the index 12, which its pool,
that ends at 6, does not have. -/
def strayListener : Bytes :=
  let text (s : String) : Bytes := [1, 0, UInt8.ofNat s.length] ++ Text.Utf8.encode s
  let callback (name : UInt8) (code : Bytes) : Bytes :=
    [0, 1, 0, name, 0, 3, 0, 1, 0, 4, 0, 0, 0, UInt8.ofNat (12 + code.length), 0, 1, 0, 1, 0, 0, 0,
      UInt8.ofNat code.length] ++ code ++ [0, 0, 0, 0]
  [0xCA, 0xFE, 0xBA, 0xBE, 0, 0, 0, 48, 0, 7] ++ text "BListener" ++ [7, 0, 1] ++ text "()V" ++
    text "Code" ++ text "onFirst" ++ text "onSecond" ++ [0, 0x21, 0, 2, 0, 0, 0, 0, 0, 0, 0, 2] ++
    callback 5 [0xB1] ++ callback 6 [0xB8, 0, 12, 0x57, 0xB1] ++ [0, 0]

/-- A plugin with that listener. -/
def strayPlugin : Package :=
  .new [("plugin.yml", Text.Utf8.encode "name: P\nmain: A\n"), ("A.class", callbackClass),
    ("BListener.class", strayListener)]

/-- A package as it is read from its archive. -/
def reopened (p : Package) : Package := .ofStored (p.entries.map (·.stored))

/-- The second callback of the listener. -/
def strayTarget : InjectionTarget :=
  ⟨"BListener.class", "BListener", 1, "onSecond", "()V", .heuristicCallback⟩

theorem readBack_strayPlugin : strayPlugin.ReadBack (reopened strayPlugin) :=
  Package.readBack_of_writable (by decide +kernel) (by decide +kernel)

set_option maxRecDepth 10000 in
theorem exists_apply_strayPlugin : ∃ result ∈ (apply defaultOptions (reopened strayPlugin)).toOption,
    result.2.patched.map (·.name) = ["onEnable", "onFirst"] ∧ result.2.passed = [strayTarget] := by
  -- hash tables cannot be evaluated here, so the depth of the stack is searched with lists
  unfold apply replaceClasses addGate GateClass.file ClassFile.encode ClassFile.writeMethod
    ClassFile.writeMethodAttribute Code.write Code.writeLaidOut
  simp only [Code.neededStack_eq_listed]
  decide +kernel

theorem exists_strayBody : ∃ c ∈ (ClassFile.decode strayListener).toOption, ∃ m ∈ c.methods[1]?,
    ∃ code ∈ m.code?, c.methodDescriptor m = .ok "()V" ∧
      Prologue.callsGateFirst c.pool code = false := by
  decide +kernel

/-- The second callback of the listener is passed over, although it can be left early and does not start
with the call of the gate: its pool does not have the reference to the gate that it calls through, before
the first callback is injected into. -/
theorem passed_without_reason :
    ∃ (p' : Package) (summary : Summary) (found : Analysis) (c : ClassFile) (code : Code)
        (d : MethodDescriptor), Package.ofBytes strayPlugin.toBytes = .ok (reopened strayPlugin) ∧
      patchBytes defaultOptions strayPlugin.toBytes = .ok (p'.toBytes, summary) ∧
      analyzeBytes defaultOptions.callbackClasses strayPlugin.toBytes = .ok found ∧
      strayTarget ∈ found.plan.targets ∧
      (reopened strayPlugin).read strayTarget.entry = .ok strayListener ∧
      ClassFile.decode strayListener = .ok c ∧ Aims strayTarget c code d ∧
      strayTarget ∈ summary.passed ∧
      ¬ (Unleavable defaultOptions.prologue d ∨ StartsWithCall c.pool code) := by
  obtain ⟨⟨p', summary⟩, run, -, passed⟩ := exists_apply_strayPlugin
  obtain ⟨c, decoded, m, method, code, body, read, fresh⟩ := exists_strayBody
  have opened := readBack_strayPlugin.opened
  have applied := toOption_eq_some_iff.mp run
  obtain ⟨found, state, p₁, p₂, steps⟩ := applied_of_apply applied
  have accounted := steps.accounted (Package.nodup_paths_of_ofBytes opened)
  have member : strayTarget ∈ summary.passed := by
    rw [passed]
    exact List.mem_singleton.mpr rfl
  have planned : strayTarget ∈ found.plan.targets := by
    rw [accounted.passed] at member
    exact (List.mem_filter.mp member).1
  have content : (reopened strayPlugin).read strayTarget.entry = .ok strayListener := by
    rw [readBack_strayPlugin.contents]
    rfl
  have type : MethodDescriptor.parse strayTarget.descriptor = .ok ⟨[], none⟩ := by cbv
  refine ⟨p', summary, found, c, code, ⟨[], none⟩, opened, ?_, ?_, planned, content,
    toOption_eq_some_iff.mp decoded, ⟨⟨m, method, body, read⟩, type⟩, member, ?_⟩
  · exact patchBytes_eq_ok_iff.mpr ⟨_, p', opened, applied, rfl⟩
  · exact analyzeBytes_eq_ok_iff.mpr ⟨_, opened, steps.found⟩
  · rintro (unleavable | starts)
    · exact unleavable.2.1 rfl
    · rw [Prologue.callsGateFirst_iff.mpr starts] at fresh
      cases fresh

/-- A plugin whose main class has no callback. -/
def idlePlugin : Package :=
  .new [("plugin.yml", Text.Utf8.encode "name: P\nmain: A\n"),
    ("A.class", Plan.soleMethodFile "A" "stop")]

theorem readBack_idlePlugin : idlePlugin.ReadBack (reopened idlePlugin) :=
  Package.readBack_of_writable (by decide +kernel) (by decide +kernel)

set_option maxRecDepth 10000 in
theorem exists_analyze_idlePlugin : (reopened idlePlugin).contains gateEntry = false ∧
    ∃ found ∈ (analyze (reopened idlePlugin) []).toOption, found.plan.targets = [] := by
  decide +kernel

/-- The patches of the plugin with the listener and of one without targets, and one of a file that is no
archive. -/
theorem patch_accounts_strayPlugin :
    (∃ out summary found, patchBytes defaultOptions strayPlugin.toBytes = .ok (out, summary) ∧
      analyzeBytes [] strayPlugin.toBytes = .ok found ∧
      Accounted defaultOptions (reopened strayPlugin) found.plan.targets summary ∧
      summary.patched.map (·.name) = ["onEnable", "onFirst"] ∧ summary.passed = [strayTarget]) ∧
    patchBytes defaultOptions idlePlugin.toBytes = .error (.noTargetsPatched 0) ∧
    ∃ outcome : Outcome, (runPatch FileTable.operations "a" "b" defaultOptions).run [(["a"], [])] =
      (outcome, [(["a"], [])]) ∧ outcome.success = false := by
  refine ⟨?_, ?_, ?_⟩
  · obtain ⟨⟨p', summary⟩, run, patched, passed⟩ := exists_apply_strayPlugin
    have opened := readBack_strayPlugin.opened
    have done : patchBytes defaultOptions strayPlugin.toBytes = .ok (p'.toBytes, summary) :=
      patchBytes_eq_ok_iff.mpr ⟨_, p', opened, toOption_eq_some_iff.mp run, rfl⟩
    obtain ⟨p, found, opened', analyzed, accounted⟩ :=
      (patch_accounts defaultOptions strayPlugin.toBytes).1 _ _ done
    obtain rfl := Except.ok.inj (opened.symm.trans opened')
    exact ⟨_, summary, found, done, analyzed, accounted, patched, passed⟩
  · obtain ⟨unlicensed, found, analyzed, none⟩ := exists_analyze_idlePlugin
    have opened := readBack_idlePlugin.opened
    refine ((patch_accounts defaultOptions idlePlugin.toBytes).2.1 0).mpr
      ⟨_, found, ⟨found.classes, [], [], []⟩, opened, unlicensed,
        analyzeBytes_eq_ok_iff.mpr ⟨_, opened, toOption_eq_some_iff.mp analyzed⟩, ?_, ?_, ?_⟩
    · rw [none]
      rfl
    · rw [none]
      rfl
    · rw [none]
      rfl
  · have failed : patchBytes defaultOptions [] = .error (.package (.corrupt .noArchive)) := by cbv
    have read : FileTable.read [(["a"], [])] "a" = .ok [] := by cbv
    exact ⟨_, (patch_accounts defaultOptions []).2.2.2 _ "a" "b" _ failed read, rfl⟩

end

end Patch

end JarGate
