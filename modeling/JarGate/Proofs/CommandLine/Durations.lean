import JarGate.Proofs.CommandLine.Arguments
import JarGate.Proofs.CommandLine.Runs
import JarGate.Proofs.Injection.Accounting
import JarGate.Proofs.License.Policy

/-!
# Durations from the command line to the patched program

The command line takes durations as numbers of 64 bits, the cache duration in seconds and the timeouts in
milliseconds. The property file in the patched package holds all of them in milliseconds, and there they are
read as numbers of 64 bits again. The timeouts come back as they were given. The cache duration does just if
its milliseconds fit; otherwise nothing of the policy is read, although the patch succeeded, which never
depends on the numbers.
-/

namespace JarGate

/-! ### Policies that differ in their texts -/

theorem Package.exists_put (p : Package) (path : String) (content : Bytes) :
    ∃ q, p.put path content = .ok q := by
  rw [put]
  by_cases present : p.contains path
  · rw [if_pos present]
    exact exists_replace (contains_iff.mp present) content
  · rw [if_neg present, add, if_neg present]
    exact ⟨_, rfl⟩

namespace Patch

variable {p p' q : Package} {policy : LicensePolicy} {options : Options} {summary : Summary}

theorem exists_addGate (mode : policy.mode = options.policy.mode)
    (gated : addGate options.policy p = .ok p') :
    ∃ q, addGate policy p = .ok q ∧ q.paths = p'.paths := by
  have paths := (addGate_eq_ok gated).1
  simp only [addGate, bind_eq_ok_iff, mapError_eq_ok_iff] at gated
  obtain ⟨file, built, p₁, added, -⟩ := gated
  obtain ⟨q, put⟩ := p₁.exists_put LicensePolicy.propertiesPath (Text.Utf8.encode policy.toProperties)
  have gated' : addGate policy p = .ok q := by
    simp only [addGate, bind_eq_ok_iff, mapError_eq_ok_iff]
    exact ⟨file, mode ▸ built, p₁, added, put⟩
  exact ⟨q, gated', (addGate_eq_ok gated').1.trans paths.symm⟩

theorem exists_removeAll {removed : List String} (same : q.paths = p.paths)
    (done : removeAll removed p = .ok p') : ∃ q', removeAll removed q = .ok q' := by
  induction removed generalizing p q with
  | nil => exact ⟨q, rfl⟩
  | cons path removed ih =>
      obtain ⟨p₁, here, behind⟩ := removeAll_cons_eq_ok_iff.mp done
      obtain ⟨position, placed, -⟩ := Package.entries_of_remove here
      have present : path ∈ q.paths := same ▸ Package.exists_position?_iff.mp ⟨position, placed⟩
      obtain ⟨q₁, here'⟩ := Package.exists_remove present
      have same₁ : q₁.paths = p₁.paths := by
        rw [Package.paths_of_remove here', Package.paths_of_remove here, same]
      obtain ⟨q', behind'⟩ := ih same₁ behind
      exact ⟨q', removeAll_cons_eq_ok_iff.mpr ⟨q₁, here', behind'⟩⟩

/-- Whether a patch succeeds, and what it does to classes, does not depend on the texts and the spans of the
policy. -/
theorem exists_apply_of_policy (mode : policy.mode = options.policy.mode)
    (approximate : policy.approximateDefaults = options.policy.approximateDefaults)
    (done : apply options p = .ok (p', summary)) :
    ∃ q, apply ⟨policy, options.callbackClasses⟩ p = .ok (q, summary) := by
  have prologue : Options.prologue ⟨policy, options.callbackClasses⟩ = options.prologue := by
    rw [Options.prologue, Options.prologue, mode, approximate]
  unfold apply at done ⊢
  rw [refuse_eq_ok_iff] at done
  obtain ⟨unlicensed, done⟩ := done
  simp only [bind_eq_ok_iff] at done
  obtain ⟨analysis, found, state, injected, done⟩ := done
  rw [refuse_eq_ok_iff] at done
  simp only [bind_eq_ok_iff, pure_eq_ok_iff, Prod.mk.injEq] at done
  obtain ⟨busy, p₁, replaced, p₂, gated, p₃, removed, -, told⟩ := done
  obtain ⟨q₂, gated', paths⟩ := exists_addGate mode gated
  obtain ⟨q₃, removed'⟩ := exists_removeAll paths removed
  rw [← paths] at removed' told
  refine ⟨q₃, refuse_eq_ok_iff.mpr ⟨unlicensed, bind_eq_ok_iff.mpr ⟨analysis, found, ?_⟩⟩⟩
  refine bind_eq_ok_iff.mpr ⟨state, prologue ▸ injected, refuse_eq_ok_iff.mpr ⟨busy, ?_⟩⟩
  refine bind_eq_ok_iff.mpr ⟨p₁, replaced, bind_eq_ok_iff.mpr ⟨q₂, gated', ?_⟩⟩
  exact bind_eq_ok_iff.mpr ⟨q₃, removed', congrArg (fun told => Except.ok (q₃, told)) told⟩

end Patch

/-! ### Spans -/

namespace LicensePolicy

variable {policy : LicensePolicy} {seconds connect read : Nat}

/-- A cache duration of whole seconds comes back if its milliseconds fit 64 bits, and is refused otherwise;
timeouts of whole milliseconds that fit come back. -/
theorem ofProperties_of_numbers (server : policy.serverUrl ≠ "") (product : policy.productId ≠ "")
    (cache : policy.cacheDuration = .ofSeconds seconds)
    (connects : policy.connectTimeout = .ofMilliseconds connect)
    (reads : policy.readTimeout = .ofMilliseconds read) (short : connect < UInt64.size)
    (short' : read < UInt64.size) :
    ofProperties policy.toProperties =
      if seconds * 1000 < UInt64.size then .ok { policy with approximateDefaults := false }
      else .error (.invalidValue "cache.duration" (toString (seconds * 1000))) := by
  have connects' : readBack "connection.timeout" policy.connectTimeout = .ok policy.connectTimeout :=
    readBack_of_storable ⟨connect, short, connects⟩
  have reads' : readBack "read.timeout" policy.readTimeout = .ok policy.readTimeout :=
    readBack_of_storable ⟨read, short', reads⟩
  have cached : readBack "cache.duration" policy.cacheDuration =
      if seconds * 1000 < UInt64.size then .ok policy.cacheDuration
      else .error (.invalidValue "cache.duration" (toString (seconds * 1000))) := by
    rw [cache, readBack, Duration.milliseconds_ofSeconds, Duration.ofMilliseconds_thousand]
  rw [ofProperties_eq_readBack server product, connects', reads', cached]
  split <;> rfl

end LicensePolicy

/-! ### Runs -/

namespace CommandLine

variable {arguments : List String} {input output : String} {options : Patch.Options}
  {files files' : FileTable} {outcome : Outcome}

/-- What becomes of the durations of a patch that succeeds. They are the numbers that were asked for, and the
property file in the package that was written, and in whatever is read back from that, holds them. It is
read as the policy of the command just if the milliseconds of the cache duration fit 64 bits, and as an
error about that duration otherwise. -/
theorem run_patch_durations (parsed : Command.parse arguments = .ok (.patch input output options))
    (server : options.policy.serverUrl ≠ "") (product : options.policy.productId ≠ "")
    (ran : (run FileTable.operations arguments).run files = (outcome, files'))
    (success : outcome.success = true) :
    (∃ p : Package, FileTable.read files' output = .ok p.toBytes ∧
      p.read LicensePolicy.propertiesPath = .ok (Text.Utf8.encode options.policy.toProperties) ∧
      ∀ q, p.ReadBack q →
        q.read LicensePolicy.propertiesPath = .ok (Text.Utf8.encode options.policy.toProperties)) ∧
    ∃ front rest given seconds connect read, arguments = front ++ "patch" :: rest ∧
      readArguments patchGrammar none .nothing rest = .ok given ∧
      given.Asks "cache-secs" 3600 seconds ∧ given.Asks "connect-timeout-ms" 5000 connect ∧
      given.Asks "read-timeout-ms" 10000 read ∧
      options.policy.cacheDuration = .ofSeconds seconds ∧
      options.policy.connectTimeout = .ofMilliseconds connect ∧
      options.policy.readTimeout = .ofMilliseconds read ∧
      LicensePolicy.ofProperties options.policy.toProperties =
        if seconds * 1000 < UInt64.size then .ok { options.policy with approximateDefaults := false }
        else .error (.invalidValue "cache.duration" (toString (seconds * 1000))) := by
  constructor
  · rw [run, parsed] at ran
    obtain ⟨jar, out, summary, -, patched, written⟩ := runPatch_inv ran success
    obtain ⟨p, p', -, applied, rfl⟩ := Patch.patchBytes_eq_ok_iff.mp patched
    obtain ⟨analysis, state, p₁, p₂, steps⟩ := Patch.applied_of_apply applied
    exact ⟨p', FileTable.read_of_write written, steps.read_policy,
      fun q kept => (kept.contents _).trans steps.read_policy⟩
  · obtain ⟨front, rest, given, server', product', whole, read, -, -, -, rfl⟩ := read_patch parsed
    have permitted := permitted_of_readArguments read
    obtain ⟨cache, -⟩ := asks_numberOr permitted "cache-secs" 3600 (by decide) (by decide)
    obtain ⟨connect, short⟩ := asks_numberOr permitted "connect-timeout-ms" 5000 (by decide) (by decide)
    obtain ⟨wait, short'⟩ := asks_numberOr permitted "read-timeout-ms" 10000 (by decide) (by decide)
    exact ⟨front, rest, given, _, _, _, whole, read, cache, connect, wait, rfl, rfl, rfl,
      LicensePolicy.ofProperties_of_numbers server product rfl rfl rfl short short'⟩

/-- The files that a patch with a cache duration is run on. -/
def cacheFiles : FileTable :=
  .ofFiles [("in.jar", Patch.signedPlugin.toBytes)]

/-- Whatever the cache duration is, the patch succeeds. -/
theorem exists_run_cacheArguments {seconds : Nat} (small : seconds < UInt64.size) :
    ∃ outcome files' p, (run FileTable.operations (cacheArguments seconds)).run cacheFiles =
        (outcome, files') ∧ outcome.success = true ∧
      FileTable.read files' "out.jar" = .ok (Package.toBytes p) ∧
      p.read LicensePolicy.propertiesPath =
        .ok (Text.Utf8.encode (cachePolicy seconds).toProperties) := by
  obtain ⟨⟨p', summary⟩, done, -⟩ := Patch.exists_apply_openedPlugin
  have mode : (cachePolicy seconds).mode = Patch.defaultOptions.policy.mode := rfl
  have approximate : (cachePolicy seconds).approximateDefaults =
      Patch.defaultOptions.policy.approximateDefaults := rfl
  obtain ⟨p, applied⟩ := Patch.exists_apply_of_policy mode approximate (toOption_eq_some_iff.mp done)
  obtain ⟨analysis, state, p₁, p₂, steps⟩ := Patch.applied_of_apply applied
  have patched : patchBytes ⟨cachePolicy seconds, []⟩ Patch.signedPlugin.toBytes =
      .ok (p.toBytes, summary) :=
    Patch.patchBytes_eq_ok_iff.mpr
      ⟨_, p, Patch.readBack_signedPlugin.opened, applied, rfl⟩
  have content : FileTable.read cacheFiles "in.jar" = .ok Patch.signedPlugin.toBytes := rfl
  have written : FileTable.write cacheFiles "out.jar" p.toBytes =
      .ok ((["out.jar"], p.toBytes) :: cacheFiles) := rfl
  have started : (run FileTable.operations (cacheArguments seconds)).run cacheFiles =
      (runPatch FileTable.operations "in.jar" "out.jar" ⟨cachePolicy seconds, []⟩).run cacheFiles := by
    rw [run, parse_cacheArguments small]
  exact ⟨_, _, p, started.trans (runPatch_of_ok content patched written), rfl,
    FileTable.read_of_write written, steps.read_policy⟩

/-- The greatest cache duration whose milliseconds fit comes back. -/
theorem run_patch_durations_greatest : ∃ outcome files',
    Command.parse (cacheArguments 18446744073709551) =
      .ok (.patch "in.jar" "out.jar" ⟨cachePolicy 18446744073709551, []⟩) ∧
    (run FileTable.operations (cacheArguments 18446744073709551)).run cacheFiles =
      (outcome, files') ∧ outcome.success = true ∧
    (∃ p : Package, FileTable.read files' "out.jar" = .ok p.toBytes ∧
      p.read LicensePolicy.propertiesPath =
        .ok (Text.Utf8.encode (cachePolicy 18446744073709551).toProperties)) ∧
    LicensePolicy.ofProperties (cachePolicy 18446744073709551).toProperties =
      .ok (cachePolicy 18446744073709551) := by
  have small : 18446744073709551 < UInt64.size := by decide
  have parsed := parse_cacheArguments small
  obtain ⟨outcome, files', -, ran, success, -⟩ := exists_run_cacheArguments small
  obtain ⟨⟨p, read, policy, -⟩, _, _, _, seconds, _, _, -, -, -, -, -, cache, -, -, back⟩ :=
    run_patch_durations parsed (by decide) (by decide) ran success
  have same : 18446744073709551 * 1000000000 = seconds * 1000000000 := congrArg Duration.nanoseconds cache
  rw [if_pos (by rw [UInt64.size]; omega)] at back
  exact ⟨outcome, files', parsed, ran, success, ⟨p, read, policy⟩, back⟩

/-- One second more, and the patch succeeds with a policy that cannot be read. -/
theorem cacheDuration_refused : ∃ outcome files' p,
    Command.parse (cacheArguments 18446744073709552) =
      .ok (.patch "in.jar" "out.jar" ⟨cachePolicy 18446744073709552, []⟩) ∧
    (run FileTable.operations (cacheArguments 18446744073709552)).run cacheFiles =
      (outcome, files') ∧ outcome.success = true ∧
    FileTable.read files' "out.jar" = .ok (Package.toBytes p) ∧
    p.read LicensePolicy.propertiesPath =
      .ok (Text.Utf8.encode (cachePolicy 18446744073709552).toProperties) ∧
    LicensePolicy.ofProperties (cachePolicy 18446744073709552).toProperties =
      .error (.invalidValue "cache.duration" "18446744073709552000") := by
  have small : 18446744073709552 < UInt64.size := by decide
  obtain ⟨outcome, files', p, ran, success, read, policy⟩ := exists_run_cacheArguments small
  have refused : LicensePolicy.ofProperties (cachePolicy 18446744073709552).toProperties =
      .error (.invalidValue "cache.duration" "18446744073709552000") :=
    (LicensePolicy.ofProperties_of_numbers (by decide) (by decide) rfl rfl rfl (by decide)
      (by decide)).trans (if_neg (by decide))
  exact ⟨outcome, files', p, parse_cacheArguments small, ran, success, read, policy, refused⟩

end CommandLine

end JarGate
