import JarGate.Proofs.License.Binding

/-!
# When licenses expire

An authority and a client each decide on their own whether a license has expired: the authority from
its records, the client from the expiry in an answer that it keeps. Both take an expiry that is not
positive for none. Before an expiry and after it they agree. At the very time of an expiry the authority
still grants the license, while its answer counts as invalid for the client that just received it.
-/

namespace JarGate

/-- When a license expires, if it does. -/
def License.expiry (l : License) : Option Int := l.expiryTime.filter (0 < ·)

namespace License

variable {l : License} {r : ValidationRequest} {now : Int}

/-- An authority takes a license for expired when its expiry is past. -/
theorem isExpired_iff : l.isExpired now ↔ ∃ e, l.expiry = some e ∧ e < now := by
  rw [isExpired, expiry]
  cases l.expiryTime with
  | none => simp
  | some e => simp [Option.filter_some]

theorem expiry_eq_of_getD {e : Option Int} (same : e.getD 0 = l.expiryTime.getD 0) :
    e.filter (0 < ·) = l.expiry := by
  rw [expiry]
  cases e <;> cases recorded : l.expiryTime <;> simp_all [Option.filter_some]

theorem isExpired_of_rejection? (rejected : l.rejection? r now = some .expired) :
    l.isExpired now = true := by
  rw [rejection?] at rejected
  split at rejected
  next => cases rejected
  next =>
    split at rejected
    next => cases rejected
    next =>
      split at rejected
      next expired => exact expired
      next => split at rejected <;> cases rejected

end License

theorem ValidationResponse.rejected_injective : Function.Injective rejected := by
  intro why other same
  have messages := congrArg ValidationResponse.message same
  cases why <;> cases other <;> first | rfl | exact absurd messages (by decide)

namespace ValidationResult

variable {answer : ValidationResponse} {now : Int}

/-- A client takes an answer for valid as long as its expiry is ahead. -/
theorem isValidAt_ofResponse_iff : (ofResponse answer).isValidAt now ↔
    answer.valid ∧ ∀ e, (ofResponse answer).expiry = some e → now < e := by
  rw [isValidAt, Bool.and_eq_true]
  refine and_congr Iff.rfl ?_
  cases (ofResponse answer).expiry <;> simp

end ValidationResult

namespace Authority

variable {a : Authority} {key : String} {l : License} {r : ValidationRequest} {now : Int}

/-- The answer that grants a license carries the expiry of the license. -/
theorem expiry_granting (a : Authority) (l : License) :
    (ValidationResult.ofResponse (a.granting l)).expiry = l.expiry := by
  have reported : (some (l.expiryTime.getD 0)).getD 0 = l.expiryTime.getD 0 := rfl
  exact License.expiry_eq_of_getD reported

/-- A request is granted by a license that is found under its key and has not expired. -/
theorem granted_of_valid (valid : (a.validate r now).1.valid) :
    ∃ l, a.license? r.licenseKey = some l ∧ l.isExpired now = false ∧
      (ValidationResult.ofResponse (a.validate r now).1).expiry = l.expiry := by
  obtain ⟨l, decided⟩ := valid_validate_iff.mp valid
  obtain ⟨found, accepted⟩ := decide_eq_ok_iff.mp decided
  refine ⟨l, found, (License.rejection?_eq_none_iff.mp accepted).2.2.1, ?_⟩
  rw [validate_fst, decided]
  exact expiry_granting a l

theorem decide_eq_error {why : Rejection} (decided : a.decide r now = .error why)
    (known : why ≠ .unknownKey) :
    ∃ l, a.license? r.licenseKey = some l ∧ l.rejection? r now = some why := by
  rw [decide] at decided
  cases found : a.license? r.licenseKey with
  | none =>
      rw [found] at decided
      cases decided
      exact absurd rfl known
  | some l =>
      rw [found] at decided
      dsimp only at decided
      cases rejected : l.rejection? r now with
      | none =>
          rw [rejected] at decided
          cases decided
      | some why' =>
          rw [rejected] at decided
          cases decided
          exact ⟨l, rfl, rejected⟩

/-- Only a license that has expired is refused as expired. -/
theorem expired_of_rejected (refused : (a.validate r now).1 = .rejected .expired) :
    ∃ l, a.license? r.licenseKey = some l ∧ l.isExpired now = true := by
  rw [validate_fst] at refused
  cases decided : a.decide r now with
  | ok l =>
      rw [decided] at refused
      cases congrArg ValidationResponse.valid refused
  | error why =>
      rw [decided] at refused
      obtain rfl := ValidationResponse.rejected_injective refused
      obtain ⟨l, found, rejected⟩ := decide_eq_error decided (by decide)
      exact ⟨l, found, License.isExpired_of_rejection? rejected⟩

/-- A license keeps its expiry, whatever is asked of the authority. -/
theorem expiryTime_perform (there : a.license? key = some l) (op : Operation) :
    ∃ m, (a.perform op).license? key = some m ∧ m.expiryTime = l.expiryTime := by
  have change := change_perform a op key
  rw [there] at change
  generalize found : (a.perform op).license? key = after at change
  cases change with
  | same => exact ⟨l, rfl, rfl⟩
  | switched _ active => exact ⟨_, rfl, rfl⟩
  | reset _ _ => exact ⟨_, rfl, rfl⟩
  | @granted _ r now _ _ _ =>
      refine ⟨_, rfl, ?_⟩
      rw [License.granted]
      dsimp only
      split <;> rfl

theorem expiryTime_run (there : a.license? key = some l) (ops : List Operation) :
    ∃ m, (a.run ops).license? key = some m ∧ m.expiryTime = l.expiryTime := by
  induction ops generalizing a l with
  | nil => exact ⟨l, there, rfl⟩
  | cons op ops ih =>
      obtain ⟨m, found, same⟩ := expiryTime_perform there op
      obtain ⟨n, kept, unchanged⟩ := ih found
      exact ⟨n, kept, unchanged.trans same⟩

/-! ### Agreement -/

/-- An answer with the expiry of a license that has expired counts as invalid. -/
theorem invalid_of_expired {kept : ValidationResponse} (expired : l.isExpired now = true)
    (same : (ValidationResult.ofResponse kept).expiry = l.expiry) :
    (ValidationResult.ofResponse kept).isValidAt now = false := by
  obtain ⟨e, recorded, past⟩ := License.isExpired_iff.mp expired
  refine Bool.eq_false_iff.mpr fun valid => ?_
  obtain ⟨-, ahead⟩ := ValidationResult.isValidAt_ofResponse_iff.mp valid
  exact absurd (ahead e (same.trans recorded)) (not_lt.mpr past.le)

/-- A client that is granted a license finds it valid, unless the license expires just then. -/
theorem isValidAt_of_valid (valid : (a.validate r now).1.valid) :
    (ValidationResult.ofResponse (a.validate r now).1).isValidAt now ↔
      (ValidationResult.ofResponse (a.validate r now).1).expiry ≠ some now := by
  obtain ⟨l, -, unexpired, reported⟩ := granted_of_valid valid
  rw [ValidationResult.isValidAt_ofResponse_iff, reported]
  constructor
  · rintro ⟨-, ahead⟩ exact_time
    exact lt_irrefl now (ahead now exact_time)
  · intro other
    refine ⟨valid, fun e recorded => ?_⟩
    have reached : ¬ e < now := fun past =>
      Bool.eq_false_iff.mp unexpired (License.isExpired_iff.mpr ⟨e, recorded, past⟩)
    have apart : e ≠ now := fun same => other (same ▸ recorded)
    exact lt_of_le_of_ne (not_lt.mp reached) apart.symm

/-- What was answered for a license earlier is invalid as soon as the license is refused as expired. -/
theorem earlier_invalid {asked : ValidationRequest} {earlier : Int} {later : List Operation}
    (valid : (a.validate asked earlier).1.valid) (same : asked.licenseKey = r.licenseKey)
    (refused : ((a.run later).validate r now).1 = .rejected .expired) :
    (ValidationResult.ofResponse (a.validate asked earlier).1).isValidAt now = false := by
  obtain ⟨l, found, -, reported⟩ := granted_of_valid valid
  obtain ⟨m, kept, expired⟩ := expired_of_rejected refused
  obtain ⟨m', there, unchanged⟩ := expiryTime_run found later
  rw [same, kept] at there
  obtain rfl := Option.some.inj there
  refine invalid_of_expired expired ?_
  rw [reported, License.expiry, License.expiry, unchanged]

/-- Authority and client agree on whether a license has expired at every time but that of its expiry. A
request that is granted counts as valid for the client that made it, unless the license expires just
then. Where a request is refused because the license has expired, every answer with the expiry of that
license counts as invalid, and so does every answer that the authority gave for it before. -/
theorem agree_off_expiry (ops : List Operation) (r : ValidationRequest) (now : Int) :
    (((empty.run ops).validate r now).1.valid →
      ((ValidationResult.ofResponse ((empty.run ops).validate r now).1).isValidAt now ↔
        (ValidationResult.ofResponse ((empty.run ops).validate r now).1).expiry ≠ some now)) ∧
    (((empty.run ops).validate r now).1 = .rejected .expired →
      (∃ l, (empty.run ops).license? r.licenseKey = some l ∧ ∀ kept : ValidationResponse,
        (ValidationResult.ofResponse kept).expiry = l.expiry →
          (ValidationResult.ofResponse kept).isValidAt now = false) ∧
      ∀ before later asked earlier, ops = before ++ later → asked.licenseKey = r.licenseKey →
        ((empty.run before).validate asked earlier).1.valid →
          (ValidationResult.ofResponse
            ((empty.run before).validate asked earlier).1).isValidAt now = false) := by
  refine ⟨isValidAt_of_valid, fun refused => ⟨?_, ?_⟩⟩
  · obtain ⟨l, found, expired⟩ := expired_of_rejected refused
    exact ⟨l, found, fun kept same => invalid_of_expired expired same⟩
  · rintro before later asked earlier rfl same valid
    rw [run_append] at refused
    exact earlier_invalid valid same refused

/-- A product, and a license for it that expires at the time 100. -/
def briefLicense : List Operation :=
  [.createProduct 0 0 "Shop" "", .createLicense 0 0 (recordId 0) none (some 100)]

/-- A request for that license. -/
def briefRequest : ValidationRequest := ⟨recordId 0, licenseKey 0, "A", "10.0.0.2"⟩

theorem agree_off_expiry_briefLicense :
    (ValidationResult.ofResponse
        ((empty.run briefLicense).validate briefRequest 99).1).isValidAt 99 = true ∧
      (ValidationResult.ofResponse
        ((empty.run briefLicense).validate briefRequest 99).1).isValidAt 101 = false := by
  have granted : ((empty.run briefLicense).validate briefRequest 99).1.valid := by decide +kernel
  have refused : ((empty.run briefLicense).validate briefRequest 101).1 = .rejected .expired := by
    decide +kernel
  constructor
  · refine ((agree_off_expiry briefLicense briefRequest 99).1 granted).mpr ?_
    decide +kernel
  · exact ((agree_off_expiry briefLicense briefRequest 101).2 refused).2 briefLicense [] briefRequest 99
      (List.append_nil _).symm rfl granted

/-- At the time of its expiry a license is granted with an answer that counts as invalid. -/
theorem disagree_at_expiry :
    ((empty.run briefLicense).validate briefRequest 100).1.valid = true ∧
      (ValidationResult.ofResponse
        ((empty.run briefLicense).validate briefRequest 100).1).isValidAt 100 = false := by
  decide +kernel

end Authority

end JarGate
