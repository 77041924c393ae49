import JarGate.Proofs.License.Binding

/-!
# The log of requests

The log of an authority has one entry for each request that it was asked, in the order of the requests,
whatever else was asked of it in between, and no entry is ever changed. Apart from that entry, a request
that is refused leaves nothing behind, and one that is granted leaves its traces on the license that it
names and nowhere else. The same holds of the operations that switch a license or reset its binding.

Licenses are compared by what is found under each key, since that is all that an authority looks at.
-/

namespace JarGate

/-- A license is bound to no machine if it names none or the empty one. -/
theorem License.boundTo?_isSome_iff {l : License} :
    l.boundTo?.isSome ↔ ¬ (l.hwid = none ∨ l.hwid = some "") := by
  rw [boundTo?, Option.isSome_filter]
  cases l.hwid <;> simp

namespace Authority

variable {a : Authority} {key : String} {f : License → License} {op : Operation}
  {ops : List Operation}

/-! ### Requests in the course of a run -/

/-- A request, the time at which it was asked, and its answer. -/
structure Exchange where
  request : ValidationRequest
  time : Int
  response : ValidationResponse
  deriving DecidableEq, Repr

/-- What the log says of a request that was asked after some number of others. -/
def Exchange.entry (before : Nat) (x : Exchange) : LogEntry where
  id := UInt64.ofNat (before + 1)
  licenseKey := x.request.licenseKey
  hwid := x.request.hwid
  ip := x.request.ip
  timestamp := x.time
  success := x.response.valid

/-- The request that an operation asks of an authority, if it asks one, with its answer. -/
def exchange? (a : Authority) : Operation → Option Exchange
  | .validate r now => some ⟨r, now, (a.validate r now).1⟩
  | _ => none

/-- The requests that are asked of an authority in a run, in their order, with their answers. -/
def exchanges (a : Authority) : List Operation → List Exchange
  | [] => []
  | op :: ops => (a.exchange? op).toList ++ (a.perform op).exchanges ops

/-- An answer does not touch the log; the entry of the request is added behind it. -/
theorem validate_snd (a : Authority) (r : ValidationRequest) (now : Int) :
    (a.validate r now).2 = { (a.answer r now).2 with
      log := a.log ++ [(Exchange.mk r now (a.validate r now).1).entry a.log.length] } := by
  have kept : (a.answer r now).2.log = a.log := by
    rw [answer]
    cases a.decide r now with
    | error why => rfl
    | ok l => rfl
  rw [← kept]
  rfl

/-- An operation adds what the log says of its request, if it asks one. -/
theorem log_perform (a : Authority) (op : Operation) :
    (a.perform op).log = a.log ++ ((a.exchange? op).map (Exchange.entry a.log.length)).toList := by
  have unasked : a.log = a.log ++ [] := (List.append_nil a.log).symm
  cases op with
  | createProduct draw now name description =>
      rw [perform, createProduct]
      split
      · exact unasked
      · exact unasked
  | createTier draw productId name features maxUsers =>
      rw [perform, createTier]
      split
      · exact unasked
      · split
        · exact unasked
        · exact unasked
  | createLicense draw now productId tierId expiryTime =>
      rw [perform, createLicense]
      split
      · exact unasked
      · cases a.checkTier productId tierId with
        | error e => exact unasked
        | ok => exact unasked
  | setActive key active =>
      rw [perform, setActive, updateLicense]
      split
      · exact unasked
      · exact unasked
  | resetBinding key =>
      rw [perform, resetBinding, updateLicense]
      split
      · exact unasked
      · exact unasked
  | validate r now =>
      rw [perform, validate_snd]
      rfl

/-- A run adds what the log says of its requests, which are counted on from those before. -/
theorem log_run (a : Authority) (ops : List Operation) :
    (a.run ops).log = a.log ++ (a.exchanges ops).mapIdx fun i x => x.entry (a.log.length + i) := by
  induction ops generalizing a with
  | nil => exact (List.append_nil a.log).symm
  | cons op ops ih =>
      rw [run_cons, ih, log_perform, exchanges]
      cases a.exchange? op with
      | none => simp
      | some x =>
          have counted (i : Nat) : a.log.length + 1 + i = a.log.length + (i + 1) := by omega
          simp [List.mapIdx_cons, counted]

/-! ### What becomes of the records -/

/-- Whether an authority `b` has the records of an authority `a`, except that a change was made to the
license of a key. Nothing is said about the log. -/
structure ChangesOnly (key : String) (f : License → License) (a b : Authority) : Prop where
  products : b.products = a.products
  tiers : b.tiers = a.tiers
  keys : b.licenses.map (·.key) = a.licenses.map (·.key)
  licenses : ∀ other, b.license? other =
    if other = key then (a.license? other).map f else a.license? other

theorem changesOnly_modifyLicense (keeps : ∀ l, (f l).key = l.key) :
    ChangesOnly key f a (a.modifyLicense key f) where
  products := rfl
  tiers := rfl
  keys := by
    rw [modifyLicense, List.map_map]
    apply List.map_congr_left
    intro l _
    rw [Function.comp_apply]
    split
    · exact keeps l
    · rfl
  licenses := license?_modifyLicense keeps

/-- A change of the license of a key changes nothing where there is no such license. -/
theorem changesOnly_updateLicense (keeps : ∀ l, (f l).key = l.key) :
    ChangesOnly key f a (a.orKept (a.updateLicense key f)) ∧
      (a.license? key = none → a.orKept (a.updateLicense key f) = a) := by
  rw [updateLicense]
  cases found : a.license? key with
  | some l => exact ⟨changesOnly_modifyLicense keeps, fun missing => absurd missing (Option.some_ne_none l)⟩
  | none =>
      refine ⟨⟨rfl, rfl, rfl, ?_⟩, fun _ => rfl⟩
      intro other
      change a.license? other = _
      split
      next same => rw [same, found, Option.map_none]
      next => rfl

/-- A request that is refused leaves nothing but its entry of the log. -/
theorem validate_refused {r : ValidationRequest} {now : Int} (refused : (a.validate r now).1.valid = false) :
    (a.validate r now).2 =
      { a with log := a.log ++ [(Exchange.mk r now (a.validate r now).1).entry a.log.length] } := by
  cases decided : a.decide r now with
  | ok l =>
      rw [valid_validate_iff.mpr ⟨l, decided⟩] at refused
      cases refused
  | error why =>
      have kept : (a.answer r now).2 = a := by rw [answer, decided]
      rw [validate_snd, kept]

/-- What a request leaves on a license that grants it. -/
def visited (r : ValidationRequest) (now : Int) (l : License) : License :=
  if l.hwid = none ∨ l.hwid = some "" then
    { l with lastValidated := some now, hwid := some r.hwid, ip := some r.ip }
  else { l with lastValidated := some now }

theorem granted_eq_visited (l : License) (r : ValidationRequest) (now : Int) :
    l.granted r now = visited r now l := by
  have bound : ({ l with lastValidated := some now } : License).boundTo? = l.boundTo? := rfl
  rw [License.granted, visited]
  dsimp only
  rw [bound]
  by_cases free : l.hwid = none ∨ l.hwid = some ""
  · have unbound : ¬ l.boundTo?.isSome := fun some_ => License.boundTo?_isSome_iff.mp some_ free
    rw [if_neg unbound, if_pos free]
  · rw [if_pos (License.boundTo?_isSome_iff.mpr free), if_neg free]

/-- A request that is granted changes the license that it names, which is there, and nothing else. -/
theorem changesOnly_validate {r : ValidationRequest} {now : Int} (valid : (a.validate r now).1.valid) :
    (∃ l, a.license? r.licenseKey = some l) ∧
      ChangesOnly r.licenseKey (visited r now) a (a.validate r now).2 := by
  obtain ⟨l, decided⟩ := valid_validate_iff.mp valid
  obtain ⟨found, -⟩ := decide_eq_ok_iff.mp decided
  have same : (fun l => l.granted r now) = visited r now := funext fun l => granted_eq_visited l r now
  have kept : (a.answer r now).2 = a.modifyLicense r.licenseKey (visited r now) := by
    rw [answer, decided, same]
  have changed : ChangesOnly r.licenseKey (visited r now) a (a.answer r now).2 := by
    rw [kept]
    apply changesOnly_modifyLicense
    intro l
    rw [← same]
    exact key_granted l r now
  rw [validate_snd]
  exact ⟨⟨l, found⟩, changed.products, changed.tiers, changed.keys, changed.licenses⟩

/-! ### The log of a run -/

/-- The log is a record of all requests, and of nothing else. After any run it has one entry for each
request of the run, in their order and counted from one, with what was asked, the time, and whether the
request was granted; nothing is ever taken from it, and only requests add to it. A request that is
refused leaves products, tiers and licenses as they are. A request that is granted only changes when the
license that it names was last validated, and the machine and the address that the license is bound to
if it was bound to none. Switching a license and resetting its binding change that license only, and
nothing where there is no such license. -/
theorem log_records (ops : List Operation) :
    (empty.run ops).log = (empty.exchanges ops).mapIdx (fun i x => x.entry i) ∧
    (∀ more, (empty.run ops).log <+: (empty.run (ops ++ more)).log) ∧
    (∀ op, (∀ r now, op ≠ .validate r now) →
      ((empty.run ops).perform op).log = (empty.run ops).log) ∧
    (∀ r now, ((empty.run ops).validate r now).1.valid = false →
      ((empty.run ops).validate r now).2.products = (empty.run ops).products ∧
      ((empty.run ops).validate r now).2.tiers = (empty.run ops).tiers ∧
      ((empty.run ops).validate r now).2.licenses = (empty.run ops).licenses) ∧
    (∀ r now, ((empty.run ops).validate r now).1.valid = true →
      (∃ l, (empty.run ops).license? r.licenseKey = some l) ∧
      ChangesOnly r.licenseKey (fun l =>
        if l.hwid = none ∨ l.hwid = some "" then
          { l with lastValidated := some now, hwid := some r.hwid, ip := some r.ip }
        else { l with lastValidated := some now })
        (empty.run ops) ((empty.run ops).validate r now).2) ∧
    (∀ key active,
      ChangesOnly key (fun l => { l with active })
        (empty.run ops) ((empty.run ops).perform (.setActive key active)) ∧
      ((empty.run ops).license? key = none →
        (empty.run ops).perform (.setActive key active) = empty.run ops)) ∧
    (∀ key,
      ChangesOnly key (fun l => { l with hwid := none, ip := none })
        (empty.run ops) ((empty.run ops).perform (.resetBinding key)) ∧
      ((empty.run ops).license? key = none →
        (empty.run ops).perform (.resetBinding key) = empty.run ops)) := by
  refine ⟨?_, ?_, ?_, ?_, ?_, ?_, ?_⟩
  · rw [log_run]
    simp [empty]
  · intro more
    rw [run_append, log_run (empty.run ops)]
    exact List.prefix_append _ _
  · intro op other
    have unasked : (empty.run ops).exchange? op = none := by
      cases op with
      | validate r now => exact absurd rfl (other r now)
      | _ => rfl
    rw [log_perform, unasked]
    exact List.append_nil _
  · intro r now refused
    rw [validate_refused refused]
    exact ⟨rfl, rfl, rfl⟩
  · intro r now valid
    exact changesOnly_validate valid
  · intro key active
    exact changesOnly_updateLicense fun _ => rfl
  · intro key
    exact changesOnly_updateLicense fun _ => rfl

/-- A license that the machine `A` is granted and that `B` asks for, with a switch of a license that is
not there in between. -/
def sharedRequests : List Operation :=
  sharedLicense ++ [.validate ⟨recordId 0, licenseKey 0, "A", "10.0.0.2"⟩ 1, .setActive "none" false,
    .validate ⟨recordId 0, licenseKey 0, "B", "10.0.0.3"⟩ 2]

theorem log_records_sharedRequests :
    (empty.run sharedRequests).log =
      [⟨1, licenseKey 0, "A", "10.0.0.2", 1, true⟩, ⟨2, licenseKey 0, "B", "10.0.0.3", 2, false⟩] ∧
    ((empty.run sharedRequests).validate ⟨recordId 0, licenseKey 0, "B", ""⟩ 3).2.licenses =
      (empty.run sharedRequests).licenses ∧
    ∃ l, ((empty.run sharedRequests).validate ⟨recordId 0, licenseKey 0, "A", ""⟩ 4).2.license?
      (licenseKey 0) = some l ∧ l.lastValidated = some 4 ∧ l.ip = some "10.0.0.2" := by
  obtain ⟨log, -, -, refused, granted, -, -⟩ := log_records sharedRequests
  refine ⟨log.trans (by decide +kernel), ?_, ?_⟩
  · exact (refused _ _ (by decide +kernel)).2.2
  · obtain ⟨-, changed⟩ := granted ⟨recordId 0, licenseKey 0, "A", ""⟩ 4 (by decide +kernel)
    have found := changed.licenses (licenseKey 0)
    rw [if_pos rfl] at found
    refine ⟨_, found.trans (by decide +kernel : _ = some ⟨licenseKey 0, recordId 0, none, some "A",
      some "10.0.0.2", none, 0, some 4, true⟩), rfl, rfl⟩

end Authority

end JarGate
