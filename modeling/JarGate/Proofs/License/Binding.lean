import JarGate.Proofs.License.Operations

/-!
# Hardware binding

The first request that grants a license to a machine binds the license to that machine and to the
address of that request. Whatever is asked of the authority afterwards, in any order, the binding stays
until it is reset: other machines are refused, and so is a request that names no machine.

A license whose stored machine is the empty name is bound to no machine. Requests without a machine may
be granted while that is so, and do not bind it.
-/

namespace JarGate

namespace License

variable {l : License} {r : ValidationRequest} {now : Int}

theorem boundTo?_eq_some {h : String} (stored : l.hwid = some h) (named : h ≠ "") :
    l.boundTo? = some h := by
  rw [boundTo?, stored, Option.filter_some]
  simp [named]

theorem rejection?_eq_none_iff :
    l.rejection? r now = none ↔ l.productId = r.productId ∧ l.active = true ∧
      l.isExpired now = false ∧ ∀ h, l.boundTo? = some h → h = r.hwid := by
  have machine : l.boundTo?.any (· != r.hwid) = false ↔ ∀ h, l.boundTo? = some h → h = r.hwid := by
    cases l.boundTo? <;> simp
  rw [rejection?, ← machine]
  by_cases product : l.productId = r.productId
  · by_cases active : l.active
    · by_cases expired : l.isExpired now
      · simp [product, active, expired]
      · by_cases other : l.boundTo?.any (· != r.hwid) <;> simp [product, active, expired, other]
    · simp [product, active]
  · simp [product]

/-- A license that is bound refuses every other machine for just that reason, where there is no other
reason. -/
theorem rejection?_otherHardware {h : String} (bound : l.boundTo? = some h) (other : r.hwid ≠ h)
    (product : l.productId = r.productId) (active : l.active = true)
    (unexpired : l.isExpired now = false) : l.rejection? r now = some .otherHardware := by
  have differs : l.boundTo?.any (· != r.hwid) = true := by
    rw [bound, Option.any_some, bne_iff_ne]
    exact other.symm
  rw [rejection?, if_neg (by simpa using product), if_neg (by simpa using active),
    if_neg (by simpa using unexpired), if_pos differs]

/-- A bound license stays as it is bound. -/
theorem granted_of_bound (r : ValidationRequest) (now : Int) {h : String} (bound : l.boundTo? = some h) :
    (l.granted r now).hwid = l.hwid ∧ (l.granted r now).ip = l.ip := by
  have kept : ({ l with lastValidated := some now } : License).boundTo? = some h := bound
  rw [granted]
  dsimp only
  rw [kept]
  exact ⟨rfl, rfl⟩

/-- An unbound license takes the machine and the address of the request. -/
theorem granted_of_unbound (r : ValidationRequest) (now : Int) (unbound : l.boundTo? = none) :
    (l.granted r now).hwid = some r.hwid ∧ (l.granted r now).ip = some r.ip := by
  have kept : ({ l with lastValidated := some now } : License).boundTo? = none := unbound
  rw [granted]
  dsimp only
  rw [kept]
  exact ⟨rfl, rfl⟩

end License

namespace Authority

variable {a : Authority} {key h ip : String} {op use : Operation} {ops later : List Operation}

/-! ### Unused and used licenses -/

/-- Whether an operation makes the license of a key, or resets the binding of it. -/
def Opens (a : Authority) (key : String) (op : Operation) : Prop :=
  a.license? key = none ∧ (a.perform op).license? key ≠ none ∨
    op = .resetBinding key ∧ a.license? key ≠ none

/-- Whether an operation is a request that grants the license of a key to a machine at an address. -/
def Grants (a : Authority) (key h ip : String) (op : Operation) : Prop :=
  ∃ r now, op = .validate r now ∧ r.licenseKey = key ∧ r.hwid = h ∧ r.ip = ip ∧
    (a.validate r now).1.valid

/-- Whether no request has granted the license of a key to a machine since the license was made or its
binding was last reset. Requests that name no machine may have been granted. -/
inductive Unused (key : String) : List Operation → Prop
  | opened {ops : List Operation} {op : Operation} (opens : (empty.run ops).Opens key op) :
      Unused key (ops ++ [op])
  | still {ops : List Operation} {op : Operation} (unused : Unused key ops)
      (idle : ∀ h ip, h ≠ "" → ¬ (empty.run ops).Grants key h ip op) : Unused key (ops ++ [op])

/-- Whether the license of a key is there and bound to no machine. -/
def Unbound (a : Authority) (key : String) : Prop :=
  ∃ l, a.license? key = some l ∧ l.boundTo? = none

/-- Whether the license of a key is bound to a machine and an address. -/
def Bound (a : Authority) (key h ip : String) : Prop :=
  ∃ l, a.license? key = some l ∧ l.hwid = some h ∧ l.ip = some ip

theorem unbound_of_hwid_none {l : License} (found : a.license? key = some l) (free : l.hwid = none) :
    a.Unbound key :=
  ⟨l, found, by rw [License.boundTo?, free, Option.filter_none]⟩

theorem unbound_of_opens (opens : a.Opens key op) : (a.perform op).Unbound key := by
  obtain ⟨absent, present⟩ | ⟨rfl, present⟩ := opens
  · have change := change_perform a op key
    rw [absent] at change
    generalize found : (a.perform op).license? key = after at change present
    cases change with
    | same => exact absurd rfl present
    | made hwid ip => exact unbound_of_hwid_none found hwid
  · obtain ⟨l, there⟩ := Option.ne_none_iff_exists'.mp present
    have found := license?_resetBinding a key key
    rw [if_pos rfl, there] at found
    exact unbound_of_hwid_none found rfl

/-- A license that no machine uses stays unbound, whatever happens but a grant to a machine. -/
theorem unbound_perform (unbound : a.Unbound key)
    (idle : ∀ h ip, h ≠ "" → ¬ a.Grants key h ip op) : (a.perform op).Unbound key := by
  obtain ⟨l, there, free⟩ := unbound
  have change := change_perform a op key
  rw [there] at change
  generalize found : (a.perform op).license? key = after at change
  cases change with
  | same => exact ⟨l, found, free⟩
  | switched _ active => exact ⟨_, found, free⟩
  | reset _ _ => exact unbound_of_hwid_none found rfl
  | @granted _ r now asked named accepted =>
      have decided : a.decide r now = .ok l := decide_eq_ok_iff.mpr ⟨named.symm ▸ there, accepted⟩
      have nameless : r.hwid = "" := by
        by_contra machine
        exact idle _ _ machine ⟨r, now, asked, named, rfl, rfl, valid_validate_iff.mpr ⟨l, decided⟩⟩
      refine ⟨_, found, ?_⟩
      rw [License.boundTo?, (License.granted_of_unbound _ _ free).1, nameless]
      rfl

theorem unbound_of_unused (unused : Unused key ops) : (empty.run ops).Unbound key := by
  induction unused with
  | opened opens =>
      rw [run_append]
      exact unbound_of_opens opens
  | still _ idle ih =>
      rw [run_append]
      exact unbound_perform ih idle

/-! ### The binding -/

/-- The first grant to a machine binds. -/
theorem bound_of_grants (unbound : a.Unbound key) (grants : a.Grants key h ip op) :
    (a.perform op).Bound key h ip := by
  obtain ⟨l, there, free⟩ := unbound
  obtain ⟨r, now, rfl, rfl, rfl, rfl, valid⟩ := grants
  obtain ⟨m, decided⟩ := valid_validate_iff.mp valid
  have found := license?_validate (a := a) r now r.licenseKey
  rw [decided, there] at found
  obtain ⟨hwid, ip⟩ := License.granted_of_unbound r now free
  exact ⟨_, found.trans (if_pos rfl), hwid, ip⟩

/-- A binding survives every operation but its reset. -/
theorem bound_perform (named : h ≠ "") (bound : a.Bound key h ip) (kept : op ≠ .resetBinding key) :
    (a.perform op).Bound key h ip := by
  obtain ⟨l, there, hwid, address⟩ := bound
  have change := change_perform a op key
  rw [there] at change
  generalize found : (a.perform op).license? key = after at change
  cases change with
  | same => exact ⟨l, found, hwid, address⟩
  | switched _ active => exact ⟨_, found, hwid, address⟩
  | reset _ asked => exact absurd asked kept
  | @granted _ r now asked _ _ =>
      obtain ⟨hwid', address'⟩ :=
        License.granted_of_bound r now (License.boundTo?_eq_some hwid named)
      exact ⟨_, found, hwid'.trans hwid, address'.trans address⟩

theorem bound_run (named : h ≠ "") (bound : a.Bound key h ip)
    (kept : Operation.resetBinding key ∉ later) : (a.run later).Bound key h ip := by
  induction later generalizing a with
  | nil => exact bound
  | cons op later ih =>
      have first : op ≠ .resetBinding key := fun same => kept (same ▸ List.mem_cons_self ..)
      exact ih (bound_perform named bound first) fun member => kept (List.mem_cons_of_mem _ member)

/-- What a bound license answers: no other machine is granted it, and where there is no other reason to
refuse a request, that reason is given. -/
theorem answers_of_bound (named : h ≠ "") {l : License} (there : a.license? key = some l)
    (hwid : l.hwid = some h) {r : ValidationRequest} (asked : r.licenseKey = key) (now : Int) :
    ((a.validate r now).1.valid → r.hwid = h) ∧
      (r.hwid ≠ h → r.productId = l.productId → l.active → l.isExpired now = false →
        (a.validate r now).1 = .rejected .otherHardware) := by
  have bound := License.boundTo?_eq_some hwid named
  subst asked
  constructor
  · intro valid
    obtain ⟨m, decided⟩ := valid_validate_iff.mp valid
    obtain ⟨found, accepted⟩ := decide_eq_ok_iff.mp decided
    obtain rfl := Option.some.inj (there.symm.trans found)
    exact ((License.rejection?_eq_none_iff.mp accepted).2.2.2 h bound).symm
  · intro other product active unexpired
    have rejected := License.rejection?_otherHardware bound other product.symm active unexpired
    have decided : a.decide r now = .error .otherHardware := by
      rw [decide, there]
      dsimp only
      rw [rejected]
    rw [validate_fst, decided]

/-- Hardware binding is permanent until it is reset. Let a license be unused since it was made or last
reset, and let a request from the machine `h` at the address `ip` be granted. Then, whatever happens
that does not reset the binding, the license stores `h` and `ip`; a request for it that is granted comes
from `h`; and a request for it from any other machine, or from none, that names the right product while
the license is active and has not expired is refused with the message about different hardware. -/
theorem binding_permanent (unused : Unused key ops) (used : (empty.run ops).Grants key h ip use)
    (named : h ≠ "") (kept : Operation.resetBinding key ∉ later) :
    ∃ l, (empty.run (ops ++ use :: later)).license? key = some l ∧
      l.hwid = some h ∧ l.ip = some ip ∧
      ∀ r now, r.licenseKey = key →
        (((empty.run (ops ++ use :: later)).validate r now).1.valid → r.hwid = h) ∧
        (r.hwid ≠ h → r.productId = l.productId → l.active → l.isExpired now = false →
          ((empty.run (ops ++ use :: later)).validate r now).1.valid = false ∧
          ((empty.run (ops ++ use :: later)).validate r now).1.message =
            "License bound to different hardware") := by
  have first := bound_of_grants (unbound_of_unused unused) used
  have bound : (empty.run (ops ++ use :: later)).Bound key h ip := by
    rw [run_append, run_cons]
    exact bound_run named first kept
  obtain ⟨l, there, hwid, address⟩ := bound
  refine ⟨l, there, hwid, address, fun r now asked => ?_⟩
  obtain ⟨granted, refused⟩ := answers_of_bound named there hwid asked now
  refine ⟨granted, fun other product active unexpired => ?_⟩
  rw [refused other product active unexpired]
  exact ⟨rfl, rfl⟩

/-- A product, a license for it, and what is asked of them: the license is granted to the machine `A`,
switched off and on again, and asked for by `B` in between. -/
def sharedLicense : List Operation :=
  [.createProduct 0 0 "Shop" "", .createLicense 0 0 (recordId 0) none none]

theorem binding_permanent_sharedLicense :
    ∃ l, (empty.run (sharedLicense ++ .validate ⟨recordId 0, licenseKey 0, "A", "10.0.0.2"⟩ 1 ::
        [.setActive (licenseKey 0) false, .validate ⟨recordId 0, licenseKey 0, "B", ""⟩ 2,
          .setActive (licenseKey 0) true])).license? (licenseKey 0) = some l ∧
      l.hwid = some "A" ∧ l.ip = some "10.0.0.2" := by
  have made : (empty.run [.createProduct 0 0 "Shop" ""]).Opens (licenseKey 0)
      (.createLicense 0 0 (recordId 0) none none) := by
    refine .inl ⟨?_, ?_⟩ <;> decide +kernel
  have unused : Unused (licenseKey 0) sharedLicense := .opened made
  have used : (empty.run sharedLicense).Grants (licenseKey 0) "A" "10.0.0.2"
      (.validate ⟨recordId 0, licenseKey 0, "A", "10.0.0.2"⟩ 1) :=
    ⟨_, _, rfl, rfl, rfl, rfl, by decide +kernel⟩
  have kept : Operation.resetBinding (licenseKey 0) ∉
      [.setActive (licenseKey 0) false, .validate ⟨recordId 0, licenseKey 0, "B", ""⟩ 2,
        .setActive (licenseKey 0) true] := by
    simp
  obtain ⟨l, there, hwid, address, -⟩ := binding_permanent unused used (by decide) kept
  exact ⟨l, there, hwid, address⟩

end Authority

end JarGate
