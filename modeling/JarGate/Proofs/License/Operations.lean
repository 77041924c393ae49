import Mathlib
import JarGate.License.Authority

/-!
# Operations on an authority

Everything that is asked of an authority is an operation, and a run is any list of operations, made one
after another. An operation that is refused changes nothing. What an operation does to the license of a
key is said once for each kind of change; what holds along runs is derived from that.
-/

namespace JarGate

namespace Authority

/-- What is asked of an authority. Where a record is made, this includes the number that its name is
drawn from. -/
inductive Operation where
  | createProduct (draw : Nat) (now : Int) (name description : String)
  | createTier (draw : Nat) (productId name features : String) (maxUsers : UInt32)
  | createLicense (draw : Nat) (now : Int) (productId : String) (tierId : Option String)
      (expiryTime : Option Int)
  | setActive (key : String) (active : Bool)
  | resetBinding (key : String)
  | validate (request : ValidationRequest) (now : Int)
  deriving DecidableEq, Repr

/-- The records after a change that may have been refused. -/
def orKept (a : Authority) : Except AuthorityError Authority → Authority
  | .ok changed => changed
  | .error _ => a

/-- The records that an operation leaves behind. -/
def perform (a : Authority) : Operation → Authority
  | .createProduct draw now name description =>
    a.orKept ((a.createProduct draw now name description).map (·.2))
  | .createTier draw productId name features maxUsers =>
    a.orKept ((a.createTier draw productId name features maxUsers).map (·.2))
  | .createLicense draw now productId tierId expiryTime =>
    a.orKept ((a.createLicense draw now productId tierId expiryTime).map (·.2))
  | .setActive key active => a.orKept (a.setActive key active)
  | .resetBinding key => a.orKept (a.resetBinding key)
  | .validate r now => (a.validate r now).2

/-- The records that operations leave behind, one after another. -/
def run (a : Authority) (ops : List Operation) : Authority := ops.foldl perform a

@[simp] theorem run_append (a : Authority) (ops more : List Operation) :
    a.run (ops ++ more) = (a.run ops).run more :=
  List.foldl_append

@[simp] theorem run_cons (a : Authority) (op : Operation) (ops : List Operation) :
    a.run (op :: ops) = (a.perform op).run ops := rfl

@[simp] theorem run_nil (a : Authority) : a.run [] = a := rfl

/-! ### The license of a key -/

variable {a : Authority} {key : String} {f : License → License}

/-- A change that leaves the keys of licenses alone changes what is found under one key only. -/
theorem license?_modifyLicense (keeps : ∀ l, (f l).key = l.key) (other : String) :
    (a.modifyLicense key f).license? other =
      if other = key then (a.license? other).map f else a.license? other := by
  have found (ls : List License) :
      (ls.map fun l => if l.key == key then f l else l).find? (·.key == other) =
        if other = key then (ls.find? (·.key == other)).map f else ls.find? (·.key == other) := by
    induction ls with
    | nil => simp
    | cons l ls ih =>
        rw [List.map_cons, List.find?_cons, List.find?_cons, ih]
        have same : (if l.key == key then f l else l).key = l.key := by
          split
          · exact keeps l
          · rfl
        rw [same]
        by_cases here : l.key = other
        · subst here
          by_cases asked : l.key = key <;> simp [asked]
        · have elsewhere : (l.key == other) = false := by simpa using here
          simp only [elsewhere]
  exact found a.licenses

theorem license?_updateLicense (keeps : ∀ l, (f l).key = l.key) (other : String) :
    (a.orKept (a.updateLicense key f)).license? other =
      if other = key then (a.license? other).map f else a.license? other := by
  rw [updateLicense]
  split
  next => exact license?_modifyLicense keeps other
  next missing =>
    rw [Option.not_isSome_iff_eq_none] at missing
    rw [orKept]
    split
    next same => rw [same, missing, Option.map_none]
    next => rfl

theorem license?_setActive (a : Authority) (key other : String) (active : Bool) :
    (a.perform (.setActive key active)).license? other =
      if other = key then (a.license? other).map fun l => { l with active } else a.license? other :=
  license?_updateLicense (f := fun l => { l with active }) (fun _ => rfl) other

theorem license?_resetBinding (a : Authority) (key other : String) :
    (a.perform (.resetBinding key)).license? other =
      if other = key then (a.license? other).map fun l => { l with hwid := none, ip := none }
      else a.license? other :=
  license?_updateLicense (f := fun l => { l with hwid := none, ip := none }) (fun _ => rfl) other

theorem license?_createProduct (draw : Nat) (now : Int) (name description key : String) :
    (a.perform (.createProduct draw now name description)).license? key = a.license? key := by
  rw [perform, createProduct]
  split <;> rfl

theorem license?_createTier (draw : Nat) (productId name features : String) (maxUsers : UInt32)
    (key : String) :
    (a.perform (.createTier draw productId name features maxUsers)).license? key = a.license? key := by
  rw [perform, createTier]
  split
  · rfl
  · split <;> rfl

/-- A new license is found under its key, unless another one already was. It is bound to nothing. -/
theorem license?_createLicense (draw : Nat) (now : Int) (productId : String) (tierId : Option String)
    (expiryTime : Option Int) (key : String) :
    (a.perform (.createLicense draw now productId tierId expiryTime)).license? key = a.license? key ∨
      a.license? key = none ∧ ∃ l, l.hwid = none ∧ l.ip = none ∧
        (a.perform (.createLicense draw now productId tierId expiryTime)).license? key = some l := by
  rw [perform]
  cases made : a.createLicense draw now productId tierId expiryTime with
  | error e => exact .inl rfl
  | ok result =>
      rw [createLicense] at made
      split at made
      next => cases made
      next =>
        cases checked : a.checkTier productId tierId with
        | error e =>
            rw [checked] at made
            cases made
        | ok =>
            rw [checked] at made
            cases made
            simp only [Except.map, orKept, license?, List.find?_append]
            cases a.licenses.find? (·.key == key) with
            | some l => exact .inl rfl
            | none =>
                rw [Option.none_or, List.find?_singleton]
                split
                · exact .inr ⟨rfl, _, rfl, rfl, rfl⟩
                · exact .inl rfl

theorem key_granted (l : License) (r : ValidationRequest) (now : Int) :
    (l.granted r now).key = l.key := by
  rw [License.granted]
  dsimp only
  split <;> rfl

/-- A request that is granted changes the license that it names; any other changes none. -/
theorem license?_validate (r : ValidationRequest) (now : Int) (key : String) :
    (a.perform (.validate r now)).license? key =
      match a.decide r now with
      | .ok _ => if key = r.licenseKey then (a.license? key).map (·.granted r now) else a.license? key
      | .error _ => a.license? key := by
  have logged : (a.perform (.validate r now)).license? key = (a.answer r now).2.license? key := rfl
  rw [logged, answer]
  cases a.decide r now with
  | ok l => exact license?_modifyLicense (fun l => key_granted l r now) key
  | error why => rfl

/-! ### Answers to requests -/

theorem decide_eq_ok_iff {r : ValidationRequest} {now : Int} {l : License} :
    a.decide r now = .ok l ↔ a.license? r.licenseKey = some l ∧ l.rejection? r now = none := by
  rw [decide]
  cases a.license? r.licenseKey with
  | none =>
      constructor
      · nofun
      · rintro ⟨found, -⟩
        cases found
  | some m =>
      dsimp only
      cases rejected : m.rejection? r now with
      | none =>
          constructor
          · rintro ⟨⟩
            exact ⟨rfl, rejected⟩
          · rintro ⟨⟨⟩, -⟩
            rfl
      | some why =>
          constructor
          · nofun
          · rintro ⟨⟨⟩, accepted⟩
            rw [rejected] at accepted
            cases accepted

/-- The answer to a request does not depend on the log. -/
theorem validate_fst (a : Authority) (r : ValidationRequest) (now : Int) :
    (a.validate r now).1 = match a.decide r now with
      | .ok l => a.granting l
      | .error why => .rejected why := by
  have answered : (a.validate r now).1 = (a.answer r now).1 := rfl
  rw [answered, answer]
  cases a.decide r now <;> rfl

theorem valid_validate_iff {r : ValidationRequest} {now : Int} :
    (a.validate r now).1.valid ↔ ∃ l, a.decide r now = .ok l := by
  rw [validate_fst]
  cases a.decide r now with
  | ok l => exact ⟨fun _ => ⟨l, rfl⟩, fun _ => rfl⟩
  | error why => exact ⟨nofun, nofun⟩

/-! ### What becomes of a license -/

/-- What an operation may make of the license of a key. -/
inductive Change (key : String) (op : Operation) : Option License → Option License → Prop
  | same (found : Option License) : Change key op found found
  | made {l : License} (hwid : l.hwid = none) (ip : l.ip = none) : Change key op none (some l)
  | switched (l : License) (active : Bool) : Change key op (some l) (some { l with active })
  | reset (l : License) (asked : op = .resetBinding key) :
    Change key op (some l) (some { l with hwid := none, ip := none })
  | granted {l : License} {r : ValidationRequest} {now : Int} (asked : op = .validate r now)
      (named : r.licenseKey = key) (accepted : l.rejection? r now = none) :
    Change key op (some l) (some (l.granted r now))

theorem change_perform (a : Authority) (op : Operation) (key : String) :
    Change key op (a.license? key) ((a.perform op).license? key) := by
  cases op with
  | createProduct draw now name description =>
      rw [license?_createProduct]
      exact .same _
  | createTier draw productId name features maxUsers =>
      rw [license?_createTier]
      exact .same _
  | createLicense draw now productId tierId expiryTime =>
      obtain kept | ⟨absent, l, hwid, ip, found⟩ :=
        license?_createLicense (a := a) draw now productId tierId expiryTime key
      · rw [kept]
        exact .same _
      · rw [absent, found]
        exact .made hwid ip
  | setActive k active =>
      rw [license?_setActive]
      split
      · cases a.license? key with
        | none => exact .same _
        | some l => exact .switched l active
      · exact .same _
  | resetBinding k =>
      rw [license?_resetBinding]
      split
      next same =>
        subst same
        cases a.license? key with
        | none => exact .same _
        | some l => exact .reset l rfl
      next => exact .same _
  | validate r now =>
      rw [license?_validate]
      cases decided : a.decide r now with
      | error why => exact .same _
      | ok l =>
          dsimp only
          split
          next same =>
            subst same
            obtain ⟨found, accepted⟩ := decide_eq_ok_iff.mp decided
            rw [found]
            exact .granted rfl rfl accepted
          next => exact .same _

end Authority

end JarGate
