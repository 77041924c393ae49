import JarGate.Proofs.License.Operations
import JarGate.Proofs.License.Binding
import JarGate.Proofs.Text.Digits

/-!
# References between records

The records of an authority refer to each other by names: a tier to its product, a license to its product
and, where it has one, to its tier. Each operation adds one record at most and changes nothing that a
reference reads, so that no reference is ever left without a record, whichever operations were asked for
and however many of them were refused. An answer that grants a license can therefore rely on its tier.
-/

namespace JarGate

namespace Authority

variable {a b : Authority} {op : Operation} {ops : List Operation} {name : String}

/-! ### What an operation does to the records -/

/-- The name that an operation draws for a new record, and the names that it has to avoid. -/
def drawn? (a : Authority) : Operation → Option (String × List String)
  | .createProduct draw _ _ _ =>
    some (freshName recordId (a.products.map (·.id)) draw, a.products.map (·.id))
  | .createTier draw _ _ _ _ =>
    some (freshName recordId (a.tiers.map (·.id)) draw, a.tiers.map (·.id))
  | .createLicense draw _ _ _ _ =>
    some (freshName licenseKey (a.licenses.map (·.key)) draw, a.licenses.map (·.key))
  | _ => none

/-- Whether the records that a license refers to are there, and its tier is one of its product. -/
structure Refers (a : Authority) (l : License) : Prop where
  product : (a.product? l.productId).isSome
  tier : ∀ id, l.tierId = some id → ∃ t, a.tier? id = some t ∧ t.productId = l.productId

/-- Whether a license has the key of another one and refers to the same records. -/
structure SameTerms (l m : License) : Prop where
  key : m.key = l.key
  productId : m.productId = l.productId
  tierId : m.tierId = l.tierId

/-- What an operation may make of the records of an authority, with any log. -/
inductive Adds (a : Authority) (op : Operation) : Authority → Prop
  | nothing (log : List LogEntry) : Adds a op { a with log }
  | product {p : Product} (drawn : a.drawn? op = some (p.id, a.products.map (·.id))) :
    Adds a op { a with products := a.products ++ [p] }
  | tier {t : Tier} (drawn : a.drawn? op = some (t.id, a.tiers.map (·.id)))
      (product : (a.product? t.productId).isSome) : Adds a op { a with tiers := a.tiers ++ [t] }
  | license {l : License} (drawn : a.drawn? op = some (l.key, a.licenses.map (·.key)))
      (refers : a.Refers l) : Adds a op { a with licenses := a.licenses ++ [l] }
  | changed {f : License → License} (keeps : ∀ l, SameTerms l (f l)) (log : List LogEntry) :
    Adds a op { a with licenses := a.licenses.map f, log }

theorem checkTier_eq_ok {productId : String} {tierId : Option String}
    (checked : a.checkTier productId tierId = .ok ()) {id : String} (named : tierId = some id) :
    ∃ t, a.tier? id = some t ∧ t.productId = productId := by
  subst named
  rw [checkTier] at checked
  split at checked
  next => cases checked
  next t found =>
    split at checked
    next same => exact ⟨t, found, same⟩
    next => cases checked

theorem sameTerms_granted (l : License) (r : ValidationRequest) (now : Int) :
    SameTerms l (l.granted r now) := by
  rw [License.granted]
  dsimp only
  split <;> exact ⟨rfl, rfl, rfl⟩

theorem adds_modifyLicense {key : String} {f : License → License} (keeps : ∀ l, SameTerms l (f l))
    (log : List LogEntry) : Adds a op { a.modifyLicense key f with log } := by
  refine .changed (f := fun l => if l.key == key then f l else l) (fun l => ?_) log
  split
  · exact keeps l
  · exact ⟨rfl, rfl, rfl⟩

theorem adds_updateLicense {key : String} {f : License → License} (keeps : ∀ l, SameTerms l (f l)) :
    Adds a op (a.orKept (a.updateLicense key f)) := by
  rw [updateLicense]
  split
  · exact adds_modifyLicense keeps a.log
  · exact .nothing a.log

theorem adds_perform (a : Authority) (op : Operation) : Adds a op (a.perform op) := by
  cases op with
  | createProduct draw now name description =>
      rw [perform, createProduct]
      split
      · exact .nothing a.log
      · exact .product rfl
  | createTier draw productId name features maxUsers =>
      rw [perform, createTier]
      split
      · exact .nothing a.log
      · split
        next => exact .nothing a.log
        next known =>
          exact .tier rfl (by simpa [Option.isSome_iff_ne_none] using known)
  | createLicense draw now productId tierId expiryTime =>
      rw [perform, createLicense]
      split
      next => exact .nothing a.log
      next known =>
        have product : (a.product? productId).isSome := by
          simpa [Option.isSome_iff_ne_none] using known
        cases checked : a.checkTier productId tierId with
        | error e => exact .nothing a.log
        | ok => exact .license rfl ⟨product, fun id named => checkTier_eq_ok checked named⟩
  | setActive key active => exact adds_updateLicense fun _ => ⟨rfl, rfl, rfl⟩
  | resetBinding key => exact adds_updateLicense fun _ => ⟨rfl, rfl, rfl⟩
  | validate r now =>
      rw [perform, validate, answer]
      cases a.decide r now with
      | error why => exact .nothing _
      | ok l => exact adds_modifyLicense (fun l => sameTerms_granted l r now) _

/-! ### Names that are drawn -/

/-- Whether an operation draws no name that a record of its kind has already. -/
def DrawsFresh (a : Authority) (op : Operation) : Prop :=
  ∀ name taken, a.drawn? op = some (name, taken) → name ∉ taken

/-- Whether operations, one after another, draw no name that a record of its kind has already. -/
def Fresh (a : Authority) : List Operation → Prop
  | [] => True
  | op :: ops => a.DrawsFresh op ∧ (a.perform op).Fresh ops

/-- A name that is taken follows names that all are. -/
theorem taken_of_firstFree {spell : Nat → String} {taken : List String} {fuel n : Nat}
    (found : firstFree spell taken fuel n ∈ taken) {i : Nat} (inside : i ≤ fuel) :
    spell (n + i) ∈ taken := by
  induction fuel generalizing n i with
  | zero =>
      rw [Nat.le_zero.mp inside]
      exact found
  | succ fuel ih =>
      rw [firstFree] at found
      split at found
      next here =>
        cases i with
        | zero => exact List.contains_iff_mem.mp here
        | succ i =>
            rw [Nat.add_comm i, ← Nat.add_assoc]
            exact ih found (Nat.le_of_succ_le_succ inside)
      next free => exact absurd (List.contains_iff_mem.mpr found) free

/-- Of more names than are taken, one is not, and the first such is drawn. -/
theorem freshName_notMem {spell : Nat → String} {count : Nat}
    (distinct : ∀ m n, spell m = spell n → m ≡ n [MOD count]) {taken : List String}
    (few : taken.length < count) (draw : Nat) : freshName spell taken draw ∉ taken := by
  intro found
  let names := (List.range (taken.length + 1)).map fun i => spell (draw + i)
  have all : names ⊆ taken := by
    intro name member
    obtain ⟨i, inside, rfl⟩ := List.mem_map.mp member
    exact taken_of_firstFree found (Nat.le_of_lt_succ (List.mem_range.mp inside))
  have different : names.Nodup := by
    refine List.nodup_range.map_on fun i here j there same => ?_
    have congruent : i ≡ j [MOD count] := Nat.ModEq.add_left_cancel' draw (distinct _ _ same)
    rw [List.mem_range] at here there
    exact congruent.eq_of_lt_of_lt (by omega) (by omega)
  have size := (different.subperm all).length_le
  rw [List.length_map, List.length_range] at size
  omega

theorem recordId_distinct (m n : Nat) (same : recordId m = recordId n) : m ≡ n [MOD UInt64.size] := by
  have digits := congrArg (fun name => name.toList.map id) same
  have congruent : m ≡ n [MOD 0x100000000000000000000000000000000] :=
    Text.Hex.padded_inj id (fun _ => Text.Hex.digitValue?_digit) digits
  exact congruent.of_dvd (by decide)

theorem licenseKey_distinct (m n : Nat) (same : licenseKey m = licenseKey n) :
    m ≡ n [MOD UInt64.size] :=
  Text.Hex.padded_inj Char.toUpper (fun _ => Text.Hex.digitValue?_upper) (String.ofList_injective same)

/-- While there are few records, no name is drawn twice. -/
theorem drawsFresh_of_few (products : a.products.length < UInt64.size)
    (tiers : a.tiers.length < UInt64.size) (licenses : a.licenses.length < UInt64.size)
    (op : Operation) : a.DrawsFresh op := by
  intro name taken drawn
  cases op with
  | createProduct draw =>
      cases drawn
      exact freshName_notMem recordId_distinct (by rwa [List.length_map]) draw
  | createTier draw =>
      cases drawn
      exact freshName_notMem recordId_distinct (by rwa [List.length_map]) draw
  | createLicense draw =>
      cases drawn
      exact freshName_notMem licenseKey_distinct (by rwa [List.length_map]) draw
  | setActive | resetBinding | validate => cases drawn

/-- An operation makes one record at most. -/
theorem length_perform_le (a : Authority) (op : Operation) :
    (a.perform op).products.length ≤ a.products.length + 1 ∧
      (a.perform op).tiers.length ≤ a.tiers.length + 1 ∧
      (a.perform op).licenses.length ≤ a.licenses.length + 1 := by
  have added := adds_perform a op
  generalize a.perform op = b at added
  cases added <;> simp

theorem fresh_of_few (room : Nat) (products : a.products.length + room ≤ UInt64.size)
    (tiers : a.tiers.length + room ≤ UInt64.size) (licenses : a.licenses.length + room ≤ UInt64.size)
    (short : ops.length ≤ room) : a.Fresh ops := by
  induction ops generalizing a room with
  | nil => trivial
  | cons op ops ih =>
      rw [List.length_cons] at short
      obtain ⟨moreProducts, moreTiers, moreLicenses⟩ := length_perform_le a op
      refine ⟨drawsFresh_of_few (by omega) (by omega) (by omega) op, ?_⟩
      exact ih (room - 1) (by omega) (by omega) (by omega) (by omega)

/-- Names run out only after more operations than can be counted in 64 bits. -/
theorem fresh_of_length_le (short : ops.length ≤ UInt64.size) : empty.Fresh ops :=
  fresh_of_few UInt64.size (Nat.zero_add _).le (Nat.zero_add _).le (Nat.zero_add _).le short

/-! ### Records that are there -/

/-- Whether the records of an authority have different names, and those that they refer to are there. -/
structure Consistent (a : Authority) : Prop where
  productIds : (a.products.map (·.id)).Nodup
  tierIds : (a.tiers.map (·.id)).Nodup
  keys : (a.licenses.map (·.key)).Nodup
  tierProduct : ∀ t ∈ a.tiers, (a.product? t.productId).isSome
  licenses : ∀ l ∈ a.licenses, a.Refers l

theorem consistent_empty : empty.Consistent :=
  ⟨.nil, .nil, .nil, nofun, nofun⟩

theorem nodup_map_concat {α : Type} {name : α → String} {xs : List α} {x : α}
    (distinct : (xs.map name).Nodup) (fresh : name x ∉ xs.map name) :
    ((xs ++ [x]).map name).Nodup := by
  rw [List.map_append, List.map_singleton, ← List.concat_eq_append]
  exact distinct.concat fresh

/-- References stay where no product and no tier is lost. -/
theorem Refers.of_kept {l m : License} (refers : a.Refers l) (same : SameTerms l m)
    (products : ∀ id, (a.product? id).isSome → (b.product? id).isSome)
    (tiers : ∀ id t, a.tier? id = some t → b.tier? id = some t) : b.Refers m where
  product := by
    rw [same.productId]
    exact products _ refers.product
  tier id named := by
    rw [same.tierId] at named
    obtain ⟨t, found, product⟩ := refers.tier id named
    exact ⟨t, tiers id t found, by rw [product, same.productId]⟩

theorem consistent_perform (c : a.Consistent) (fresh : a.DrawsFresh op) : (a.perform op).Consistent := by
  have added := adds_perform a op
  generalize a.perform op = b at added
  cases added with
  | nothing log =>
      have licenses : ∀ l ∈ a.licenses, Refers { a with log } l := fun l member =>
        (c.licenses l member).of_kept ⟨rfl, rfl, rfl⟩ (fun _ => id) fun _ _ => id
      exact ⟨c.productIds, c.tierIds, c.keys, c.tierProduct, licenses⟩
  | @product p drawn =>
      have kept (id : String) (known : (a.product? id).isSome) :
          (product? { a with products := a.products ++ [p] } id).isSome := by
        rw [product?] at known ⊢
        rw [List.find?_append, Option.isSome_or, known, Bool.true_or]
      have licenses : ∀ l ∈ a.licenses, Refers { a with products := a.products ++ [p] } l :=
        fun l member => (c.licenses l member).of_kept ⟨rfl, rfl, rfl⟩ kept fun _ _ => id
      exact ⟨nodup_map_concat c.productIds (fresh _ _ drawn), c.tierIds, c.keys,
        fun t member => kept _ (c.tierProduct t member), licenses⟩
  | @tier t drawn product =>
      have kept (id : String) (u : Tier) (found : a.tier? id = some u) :
          tier? { a with tiers := a.tiers ++ [t] } id = some u := by
        rw [tier?] at found ⊢
        rw [List.find?_append, found, Option.some_or]
      have licenses : ∀ l ∈ a.licenses, Refers { a with tiers := a.tiers ++ [t] } l :=
        fun l member => (c.licenses l member).of_kept ⟨rfl, rfl, rfl⟩ (fun _ => id) kept
      exact ⟨c.productIds, nodup_map_concat c.tierIds (fresh _ _ drawn), c.keys,
        List.forall_mem_append.mpr ⟨c.tierProduct, List.forall_mem_singleton.mpr product⟩, licenses⟩
  | @license l drawn refers =>
      have licenses : ∀ m ∈ a.licenses ++ [l], Refers { a with licenses := a.licenses ++ [l] } m := by
        intro m member
        have before : a.Refers m := by
          rcases List.mem_append.mp member with old | new
          · exact c.licenses m old
          · rwa [List.mem_singleton.mp new]
        exact before.of_kept ⟨rfl, rfl, rfl⟩ (fun _ => id) fun _ _ => id
      exact ⟨c.productIds, c.tierIds, nodup_map_concat c.keys (fresh _ _ drawn), c.tierProduct, licenses⟩
  | @changed f keeps log =>
      have keys : (a.licenses.map f).map (·.key) = a.licenses.map (·.key) := by
        rw [List.map_map]
        exact List.map_congr_left fun l _ => (keeps l).key
      have licenses : ∀ m ∈ a.licenses.map f, Refers { a with licenses := a.licenses.map f, log } m :=
        List.forall_mem_map.mpr fun l member =>
          (c.licenses l member).of_kept (keeps l) (fun _ => id) fun _ _ => id
      exact ⟨c.productIds, c.tierIds, keys ▸ c.keys, c.tierProduct, licenses⟩

theorem consistent_run (c : a.Consistent) (fresh : a.Fresh ops) : (a.run ops).Consistent := by
  induction ops generalizing a with
  | nil => exact c
  | cons op ops ih => exact ih (consistent_perform c fresh.1) fresh.2

/-- Where keys differ, each license is found under its own. -/
theorem license?_of_mem (distinct : (a.licenses.map (·.key)).Nodup) {l : License}
    (member : l ∈ a.licenses) : a.license? l.key = some l := by
  cases found : a.license? l.key with
  | none =>
      have absent := List.find?_eq_none.mp found l member
      exact absurd (beq_self_eq_true l.key) absent
  | some m =>
      have same : m.key = l.key := by simpa using List.find?_some found
      rw [List.inj_on_of_nodup_map distinct (List.mem_of_find?_eq_some found) member same]

/-! ### Answers -/

/-- Whether an answer tells of the tier of a license, and the tier is one of the product of the license. -/
def TellsTier (a : Authority) (l : License) (answer : ValidationResponse) : Prop :=
  match l.tierId with
  | none => answer.tier = none ∧ answer.allowedFeatures = none
  | some id => ∃ t ∈ a.tiers, t.id = id ∧ t.productId = l.productId ∧ answer.tier = some t.name ∧
      answer.allowedFeatures = if t.features = [] then none else some t.features

theorem tellsTier_granting (c : a.Consistent) {l : License} (member : l ∈ a.licenses) :
    a.TellsTier l (a.granting l) := by
  rw [TellsTier, granting]
  cases named : l.tierId with
  | none => exact ⟨rfl, rfl⟩
  | some id =>
      obtain ⟨t, found, product⟩ := (c.licenses l member).tier id named
      have here : t ∈ a.tiers := List.mem_of_find?_eq_some found
      have id_eq : t.id = id := by simpa using List.find?_some found
      refine ⟨t, here, id_eq, product, ?_⟩
      cases listed : t.features <;> simp [found, listed]

/-- The answer that a license gives is about the license that was asked for. -/
theorem granting_of_valid {r : ValidationRequest} {now : Int} (valid : (a.validate r now).1.valid) :
    ∃ l ∈ a.licenses, l.key = r.licenseKey ∧ l.productId = r.productId ∧
      (a.validate r now).1 = a.granting l := by
  obtain ⟨l, decided⟩ := valid_validate_iff.mp valid
  obtain ⟨found, accepted⟩ := decide_eq_ok_iff.mp decided
  have member : l ∈ a.licenses := List.mem_of_find?_eq_some found
  have key : l.key = r.licenseKey := by simpa using List.find?_some found
  refine ⟨l, member, key, (License.rejection?_eq_none_iff.mp accepted).1, ?_⟩
  rw [validate_fst, decided]

/-- The references between records hold along every run that draws no name twice: names are different,
the product of each tier and each license is there, and so is the tier of a license that has one, which
is a tier of the same product. A license is found under its own key. An answer that grants a license of
the product that was asked for names a tier exactly if the license has one, the name and the features
are those of a tier of that product, and the features are left out exactly if there are none. -/
theorem references_hold (fresh : empty.Fresh ops) :
    (empty.run ops).Consistent ∧
      (∀ l ∈ (empty.run ops).licenses, (empty.run ops).license? l.key = some l) ∧
      ∀ r now, ((empty.run ops).validate r now).1.valid →
        ∃ l ∈ (empty.run ops).licenses, l.key = r.licenseKey ∧ l.productId = r.productId ∧
          (empty.run ops).TellsTier l ((empty.run ops).validate r now).1 := by
  have consistent : (empty.run ops).Consistent := consistent_run consistent_empty fresh
  refine ⟨consistent, fun l member => license?_of_mem consistent.keys member, fun r now valid => ?_⟩
  obtain ⟨l, member, key, product, answer⟩ := granting_of_valid valid
  refine ⟨l, member, key, product, ?_⟩
  rw [answer]
  exact tellsTier_granting consistent member

/-- Two products with a tier each. A tier of no product and a license with a tier of the other product
are refused; the licenses that are made have a tier with features, one without, and none. -/
def twoProducts : List Operation :=
  [.createProduct 7 0 "Shop" "", .createProduct 7 0 "Chat" "",
    .createTier 3 (recordId 7) "Gold" "fly, , trade" 5, .createTier 3 (recordId 8) "Basic" "" 0,
    .createTier 9 (recordId 9) "Ghost" "" 0, .createLicense 1 0 (recordId 7) (some (recordId 4)) none,
    .createLicense 1 0 (recordId 7) (some (recordId 3)) none,
    .createLicense 1 0 (recordId 8) (some (recordId 4)) (some 90),
    .createLicense 1 0 (recordId 8) none none, .validate ⟨recordId 7, licenseKey 1, "A", ""⟩ 1]

theorem references_hold_twoProducts :
    empty.Fresh twoProducts ∧ (empty.run twoProducts).Consistent ∧
      (empty.run twoProducts).licenses.map (·.key) = [licenseKey 1, licenseKey 2, licenseKey 3] ∧
      ∃ t ∈ (empty.run twoProducts).tiers, t.id = recordId 3 ∧ t.productId = recordId 7 ∧
        ((empty.run twoProducts).validate ⟨recordId 7, licenseKey 1, "A", ""⟩ 2).1.tier = some t.name ∧
        ((empty.run twoProducts).validate ⟨recordId 7, licenseKey 1, "A", ""⟩ 2).1.allowedFeatures =
          some ["fly", "trade"] := by
  have fresh : empty.Fresh twoProducts := fresh_of_length_le (by decide)
  obtain ⟨consistent, found, granted⟩ := references_hold fresh
  refine ⟨fresh, consistent, by decide +kernel, ?_⟩
  obtain ⟨l, member, asked, -, tells⟩ :=
    granted ⟨recordId 7, licenseKey 1, "A", ""⟩ 2 (by decide +kernel)
  have key : l.key = licenseKey 1 := asked
  have there : (empty.run twoProducts).license? (licenseKey 1) =
      some ⟨licenseKey 1, recordId 7, some (recordId 3), some "A", some "", none, 0, some 1, true⟩ := by
    decide +kernel
  have stored := found l member
  rw [key, there, Option.some.injEq] at stored
  subst stored
  obtain ⟨t, tier, id, product, name, -⟩ := tells
  exact ⟨t, tier, id, product, name, by decide +kernel⟩

end Authority

end JarGate
