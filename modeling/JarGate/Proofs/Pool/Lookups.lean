import JarGate.Proofs.Format.Pool

/-!
# Lookups in a pool that grows

Additions only append to a pool, so whatever could be looked up before can be looked up afterwards,
with the same answer. Failures may turn into answers.
-/

namespace JarGate

namespace ConstantPool

variable {pool : ConstantPool} {index : UInt16}

/-! ### What a lookup finds -/

theorem get_eq_ok_iff {c : Constant} :
    pool.get index = .ok c ↔ pool.entries[index.toNat]? = some c ∧ c ≠ .unusable := by
  simp only [get]
  split
  next none => simp [none]
  next unusable =>
    rw [unusable]
    constructor
    · intro h
      cases h
    · rintro ⟨h, usable⟩
      exact absurd (Option.some.inj h).symm usable
  next c' usable found =>
    rw [found, Except.ok.injEq, Option.some.injEq]
    constructor
    · rintro rfl
      exact ⟨rfl, usable⟩
    · exact And.left

theorem utf8Octets_eq_ok_iff {octets : Bytes} :
    pool.utf8Octets index = .ok octets ↔ pool.get index = .ok (.utf8 octets) := by
  simp only [utf8Octets, bind_eq_ok_iff]
  constructor
  · rintro ⟨c, found, h⟩
    cases c with
    | utf8 octets' =>
        cases h
        exact found
    | _ => cases h
  · exact fun found => ⟨_, found, rfl⟩

theorem utf8_eq_ok_iff {s : String} : pool.utf8 index = .ok s ↔
    ∃ octets, pool.get index = .ok (.utf8 octets) ∧ Text.ModifiedUtf8.decode octets = .ok s := by
  simp only [utf8, bind_eq_ok_iff, utf8Octets_eq_ok_iff]
  refine exists_congr fun octets => and_congr_right fun _ => ?_
  cases Text.ModifiedUtf8.decode octets <;> simp

theorem className_eq_ok_iff {s : String} : pool.className index = .ok s ↔
    ∃ name, pool.get index = .ok (.classInfo name) ∧ pool.utf8 name = .ok s := by
  simp only [className, bind_eq_ok_iff]
  constructor
  · rintro ⟨c, found, h⟩
    cases c with
    | classInfo name => exact ⟨name, found, h⟩
    | _ => cases h
  · rintro ⟨name, found, h⟩
    exact ⟨_, found, h⟩

theorem nameAndType_eq_ok_iff {p : String × String} : pool.nameAndType index = .ok p ↔
    ∃ name descriptor, pool.get index = .ok (.nameAndType name descriptor) ∧
      pool.utf8 name = .ok p.1 ∧ pool.utf8 descriptor = .ok p.2 := by
  simp only [nameAndType, bind_eq_ok_iff]
  constructor
  · rintro ⟨c, found, h⟩
    cases c with
    | nameAndType name descriptor =>
        obtain ⟨s, named, t, typed, same⟩ := by simpa only [bind_eq_ok_iff] using h
        cases same
        exact ⟨name, descriptor, found, named, typed⟩
    | _ => cases h
  · rintro ⟨name, descriptor, found, named, typed⟩
    refine ⟨_, found, ?_⟩
    simp only [bind_eq_ok_iff]
    exact ⟨_, named, _, typed, rfl⟩

/-- The references that a member of a class may be named by. -/
def IsMemberRef (owner signature : UInt16) (c : Constant) : Prop :=
  c = .fieldRef owner signature ∨ c = .methodRef owner signature ∨
    c = .interfaceMethodRef owner signature

theorem resolve_eq_ok_iff {r : MemberRef} {owner signature : UInt16} : (do
      let (name, descriptor) ← pool.nameAndType signature
      return { owner := ← pool.className owner, name, descriptor } : Except ClassError MemberRef) =
        .ok r ↔
    pool.className owner = .ok r.owner ∧ pool.nameAndType signature = .ok (r.name, r.descriptor) := by
  simp only [bind_eq_ok_iff, pure_eq_ok_iff]
  constructor
  · rintro ⟨⟨n, d⟩, named, o, owned, rfl⟩
    exact ⟨owned, named⟩
  · rintro ⟨owned, named⟩
    exact ⟨_, named, _, owned, rfl⟩

theorem memberRef_eq_ok_iff {r : MemberRef} : pool.memberRef index = .ok r ↔
    ∃ c owner signature, pool.get index = .ok c ∧ IsMemberRef owner signature c ∧
      pool.className owner = .ok r.owner ∧ pool.nameAndType signature = .ok (r.name, r.descriptor) := by
  simp only [memberRef, bind_eq_ok_iff]
  constructor
  · rintro ⟨c, found, h⟩
    cases c with
    | fieldRef owner signature =>
        exact ⟨_, owner, signature, found, .inl rfl, resolve_eq_ok_iff.mp h⟩
    | methodRef owner signature =>
        exact ⟨_, owner, signature, found, .inr (.inl rfl), resolve_eq_ok_iff.mp h⟩
    | interfaceMethodRef owner signature =>
        exact ⟨_, owner, signature, found, .inr (.inr rfl), resolve_eq_ok_iff.mp h⟩
    | _ => cases h
  · rintro ⟨c, owner, signature, found, rfl | rfl | rfl, h⟩
    iterate 3 exact ⟨_, found, resolve_eq_ok_iff.mpr h⟩

/-! ### Growth -/

/-- A pool that holds all constants of another one, at the same indices. -/
def Extends (p q : ConstantPool) : Prop := p.entries.toList <+: q.entries.toList

namespace Extends

variable {p q r : ConstantPool}

theorem refl (p : ConstantPool) : p.Extends p := List.prefix_refl _

theorem trans (h : p.Extends q) (h' : q.Extends r) : p.Extends r := List.IsPrefix.trans h h'

theorem getElem? (h : p.Extends q) {i : Nat} {c : Constant} (found : p.entries[i]? = some c) :
    q.entries[i]? = some c := by
  obtain ⟨added, same⟩ := h
  rw [← Array.getElem?_toList] at found ⊢
  rw [← same]
  exact List.getElem?_append_left (List.getElem?_eq_some_iff.mp found).1 ▸ found

theorem get (h : p.Extends q) {c : Constant} (found : p.get index = .ok c) :
    q.get index = .ok c := by
  rw [get_eq_ok_iff] at found ⊢
  exact ⟨h.getElem? found.1, found.2⟩

theorem utf8 (h : p.Extends q) {s : String} (found : p.utf8 index = .ok s) :
    q.utf8 index = .ok s := by
  rw [utf8_eq_ok_iff] at found ⊢
  obtain ⟨octets, found, decoded⟩ := found
  exact ⟨octets, h.get found, decoded⟩

theorem className (h : p.Extends q) {s : String} (found : p.className index = .ok s) :
    q.className index = .ok s := by
  rw [className_eq_ok_iff] at found ⊢
  obtain ⟨name, found, named⟩ := found
  exact ⟨name, h.get found, h.utf8 named⟩

theorem nameAndType (h : p.Extends q) {s : String × String} (found : p.nameAndType index = .ok s) :
    q.nameAndType index = .ok s := by
  rw [nameAndType_eq_ok_iff] at found ⊢
  obtain ⟨name, descriptor, found, named, typed⟩ := found
  exact ⟨name, descriptor, h.get found, h.utf8 named, h.utf8 typed⟩

theorem memberRef (h : p.Extends q) {m : MemberRef} (found : p.memberRef index = .ok m) :
    q.memberRef index = .ok m := by
  rw [memberRef_eq_ok_iff] at found ⊢
  obtain ⟨c, owner, signature, found, kind, owned, signed⟩ := found
  exact ⟨c, owner, signature, h.get found, kind, h.className owned, h.nameAndType signed⟩

end Extends

/-! ### Links -/

/-- Whether an index is that of a text. -/
def IsText (pool : ConstantPool) (index : UInt16) : Prop :=
  ∃ octets, pool.get index = .ok (.utf8 octets)

/-- Whether an index resolves to a text that can be read. -/
def Resolves (pool : ConstantPool) (index : UInt16) : Prop :=
  ∃ s, pool.utf8 index = .ok s

/-- Whether an index is that of a class. -/
def IsClass (pool : ConstantPool) (index : UInt16) : Prop :=
  ∃ name, pool.get index = .ok (.classInfo name)

/-- Whether an index is that of a name with a type. -/
def IsSignature (pool : ConstantPool) (index : UInt16) : Prop :=
  ∃ name descriptor, pool.get index = .ok (.nameAndType name descriptor)

/-- Whether an index is that of a reference to a member. -/
def IsMember (pool : ConstantPool) (index : UInt16) : Prop :=
  ∃ c owner signature, pool.get index = .ok c ∧ IsMemberRef owner signature c

/-- Whether the links of a constant are right. -/
def Linked (pool : ConstantPool) : Constant → Prop
  | .classInfo target | .moduleInfo target | .packageInfo target | .string target
  | .methodType target => pool.IsText target
  | .fieldRef owner signature | .methodRef owner signature | .interfaceMethodRef owner signature =>
    pool.IsClass owner ∧ pool.IsSignature signature
  | .nameAndType name descriptor => pool.IsText name ∧ pool.IsText descriptor
  | .dynamic _ signature | .invokeDynamic _ signature => pool.IsSignature signature
  | .methodHandle kind reference => (1 ≤ kind ∧ kind ≤ 9) ∧ pool.IsMember reference
  | _ => True

theorem get_error {e : ClassError} (h : pool.get index = .error e) : ∃ why, e = .malformed why := by
  simp only [get] at h
  split at h
  · cases h
    exact ⟨_, rfl⟩
  · cases h
    exact ⟨_, rfl⟩
  · cases h

theorem utf8Octets_error {e : ClassError} (h : pool.utf8Octets index = .error e) :
    ∃ why, e = .malformed why := by
  simp only [utf8Octets] at h
  cases found : pool.get index with
  | error e' =>
      rw [found] at h
      cases h
      exact get_error found
  | ok c =>
      rw [found] at h
      cases c with
      | utf8 octets => cases h
      | _ =>
          cases h
          exact ⟨_, rfl⟩

/-- What is wrong with a link to a text. -/
def textFault? (pool : ConstantPool) (kind : ConstantKind) (i : Nat) (field : TextField)
    (target : UInt16) : Option Fault :=
  match pool.utf8Octets target with
  | .error (.malformed why) => some (.badText kind i field why)
  | _ => none

/-- What is wrong with a link to a class. -/
def ownerFault? (pool : ConstantPool) (kind : ConstantKind) (i : Nat) (target : UInt16) :
    Option Fault :=
  match pool.get target with
  | .ok (.classInfo _) => none
  | _ => some (.badLink kind i .notClass)

/-- What is wrong with a link to a name and a type. -/
def signatureFault? (pool : ConstantPool) (kind : ConstantKind) (i : Nat) (target : UInt16) :
    Option Fault :=
  match pool.get target with
  | .ok (.nameAndType _ _) => none
  | _ => some (.badLink kind i .notNameAndType)

/-- What is wrong with the reference of a method handle. -/
def memberFault? (pool : ConstantPool) (kind : ConstantKind) (i : Nat) (target : UInt16) :
    Option Fault :=
  match pool.get target with
  | .ok (.fieldRef _ _) | .ok (.methodRef _ _) | .ok (.interfaceMethodRef _ _) => none
  | _ => some (.badLink kind i .notMember)

section

variable {kind : ConstantKind} {i : Nat} {field : TextField} {target : UInt16}

theorem textFault?_eq_none_iff : pool.textFault? kind i field target = none ↔ pool.IsText target := by
  simp only [textFault?, IsText, ← utf8Octets_eq_ok_iff]
  cases found : pool.utf8Octets target with
  | error e =>
      obtain ⟨why, rfl⟩ := utf8Octets_error found
      simp
  | ok octets => simp

theorem ownerFault?_eq_none_iff : pool.ownerFault? kind i target = none ↔ pool.IsClass target := by
  simp only [ownerFault?, IsClass]
  split
  next name found => simp [found]
  next other => simpa using other

theorem signatureFault?_eq_none_iff :
    pool.signatureFault? kind i target = none ↔ pool.IsSignature target := by
  simp only [signatureFault?, IsSignature]
  split
  next name descriptor found => simp [found]
  next other => simpa using other

theorem memberFault?_eq_none_iff :
    pool.memberFault? kind i target = none ↔ pool.IsMember target := by
  simp only [memberFault?, IsMember, IsMemberRef]
  split
  next found => simp [found]
  next found => simp [found]
  next found => simp [found]
  next field method interface =>
    simp only [reduceCtorEq, false_iff]
    rintro ⟨c, owner, signature, found, rfl | rfl | rfl⟩
    · exact field _ _ found
    · exact method _ _ found
    · exact interface _ _ found

end

theorem linkFault?_eq_none_iff {i : Nat} {c : Constant} :
    pool.linkFault? i c = none ↔ pool.Linked c := by
  cases c with
  | classInfo target | moduleInfo target | packageInfo target | string target | methodType target =>
      exact textFault?_eq_none_iff
  | dynamic _ signature | invokeDynamic _ signature => exact signatureFault?_eq_none_iff
  | fieldRef owner signature | methodRef owner signature | interfaceMethodRef owner signature =>
      rw [Linked, ← ownerFault?_eq_none_iff, ← signatureFault?_eq_none_iff, ← Option.or_eq_none_iff]
      exact Iff.rfl
  | nameAndType name descriptor =>
      rw [Linked, ← textFault?_eq_none_iff, ← textFault?_eq_none_iff, ← Option.or_eq_none_iff]
      exact Iff.rfl
  | methodHandle kind reference =>
      change (if 1 ≤ kind ∧ kind ≤ 9 then pool.memberFault? _ i reference else some _) = none ↔ _
      rw [Linked, ← memberFault?_eq_none_iff]
      split
      next valid => exact (and_iff_right valid).symm
      next invalid => exact ⟨nofun, fun h => absurd h.1 invalid⟩
  | _ => exact iff_of_true rfl trivial

theorem check?_eq_none_iff : pool.check? = none ↔ ∀ c ∈ pool.entries.toList, pool.Linked c := by
  have onto (i : Nat) (cs : List Constant) :
      pool.linkFaultFrom? i cs = none ↔ ∀ c ∈ cs, pool.Linked c := by
    induction cs generalizing i with
    | nil => simp [linkFaultFrom?]
    | cons c cs ih =>
        rw [linkFaultFrom?, List.forall_mem_cons, ← ih (i + 1), ← linkFault?_eq_none_iff (i := i)]
        cases pool.linkFault? i c <;> simp
  exact onto 0 _

theorem Linked.extends {p q : ConstantPool} {c : Constant} (h : p.Linked c) (grown : p.Extends q) :
    q.Linked c := by
  have text {i : UInt16} : p.IsText i → q.IsText i := Exists.imp fun _ => grown.get
  have owner {i : UInt16} : p.IsClass i → q.IsClass i := Exists.imp fun _ => grown.get
  have signature {i : UInt16} : p.IsSignature i → q.IsSignature i :=
    Exists.imp fun _ => Exists.imp fun _ => grown.get
  cases c with
  | classInfo target | moduleInfo target | packageInfo target | string target | methodType target =>
      exact text h
  | dynamic _ s | invokeDynamic _ s => exact signature h
  | fieldRef o s | methodRef o s | interfaceMethodRef o s => exact ⟨owner h.1, signature h.2⟩
  | nameAndType name descriptor => exact ⟨text h.1, text h.2⟩
  | methodHandle kind reference =>
      obtain ⟨c, o, s, found, member⟩ := h.2
      exact ⟨h.1, c, o, s, grown.get found, member⟩
  | _ => trivial

/-! ### Lookups that growth does not bring about -/

section

variable {p q : ConstantPool}

theorem linked_of_get {c : Constant} (sound : p.WellFormed) (found : p.get index = .ok c) : p.Linked c := by
  have there := (get_eq_ok_iff.mp found).1
  exact check?_eq_none_iff.mp sound.links c (Array.mem_toList_iff.mpr (Array.mem_of_getElem? there))

namespace Extends

/-- What is found at an index of a pool that has grown was there if the index was. -/
theorem get_of_lt (grown : p.Extends q) {c : Constant} (inside : index.toNat < p.count)
    (found : q.get index = .ok c) : p.get index = .ok c := by
  rw [get_eq_ok_iff] at found ⊢
  have here := grown.getElem? (Array.getElem?_eq_getElem inside)
  refine ⟨?_, found.2⟩
  rw [Array.getElem?_eq_getElem inside, ← here, found.1]

theorem utf8_of_isText (grown : p.Extends q) {s : String} (text : p.IsText index)
    (found : q.utf8 index = .ok s) : p.utf8 index = .ok s := by
  obtain ⟨octets, there⟩ := text
  obtain ⟨octets', found, decoded⟩ := utf8_eq_ok_iff.mp found
  cases (grown.get there).symm.trans found
  exact utf8_eq_ok_iff.mpr ⟨octets, there, decoded⟩

theorem className_of_isClass (grown : p.Extends q) (sound : p.WellFormed) {s : String}
    (known : p.IsClass index) (found : q.className index = .ok s) : p.className index = .ok s := by
  obtain ⟨name, there⟩ := known
  obtain ⟨name', found, named⟩ := className_eq_ok_iff.mp found
  cases (grown.get there).symm.trans found
  have text : p.IsText name := linked_of_get sound there
  exact className_eq_ok_iff.mpr ⟨name, there, grown.utf8_of_isText text named⟩

theorem nameAndType_of_isSignature (grown : p.Extends q) (sound : p.WellFormed) {s : String × String}
    (known : p.IsSignature index) (found : q.nameAndType index = .ok s) : p.nameAndType index = .ok s := by
  obtain ⟨name, descriptor, there⟩ := known
  obtain ⟨name', descriptor', found, named, typed⟩ := nameAndType_eq_ok_iff.mp found
  cases (grown.get there).symm.trans found
  have texts : p.IsText name ∧ p.IsText descriptor := linked_of_get sound there
  exact nameAndType_eq_ok_iff.mpr ⟨name, descriptor, there, grown.utf8_of_isText texts.1 named,
    grown.utf8_of_isText texts.2 typed⟩

/-- A reference in a pool stands for the same member however the pool grows. -/
theorem memberRef_of_lt (grown : p.Extends q) (sound : p.WellFormed) {m : MemberRef}
    (inside : index.toNat < p.count) (found : q.memberRef index = .ok m) : p.memberRef index = .ok m := by
  obtain ⟨c, owner, signature, there, kind, owned, signed⟩ := memberRef_eq_ok_iff.mp found
  have here := grown.get_of_lt inside there
  have links : p.IsClass owner ∧ p.IsSignature signature := by
    have linked := linked_of_get sound here
    rcases kind with rfl | rfl | rfl <;> exact linked
  exact memberRef_eq_ok_iff.mpr ⟨c, owner, signature, here, kind,
    grown.className_of_isClass sound links.1 owned, grown.nameAndType_of_isSignature sound links.2 signed⟩

end Extends

end

end ConstantPool

end JarGate
