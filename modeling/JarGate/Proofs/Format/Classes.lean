import JarGate.ClassFile.Format
import JarGate.Proofs.Format.CodeBodies
import JarGate.Proofs.Pool.Lookups

/-!
# Classes in octets

A class that was read is well formed, and a well-formed class is read from exactly the octets that it
is written as with the sizes that its method bodies declare, up to the reserved octets of their
instructions.
-/

namespace JarGate

open Decoder Mark

/-! ### Tables whose entries are carried over in part -/

section

variable {α : Type} {write : α → Except ClassError Bytes} {marks : α → List Mark}

/-- Entries that are carried over in part, one after another. -/
def CarriedOver (write : α → Except ClassError Bytes) (marks : α → List Mark) (a : α) (bs : Bytes) :
    Prop :=
  ∃ out, write a = .ok out ∧ Settled (marks a) bs out

theorem settled_flatten {as : List α} {read : List Bytes}
    (each : List.Forall₂ (CarriedOver write marks) as read) :
    ∃ chunks, List.Forall₂ (fun a out => write a = .ok out) as chunks ∧
      Settled (as.flatMap marks) read.flatten chunks.flatten := by
  induction each with
  | nil => exact ⟨[], .nil, .nil⟩
  | cons head _ ih =>
      obtain ⟨out, written, settled⟩ := head
      obtain ⟨chunks, all, rest⟩ := ih
      exact ⟨out :: chunks, .cons written all, settled.append rest⟩

theorem split_flatten {as : List α} {chunks : List Bytes} {bs : Bytes}
    (plain : ∀ a, ∀ m ∈ marks a, m.isPlain)
    (len : ∀ {a out}, write a = .ok out → out.length = (marks a).length)
    (written : List.Forall₂ (fun a out => write a = .ok out) as chunks)
    (settled : Settled (as.flatMap marks) bs chunks.flatten) :
    ∃ read, List.Forall₂ (CarriedOver write marks) as read ∧ bs = read.flatten := by
  induction written generalizing bs with
  | nil => exact ⟨[], .nil, (Settled.nil_iff.mp settled).1⟩
  | cons head _ ih =>
      rw [List.flatMap_cons, List.flatten_cons, Settled.append_written_iff (plain _) (len head)]
        at settled
      obtain ⟨first, rest, rfl, settled, others⟩ := settled
      obtain ⟨read, each, rfl⟩ := ih others
      exact ⟨first :: read, .cons ⟨_, head, settled⟩ each, rfl⟩

/-- A table whose entries are carried over in part is carried over in part. -/
theorem counted_carriedOver_iff {what : String} {as : List α} {bs : Bytes}
    (plain : ∀ a, ∀ m ∈ marks a, m.isPlain)
    (len : ∀ {a out}, write a = .ok out → out.length = (marks a).length) :
    Counted (CarriedOver write marks) as bs ↔
      CarriedOver (Code.writeTable what write) (fun as => keep 2 ++ as.flatMap marks) as bs := by
  constructor
  · rintro ⟨small, read, each, rfl⟩
    obtain ⟨chunks, written, settled⟩ := settled_flatten each
    exact ⟨_, Code.writeTable_eq_ok_iff.mpr ⟨small, chunks, written, rfl⟩,
      (Settled.keep_rfl (be16 (UInt16.ofNat as.length))).append settled⟩
  · rintro ⟨out, written, settled⟩
    obtain ⟨small, chunks, each, rfl⟩ := Code.writeTable_eq_ok_iff.mp written
    obtain ⟨bs, rfl, rest⟩ :=
      (Settled.append_kept_iff (be16 (UInt16.ofNat as.length)) rfl).mp settled
    obtain ⟨read, each, rfl⟩ := split_flatten plain len each rest
    exact ⟨small, read, each, rfl⟩

theorem accepts_carriedOver {d : Decoder α} {P : α → Prop} (what : String)
    (plain : ∀ a, ∀ m ∈ marks a, m.isPlain)
    (len : ∀ {a out}, write a = .ok out → out.length = (marks a).length)
    (h : Accepts d (fun _ bs a => CarriedOver write marks a bs ∧ P a)) :
    Accepts (do many (← u16).toNat d) (fun _ bs as =>
      CarriedOver (Code.writeTable what write) (fun as => keep 2 ++ as.flatMap marks) as bs ∧
        ∀ a ∈ as, P a) :=
  (accepts_counted h).congr fun _ _ _ => by
    rw [counted_and_iff, counted_carriedOver_iff plain len]

end

/-! ### Raw attributes and fields -/

/-- A field as it is when it was read. -/
structure FieldInfo.WellFormed (pool : ConstantPool) (f : FieldInfo) : Prop where
  name : pool.Resolves f.name
  descriptor : pool.Resolves f.descriptor
  attributes : ∀ a ∈ f.attributes, pool.IsText a.name

namespace ClassFile

variable {pool : ConstantPool}

theorem accepts_rawBody (name : UInt16) : Accepts (do return { name, body := ← take (← u32).toNat })
    (fun _ bs (a : RawAttribute) => a.name = name ∧ a.body.length < 0x100000000 ∧
      bs = be32 (UInt32.ofNat a.body.length) ++ a.body) := by
  refine Accepts.congr (.bind_assoc accepts_sized fun body => .pure (RawAttribute.mk name body))
    fun pos bs a => ⟨?_, ?_⟩
  · rintro ⟨body, _, _, rfl, ⟨small, rfl⟩, rfl, rfl⟩
    exact ⟨rfl, small, List.append_nil _⟩
  · rintro ⟨rfl, small, rfl⟩
    exact ⟨a.body, _, [], (List.append_nil _).symm, ⟨small, rfl⟩, rfl, rfl⟩

theorem accepts_readRaw : Accepts (readRaw pool)
    (fun _ bs a => attributeBytes a.name a.body = .ok bs ∧ pool.IsText a.name) := by
  unfold readRaw
  dsimp only
  refine Accepts.congr (accepts_u16.bind fun name => (Accepts.lift _).bind (F := fun c _ bs a =>
    (∃ octets, c = .utf8 octets) ∧ a.name = name ∧ a.body.length < 0x100000000 ∧
      bs = be32 (UInt32.ofNat a.body.length) ++ a.body) fun c => ?_) fun pos bs a => ⟨?_, ?_⟩
  · split
    next octets => exact (accepts_rawBody name).congr fun _ _ _ => by simp
    next other =>
      exact .of_fails ((fails_fault _).bind _) fun _ _ _ ⟨⟨octets, same⟩, _⟩ => other octets same
  · rintro ⟨name, _, _, rfl, rfl, c, _, _, rfl, ⟨rfl, found⟩, ⟨octets, rfl⟩, rfl, small, rfl⟩
    refine ⟨attributeBytes_eq_ok_iff.mpr ⟨small, ?_⟩, octets, found⟩
    rw [List.nil_append, List.append_assoc]
  · rintro ⟨written, octets, found⟩
    obtain ⟨small, rfl⟩ := attributeBytes_eq_ok_iff.mp written
    exact ⟨a.name, _, _, List.append_assoc _ _ _, rfl, _, [], _, rfl, ⟨rfl, found⟩, ⟨octets, rfl⟩, rfl,
      small, rfl⟩

theorem accepts_readRaws : Accepts (readRaws pool)
    (fun _ bs as => writeRaws as = .ok bs ∧ ∀ a ∈ as, pool.IsText a.name) :=
  Code.accepts_table "attributes" accepts_readRaw

theorem accepts_readClass : Accepts (readClass pool)
    (fun _ bs i => (.ok (be16 i) : Except ClassError Bytes) = .ok bs ∧
      ∃ s, pool.className i = .ok s) := by
  unfold readClass
  refine Accepts.congr (accepts_u16.bind fun i => .check (.pure i)) fun pos bs i => ⟨?_, ?_⟩
  · rintro ⟨i, _, _, rfl, rfl, named, rfl, rfl⟩
    exact ⟨congrArg _ (List.append_nil _).symm, named⟩
  · rintro ⟨written, named⟩
    cases written
    exact ⟨i, _, [], (List.append_nil _).symm, rfl, named, rfl, rfl⟩

theorem accepts_readField : Accepts (readField pool)
    (fun _ bs f => writeField f = .ok bs ∧ f.WellFormed pool) := by
  unfold readField
  refine Accepts.congr (accepts_u16.bind fun access => accepts_u16.bind fun name =>
    accepts_u16.bind fun descriptor => .check <| .check <| accepts_readRaws.bind fun attributes =>
    .pure (FieldInfo.mk access name descriptor attributes)) fun pos bs f => ⟨?_, ?_⟩
  · rintro ⟨access, _, _, rfl, rfl, name, _, _, rfl, rfl, descriptor, _, _, rfl, rfl, named, typed,
      attributes, _, _, rfl, ⟨written, texts⟩, rfl, rfl⟩
    refine ⟨?_, named, typed, texts⟩
    simp only [writeField, bind_eq_ok_iff, pure_eq_ok_iff]
    exact ⟨_, written, by simp only [List.append_assoc, List.append_nil]⟩
  · rintro ⟨written, named, typed, texts⟩
    simp only [writeField, bind_eq_ok_iff, pure_eq_ok_iff] at written
    obtain ⟨raws, written, rfl⟩ := written
    refine ⟨f.access, _, _, ?_, rfl, f.name, _, _, rfl, rfl, f.descriptor, _, _, rfl, rfl, named, typed,
      f.attributes, raws, [], (List.append_nil _).symm, ⟨written, texts⟩, rfl, rfl⟩
    simp only [List.append_assoc]

end ClassFile

/-! ### Methods -/

namespace MethodAttribute

/-- An attribute of a method as it is when it was read. -/
def WellFormed (pool : ConstantPool) : MethodAttribute → Prop
  | .code name c => pool.utf8 name = .ok "Code" ∧ c.WellFormed pool
  | .raw r => ∃ s, pool.utf8 r.name = .ok s ∧ s ≠ "Code"

/-- The octets of an attribute, given those of bodies. -/
def writeWith (body : Code → Except ClassError Bytes) : MethodAttribute → Except ClassError Bytes
  | .code name c => body c >>= attributeBytes name
  | .raw r => attributeBytes r.name r.body

/-- What becomes of the octets of an attribute, given what becomes of those of bodies. -/
def marks (body : Code → List Mark) : MethodAttribute → List Mark
  | .code _ c => keep 6 ++ body c
  | .raw r => keep 6 ++ keep r.body.length

end MethodAttribute

namespace MethodInfo

/-- A method as it is when it was read. -/
structure WellFormed (pool : ConstantPool) (m : MethodInfo) : Prop where
  name : pool.Resolves m.name
  descriptor : ∃ s d, pool.utf8 m.descriptor = .ok s ∧ MethodDescriptor.parse s = .ok d
  attributes : ∀ a ∈ m.attributes, a.WellFormed pool

/-- The octets of a method, given those of bodies. -/
def writeWith (body : Code → Except ClassError Bytes) (m : MethodInfo) : Except ClassError Bytes := do
  return be16 m.access ++ be16 m.name ++ be16 m.descriptor ++
    (← Code.writeTable "method attributes" (MethodAttribute.writeWith body) m.attributes)

/-- What becomes of the octets of a method, given what becomes of those of bodies. -/
def marks (body : Code → List Mark) (m : MethodInfo) : List Mark :=
  keep 6 ++ (keep 2 ++ m.attributes.flatMap (MethodAttribute.marks body))

end MethodInfo

namespace Code

/-- The octets of a body with the sizes it declares. -/
def writeDeclared (c : Code) : Except ClassError Bytes := c.writeSized c.maxStack c.maxLocals

/-- What becomes of the octets of a body when the declared sizes are kept. -/
def declaredMarks (c : Code) : List Mark := c.marks (keep 4)

theorem length_writeDeclared {c : Code} {out : Bytes} (h : c.writeDeclared = .ok out) :
    out.length = c.declaredMarks.length := by
  obtain ⟨code, hs, as, written, -, caught, described, rfl⟩ := writeSized_eq_ok_iff.mp h
  simp only [declaredMarks, marks, caught, described, writtenLength, List.length_append, be16_length,
    be32_length, Instruction.length_eq_of_write written, keep, List.length_replicate]
  omega

theorem isPlain_declaredMarks {c : Code} : ∀ m ∈ c.declaredMarks, m.isPlain :=
  List.forall_mem_append.mpr ⟨isPlain_keep, List.forall_mem_append.mpr ⟨isPlain_keep,
    List.forall_mem_append.mpr ⟨Instruction.isPlain_listingMarks, isPlain_keep⟩⟩⟩

end Code

section

variable {pool : ConstantPool}

theorem MethodAttribute.isPlain_marks {a : MethodAttribute} :
    ∀ m ∈ a.marks Code.declaredMarks, m.isPlain := by
  cases a with
  | code name code => exact List.forall_mem_append.mpr ⟨isPlain_keep, Code.isPlain_declaredMarks⟩
  | raw r => exact List.forall_mem_append.mpr ⟨isPlain_keep, isPlain_keep⟩

theorem attributeBytes_length {name : UInt16} {body bs : Bytes}
    (h : attributeBytes name body = .ok bs) : bs.length = 6 + body.length := by
  obtain ⟨-, rfl⟩ := attributeBytes_eq_ok_iff.mp h
  simp only [List.length_append, be16_length, be32_length]

theorem MethodAttribute.length_write {a : MethodAttribute} {out : Bytes}
    (h : a.writeWith Code.writeDeclared = .ok out) :
    out.length = (a.marks Code.declaredMarks).length := by
  cases a with
  | code name code =>
      obtain ⟨body, written, framed⟩ := bind_eq_ok_iff.mp h
      rw [attributeBytes_length framed, Code.length_writeDeclared written, marks, List.length_append]
      rfl
  | raw r =>
      rw [attributeBytes_length h, marks, List.length_append]
      simp [keep]

/-- The octets of an attribute are carried over just where those of its body are. -/
theorem carriedOver_attributeBytes_iff {name : UInt16} {ms : List Mark} {body bs : Bytes} :
    (∃ out, attributeBytes name body = .ok out ∧ Settled (keep 6 ++ ms) bs out) ↔
      ∃ octets, attributeBytes name octets = .ok bs ∧ Settled ms octets body := by
  constructor
  · rintro ⟨_, written, settled⟩
    obtain ⟨small, rfl⟩ := attributeBytes_eq_ok_iff.mp written
    obtain ⟨octets, rfl, inner⟩ := (Settled.append_kept_iff
      (be16 name ++ be32 (UInt32.ofNat body.length)) rfl).mp settled
    have same : octets.length = body.length := inner.length_eq.1.trans inner.length_eq.2.symm
    exact ⟨octets, attributeBytes_eq_ok_iff.mpr ⟨same ▸ small, by rw [same]⟩, inner⟩
  · rintro ⟨octets, framed, inner⟩
    obtain ⟨small, rfl⟩ := attributeBytes_eq_ok_iff.mp framed
    have same : octets.length = body.length := inner.length_eq.1.trans inner.length_eq.2.symm
    refine ⟨_, attributeBytes_eq_ok_iff.mpr ⟨same ▸ small, rfl⟩, ?_⟩
    rw [same]
    exact (Settled.keep_rfl (be16 name ++ be32 (UInt32.ofNat body.length))).append inner

namespace MethodAttribute

variable {w : Code → Except ClassError Bytes} {k : Code → List Mark}

theorem carriedOver_code_iff {name : UInt16} {c : Code} {bs : Bytes} :
    CarriedOver (writeWith w) (marks k) (.code name c) bs ↔
      ∃ octets, attributeBytes name octets = .ok bs ∧ CarriedOver w k c octets := by
  constructor
  · rintro ⟨out, written, settled⟩
    obtain ⟨body, sized, framed⟩ := bind_eq_ok_iff.mp written
    obtain ⟨octets, framed', inner⟩ := carriedOver_attributeBytes_iff.mp ⟨out, framed, settled⟩
    exact ⟨octets, framed', body, sized, inner⟩
  · rintro ⟨octets, framed, body, sized, inner⟩
    obtain ⟨out, framed', settled⟩ := carriedOver_attributeBytes_iff.mpr ⟨octets, framed, inner⟩
    exact ⟨out, bind_eq_ok_iff.mpr ⟨body, sized, framed'⟩, settled⟩

theorem carriedOver_raw_iff {r : RawAttribute} {bs : Bytes} :
    CarriedOver (writeWith w) (marks k) (.raw r) bs ↔ attributeBytes r.name r.body = .ok bs := by
  refine carriedOver_attributeBytes_iff.trans ⟨?_, fun framed => ⟨r.body, framed, Settled.keep_rfl r.body⟩⟩
  rintro ⟨octets, framed, kept⟩
  obtain rfl := (Settled.keep_iff.mp kept).1
  exact framed

/-- Whether an attribute is what some octets are read as, as the body under a name. -/
def ReadsAs (pool : ConstantPool) (name : UInt16) (octets : Bytes) : MethodAttribute → Prop
  | .code index c => index = name ∧ pool.utf8 name = .ok "Code" ∧ Code.read pool octets = .ok c
  | .raw r => r = ⟨name, octets⟩ ∧ ∃ s, pool.utf8 name = .ok s ∧ s ≠ "Code"

end MethodAttribute

namespace ClassFile

theorem accepts_namedAttribute (name : UInt16) (body : Bytes) : Accepts
    (do
      if (← (pool.utf8 name : Except ClassError String)) == "Code" then
        return .code name (← (Code.read pool body : Except ClassError Code))
      else return .raw { name, body })
    (fun _ bs (a : MethodAttribute) => bs = [] ∧ a.ReadsAs pool name body) := by
  have code := (Accepts.lift (Code.read pool body)).bind fun c => .pure (MethodAttribute.code name c)
  have raw := Accepts.pure (MethodAttribute.raw { name, body })
  refine Accepts.congr ((Accepts.lift (pool.utf8 name)).bind fun s => code.ite raw)
    fun pos bs a => ⟨?_, ?_⟩
  · rintro ⟨s, _, _, rfl, ⟨rfl, found⟩, described⟩
    simp only [beq_iff_eq] at described
    split at described
    next isCode =>
      obtain ⟨c, _, _, rfl, ⟨rfl, read⟩, rfl, rfl⟩ := described
      exact ⟨rfl, rfl, isCode ▸ found, read⟩
    next other =>
      obtain ⟨rfl, rfl⟩ := described
      exact ⟨rfl, rfl, s, found, other⟩
  · rintro ⟨rfl, described⟩
    cases a with
    | code index c =>
        obtain ⟨rfl, found, read⟩ := described
        exact ⟨"Code", [], [], rfl, ⟨rfl, found⟩, (if_pos rfl).mpr ⟨c, [], [], rfl, ⟨rfl, read⟩, rfl, rfl⟩⟩
    | raw r =>
        obtain ⟨rfl, s, found, other⟩ := described
        refine ⟨s, [], [], rfl, ⟨rfl, found⟩, ?_⟩
        simp only [beq_iff_eq]
        exact (if_neg other).mpr ⟨rfl, rfl⟩

theorem accepts_readMethodAttribute : Accepts (readMethodAttribute pool) (fun _ bs a =>
    CarriedOver (MethodAttribute.writeWith Code.writeDeclared)
      (MethodAttribute.marks Code.declaredMarks) a bs ∧ a.WellFormed pool) := by
  refine Accepts.congr (accepts_attribute accepts_namedAttribute) fun pos bs a => ?_
  cases a with
  | code name c =>
      rw [MethodAttribute.carriedOver_code_iff]
      constructor
      · rintro ⟨_, octets, framed, rfl, found, read⟩
        obtain ⟨wellFormed, carried⟩ :=
          (Code.read_eq_ok_iff (length_lt_of_attributeBytes framed)).mp read
        exact ⟨⟨octets, framed, carried⟩, found, wellFormed⟩
      · rintro ⟨⟨octets, framed, carried⟩, found, wellFormed⟩
        exact ⟨name, octets, framed, rfl, found,
          (Code.read_eq_ok_iff (length_lt_of_attributeBytes framed)).mpr ⟨wellFormed, carried⟩⟩
  | raw r =>
      rw [MethodAttribute.carriedOver_raw_iff]
      constructor
      · rintro ⟨_, _, framed, rfl, named⟩
        exact ⟨framed, named⟩
      · rintro ⟨framed, named⟩
        exact ⟨r.name, r.body, framed, rfl, named⟩

end ClassFile

theorem MethodInfo.isPlain_marks {m : MethodInfo} : ∀ k ∈ m.marks Code.declaredMarks, k.isPlain := by
  refine List.forall_mem_append.mpr ⟨isPlain_keep, List.forall_mem_append.mpr ⟨isPlain_keep, ?_⟩⟩
  intro k member
  obtain ⟨a, -, marked⟩ := List.mem_flatMap.mp member
  exact MethodAttribute.isPlain_marks k marked

theorem length_of_writeTable {α : Type} {what : String} {write : α → Except ClassError Bytes}
    {marks : α → List Mark} {as : List α} {bs : Bytes}
    (len : ∀ {a out}, write a = .ok out → out.length = (marks a).length)
    (h : Code.writeTable what write as = .ok bs) : bs.length = (keep 2 ++ as.flatMap marks).length := by
  obtain ⟨-, chunks, each, rfl⟩ := Code.writeTable_eq_ok_iff.mp h
  have total : chunks.flatten.length = (as.flatMap marks).length := by
    clear h
    induction each with
    | nil => rfl
    | cons head _ ih =>
        rw [List.flatten_cons, List.flatMap_cons, List.length_append, List.length_append, len head, ih]
  rw [List.length_append, List.length_append, total]
  rfl

theorem MethodInfo.length_write {m : MethodInfo} {out : Bytes}
    (h : m.writeWith Code.writeDeclared = .ok out) :
    out.length = (m.marks Code.declaredMarks).length := by
  simp only [writeWith, bind_eq_ok_iff, pure_eq_ok_iff] at h
  obtain ⟨table, written, rfl⟩ := h
  rw [marks, List.length_append, @List.length_append _ (keep 6),
    length_of_writeTable MethodAttribute.length_write written]
  rfl

theorem ClassFile.accepts_readMethod : Accepts (readMethod pool) (fun _ bs m =>
    CarriedOver (MethodInfo.writeWith Code.writeDeclared) (MethodInfo.marks Code.declaredMarks) m bs ∧
      m.WellFormed pool) := by
  unfold readMethod
  refine Accepts.congr (accepts_u16.bind fun access => accepts_u16.bind fun name =>
    accepts_u16.bind fun descriptor => .check <| .check <|
    .bind_assoc (accepts_carriedOver "method attributes" (fun _ => MethodAttribute.isPlain_marks)
      MethodAttribute.length_write accepts_readMethodAttribute) fun attributes =>
    .pure (MethodInfo.mk access name descriptor attributes)) fun pos bs m => ⟨?_, ?_⟩
  · rintro ⟨access, _, _, rfl, rfl, name, _, _, rfl, rfl, descriptor, _, _, rfl, rfl, named, ⟨d, typed⟩,
      attributes, as, _, rfl, ⟨⟨table, written, settled⟩, all⟩, rfl, rfl⟩
    obtain ⟨s, found, parsed⟩ := bind_eq_ok_iff.mp typed
    refine ⟨⟨be16 access ++ be16 name ++ be16 descriptor ++ table, ?_, ?_⟩, named, ⟨s, d, found, parsed⟩,
      all⟩
    · simp only [MethodInfo.writeWith, bind_eq_ok_iff, pure_eq_ok_iff]
      exact ⟨table, written, rfl⟩
    · rw [List.append_nil, ← List.append_assoc, ← List.append_assoc]
      exact (Settled.keep_rfl (be16 access ++ be16 name ++ be16 descriptor)).append settled
  · rintro ⟨⟨out, written, settled⟩, named, ⟨s, d, found, parsed⟩, all⟩
    simp only [MethodInfo.writeWith, bind_eq_ok_iff, pure_eq_ok_iff] at written
    obtain ⟨table, written, rfl⟩ := written
    obtain ⟨as, rfl, rest⟩ := (Settled.append_kept_iff
      (be16 m.access ++ be16 m.name ++ be16 m.descriptor) rfl).mp settled
    refine ⟨m.access, _, _, ?_, rfl, m.name, _, _, rfl, rfl, m.descriptor, _, _, rfl, rfl, named,
      ⟨d, bind_eq_ok_iff.mpr ⟨s, found, parsed⟩⟩, m.attributes, as, [], (List.append_nil _).symm,
      ⟨⟨table, written, rest⟩, all⟩, rfl, rfl⟩
    simp only [List.append_assoc]

end

/-! ### Classes -/

namespace ClassFile

/-- A class as it is when it was read. -/
structure WellFormed (c : ClassFile) : Prop where
  major : oldestMajor ≤ c.major ∧ c.major ≤ maxMajorVersion
  pool : c.pool.WellFormed
  thisClass : ∃ s, c.pool.className c.thisClass = .ok s
  superClass : c.superClass = 0 ∨ ∃ s, c.pool.className c.superClass = .ok s
  interfaces : ∀ i ∈ c.interfaces, ∃ s, c.pool.className i = .ok s
  fields : ∀ f ∈ c.fields, f.WellFormed c.pool
  methods : ∀ m ∈ c.methods, m.WellFormed c.pool
  attributes : ∀ a ∈ c.attributes, c.pool.IsText a.name

/-- The octets of a class, given those of method bodies. -/
def writeWith (body : MethodInfo → Code → Except ClassError Bytes) (c : ClassFile) :
    Except ClassError Bytes := do
  let pool ← c.pool.write
  let interfaces ← Code.writeTable "interfaces" (fun i => .ok (be16 i)) c.interfaces
  let fields ← Code.writeTable "fields" writeField c.fields
  let methods ← Code.writeTable "methods" (fun m => m.writeWith (body m)) c.methods
  let attributes ← writeRaws c.attributes
  return be32 magic ++ be16 c.minor ++ be16 c.major ++ pool ++ be16 c.access ++
    be16 c.thisClass ++ be16 c.superClass ++ interfaces ++ fields ++ methods ++ attributes

/-- The octets of a class in front of its methods. -/
def front (c : ClassFile) (pool interfaces fields : Bytes) : Bytes :=
  be32 magic ++ (be16 c.minor ++ (be16 c.major ++ (pool ++ (be16 c.access ++ (be16 c.thisClass ++
    (be16 c.superClass ++ (interfaces ++ fields)))))))

/-- The octets of the parts of a class around its methods. -/
structure Written (c : ClassFile) (pool interfaces fields attributes : Bytes) : Prop where
  pool : c.pool.write = .ok pool
  interfaces : Code.writeTable "interfaces" (fun i => .ok (be16 i)) c.interfaces = .ok interfaces
  fields : Code.writeTable "fields" writeField c.fields = .ok fields
  attributes : writeRaws c.attributes = .ok attributes

theorem writeWith_eq_ok_iff {body : MethodInfo → Code → Except ClassError Bytes} {c : ClassFile}
    {out : Bytes} : c.writeWith body = .ok out ↔ ∃ pool interfaces fields methods attributes,
      c.Written pool interfaces fields attributes ∧
      Code.writeTable "methods" (fun m => m.writeWith (body m)) c.methods = .ok methods ∧
      out = c.front pool interfaces fields ++ (methods ++ attributes) := by
  simp only [writeWith, bind_eq_ok_iff, pure_eq_ok_iff, front, List.append_assoc]
  constructor
  · rintro ⟨pool, pooled, interfaces, interfaced, fields, fielded, methods, written, attributes,
      attributed, rfl⟩
    exact ⟨pool, interfaces, fields, methods, attributes, ⟨pooled, interfaced, fielded, attributed⟩,
      written, rfl⟩
  · rintro ⟨pool, interfaces, fields, methods, attributes, parts, written, rfl⟩
    exact ⟨pool, parts.pool, interfaces, parts.interfaces, fields, parts.fields, methods, written,
      attributes, parts.attributes, rfl⟩

/-- What becomes of the octets of a class, given what becomes of those of method bodies. -/
def marksWith (body : MethodInfo → Code → List Mark) (c : ClassFile) : List Mark :=
  keep (14 + writtenLength c.pool.write +
      writtenLength (Code.writeTable "interfaces" (fun i => .ok (be16 i)) c.interfaces) +
      writtenLength (Code.writeTable "fields" writeField c.fields)) ++
    ((keep 2 ++ c.methods.flatMap fun m => m.marks (body m)) ++
      keep (writtenLength (writeRaws c.attributes)))

theorem marksWith_eq {body : MethodInfo → Code → List Mark} {c : ClassFile}
    {pool interfaces fields attributes : Bytes} (h : c.Written pool interfaces fields attributes) :
    c.marksWith body = keep (c.front pool interfaces fields).length ++
      ((keep 2 ++ c.methods.flatMap fun m => m.marks (body m)) ++ keep attributes.length) := by
  have total : 14 + pool.length + interfaces.length + fields.length =
      (c.front pool interfaces fields).length := by
    simp only [front, List.length_append, be16_length, be32_length]
    omega
  rw [marksWith, h.pool, h.interfaces, h.fields, h.attributes]
  simp only [writtenLength, total]

theorem Written.unique {c : ClassFile} {ps is fs as ps' is' fs' as' : Bytes}
    (h : c.Written ps is fs as) (h' : c.Written ps' is' fs' as') :
    ps = ps' ∧ is = is' ∧ fs = fs' ∧ as = as' :=
  ⟨Except.ok.inj (h.pool.symm.trans h'.pool), Except.ok.inj (h.interfaces.symm.trans h'.interfaces),
    Except.ok.inj (h.fields.symm.trans h'.fields),
    Except.ok.inj (h.attributes.symm.trans h'.attributes)⟩

theorem isPlain_methods {ms : List MethodInfo} :
    ∀ k ∈ keep 2 ++ ms.flatMap (MethodInfo.marks Code.declaredMarks), k.isPlain := by
  refine List.forall_mem_append.mpr ⟨isPlain_keep, fun k member => ?_⟩
  obtain ⟨m, -, marked⟩ := List.mem_flatMap.mp member
  exact MethodInfo.isPlain_marks k marked

/-- A class is read from exactly the octets that it is written as with the sizes it declares, up to
reserved octets, if it is well formed. -/
theorem accepts_readParts : Accepts readParts (fun _ bs c =>
    CarriedOver (writeWith fun _ => Code.writeDeclared) (marksWith fun _ => Code.declaredMarks) c bs ∧
      c.WellFormed) := by
  unfold readParts
  dsimp only
  refine Accepts.congr (accepts_u32.bind fun found => .refuse ((fails_fault _).bind _) <|
    accepts_u16.bind fun minor => accepts_u16.bind fun major => .refuse ((fails_throw _).bind _) <|
    .refuse ((fails_fault _).bind _) <| ConstantPool.accepts_read.bind fun pool =>
    accepts_u16.bind fun access => accepts_u16.bind fun thisClass => accepts_u16.bind fun superClass =>
    .check <| .checkIf <| .bind_assoc (Code.accepts_table "interfaces" accepts_readClass)
    fun interfaces => .bind_assoc (Code.accepts_table "fields" accepts_readField) fun fields =>
    .bind_assoc (accepts_carriedOver "methods" (fun _ => MethodInfo.isPlain_marks)
      MethodInfo.length_write accepts_readMethod) fun methods => accepts_readRaws.bind fun attributes =>
    .pure (ClassFile.mk minor major pool access thisClass superClass interfaces fields methods
      attributes)) fun pos bs c => ⟨?_, ?_⟩
  · rintro ⟨found, _, _, rfl, rfl, magical, minor, _, _, rfl, rfl, major, _, _, rfl, rfl, recent, old,
      pool, ps, _, rfl, ⟨pooled, linked⟩, members⟩
    obtain ⟨access, _, _, rfl, rfl, thisClass, _, _, rfl, rfl, superClass, _, _, rfl, rfl, named, super,
      interfaces, is, _, rfl, ⟨interfaced, classes⟩, fields, fs, _, rfl, ⟨fielded, right⟩, members⟩ :=
      members
    obtain ⟨methods, ms, _, rfl, ⟨⟨written, encoded, settled⟩, sound⟩, attributes, as, _, rfl,
      ⟨attributed, texts⟩, rfl, rfl⟩ := members
    obtain rfl := not_not.mp magical
    let c := ClassFile.mk minor major pool access thisClass superClass interfaces fields methods attributes
    have parts : c.Written ps is fs as := ⟨pooled, interfaced, fielded, attributed⟩
    refine ⟨⟨c.front ps is fs ++ (written ++ as), ?_, ?_⟩, ⟨?_, linked, named, ?_, classes, right, sound,
      texts⟩⟩
    · exact writeWith_eq_ok_iff.mpr ⟨ps, is, fs, written, as, parts, encoded, rfl⟩
    · have whole := (Settled.keep_rfl (c.front ps is fs)).append (settled.append (Settled.keep_rfl as))
      rw [marksWith_eq parts]
      simpa only [front, List.append_assoc, List.append_nil] using whole
    · exact ⟨UInt16.not_lt.mp old, UInt16.not_lt.mp recent⟩
    · exact or_iff_not_imp_left.mpr super
  · rintro ⟨⟨out, whole, settled⟩, wellFormed⟩
    obtain ⟨ps, is, fs, written, as, parts, encoded, rfl⟩ := writeWith_eq_ok_iff.mp whole
    rw [marksWith_eq parts] at settled
    obtain ⟨_, rfl, rest⟩ := (Settled.append_kept_iff (c.front ps is fs) rfl).mp settled
    obtain ⟨ms, as', rfl, methods, kept⟩ := (Settled.append_written_iff isPlain_methods
      (length_of_writeTable MethodInfo.length_write encoded)).mp rest
    obtain rfl : as' = as := (Settled.keep_iff.mp kept).1
    refine ⟨magic, _, _, ?_, rfl, not_not.mpr rfl, c.minor, _, _, rfl, rfl, c.major, _, _, rfl, rfl,
      UInt16.not_lt.mpr wellFormed.major.2, UInt16.not_lt.mpr wellFormed.major.1, c.pool, ps, _, rfl,
      ⟨parts.pool, wellFormed.pool⟩, c.access, _, _, rfl, rfl, c.thisClass, _, _, rfl, rfl, c.superClass,
      _, _, rfl, rfl, wellFormed.thisClass, or_iff_not_imp_left.mp wellFormed.superClass, c.interfaces, is,
      _, rfl, ⟨parts.interfaces, wellFormed.interfaces⟩, c.fields, fs, _, rfl,
      ⟨parts.fields, wellFormed.fields⟩, c.methods, ms, _, rfl,
      ⟨⟨written, encoded, methods⟩, wellFormed.methods⟩, c.attributes, as', [], (List.append_nil _).symm,
      ⟨parts.attributes, wellFormed.attributes⟩, rfl, rfl⟩
    simp only [front, List.append_assoc]

/-- A class that was read is well formed. -/
theorem wellFormed_of_decode {data : Bytes} {c : ClassFile} (read : decode data = .ok c) : c.WellFormed :=
  (accepts_readParts.onAll_sound read).2

/-- Which octets are read as a class. Only as many as there are positions can be read at all. -/
theorem decode_eq_ok_iff {data : Bytes} {c : ClassFile} (fits : data.length < positionLimit) :
    decode data = .ok c ↔ c.WellFormed ∧ ∃ out, c.writeWith (fun _ => Code.writeDeclared) = .ok out ∧
      Settled (c.marksWith fun _ => Code.declaredMarks) data out := by
  constructor
  · intro h
    obtain ⟨carried, wellFormed⟩ := accepts_readParts.onAll_sound h
    exact ⟨wellFormed, carried⟩
  · rintro ⟨wellFormed, carried⟩
    exact accepts_readParts.onAll_complete ⟨carried, wellFormed⟩ fits

end ClassFile

end JarGate
