import JarGate.Proofs.Archive.Deflate
import JarGate.Proofs.Archive.Package
import JarGate.Proofs.Archive.Records

/-!
# Archives are read back

An archive of entries that need no further fields is read as just these entries. So names, order and
contents are kept by writing and reading, which is what everything about whole archives rests on.
-/

namespace JarGate

namespace Archive

/-- How a name is read under some flags. -/
def textUnder (flags : Nat) (octets : Bytes) : String :=
  if hasFlag flags utf8Flag then Text.Utf8.decodeLossy octets else Text.CodePage437.decode octets

/-- Whether an entry is told completely by the records of an archive, without further fields. -/
structure StoredEntry.Plain (e : StoredEntry) : Prop where
  unlocked : e.locked = false
  complete : e.data.length = e.length
  size : e.size < longLimit
  length : e.length < longLimit
  name : e.nameBytes.length ≤ shortLimit
  text : textUnder e.flags e.nameBytes = e.name
  code : e.method.code ≤ shortLimit ∧ e.method.code ≠ cipherMethod
  method : Method.ofCode e.method.code = e.method
  words : e.modified.timeWord ≤ shortLimit ∧ e.modified.dateWord ≤ shortLimit
  modified : Timestamp.ofWords? e.modified.dateWord e.modified.timeWord = some e.modified

instance (e : StoredEntry) : Decidable e.Plain :=
  decidable_of_iff (e.locked = false ∧ e.data.length = e.length ∧ e.size < longLimit ∧
      e.length < longLimit ∧ e.nameBytes.length ≤ shortLimit ∧ textUnder e.flags e.nameBytes = e.name ∧
      (e.method.code ≤ shortLimit ∧ e.method.code ≠ cipherMethod) ∧
      Method.ofCode e.method.code = e.method ∧
      (e.modified.timeWord ≤ shortLimit ∧ e.modified.dateWord ≤ shortLimit) ∧
      Timestamp.ofWords? e.modified.dateWord e.modified.timeWord = some e.modified)
    ⟨fun ⟨unlocked, complete, size, length, name, text, code, method, words, modified⟩ =>
        ⟨unlocked, complete, size, length, name, text, code, method, words, modified⟩,
      fun h => ⟨h.unlocked, h.complete, h.size, h.length, h.name, h.text, h.code, h.method, h.words,
        h.modified⟩⟩

namespace StoredEntry.Plain

variable {e : StoredEntry}

theorem wideNumbers_eq (h : e.Plain) : e.wideNumbers = [] := by
  have small : e.isLarge = false := by
    have bound : ¬ longLimit < max e.size e.length := by
      have size := h.size
      have length := h.length
      omega
    exact decide_eq_false bound
  have given : ([e.size, e.length].filter fun n => e.shortened n == longLimit) = [] := by
    have size := Nat.ne_of_lt h.size
    have length := Nat.ne_of_lt h.length
    simp [shortened, small, size, length]
  rw [wideNumbers, given]
  rfl

theorem shortened_eq (h : e.Plain) (n : Nat) : e.shortened n = n := by
  have bound : ¬ longLimit < max e.size e.length := by
    have size := h.size
    have length := h.length
    omega
  have small : e.isLarge = false := decide_eq_false bound
  rw [shortened, small]
  rfl

end StoredEntry.Plain

theorem flags_cases (e : StoredEntry) : e.flags = 0 ∨ e.flags = utf8Flag := by
  rw [StoredEntry.flags]
  split
  · exact .inl rfl
  · exact .inr rfl

/-! ### One entry -/

section

variable {bytes : Array UInt8} {position offset : Nat} {e : StoredEntry}

/-- What the directory says of an entry. -/
def described (e : StoredEntry) (offset : Nat) : DirectoryLine where
  name := e.name
  nameBytes := e.nameBytes
  comment := ""
  method := e.method.code
  encrypted := false
  cipherGiven := false
  modified := e.modified
  crc := e.crc
  size := e.size
  length := e.length
  offset := offset

theorem sharedValues_eq (h : e.Plain) : e.sharedValues =
    [20, e.flags, e.method.code, e.modified.timeWord, e.modified.dateWord, e.crc.toNat, e.length, e.size,
      e.nameBytes.length, 0] := by
  rw [StoredEntry.sharedValues, StoredEntry.formatVersion, h.wideNumbers_eq, h.shortened_eq, h.shortened_eq]
  rfl

theorem record_eq (h : e.Plain) :
    e.record = Layout.entry.write e.sharedValues ++ (e.nameBytes ++ e.data) := by
  rw [StoredEntry.record, h.wideNumbers_eq, List.append_nil, List.append_assoc]

theorem line_eq (h : e.Plain) : e.line offset =
    Layout.line.write (20 :: e.sharedValues ++ [0, 0, 0, 0, offset]) ++ e.nameBytes := by
  rw [StoredEntry.line, StoredEntry.formatVersion, h.wideNumbers_eq, List.append_nil]
  rfl

theorem fit_sharedValues (h : e.Plain) : Layout.entry.Fit e.sharedValues := by
  have flags : e.flags < 256 ^ 2 := by
    rcases flags_cases e with same | same <;> rw [same] <;> decide
  have code : e.method.code < 256 ^ 2 := Nat.lt_succ_of_le h.code.1
  have time : e.modified.timeWord < 256 ^ 2 := Nat.lt_succ_of_le h.words.1
  have date : e.modified.dateWord < 256 ^ 2 := Nat.lt_succ_of_le h.words.2
  have crc : e.crc.toNat < 256 ^ 4 := e.crc.toNat_lt
  have length : e.length < 256 ^ 4 := h.length.trans (by decide)
  have size : e.size < 256 ^ 4 := h.size.trans (by decide)
  have name : e.nameBytes.length < 256 ^ 2 := Nat.lt_succ_of_le h.name
  rw [sharedValues_eq h]
  exact .cons (by decide) (.cons flags (.cons code (.cons time (.cons date (.cons crc (.cons length
    (.cons size (.cons name (.cons (by decide) .nil)))))))))

theorem fit_line (h : e.Plain) (near : offset ≤ longLimit) :
    Layout.line.Fit (20 :: e.sharedValues ++ [0, 0, 0, 0, offset]) := by
  have tail : List.Forall₂ (fun width value => value < 256 ^ width)
      [2, 2, 2, 4, 4] [0, 0, 0, 0, offset] :=
    .cons (by decide) (.cons (by decide) (.cons (by decide) (.cons (by decide)
      (.cons (Nat.lt_succ_of_le near) .nil))))
  exact .cons (by decide) (List.rel_append (fit_sharedValues h) tail)

/-- The line of an entry is read where it stands. -/
theorem at?_of_stands (h : e.Plain) (near : offset ≤ longLimit)
    (stands : Stands bytes position (e.line offset)) :
    DirectoryLine.at? bytes position =
      some ⟨described e offset, [], position + (e.line offset).length⟩ := by
  rw [line_eq h] at stands
  obtain ⟨record, name⟩ := Stands.append_iff.mp stands
  have fit := fit_line h near
  have length : (Layout.line.write (20 :: e.sharedValues ++ [0, 0, 0, 0, offset])).length =
      Layout.line.size :=
    Layout.length_write fit.length_eq.symm
  have values := Layout.at?_of_stands fit record
  have inside := stands.le_size nofun
  rw [List.length_append, length, ← Nat.add_assoc] at inside
  rw [length] at name
  rw [sharedValues_eq h] at values
  have stop : position + (e.line offset).length = position + Layout.line.size + e.nameBytes.length := by
    rw [line_eq h, List.length_append, length, Nat.add_assoc]
  have empty (start : Nat) : slice bytes start start = [] := by simp [slice]
  have comment : textUnder e.flags [] = "" := by
    rw [textUnder]
    split <;> rfl
  have unlocked : hasFlag e.flags encryptedFlag = false := by
    rcases flags_cases e with same | same <;> rw [same] <;> decide
  have text := h.text
  rw [textUnder] at text comment
  rw [DirectoryLine.at?, values, stop]
  simp only [Option.bind_eq_bind, Option.bind_some, List.cons_append, List.nil_append, Nat.add_zero,
    name.slice, empty, text, comment, unlocked, h.modified, Option.getD_some, UInt32.ofNat_toNat]
  exact if_pos inside

/-- An entry is read where it stands and where its line says that it does. -/
theorem entryOf?_of_stands {start lines : Nat} (h : e.Plain) (stands : Stands bytes offset e.record)
    (before : offset + e.record.length ≤ start) :
    entryOf? bytes ⟨0, start, lines⟩ (described e offset) = some e := by
  have fit := fit_sharedValues h
  have length : (Layout.entry.write e.sharedValues).length = Layout.entry.size :=
    Layout.length_write fit.length_eq.symm
  have positive : 0 < Layout.entry.size := by decide
  rw [record_eq h] at stands before
  rw [List.length_append, List.length_append, length] at before
  obtain ⟨record, behind⟩ := Stands.append_iff.mp stands
  obtain ⟨-, data⟩ := Stands.append_iff.mp behind
  rw [length] at data
  have values := Layout.at?_of_stands fit record
  rw [sharedValues_eq h] at values
  have place : dataStart? bytes offset = some (offset + Layout.entry.size + e.nameBytes.length) := by
    rw [dataStart?, values]
    rfl
  have content := data.slice
  rw [h.complete] at content before
  have open_ : ¬(e.method.code = cipherMethod ∧ (!false) = true) := fun locked => h.code.2 locked.1
  have inside : ¬ start ≤ offset := by omega
  have ends : ¬ start < offset + Layout.entry.size + e.nameBytes.length := by omega
  rw [entryOf?]
  simp only [described, Nat.add_zero, place, Option.bind_eq_bind, Option.bind_some, content]
  rw [if_neg open_, if_neg inside, if_neg ends, h.method]
  have whole : { e with locked := false } = e := by rw [← h.unlocked]
  exact congrArg some whole

/-- The entries are read where their lines and they themselves stand. -/
theorem entriesFrom?_of_stands {start : Nat} (lines : Nat) {es : List StoredEntry}
    (plain : ∀ e ∈ es, e.Plain)
    (records : Stands bytes offset (es.flatMap StoredEntry.record))
    (before : offset + (es.flatMap StoredEntry.record).length ≤ start) (near : start ≤ longLimit)
    (listed : Stands bytes position (linesFrom offset es).flatten) :
    entriesFrom? bytes ⟨0, start, lines⟩ position es.length = some es := by
  induction es generalizing offset position with
  | nil => rfl
  | cons e es ih =>
      rw [List.forall_mem_cons] at plain
      rw [List.flatMap_cons, List.length_append] at before
      obtain ⟨record, records⟩ := Stands.append_iff.mp records
      obtain ⟨line, listed⟩ := Stands.append_iff.mp listed
      have here : offset ≤ longLimit := by omega
      have inside : offset + e.record.length ≤ start := by omega
      have rest := ih plain.2 records (by omega) listed
      have amended : ExtraField.amended? [] (described e offset) = some (described e offset) := rfl
      rw [List.length_cons, entriesFrom?, at?_of_stands plain.1 here line]
      simp only [Option.bind_eq_bind, Option.bind_some, amended, entryOf?_of_stands plain.1 record inside,
        rest]
      rfl

end

/-! ### Whole archives -/

/-- Entries with distinct names are put behind one another. -/
theorem foldl_place {es done : List StoredEntry} (distinct : ((done ++ es).map (·.name)).Nodup) :
    es.foldl place done = done ++ es := by
  induction es generalizing done with
  | nil => rw [List.foldl_nil, List.append_nil]
  | cons e es ih =>
      have fresh : ¬ done.any (·.name == e.name) = true := by
        rw [List.any_eq_true]
        rintro ⟨old, member, same⟩
        rw [List.map_append, List.map_cons] at distinct
        have apart := List.disjoint_of_nodup_append distinct
        refine apart (List.mem_map_of_mem member) ?_
        rw [eq_of_beq same]
        exact List.mem_cons_self ..
      have step : place done e = done ++ [e] := by
        rw [place]
        exact if_neg fresh
      rw [List.foldl_cons, step, ih (by simpa using distinct), List.append_assoc]
      rfl

/-- The entries of an archive with their headers. -/
def records (es : List StoredEntry) : Bytes := es.flatMap StoredEntry.record

/-- The directory of an archive. -/
def directory (es : List StoredEntry) : Bytes := (linesFrom 0 es).flatten

/-- What the end record of an archive says. -/
def endValues (es : List StoredEntry) : List Nat :=
  [0, 0, es.length, es.length, (directory es).length, (records es).length, 0]

/-- Whether entries fit an archive without wide numbers. -/
structure Writable (es : List StoredEntry) : Prop where
  plain : ∀ e ∈ es, e.Plain
  distinct : (es.map (·.name)).Nodup
  few : es.length < shortLimit
  near : (records es).length < longLimit
  short : (directory es).length ≤ longLimit

instance (es : List StoredEntry) : Decidable (Writable es) :=
  decidable_of_iff ((∀ e ∈ es, e.Plain) ∧ (es.map (·.name)).Nodup ∧ es.length < shortLimit ∧
      (records es).length < longLimit ∧ (directory es).length ≤ longLimit)
    ⟨fun ⟨plain, distinct, few, near, short⟩ => ⟨plain, distinct, few, near, short⟩,
      fun h => ⟨h.plain, h.distinct, h.few, h.near, h.short⟩⟩

section

variable {es : List StoredEntry} {bytes : Array UInt8} {position : Nat}

theorem encode_eq (h : Writable es) :
    encode es = records es ++ (directory es ++ Layout.endRecord.write (endValues es)) := by
  have few := h.few
  have count : min es.length shortLimit = es.length := by omega
  have narrow (length offset : Nat) : wideEnd es.length length offset = [] := if_neg (by omega)
  rw [encode]
  simp only [count, narrow, List.append_nil, List.append_assoc]
  rfl

theorem fit_endValues (h : Writable es) : Layout.endRecord.Fit (endValues es) := by
  have count : es.length < 256 ^ 2 := h.few.trans (by decide)
  have length : (directory es).length < 256 ^ 4 := Nat.lt_succ_of_le h.short
  have offset : (records es).length < 256 ^ 4 := h.near.trans (by decide)
  exact .cons (by decide) (.cons (by decide) (.cons count (.cons count (.cons length
    (.cons offset (.cons (by decide) .nil))))))

/-- What the end record of an archive leads to. -/
def endOf (es : List StoredEntry) : EndRecord :=
  ⟨0, 0, es.length, es.length, (records es).length⟩

/-- The directory of an archive that has entries starts with the mark of a line. -/
theorem marks_directory (plain : ∀ e ∈ es, e.Plain) (filled : es ≠ [])
    (listed : Stands bytes position (directory es)) :
    Layout.line.marks bytes position = true ∧ 0 < (directory es).length := by
  obtain ⟨e, rest, rfl⟩ := List.exists_cons_of_ne_nil filled
  have line := (Stands.append_iff.mp listed).1
  rw [line_eq (plain e (List.mem_cons_self ..))] at line
  refine ⟨Layout.marks_of_stands (Stands.append_iff.mp line).1, ?_⟩
  rw [directory, linesFrom, List.flatten_cons, line_eq (plain e (List.mem_cons_self ..)), Layout.write]
  simp [Layout.line]

/-- No archive ends where there is no room for an end record. -/
theorem entriesBefore?_eq_none (beyond : bytes.size < position + Layout.endRecord.size) :
    entriesBefore? bytes position = none := by
  have nothing : Layout.endRecord.at? bytes position = none := by
    cases read : Layout.endRecord.at? bytes position with
    | none => rfl
    | some values =>
        have room := Layout.le_of_at? (by decide) read
        omega
  rw [entriesBefore?, Directory.before?, EndRecord.at?, nothing]
  rfl

/-- The directory is found where it stands. -/
theorem before?_eq (h : Writable es)
    (stop : EndRecord.at? bytes ((records es).length + (directory es).length) = some (endOf es))
    (listed : Stands bytes (records es).length (directory es)) :
    Directory.before? bytes ((records es).length + (directory es).length) =
      some ⟨0, (records es).length, es.length⟩ := by
  have narrow : (endOf es).isFull = false := by
    have few : (es.length == shortLimit) = false := beq_eq_false_iff_ne.mpr (Nat.ne_of_lt h.few)
    have near : ((records es).length == longLimit) = false :=
      beq_eq_false_iff_ne.mpr (Nat.ne_of_lt h.near)
    rw [EndRecord.isFull, endOf, few, near]
    rfl
  have found : (endOf es).directory? bytes ((records es).length + (directory es).length) =
      some ⟨0, (records es).length, es.length⟩ := by
    by_cases filled : es = []
    · subst filled
      rfl
    · have entries : (endOf es).entries ≠ 0 := fun none_ => filled (List.length_eq_zero_iff.mp none_)
      obtain ⟨mark, more⟩ := marks_directory h.plain filled listed
      have distance : (records es).length + (directory es).length - (endOf es).offset =
          (directory es).length - 1 + 1 := by
        rw [endOf]
        dsimp only
        omega
      rw [EndRecord.directory?, if_neg entries, distance, firstFrom?]
      simp only [endOf, mark, if_true, Option.map_some, Option.bind_eq_bind, Option.bind_some,
        Nat.sub_self, Nat.add_zero]
      rfl
  rw [Directory.before?, stop]
  simp only [Option.bind_eq_bind, Option.bind_some, narrow, Bool.false_eq_true, false_and, if_false]
  exact found

/-- An archive is read as the entries that it was written for. -/
theorem decode?_encode (h : Writable es) : decode? (encode es) = some es := by
  have fit := fit_endValues h
  have length := Layout.length_write fit.length_eq.symm
  have positive : 0 < Layout.endRecord.size := by decide
  have whole : Stands (encode es).toArray 0 (encode es) := List.prefix_rfl
  have size : (encode es).toArray.size =
      (records es).length + (directory es).length + Layout.endRecord.size := by
    rw [List.size_toArray, encode_eq h, List.length_append, List.length_append, length, Nat.add_assoc]
  rw [decode?]
  generalize (encode es).toArray = bytes at whole size
  rw [encode_eq h, Stands.append_iff, Stands.append_iff, Nat.zero_add] at whole
  obtain ⟨first, listed, stop⟩ := whole
  have record : EndRecord.at? bytes ((records es).length + (directory es).length) = some (endOf es) := by
    rw [EndRecord.at?, Layout.at?_of_stands fit stop]
    simp only [endValues, Option.bind_eq_bind, Option.bind_some, Nat.add_zero]
    exact if_pos size.ge
  have entries : entriesBefore? bytes ((records es).length + (directory es).length) = some es := by
    have read : entriesFrom? bytes ⟨0, (records es).length, es.length⟩ (records es).length es.length =
        some es :=
      entriesFrom?_of_stands es.length h.plain first (Nat.zero_add _).le h.near.le listed
    rw [entriesBefore?, before?_eq h record listed]
    simp only [Option.bind_eq_bind, Option.bind_some]
    rw [read]
    exact congrArg some (foldl_place h.distinct)
  exact lastBelow?_eq_some entries (by omega) fun i after _ => entriesBefore?_eq_none (by omega)

end

/-- The content of an entry that was made for it. -/
theorem StoredEntry.content?_ofContent (name : String) (content : Bytes) :
    (ofContent name content).content? = some content := by
  have expanded : (ofContent name content).expanded? = some content := inflate?_deflate content
  rw [content?, expanded]
  simp [ofContent]

end Archive

/-- An entry holds the same content when it was written and read. -/
theorem PackageEntry.content_ofStored (e : PackageEntry) : (ofStored e.stored).content = e.content := by
  obtain ⟨path, payload⟩ := e
  cases payload with
  | kept stored => rfl
  | given content =>
      have read := Archive.StoredEntry.content?_ofContent path content
      simp only [ofStored, stored, PackageEntry.content, read]

/-- The archive of a package is read back, if it fits an archive without wide numbers. -/
theorem Package.readBack_of_writable {p : Package} (named : ∀ e ∈ p.entries, e.stored.name = e.path)
    (h : Archive.Writable (p.entries.map (·.stored))) :
    p.ReadBack (.ofStored (p.entries.map (·.stored))) where
  opened := by rw [ofBytes, toBytes, Archive.decode?_encode h]
  paths := by
    rw [paths_eq, paths_eq, entries_ofStored, List.map_map, List.map_map]
    exact List.map_congr_left named
  contents path := by
    have found : find? (.ofStored (p.entries.map (·.stored))) path =
        (p.find? path).map fun e => .ofStored e.stored := by
      rw [find?, find?, entries_ofStored, List.map_map, List.find?_map]
      congr 1
      refine List.find?_congr fun e member => ?_
      change (e.stored.name == path) = (e.path == path)
      rw [named e member]
    rw [read, read, found]
    cases p.find? path with
    | none => rfl
    | some e => exact e.content_ofStored

end JarGate
