import JarGate.Proofs.Format.RoundTrip

/-!
# Octets that are missing or left over

A decoder takes octets from the front, in their order. Octets behind those that it takes make no
difference to it, and where octets at the end are missing it either does not need them or runs out of
octets. So no file of a class starts with another one: a file that is cut off anywhere runs out of
octets, and one with octets behind it has octets left over.

A method body and the tables in it are read from octets that were taken before as a whole, by the length
in front of them. A cut inside of them is therefore noticed where these octets are taken, and nothing is
said here about the readers inside.
-/

namespace JarGate

variable {α β : Type}

namespace Decoder

/-- Whether reading stopped because octets were missing. -/
def RanOut (result : Except ClassError α) : Prop :=
  ∃ offset wanted left, result = .error (.malformed (.truncated offset wanted left))

/-- The outcome of reading, with more octets behind those that were not taken. -/
def withMore (more : Bytes) (result : Except ClassError (α × Cursor)) : Except ClassError (α × Cursor) :=
  result.map fun (a, c) => (a, ⟨c.pos, c.rest ++ more⟩)

/-- Whether a decoder takes octets from the front in their order: with more octets behind, it does the
same, unless it ran out of octets before. -/
def Sequential (d : Decoder α) : Prop :=
  ∀ pos bs more, RanOut (d ⟨pos, bs⟩) ∨ d ⟨pos, bs ++ more⟩ = withMore more (d ⟨pos, bs⟩)

namespace Sequential

theorem pure (a : α) : Sequential (Pure.pure a) := by
  intro pos bs more
  exact .inr rfl

/-- A computation that reads nothing. -/
theorem lift (x : Except ClassError α) : Sequential (liftM x : Decoder α) := by
  intro pos bs more
  right
  cases x with
  | error e => rfl
  | ok a => rfl

theorem throw (e : ClassError) : Sequential (MonadExcept.throw e : Decoder α) := by
  intro pos bs more
  exact .inr rfl

theorem fault (why : Fault) : Sequential (Decoder.fault why : Decoder α) :=
  throw _

/-- Parts one after another. The second part starts where the first one stopped, so it has the same
octets behind it. -/
theorem bind {d : Decoder α} {f : α → Decoder β} (first : Sequential d)
    (next : ∀ a, Sequential (f a)) : Sequential (d >>= f) := by
  intro pos bs more
  change RanOut (d ⟨pos, bs⟩ >>= fun p => f p.1 p.2) ∨
    (d ⟨pos, bs ++ more⟩ >>= fun p => f p.1 p.2) =
      withMore more (d ⟨pos, bs⟩ >>= fun p => f p.1 p.2)
  rcases first pos bs more with ⟨offset, wanted, left, short⟩ | same
  · left
    rw [short]
    exact ⟨offset, wanted, left, rfl⟩
  · rw [same]
    cases d ⟨pos, bs⟩ with
    | error e => exact .inr rfl
    | ok p =>
        obtain ⟨a, c⟩ := p
        exact next a c.pos c.rest more

/-- A value that is computed from what was read. -/
theorem value {d : Decoder α} (h : Sequential d) (f : α → β) : Sequential (do return f (← d)) :=
  h.bind fun a => pure (f a)

/-- A value that is computed from two parts. -/
theorem values {γ : Type} {d : Decoder α} {e : Decoder β} (first : Sequential d) (second : Sequential e)
    (f : α → β → γ) : Sequential (do return f (← d) (← e)) :=
  first.bind fun a => second.value (f a)

/-- A failure, whatever would follow it. -/
theorem stop {γ : Type} (e : ClassError) (f : γ → Decoder β) :
    Sequential (MonadExcept.throw e >>= f) := by
  intro pos bs more
  exact .inr rfl

/-- Alternatives that are chosen between without reading. -/
theorem ite {p : Prop} [Decidable p] {d e : Decoder α} (yes : Sequential d) (no : Sequential e) :
    Sequential (if p then d else e) := by
  by_cases test : p
  · rwa [if_pos test]
  · rwa [if_neg test]

end Sequential

/-! ### Numbers and runs of octets -/

theorem sequential_u8 : Sequential u8 := by
  intro pos bs more
  cases bs with
  | nil => exact .inl ⟨pos, 1, 0, rfl⟩
  | cons a rest => exact .inr rfl

theorem sequential_u16 : Sequential u16 := by
  intro pos bs more
  rcases bs with _ | ⟨a, _ | ⟨b, rest⟩⟩
  · exact .inl ⟨pos, 2, 0, rfl⟩
  · exact .inl ⟨pos, 2, 1, rfl⟩
  · exact .inr rfl

theorem sequential_u32 : Sequential u32 := by
  intro pos bs more
  rcases bs with _ | ⟨a, _ | ⟨b, _ | ⟨c, _ | ⟨d, rest⟩⟩⟩⟩
  iterate 4 exact .inl ⟨pos, 4, _, rfl⟩
  exact .inr rfl

theorem sequential_u64 : Sequential u64 := by
  intro pos bs more
  rcases bs with _ | ⟨b0, _ | ⟨b1, _ | ⟨b2, _ | ⟨b3, _ | ⟨b4, _ | ⟨b5, _ | ⟨b6, _ | ⟨b7, rest⟩⟩⟩⟩⟩⟩⟩⟩
  iterate 8 exact .inl ⟨pos, 8, _, rfl⟩
  exact .inr rfl

theorem sequential_i32 : Sequential i32 := sequential_u32.value UInt32.toInt32

theorem splitOnto_append {done bytes more taken rest : Bytes} {n : Nat}
    (split : splitOnto done n bytes = some (taken, rest)) :
    splitOnto done n (bytes ++ more) = some (taken, rest ++ more) := by
  obtain ⟨bs, rfl, length, same⟩ := splitOnto_eq_some_iff.mp split
  exact splitOnto_eq_some_iff.mpr ⟨bs, List.append_assoc .., length, same⟩

theorem sequential_take (n : Nat) : Sequential (take n) := by
  intro pos bs more
  rw [take, take]
  dsimp only
  by_cases fits : pos + n < positionLimit
  · rw [if_pos fits, if_pos fits]
    cases split : splitOnto [] n bs with
    | none => exact .inl ⟨pos, n, bs.length, rfl⟩
    | some p =>
        right
        rw [splitOnto_append split]
        rfl
  · rw [if_neg fits, if_neg fits]
    exact .inr rfl

/-! ### Repetition and whole inputs -/

theorem Sequential.many {d : Decoder α} (each : Sequential d) (n : Nat) : Sequential (many n d) := by
  induction n with
  | zero =>
      intro pos bs more
      exact .inr rfl
  | succ n ih =>
      rw [many_succ]
      exact each.bind fun a => ih.bind fun as => .pure (a :: as)

/-- Values behind the number of them. -/
theorem Sequential.counted {d : Decoder α} (each : Sequential d) :
    Sequential (do Decoder.many (← u16).toNat d) :=
  sequential_u16.bind fun n => each.many n.toNat

theorem onAll_eq_ok {d : Decoder α} {trailing : Nat → Fault} {bytes : Bytes} {a : α}
    (read : onAll d trailing bytes = .ok a) : ∃ pos, d ⟨0, bytes⟩ = .ok (a, ⟨pos, []⟩) := by
  rw [onAll, Cursor.ofBytes] at read
  cases run : d ⟨0, bytes⟩ with
  | error e =>
      rw [run] at read
      cases read
  | ok p =>
      obtain ⟨b, pos, rest⟩ := p
      rw [run] at read
      dsimp only at read
      split at read
      next finished =>
        cases read
        obtain rfl : rest = [] := List.isEmpty_iff.mp finished
        exact ⟨pos, rfl⟩
      next => cases read

/-- Octets behind a whole input are left over. -/
theorem Sequential.onAll_append {d : Decoder α} {trailing : Nat → Fault} {bytes more : Bytes} {a : α}
    (sequential : Sequential d) (read : onAll d trailing bytes = .ok a) (filled : more ≠ []) :
    onAll d trailing (bytes ++ more) = .error (.malformed (trailing more.length)) := by
  obtain ⟨pos, run⟩ := onAll_eq_ok read
  rcases sequential 0 bytes more with ⟨_, _, _, short⟩ | same
  · rw [run] at short
    cases short
  · have unfinished : more.isEmpty = false := List.isEmpty_eq_false_iff.mpr filled
    rw [run] at same
    rw [onAll, Cursor.ofBytes, same]
    simp only [withMore, Except.map, List.nil_append, Cursor.atEnd, unfinished, Bool.false_eq_true,
      if_false]
    rfl

/-- A whole input that is cut off runs out of octets. -/
theorem Sequential.ranOut_onAll {d : Decoder α} {trailing : Nat → Fault} {bytes more : Bytes} {a : α}
    (sequential : Sequential d) (read : onAll d trailing (bytes ++ more) = .ok a) (filled : more ≠ []) :
    RanOut (onAll d trailing bytes) := by
  obtain ⟨pos, run⟩ := onAll_eq_ok read
  rcases sequential 0 bytes more with ⟨offset, wanted, left, short⟩ | same
  · refine ⟨offset, wanted, left, ?_⟩
    rw [onAll, Cursor.ofBytes, short]
  · -- what was cut off would have been left over by the whole input
    rw [run] at same
    cases first : d ⟨0, bytes⟩ with
    | error e =>
        rw [first] at same
        cases same
    | ok p =>
        rw [first] at same
        have rest : [] = p.2.rest ++ more := congrArg (fun p => p.2.rest) (Except.ok.inj same)
        exact absurd (List.append_eq_nil_iff.mp rest.symm).2 filled

end Decoder

open Decoder

/-! ### The parts of a class -/

theorem Constant.sequential_read (index : Nat) : Sequential (read index) := by
  refine sequential_u8.bind fun tag => ?_
  split
  · exact sequential_u16.bind fun n => (sequential_take n.toNat).value utf8
  · exact sequential_i32.value integer
  · exact sequential_u32.value float
  · exact sequential_u64.value fun bits => long bits.toInt64
  · exact sequential_u64.value double
  · exact sequential_u16.value classInfo
  · exact sequential_u16.value string
  · exact sequential_u16.values sequential_u16 fieldRef
  · exact sequential_u16.values sequential_u16 methodRef
  · exact sequential_u16.values sequential_u16 interfaceMethodRef
  · exact sequential_u16.values sequential_u16 nameAndType
  · exact sequential_u8.values sequential_u16 methodHandle
  · exact sequential_u16.value methodType
  · exact sequential_u16.values sequential_u16 dynamic
  · exact sequential_u16.values sequential_u16 invokeDynamic
  · exact sequential_u16.value moduleInfo
  · exact sequential_u16.value packageInfo
  · exact .fault _

namespace ConstantPool

theorem sequential_readEntries (count rounds : Nat) (entries : Array Constant) :
    Sequential (readEntries count rounds entries) := by
  induction rounds generalizing entries with
  | zero => exact .pure entries
  | succ rounds ih =>
      rw [readEntries_succ]
      refine .ite ?_ (.pure entries)
      refine (Constant.sequential_read entries.size).bind fun constant => .ite ?_ (ih _)
      exact .ite (ih _) (.fault _)

theorem sequential_read : Sequential read := by
  unfold read
  dsimp only
  refine sequential_u16.bind fun count => .ite (.stop _ _) ?_
  refine (sequential_readEntries _ _ _).bind fun entries => ?_
  split
  · exact .fault _
  · exact .pure _

end ConstantPool

namespace ClassFile

variable {pool : ConstantPool}

theorem sequential_readRaw : Sequential (readRaw pool) := by
  unfold readRaw
  dsimp only
  refine sequential_u16.bind fun name => (Sequential.lift _).bind fun found => ?_
  have body : Sequential (do return RawAttribute.mk name (← take (← u32).toNat)) :=
    sequential_u32.bind fun length => (sequential_take length.toNat).value (RawAttribute.mk name)
  split
  · exact body
  · exact .stop _ _

theorem sequential_readRaws : Sequential (readRaws pool) :=
  sequential_readRaw.counted

theorem sequential_readClass : Sequential (readClass pool) :=
  sequential_u16.bind fun index => (Sequential.lift _).bind fun _ => .pure index

theorem sequential_readField : Sequential (readField pool) :=
  sequential_u16.bind fun access => sequential_u16.bind fun name => sequential_u16.bind fun descriptor =>
    (Sequential.lift _).bind fun _ => (Sequential.lift _).bind fun _ =>
    sequential_readRaws.value (FieldInfo.mk access name descriptor)

/-- The octets of a body are taken before anything is read in them. -/
theorem sequential_readMethodAttribute : Sequential (readMethodAttribute pool) := by
  unfold readMethodAttribute
  refine sequential_u16.bind fun name => sequential_u32.bind fun length =>
    (sequential_take length.toNat).bind fun body => (Sequential.lift _).bind fun text => .ite ?_ ?_
  · exact (Sequential.lift _).value (MethodAttribute.code name)
  · exact .pure _

theorem sequential_readMethod : Sequential (readMethod pool) :=
  sequential_u16.bind fun access => sequential_u16.bind fun name => sequential_u16.bind fun descriptor =>
    (Sequential.lift _).bind fun _ => (Sequential.lift _).bind fun _ =>
    sequential_u16.bind fun count => (sequential_readMethodAttribute.many count.toNat).value
      (MethodInfo.mk access name descriptor)

theorem sequential_readParts : Sequential readParts := by
  unfold readParts
  dsimp only
  refine sequential_u32.bind fun found => .ite (.stop _ _) <|
    sequential_u16.bind fun minor => sequential_u16.bind fun major => .ite (.stop _ _) <|
    .ite (.stop _ _) <| ConstantPool.sequential_read.bind fun pool =>
    sequential_u16.bind fun access => sequential_u16.bind fun thisClass =>
    sequential_u16.bind fun superClass => (Sequential.lift _).bind fun _ => ?_
  have members : Sequential (do
      let interfaces ← Decoder.many (← Decoder.u16).toNat (readClass pool)
      let fields ← Decoder.many (← Decoder.u16).toNat (readField pool)
      let methods ← Decoder.many (← Decoder.u16).toNat (readMethod pool)
      let attributes ← readRaws pool
      return ClassFile.mk minor major pool access thisClass superClass interfaces fields methods
        attributes) :=
    sequential_u16.bind fun n => (sequential_readClass.many n.toNat).bind fun interfaces =>
    sequential_u16.bind fun n => (sequential_readField.many n.toNat).bind fun fields =>
    sequential_u16.bind fun n => (sequential_readMethod.many n.toNat).bind fun methods =>
    sequential_readRaws.value (ClassFile.mk minor major pool access thisClass superClass interfaces
      fields methods)
  exact .ite ((Sequential.lift _).bind fun _ => members) members

/-- No file of a class starts with another one. A file that is cut off anywhere runs out of octets, and
from a file with octets behind it those are left over; neither is a file of a class. -/
theorem prefix_free {data : Bytes} {c : ClassFile} (read : decode data = .ok c) :
    (∀ front, front <+: data → front ≠ data →
      ∃ offset wanted left, decode front = .error (.malformed (.truncated offset wanted left))) ∧
    ∀ more, more ≠ [] → decode (data ++ more) = .error (.malformed (.classTrailing more.length)) := by
  constructor
  · rintro front ⟨more, rfl⟩ cut
    have filled : more ≠ [] := by
      rintro rfl
      exact cut (List.append_nil front).symm
    exact sequential_readParts.ranOut_onAll read filled
  · intro more filled
    exact sequential_readParts.onAll_append read filled

/-- A file without its last octet, and with one octet too many. -/
theorem prefix_free_careless : (∃ c, decode (carelessFile 0 0 9) = .ok c) ∧
    (∃ offset wanted left, decode (carelessFile 0 0 9).dropLast =
      .error (.malformed (.truncated offset wanted left))) ∧
    decode (carelessFile 0 0 9 ++ [0]) = .error (.malformed (.classTrailing 1)) := by
  have whole : (decode (carelessFile 0 0 9)).toOption.isSome := by decide +kernel
  obtain ⟨c, decoded⟩ := Option.isSome_iff_exists.mp whole
  have read := toOption_eq_some_iff.mp decoded
  obtain ⟨cut, left⟩ := prefix_free read
  exact ⟨⟨c, read⟩, cut _ (List.dropLast_prefix _) (by decide), left [0] (by decide)⟩

end ClassFile

end JarGate
