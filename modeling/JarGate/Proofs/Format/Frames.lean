import JarGate.ClassFile.Frame
import JarGate.Proofs.Format.Tables

/-!
# Stack map frames in octets

A frame that was read is representable: its distance suits its form, and so does the number of its
locals. A representable frame is read from exactly the octets that it is written as. Writing checks
none of this; it computes the tag of a frame in eight bits.
-/

namespace JarGate

open Decoder

namespace VerificationType

/-- A verification type is read from exactly the octets that it is written as. -/
theorem accepts_read : Accepts read (fun _ bs t => bs = t.write) := by
  have plain (tag : UInt8) (t : VerificationType) (writes : t.write = [tag])
      (only : ∀ t' bs, t'.write = tag :: bs → t' = t) :
      Accepts (pure t) (fun _ bs t' => t'.write = tag :: bs) :=
    (Accepts.pure t).congr fun pos bs t' => by
      constructor
      · rintro ⟨rfl, rfl⟩
        exact writes
      · intro written
        obtain rfl := only t' bs written
        exact ⟨(List.cons_eq_cons.mp (written.symm.trans writes)).2, rfl⟩
  refine (Accepts.bind accepts_u8 (F := fun tag _ bs t => t.write = tag :: bs) fun tag => ?_).congr
    fun pos bs t => ⟨?_, ?_⟩
  · split
    case h_8 | h_9 =>
      refine (accepts_u16.bind fun _ => .pure _).congr fun pos bs t => ⟨?_, ?_⟩
      · rintro ⟨i, _, _, rfl, rfl, rfl, rfl⟩
        rfl
      · intro written
        cases t with
        | object i | uninitialized i =>
            first
            | cases written; exact ⟨i, _, [], rfl, rfl, rfl, rfl⟩
            | simp [write] at written
        | _ => simp [write] at written
    case h_10 =>
      refine .of_fails (fails_fault _) fun pos bs t written => ?_
      cases t <;> cases written <;> contradiction
    all_goals
      refine plain _ _ rfl fun t' bs written => ?_
      cases t' <;> first | rfl | simp [write] at written
  · rintro ⟨tag, _, ys, rfl, rfl, written⟩
    exact written.symm
  · rintro rfl
    cases t <;> exact ⟨_, [_], _, rfl, rfl, rfl⟩

/-- Types one after another. -/
theorem many_iff {pos : Nat} {bs : Bytes} {ts : List VerificationType} :
    Grammar.Many (fun _ bs t => bs = write t) pos bs ts ↔ bs = ts.flatMap write := by
  rw [Grammar.many_iff (R := fun t bs => bs = write t)]
  constructor
  · rintro ⟨chunks, each, rfl⟩
    induction each with
    | nil => rfl
    | cons head _ ih => rw [List.flatten_cons, List.flatMap_cons, head, ih]
  · rintro rfl
    refine ⟨ts.map write, ?_, rfl⟩
    rw [List.forall₂_map_right_iff, List.forall₂_same]
    exact fun _ _ => rfl

end VerificationType

namespace Frame

/-- Whether the distance and the number of locals suit a form that keeps them in its tag. -/
def Formed : Frame → Prop
  | same d | oneStack d _ => d.toNat ≤ maxShortDelta
  | chop _ count => 1 ≤ count.toNat ∧ count.toNat ≤ 3
  | append _ locals => 1 ≤ locals.length ∧ locals.length ≤ 3
  | sameExtended _ | oneStackExtended _ _ | full _ _ _ => True

/-- Whether all numbers of a frame suit its form. -/
def Representable : Frame → Prop
  | full _ locals stack => locals.length < 0x10000 ∧ stack.length < 0x10000
  | f => f.Formed

/-- The tag of a representable frame. -/
def tag : Frame → Nat
  | same d => d.toNat
  | oneStack d _ => 64 + d.toNat
  | oneStackExtended _ _ => 247
  | chop _ count => 251 - count.toNat
  | sameExtended _ => 251
  | append _ locals => 251 + locals.length
  | full _ _ _ => 255

/-- The octets of a frame behind its tag. -/
def fields : Frame → Bytes
  | same _ => []
  | oneStack _ t => t.write
  | oneStackExtended d t => be16 d ++ t.write
  | chop d _ | sameExtended d => be16 d
  | append d locals => be16 d ++ locals.flatMap VerificationType.write
  | full d locals stack => be16 d ++ (be16 (UInt16.ofNat locals.length) ++
      (locals.flatMap VerificationType.write ++ (be16 (UInt16.ofNat stack.length) ++
        stack.flatMap VerificationType.write)))

/-- A representable frame is written as its tag and its fields. -/
theorem write_eq_ok_iff {f : Frame} {bs : Bytes} (fits : f.Representable) :
    f.write = .ok bs ↔ ∃ t, f.tag = t.toNat ∧ bs = t :: f.fields := by
  have single {t : UInt8} (h : f.tag = t.toNat) :
      (∃ t' : UInt8, f.tag = t'.toNat ∧ bs = t' :: f.fields) ↔ t :: f.fields = bs := by
    constructor
    · rintro ⟨t', h', rfl⟩
      rw [UInt8.toNat_inj.mp (h.symm.trans h')]
    · rintro rfl
      exact ⟨t, h, rfl⟩
  cases f with
  | same d =>
      simp only [Representable, Formed, maxShortDelta] at fits
      rw [single (t := d.toUInt8) (by simp only [tag, UInt16.toNat_toUInt8]; omega)]
      simp [write, fields]
  | oneStack d t =>
      simp only [Representable, Formed, maxShortDelta] at fits
      rw [single (t := 64 + d.toUInt8) (by
        simp only [tag, UInt8.toNat_add, UInt16.toNat_toUInt8]
        change _ = (64 + _) % 256
        omega)]
      simp [write, fields]
  | oneStackExtended d t =>
      rw [single (t := 247) rfl]
      simp [write, fields]
  | chop d count =>
      simp only [Representable, Formed] at fits
      have less : count ≤ 251 := UInt8.le_iff_toNat_le.mpr (by change _ ≤ 251; omega)
      rw [single (t := 251 - count) (by
        simp only [tag, UInt8.toNat_sub_of_le _ _ less]
        rfl)]
      simp [write, fields]
  | sameExtended d =>
      rw [single (t := 251) rfl]
      simp [write, fields]
  | append d locals =>
      simp only [Representable, Formed] at fits
      rw [single (t := 251 + UInt8.ofNat locals.length) (by
        simp only [tag, UInt8.toNat_add, UInt8.toNat_ofNat']
        change _ = (251 + _) % 256
        omega)]
      simp [write, fields]
  | full d locals stack =>
      rw [single (t := 255) rfl]
      simp only [write, bind_eq_ok_iff, pure_eq_ok_iff, entryCount_eq_ok_iff, fields]
      simp [fits.1, fits.2]

/-- The octets behind a tag. -/
def Body (t : UInt8) : Grammar Frame := fun _ bs f =>
  f.tag = t.toNat ∧ bs = f.fields ∧ f.Representable

section Forms

variable {t : UInt8}

theorem accepts_same (small : t.toNat ≤ 63) : Accepts (pure (same t.toUInt16)) (Body t) := by
  refine (Accepts.pure _).congr fun pos bs f => ⟨?_, ?_⟩
  · rintro ⟨rfl, rfl⟩
    exact ⟨rfl, rfl, small⟩
  · rintro ⟨tagged, rfl, fits⟩
    cases f <;> simp only [tag, Representable, Formed] at tagged fits <;> try omega
    exact ⟨rfl, by rw [same.injEq]; exact UInt16.toNat_inj.mp tagged⟩

theorem accepts_oneStack (large : 64 ≤ t.toNat) (small : t.toNat ≤ 127) :
    Accepts (do return oneStack (t - 64).toUInt16 (← VerificationType.read)) (Body t) := by
  have offset : (t - 64).toNat = t.toNat - 64 :=
    UInt8.toNat_sub_of_le _ _ (UInt8.le_iff_toNat_le.mpr large)
  refine (VerificationType.accepts_read.bind fun _ => .pure _).congr fun pos bs f => ⟨?_, ?_⟩
  · rintro ⟨v, _, _, rfl, rfl, rfl, rfl⟩
    refine ⟨?_, List.append_nil _, ?_⟩
    · simp only [tag, UInt8.toNat_toUInt16, offset]
      omega
    · simp only [Representable, Formed, maxShortDelta, UInt8.toNat_toUInt16, offset]
      omega
  · rintro ⟨tagged, rfl, fits⟩
    cases f <;> simp only [tag, Representable, Formed, maxShortDelta] at tagged fits <;> try omega
    next d v =>
      refine ⟨v, _, [], (List.append_nil _).symm, rfl, rfl, ?_⟩
      rw [oneStack.injEq]
      refine ⟨UInt16.toNat_inj.mp ?_, rfl⟩
      rw [UInt8.toNat_toUInt16, offset]
      omega

theorem accepts_oneStackExtended (h : t = 247) :
    Accepts (do return oneStackExtended (← u16) (← VerificationType.read)) (Body t) := by
  refine (accepts_u16.bind fun _ => VerificationType.accepts_read.bind fun _ => .pure _).congr
    fun pos bs f => ⟨?_, ?_⟩
  · rintro ⟨d, _, _, rfl, rfl, v, _, _, rfl, rfl, rfl, rfl⟩
    rw [List.append_nil]
    exact ⟨congrArg UInt8.toNat h.symm, rfl, trivial⟩
  · rintro ⟨tagged, rfl, fits⟩
    rw [h] at tagged
    change _ = 247 at tagged
    cases f <;> simp only [tag, Representable, Formed, maxShortDelta] at tagged fits <;> try omega
    next d v => exact ⟨d, _, _, rfl, rfl, v, _, [], (List.append_nil _).symm, rfl, rfl, rfl⟩

theorem accepts_chop (large : 248 ≤ t.toNat) (small : t.toNat ≤ 250) :
    Accepts (do return chop (← u16) (251 - t)) (Body t) := by
  have left : (251 - t).toNat = 251 - t.toNat :=
    UInt8.toNat_sub_of_le _ _ (UInt8.le_iff_toNat_le.mpr (by change _ ≤ 251; omega))
  refine (accepts_u16.bind fun _ => .pure _).congr fun pos bs f => ⟨?_, ?_⟩
  · rintro ⟨d, _, _, rfl, rfl, rfl, rfl⟩
    refine ⟨?_, List.append_nil _, ?_⟩ <;> simp only [tag, Representable, Formed, left] <;> omega
  · rintro ⟨tagged, rfl, fits⟩
    cases f <;> simp only [tag, Representable, Formed, maxShortDelta] at tagged fits <;> try omega
    next d count =>
      refine ⟨d, _, [], (List.append_nil _).symm, rfl, rfl, ?_⟩
      rw [chop.injEq]
      refine ⟨rfl, UInt8.toNat_inj.mp ?_⟩
      rw [left]
      omega

theorem accepts_sameExtended (h : t = 251) :
    Accepts (do return sameExtended (← u16)) (Body t) := by
  refine (accepts_u16.bind fun _ => .pure _).congr fun pos bs f => ⟨?_, ?_⟩
  · rintro ⟨d, _, _, rfl, rfl, rfl, rfl⟩
    exact ⟨congrArg UInt8.toNat h.symm, List.append_nil _, trivial⟩
  · rintro ⟨tagged, rfl, fits⟩
    rw [h] at tagged
    change _ = 251 at tagged
    cases f <;> simp only [tag, Representable, Formed, maxShortDelta] at tagged fits <;> try omega
    next d => exact ⟨d, _, [], (List.append_nil _).symm, rfl, rfl, rfl⟩

theorem accepts_append (large : 252 ≤ t.toNat) (small : t.toNat ≤ 254) :
    Accepts (do
        let d ← u16
        return append d (← many (t - 251).toNat VerificationType.read)) (Body t) := by
  have count : (t - 251).toNat = t.toNat - 251 :=
    UInt8.toNat_sub_of_le _ _ (UInt8.le_iff_toNat_le.mpr (by change 251 ≤ _; omega))
  refine (accepts_u16.bind fun _ => (VerificationType.accepts_read.many _).bind fun _ =>
    .pure _).congr fun pos bs f => ⟨?_, ?_⟩
  · rintro ⟨d, _, _, rfl, rfl, locals, _, _, rfl, ⟨len, run⟩, rfl, rfl⟩
    rw [VerificationType.many_iff.mp run, List.append_nil]
    refine ⟨?_, rfl, ?_⟩ <;> simp only [tag, Representable, Formed, len, count] <;> omega
  · rintro ⟨tagged, rfl, fits⟩
    cases f <;> simp only [tag, Representable, Formed, maxShortDelta] at tagged fits <;> try omega
    next d locals =>
      refine ⟨d, _, _, rfl, rfl, locals, _, [], (List.append_nil _).symm,
        ⟨?_, VerificationType.many_iff.mpr rfl⟩, rfl, rfl⟩
      rw [count]
      omega

theorem accepts_full (h : t.toNat = 255) :
    Accepts (do
        let d ← u16
        let locals ← many (← u16).toNat VerificationType.read
        let stack ← many (← u16).toNat VerificationType.read
        return full d locals stack) (Body t) := by
  refine (accepts_u16.bind fun _ => accepts_u16.bind fun _ =>
    (VerificationType.accepts_read.many _).bind fun _ => accepts_u16.bind fun _ =>
    (VerificationType.accepts_read.many _).bind fun _ => .pure _).congr fun pos bs f => ⟨?_, ?_⟩
  · rintro ⟨d, _, _, rfl, rfl, nl, _, _, rfl, rfl, locals, _, _, rfl, ⟨hl, runl⟩, ns, _, _, rfl, rfl,
      stack, _, _, rfl, ⟨hs, runs⟩, rfl, rfl⟩
    rw [VerificationType.many_iff.mp runl, VerificationType.many_iff.mp runs, List.append_nil]
    refine ⟨h.symm, ?_, hl ▸ nl.toNat_lt, hs ▸ ns.toNat_lt⟩
    rw [fields, hl, hs, UInt16.ofNat_toNat, UInt16.ofNat_toNat]
  · rintro ⟨tagged, rfl, fits⟩
    cases f <;> simp only [tag, Representable, Formed, maxShortDelta] at tagged fits <;> try omega
    next d locals stack =>
      exact ⟨d, _, _, rfl, rfl, UInt16.ofNat locals.length, _, _, rfl, rfl, locals, _, _, rfl,
        ⟨(Nat.mod_eq_of_lt fits.1).symm, VerificationType.many_iff.mpr rfl⟩,
        UInt16.ofNat stack.length, _, _, rfl, rfl, stack, _, [], (List.append_nil _).symm,
        ⟨(Nat.mod_eq_of_lt fits.2).symm, VerificationType.many_iff.mpr rfl⟩, rfl, rfl⟩

/-- No frame has a tag between the short forms and the extended ones. -/
theorem accepts_frameType (large : 128 ≤ t.toNat) (small : t.toNat ≤ 246) :
    Accepts (fault (.frameType t)) (Body t) := by
  refine .of_fails (fails_fault _) ?_
  rintro pos bs f ⟨tagged, rfl, fits⟩
  cases f <;> simp only [tag, Representable, Formed, maxShortDelta] at tagged fits <;> omega

end Forms

/-- Writing checks what the form of a frame does not. -/
theorem formed_iff_of_write {f : Frame} {bs : Bytes} (h : f.write = .ok bs) :
    f.Formed ↔ f.Representable := by
  cases f with
  | full d locals stack =>
      simp only [write, bind_eq_ok_iff, entryCount_eq_ok_iff] at h
      obtain ⟨_, ⟨few, -⟩, _, ⟨few', -⟩, -⟩ := h
      exact ⟨fun _ => ⟨few, few'⟩, fun _ => trivial⟩
  | _ => exact Iff.rfl

theorem accepts_representable :
    Accepts read (fun _ bs f => f.write = .ok bs ∧ f.Representable) := by
  refine (Accepts.bind accepts_u8 (F := Body) fun t => ?_).congr fun pos bs f => ⟨?_, ?_⟩
  · -- The tests on the tag are tests on its value.
    simp only [UInt8.le_iff_toNat_le, ← UInt8.toNat_inj, UInt8.reduceToNat]
    have bound := t.toNat_lt
    by_cases h63 : t.toNat ≤ 63
    · rw [if_pos h63]
      exact accepts_same h63
    by_cases h127 : t.toNat ≤ 127
    · rw [if_neg h63, if_pos h127]
      exact accepts_oneStack (by omega) h127
    by_cases h246 : t.toNat ≤ 246
    · rw [if_neg h63, if_neg h127, if_pos h246]
      exact accepts_frameType (by omega) h246
    rw [if_neg h63, if_neg h127, if_neg h246]
    by_cases h247 : t.toNat = 247
    · rw [if_pos h247]
      exact accepts_oneStackExtended (UInt8.toNat_inj.mp h247)
    by_cases h250 : t.toNat ≤ 250
    · rw [if_neg h247, if_pos h250]
      exact accepts_chop (by omega) h250
    rw [if_neg h247, if_neg h250]
    by_cases h251 : t.toNat = 251
    · rw [if_pos h251]
      exact accepts_sameExtended (UInt8.toNat_inj.mp h251)
    rw [if_neg h251]
    by_cases h254 : t.toNat ≤ 254
    · rw [if_pos h254]
      exact accepts_append (by omega) h254
    · rw [if_neg h254]
      exact accepts_full (by omega)
  · rintro ⟨t, _, ys, rfl, rfl, tagged, rfl, fits⟩
    exact ⟨(write_eq_ok_iff fits).mpr ⟨t, tagged, rfl⟩, fits⟩
  · rintro ⟨written, fits⟩
    obtain ⟨t, tagged, rfl⟩ := (write_eq_ok_iff fits).mp written
    exact ⟨t, [t], _, rfl, rfl, tagged, rfl, fits⟩

/-- A frame is read from exactly the octets that it is written as, if its form suits it. -/
theorem accepts_read : Accepts read (fun _ bs f => f.write = .ok bs ∧ f.Formed) :=
  accepts_representable.congr fun _ _ _ =>
    and_congr_right fun written => (formed_iff_of_write written).symm

/-! ### Tables of frames -/

/-- The body of a table of frames is read from exactly the octets that it is written as, if the
form of each of its frames suits it. -/
theorem readTable_eq_ok_iff {body : Bytes} {frames : List Frame} (fits : body.length < positionLimit) :
    readTable body = .ok frames ↔ writeTable frames = .ok body ∧ ∀ f ∈ frames, f.Formed := by
  have table := Code.accepts_table "StackMapTable" accepts_read
  exact ⟨fun read => table.onAll_sound read, fun described => table.onAll_complete described fits⟩

end Frame

end JarGate
