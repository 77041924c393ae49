import JarGate.Proofs.Code.Renumbering
import JarGate.Proofs.Code.Splicing

/-!
# Representable tables

Writing a frame computes its tag in eight bits and checks nothing, so that a distance or a number of
locals that its form does not hold is written as some other frame, and whatever is behind it is read out
of step. A table is representable if no frame of it does that. What was read is representable, reading and
writing are inverse on representable tables, and all that makes new frames out of representable ones keeps
them so.
-/

namespace JarGate

/-- A verification type takes one octet, or three. -/
theorem VerificationType.length_write_le (t : VerificationType) : t.write.length ≤ 3 := by
  cases t <;> simp [write]

theorem VerificationType.length_flatMap_write_le (ts : List VerificationType) :
    (ts.flatMap write).length ≤ 3 * ts.length := by
  induction ts with
  | nil => exact Nat.zero_le _
  | cons t ts ih =>
      have first := t.length_write_le
      rw [List.flatMap_cons, List.length_append, List.length_cons]
      omega

/-- Whether a frame can count the locals and the stack of a state. -/
structure FrameState.Countable (s : FrameState) : Prop where
  locals : s.locals.length ≤ 0xFFFF
  stack : s.stack.length ≤ 0xFFFF

namespace Frame

variable {f g : Frame} {frames out : List Frame} {previous : Option Nat}
  {locals initial : List VerificationType} {state : FrameState} {states : List (Nat × FrameState)}
  {move : Nat → Option Nat} {body : Bytes}

/-! ### Sizes -/

/-- The number of octets of a frame: its tag and its fields. -/
def size (f : Frame) : Nat := f.fields.length + 1

theorem Representable.formed (fits : f.Representable) : f.Formed := by
  cases f with
  | full d locals stack => trivial
  | _ => exact fits

theorem Representable.tag_lt (fits : f.Representable) : f.tag < 256 := by
  cases f <;> simp only [tag, Representable, Formed, maxShortDelta] at fits ⊢ <;> omega

/-- A representable frame can be written, in as many octets as its size says. -/
theorem Representable.exists_write (fits : f.Representable) :
    ∃ bs, f.write = .ok bs ∧ bs.length = f.size := by
  have tagged : f.tag = (UInt8.ofNat f.tag).toNat := by
    rw [UInt8.toNat_ofNat', Nat.mod_eq_of_lt fits.tag_lt]
  exact ⟨_, (write_eq_ok_iff fits).mpr ⟨_, tagged, rfl⟩, rfl⟩

/-- The largest frames are full ones with as many locals and as deep a stack as can be counted. -/
theorem Representable.size_le (fits : f.Representable) : f.size ≤ 393217 := by
  cases f with
  | same d => simp [size, fields]
  | oneStack d t | oneStackExtended d t =>
      have single := t.length_write_le
      simp only [size, fields, List.length_append, be16_length]
      omega
  | chop d count | sameExtended d => simp [size, fields]
  | append d added =>
      have all := VerificationType.length_flatMap_write_le added
      obtain ⟨-, few⟩ := fits
      simp only [size, fields, List.length_append, be16_length]
      omega
  | full d all stack =>
      have first := VerificationType.length_flatMap_write_le all
      have second := VerificationType.length_flatMap_write_le stack
      obtain ⟨few, few'⟩ := fits
      simp only [size, fields, List.length_append, be16_length]
      omega

/-! ### Tables -/

/-- Whether a table can hold frames: it can count them, and each is written as itself. -/
structure RepresentableTable (frames : List Frame) : Prop where
  few : frames.length ≤ 0xFFFF
  each : ∀ f ∈ frames, f.Representable

theorem exists_writes (fits : ∀ f ∈ frames, f.Representable) :
    ∃ chunks, List.Forall₂ (fun f bs => f.write = .ok bs) frames chunks ∧
      chunks.flatten.length = (frames.map size).sum := by
  induction frames with
  | nil => exact ⟨[], .nil, rfl⟩
  | cons f fs ih =>
      obtain ⟨first, rest⟩ := List.forall_mem_cons.mp fits
      obtain ⟨bs, written, len⟩ := first.exists_write
      obtain ⟨chunks, each, total⟩ := ih rest
      refine ⟨bs :: chunks, .cons written each, ?_⟩
      rw [List.flatten_cons, List.length_append, len, total, List.map_cons, List.sum_cons]

/-- A representable table can be written, in two octets and those of its frames. -/
theorem RepresentableTable.exists_writeTable (fits : RepresentableTable frames) :
    ∃ body, writeTable frames = .ok body ∧ body.length = 2 + (frames.map size).sum := by
  obtain ⟨chunks, each, total⟩ := exists_writes fits.each
  have counted : Counted (fun f bs => f.write = .ok bs) frames _ :=
    ⟨Nat.lt_succ_of_le fits.few, chunks, each, rfl⟩
  have written : writeTable frames = .ok _ := Code.writeTable_eq_ok_iff.mpr counted
  refine ⟨_, written, ?_⟩
  rw [List.length_append, be16_length, total]

theorem RepresentableTable.sum_size_le (fits : RepresentableTable frames) :
    (frames.map size).sum ≤ 0xFFFF * 393217 := by
  have bounded : ∀ n ∈ frames.map size, n ≤ 393217 := by
    intro n member
    obtain ⟨f, inside, rfl⟩ := List.mem_map.mp member
    exact (fits.each f inside).size_le
  have total := List.sum_le_card_nsmul _ _ bounded
  rw [List.length_map, smul_eq_mul] at total
  exact total.trans (Nat.mul_le_mul_right _ fits.few)

/-- What was read is representable, and is written as what it was read from. -/
theorem written_of_readTable (h : readTable body = .ok frames) :
    RepresentableTable frames ∧ writeTable frames = .ok body := by
  have table := Code.accepts_table "StackMapTable" accepts_representable
  obtain ⟨written, each⟩ := table.onAll_sound h
  obtain ⟨few, -⟩ := Code.writeTable_eq_ok_iff.mp written
  exact ⟨⟨Nat.le_of_lt_succ few, each⟩, written⟩

theorem readTable_iff_of_written (written : writeTable frames = .ok body) :
    readTable body = .ok frames ↔ RepresentableTable frames := by
  constructor
  · intro read
    exact (written_of_readTable read).1
  · intro fits
    obtain ⟨body', written', len⟩ := fits.exists_writeTable
    obtain rfl := Except.ok.inj (written.symm.trans written')
    have small : body.length < Decoder.positionLimit := by
      have total := fits.sum_size_le
      have limit : 2 + 0xFFFF * 393217 < Decoder.positionLimit := by decide
      omega
    exact (readTable_eq_ok_iff small).mpr ⟨written, fun f member => (fits.each f member).formed⟩

/-! ### Renumbering -/

theorem representable_movedTypes (fits : f.Representable) (h : f.movedTypes move = .ok g) :
    g.Representable := by
  have formed := formed_movedTypes fits.formed h
  cases movedTypes_eq_ok_iff.mp h with
  | same | sameExtended | chop => exact fits
  | oneStack | oneStackExtended | append => exact formed
  | full locals stack => exact ⟨locals.length_eq ▸ fits.1, stack.length_eq ▸ fits.2⟩

theorem representable_withDelta {delta : Nat} (fits : f.Representable)
    (h : f.withDelta delta = .ok g) : g.Representable := by
  have formed := formed_withDelta fits.formed h
  obtain ⟨d, -, put⟩ := putAt_of_withDelta h
  cases put with
  | full => exact fits
  | _ => exact formed

theorem representable_renumber (fits : RepresentableTable frames)
    (h : renumber frames move = .ok out) : RepresentableTable out := by
  obtain ⟨gs, same, each⟩ := renumbered_of_renumberOnto h
  obtain rfl : out = gs := same
  refine ⟨each.length_eq ▸ fits.few, fun g member => ?_⟩
  obtain ⟨f, inside, _, _, typed, placed⟩ := exists_of_forall₂ each.flip g member
  exact representable_withDelta (representable_movedTypes (fits.each f inside) typed) placed

/-! ### Compressing -/

/-- Each frame that states were compressed to describes its state, whatever the offsets were. -/
theorem described_of_compressOnto {hints : List (Option Frame)}
    (h : compressOnto done previous locals hints states = .ok out) :
    ∃ frames, out = done.reverse ++ frames ∧
      List.Forall₂ (fun s f => ∃ before, f.apply before = .ok s.2) states frames := by
  induction states generalizing done previous locals hints with
  | nil =>
      cases h
      exact ⟨[], (List.append_nil _).symm, .nil⟩
  | cons entry states ih =>
      obtain ⟨offset, state⟩ := entry
      obtain ⟨delta, f, -, chosen, h⟩ := compressOnto_cons_iff.mp h
      obtain ⟨frames, rfl, behind⟩ := ih h
      refine ⟨f :: frames, by simp, .cons ⟨locals, ?_⟩ behind⟩
      rw [apply_withDelta chosen]
      exact apply_choose locals state _

/-- Only a full frame names more types than its form says, and these are the ones of its state. -/
theorem Formed.representable {before : List VerificationType} (fits : f.Formed)
    (described : f.apply before = .ok state) (few : state.Countable) : f.Representable := by
  cases f with
  | full d all stack =>
      cases described
      exact ⟨Nat.lt_succ_of_le few.locals, Nat.lt_succ_of_le few.stack⟩
  | _ => exact fits

theorem representable_compress {hints : List (Option Frame)} (few : states.length ≤ 0xFFFF)
    (countable : ∀ s ∈ states, s.2.Countable) (fits : ∀ f, some f ∈ hints → f.Representable)
    (h : compress states initial hints = .ok out) : RepresentableTable out := by
  obtain ⟨gs, same, described⟩ := described_of_compressOnto h
  obtain rfl : out = gs := same
  have formed : ∀ f ∈ out, f.Formed :=
    formed_compressOnto (fun f member => (fits f member).formed) (List.forall_mem_nil _) h
  refine ⟨described.length_eq ▸ few, fun f member => ?_⟩
  obtain ⟨s, inside, before, applied⟩ := exists_of_forall₂ described.flip f member
  exact (formed f member).representable applied (countable s inside)

/-! ### Splicing -/

/-- Splicing without a state in between does nothing that renumbering does not. -/
theorem renumber_of_splice {start len : Nat} (settled : ∀ o, .uninitialized o ∉ initial)
    (h : splice frames initial start len none = .ok out) :
    renumber frames (fun o => some (shift start len o)) = .ok out := by
  simp only [splice_eq, bind_eq_ok_iff] at h
  obtain ⟨states, expanded, moved, run, compressed⟩ := h
  have entry : initial.mapM (·.moved fun o => some (shift start len o)) = .ok initial :=
    VerificationType.mapM_moved_of_settled settled
  rwa [compress, (expand_eq_ok_iff.mp expanded).compressOnto_eq_renumberOnto entry run] at compressed

/-! ### The format as a bijection -/

/-- Reading and writing are inverse to each other on representable tables, and only there. Whatever octets
are read as a table, the table is representable, and it is written as just these octets. A table that can
be written is read back as it was exactly where it is representable, and every representable table can be
written. Renumbering, compressing and splicing lead from representable tables to representable ones. -/
theorem representable_tables :
    (∀ body frames, readTable body = .ok frames →
      RepresentableTable frames ∧ writeTable frames = .ok body) ∧
    (∀ frames body, writeTable frames = .ok body →
      (readTable body = .ok frames ↔ RepresentableTable frames)) ∧
    (∀ frames, RepresentableTable frames → ∃ body, writeTable frames = .ok body) ∧
    (∀ frames move out, RepresentableTable frames → renumber frames move = .ok out →
      RepresentableTable out) ∧
    (∀ (states : List (Nat × FrameState)) initial hints out, states.length ≤ 65535 →
      (∀ s ∈ states, s.2.Countable) → (∀ f, some f ∈ hints → f.Representable) →
      compress states initial hints = .ok out → RepresentableTable out) ∧
    ∀ frames initial start len out, RepresentableTable frames → (∀ o, .uninitialized o ∉ initial) →
      splice frames initial start len none = .ok out → RepresentableTable out := by
  refine ⟨fun body frames read => written_of_readTable read,
    fun frames body written => readTable_iff_of_written written, fun frames fits => ?_,
    fun frames move out fits renumbered => representable_renumber fits renumbered,
    fun states initial hints out few countable fits compressed => ?_,
    fun frames initial start len out fits settled spliced => ?_⟩
  · obtain ⟨body, written, -⟩ := fits.exists_writeTable
    exact ⟨body, written⟩
  · exact representable_compress few countable fits compressed
  · exact representable_renumber fits (renumber_of_splice settled spliced)

/-- The octets of the frames at the greatest distance of their forms. -/
def edgeOctets : Bytes :=
  [0, 5, 63, 127, 5, 252, 0, 20, 8, 0, 140, 255, 0, 0, 0, 1, 1, 0, 1, 4, 250, 0, 1]

/-- These frames are read and written. A frame that takes no local away is written as one that leaves the
locals as they are, and is read back as that. Representable tables come out where the frames are moved
apart, where states are compressed with one hint that describes its state and one that does not, and where
room is made for an octet. -/
theorem representable_tables_edge :
    readTable edgeOctets = .ok edgeFrames ∧ RepresentableTable edgeFrames ∧
    writeTable edgeFrames = .ok edgeOctets ∧
    (writeTable [.chop 5 0] = .ok [0, 1, 251, 0, 5] ∧ ¬ RepresentableTable [.chop 5 0]) ∧
    RepresentableTable [.sameExtended 189, .oneStackExtended 191 .null, .append 62 [.uninitialized 420],
      .full 2 [.integer] [.long], .chop 5 1] ∧
    RepresentableTable [.full 63 [.integer] [], .oneStack 63 .null] ∧
    RepresentableTable [.sameExtended 64, .oneStack 63 .null, .append 20 [.uninitialized 141],
      .full 0 [.integer] [.long], .chop 1 1] := by
  obtain ⟨sound, exact, exists_body, renumbered, compressed, spliced⟩ := representable_tables
  have read : readTable edgeOctets = .ok edgeFrames := by decide
  obtain ⟨fits, written⟩ := sound _ _ read
  obtain ⟨body, written'⟩ := exists_body _ fits
  obtain rfl := Except.ok.inj (written.symm.trans written')
  have chopped : writeTable [.chop 5 0] = .ok [0, 1, 251, 0, 5] := by decide
  have mistaken : ¬ RepresentableTable [.chop 5 0] := by
    rw [← exact _ _ chopped]
    decide
  have tripled : renumber edgeFrames (fun o => some (3 * o)) = .ok [.sameExtended 189,
      .oneStackExtended 191 .null, .append 62 [.uninitialized 420], .full 2 [.integer] [.long],
      .chop 5 1] := by
    decide
  have hinted : compress [(63, .entry [.integer]), (127, ⟨[.integer], [.null]⟩)] [.integer]
      [some (.full 9 [.integer] []), some (.same 7)] =
        .ok [.full 63 [.integer] [], .oneStack 63 .null] := by
    decide
  have shifted : splice edgeFrames [.integer] 0 1 none = .ok [.sameExtended 64, .oneStack 63 .null,
      .append 20 [.uninitialized 141], .full 0 [.integer] [.long], .chop 1 1] := by
    decide
  have countable : ∀ s ∈ [((63 : Nat), FrameState.entry [.integer]), (127, ⟨[.integer], [.null]⟩)],
      s.2.Countable := by
    simp only [List.forall_mem_cons, FrameState.entry]
    exact ⟨⟨by decide, by decide⟩, ⟨by decide, by decide⟩, nofun⟩
  have hints : ∀ f, some f ∈ [some (Frame.full 9 [.integer] []), some (.same 7)] →
      f.Representable := by
    simp [Representable, Formed, maxShortDelta]
  exact ⟨read, fits, written, ⟨chopped, mistaken⟩, renumbered _ _ _ fits tripled,
    compressed _ _ _ _ (by decide) countable hints hinted, spliced _ _ _ _ _ fits (by simp) shifted⟩

end Frame

end JarGate
