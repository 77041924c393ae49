import JarGate.Proofs.Code.Places
import JarGate.Proofs.Format.RoundTrip

/-!
# Closing gaps

Where the recorded offsets increase, closing the gaps between instructions moves every place of the code
to the place of the same instruction in the layout without gaps, and the recorded end of the code to the
end of that layout. An offset that is no place of the recorded layout cannot be moved.

After room was made for instructions whose length is no multiple of four, switches take more or less
space than before. The recorded end of the code is counted from the last instruction, so when that is such
a switch, the ranges that ended at the end of the code end nowhere in the recorded layout.
-/

namespace JarGate

namespace Instruction

variable {pos : Nat} {insns : List Instruction} {ps : List Placed}

theorem increasing_placeFrom (pos : Nat) (insns : List Instruction) :
    ((placeFrom pos insns).map Placed.offset).Pairwise (· < ·) := by
  induction insns generalizing pos with
  | nil => exact .nil
  | cons i is ih =>
      rw [placeFrom_cons, List.map_cons]
      refine .cons (List.forall_mem_map.mpr fun p later => ?_) (ih _)
      have positive := size_pos pos i
      exact (Nat.lt_add_of_pos_right positive).trans_le (bounds_of_mem_placeFrom later).1

theorem offsets_placeFrom_mapTargets (f : Nat → Nat) (pos : Nat) (insns : List Instruction) :
    (placeFrom pos (insns.map (mapTargets f))).map Placed.offset =
      (placeFrom pos insns).map Placed.offset := by
  induction insns generalizing pos with
  | nil => rfl
  | cons i is ih =>
      rw [List.map_cons, placeFrom_cons, placeFrom_cons, List.map_cons, List.map_cons, size_mapTargets,
        ih]

theorem tiles_of_offsets
    (seated : ps.map Placed.offset = (placeFrom pos (ps.map Placed.instruction)).map Placed.offset) :
    tilesFrom pos ps := by
  induction ps generalizing pos with
  | nil => rfl
  | cons p ps ih =>
      rw [List.map_cons, List.map_cons, placeFrom_cons, List.map_cons, List.cons.injEq] at seated
      rw [tilesFrom, Bool.and_eq_true, beq_iff_eq]
      exact ⟨seated.1, ih seated.2⟩

theorem mapTargets_id (insn : Instruction) : insn.mapTargets id = insn := by
  cases insn <;> simp [mapTargets]

/-- The order of increasing offsets is that of the instructions. -/
theorem offset_lt_iff (increasing : (ps.map Placed.offset).Pairwise (· < ·)) {k j : Nat} {p q : Placed}
    (here : ps[k]? = some p) (there : ps[j]? = some q) : p.offset < q.offset ↔ k < j := by
  have ordered {k j : Nat} {p q : Placed} (here : ps[k]? = some p) (there : ps[j]? = some q)
      (less : k < j) : p.offset < q.offset := by
    obtain ⟨inside, rfl⟩ := List.getElem?_eq_some_iff.mp here
    obtain ⟨inside', rfl⟩ := List.getElem?_eq_some_iff.mp there
    exact List.pairwise_iff_getElem.mp (List.pairwise_map.mp increasing) k j inside inside' less
  refine ⟨fun less => ?_, ordered here there⟩
  by_contra least
  rcases Nat.eq_or_lt_of_le (Nat.not_lt.mp least) with rfl | more
  · rw [here] at there
    cases there
    exact Nat.lt_irrefl _ less
  · exact Nat.lt_asymm less (ordered there here more)

end Instruction

/-- What a list of pairs with different keys records on top of a map. -/
theorem getElem?_record {pairs : List (Nat × Nat)} (distinct : (pairs.map Prod.fst).Nodup)
    (map : Std.HashMap Nat Nat) (o o' : Nat) :
    (pairs.foldl (fun (map : Std.HashMap Nat Nat) p => map.insert p.1 p.2) map)[o]? = some o' ↔
      (o, o') ∈ pairs ∨ o ∉ pairs.map Prod.fst ∧ map[o]? = some o' := by
  induction pairs generalizing map with
  | nil => simp
  | cons p ps ih =>
      rw [List.map_cons, List.nodup_cons] at distinct
      rw [List.foldl_cons, ih distinct.2, Std.HashMap.getElem?_insert, List.map_cons, List.mem_cons,
        List.mem_cons]
      by_cases here : p.1 = o
      · subst here
        have absent : (p.1, o') ∉ ps := fun member => distinct.1 (List.mem_map.mpr ⟨_, member, rfl⟩)
        simp [absent, distinct.1, Prod.ext_iff, eq_comm]
      · simp [here, Ne.symm here, Prod.ext_iff]

theorem CodeAttribute.mem_named_iff {a : CodeAttribute} {o : Nat} :
    o ∈ a.named ↔ (∃ e ∈ a.lines, e.start = o) ∨ ∃ e ∈ a.locals, o ∈ e.named := by
  cases a <;> simp [named, lines, locals]

namespace Code

open Instruction (endFrom placeFrom endOf)

variable {c d : Code} {pos : Nat} {insns : List Instruction}

/-- Whether each instruction is recorded behind the one before it. -/
def Increasing (c : Code) : Prop := (c.instructions.map Placed.offset).Pairwise (· < ·)

/-- Whether neither the recorded end of the code nor the end of the layout without gaps wraps around. -/
structure InWords (c : Code) : Prop where
  recorded : endOf c.instructions < 0x100000000
  seated : endFrom 0 (c.instructions.map Placed.instruction) < 0x100000000

instance (c : Code) : Decidable c.InWords :=
  decidable_of_iff (endOf c.instructions < 0x100000000 ∧
      endFrom 0 (c.instructions.map Placed.instruction) < 0x100000000)
    ⟨fun ⟨recorded, seated⟩ => ⟨recorded, seated⟩, fun ⟨recorded, seated⟩ => ⟨recorded, seated⟩⟩

/-- The instructions where a layout without gaps puts them. -/
def seats (c : Code) : List Placed := placeFrom 0 (c.instructions.map Placed.instruction)

/-- Where an offset goes when gaps are closed. -/
def seat (c : Code) : Nat → Nat := sentBy fun o => c.relayoutMap[o]?

theorem offset_lt_endOf (increasing : c.Increasing) {p : Placed} (member : p ∈ c.instructions) :
    p.offset < endOf c.instructions := by
  obtain ⟨ps, last, split⟩ := List.eq_nil_or_concat c.instructions |>.resolve_left
    (List.ne_nil_of_mem member)
  rw [List.concat_eq_append] at split
  have positive := Instruction.size_pos last.offset last.instruction
  have ends : endOf c.instructions = last.offset + last.instruction.size last.offset := by
    rw [endOf, split, List.getLast?_concat]
  rw [Increasing, split, List.map_append, List.pairwise_append] at increasing
  rw [split, List.mem_append, List.mem_singleton] at member
  rcases member with before | rfl
  · have less := increasing.2.2 _ (List.mem_map.mpr ⟨p, before, rfl⟩) last.offset (.head _)
    omega
  · omega

theorem offset_lt_length (increasing : c.Increasing) (fits : endOf c.instructions < 0x100000000)
    {p : Placed} (member : p ∈ c.instructions) : p.offset < c.length := by
  rw [length_eq fits]
  exact offset_lt_endOf increasing member

/-- Every place of the recorded layout is a word. -/
theorem lt_of_ends (increasing : c.Increasing) (fits : endOf c.instructions < 0x100000000) {o : Nat}
    (ends : Ends c.instructions c.length o) : o < 0x100000000 := by
  rcases ends with rfl | starts
  · exact wrapped_lt _
  · obtain ⟨p, member, rfl⟩ := List.mem_map.mp starts
    exact (offset_lt_endOf increasing member).trans fits

theorem length_seats (c : Code) : c.seats.length = c.instructions.length := by
  rw [seats, Instruction.length_placeFrom, List.length_map]

theorem endOf_seats (c : Code) :
    endOf c.seats = endFrom 0 (c.instructions.map Placed.instruction) := by
  rw [seats]
  cases c.instructions with
  | nil => rfl
  | cons p ps => exact Instruction.endOf_placeFrom (List.cons_ne_nil _ _)

/-- The places of the recorded layout, and what they are sent to. -/
theorem relayoutMap_eq_some_iff (increasing : c.Increasing) (fits : endOf c.instructions < 0x100000000)
    {o o' : Nat} :
    c.relayoutMap[o]? = some o' ↔ (o = c.length ∧ o' = wrapped (endOf c.seats)) ∨
      ∃ (k : Nat) (p q : Placed), c.instructions[k]? = some p ∧ c.seats[k]? = some q ∧
        o = p.offset ∧ o' = wrapped q.offset := by
  have recorded : c.relayoutMap =
      (((c.instructions.zip c.seats).map fun pair => (pair.1.offset, wrapped pair.2.offset)).foldl
        (fun (map : Std.HashMap Nat Nat) p => map.insert p.1 p.2) ∅).insert c.length
          (wrapped (endOf c.seats)) := by
    rw [List.foldl_map]
    rfl
  have keys : ((c.instructions.zip c.seats).map fun pair =>
      (pair.1.offset, wrapped pair.2.offset)).map Prod.fst = c.instructions.map Placed.offset := by
    rw [List.map_map]
    conv_rhs => rw [← List.map_fst_zip c.length_seats.ge, List.map_map]
    rfl
  have distinct : (((c.instructions.zip c.seats).map fun pair =>
      (pair.1.offset, wrapped pair.2.offset)).map Prod.fst).Nodup := by
    rw [keys]
    exact increasing.imp Nat.ne_of_lt
  -- The recorded end is put in last, but no instruction starts there.
  rw [recorded, Std.HashMap.getElem?_insert]
  by_cases atEnd : c.length = o
  · subst atEnd
    rw [if_pos (beq_self_eq_true _), Option.some.injEq, eq_comm]
    refine ⟨fun same => .inl ⟨rfl, same⟩, ?_⟩
    rintro (⟨-, same⟩ | ⟨k, p, q, found, -, same, -⟩)
    · exact same
    · have less := offset_lt_length increasing fits (List.mem_iff_getElem?.mpr ⟨k, found⟩)
      exact absurd same less.ne'
  · rw [if_neg (by simpa using atEnd), getElem?_record distinct, List.mem_map]
    constructor
    · rintro (⟨⟨p, q⟩, member, same⟩ | ⟨-, found⟩)
      · obtain ⟨k, found⟩ := List.mem_iff_getElem?.mp member
        obtain ⟨here, there⟩ := List.getElem?_zip_eq_some.mp found
        cases same
        exact .inr ⟨k, p, q, here, there, rfl, rfl⟩
      · rw [Std.HashMap.getElem?_empty] at found
        cases found
    · rintro (⟨same, -⟩ | ⟨k, p, q, here, there, rfl, rfl⟩)
      · exact absurd same.symm atEnd
      · have found := List.getElem?_zip_eq_some (z := (p, q)).mpr ⟨here, there⟩
        exact .inl ⟨(p, q), List.mem_iff_getElem?.mpr ⟨k, found⟩, rfl⟩

theorem exists_seat {k : Nat} {p : Placed} (here : c.instructions[k]? = some p) :
    ∃ q, c.seats[k]? = some q := by
  have inside : k < c.seats.length := by
    rw [length_seats]
    exact (List.getElem?_eq_some_iff.mp here).1
  exact ⟨_, List.getElem?_eq_getElem inside⟩

/-- Offsets are moved to words. -/
theorem lt_of_relayoutMap (increasing : c.Increasing) (fits : endOf c.instructions < 0x100000000)
    (o o' : Nat) (found : c.relayoutMap[o]? = some o') : o' < 0x100000000 := by
  rcases (relayoutMap_eq_some_iff increasing fits).mp found with ⟨-, rfl⟩ | ⟨_, _, _, -, -, -, rfl⟩
  · exact wrapped_lt _
  · exact wrapped_lt _

theorem seat_lt_word (increasing : c.Increasing) (fits : endOf c.instructions < 0x100000000) {o : Nat}
    (word : o < 0x100000000) : c.seat o < 0x100000000 := by
  rw [seat, sentBy]
  cases found : c.relayoutMap[o]? with
  | none => exact word
  | some o' => exact lt_of_relayoutMap increasing fits o o' found

/-- An offset can be moved if it is a place of the recorded layout, and only then. -/
theorem isSome_relayoutMap_iff (increasing : c.Increasing) (fits : endOf c.instructions < 0x100000000)
    {o : Nat} : (c.relayoutMap[o]?).isSome ↔ Ends c.instructions c.length o := by
  rw [Option.isSome_iff_exists]
  constructor
  · rintro ⟨o', found⟩
    rcases (relayoutMap_eq_some_iff increasing fits).mp found with
      ⟨rfl, -⟩ | ⟨k, p, -, here, -, rfl, -⟩
    · exact .inl rfl
    · exact .inr (List.mem_map.mpr ⟨p, List.mem_iff_getElem?.mpr ⟨k, here⟩, rfl⟩)
  · rintro (rfl | starts)
    · exact ⟨_, (relayoutMap_eq_some_iff increasing fits).mpr (.inl ⟨rfl, rfl⟩)⟩
    · obtain ⟨p, member, rfl⟩ := List.mem_map.mp starts
      obtain ⟨k, here⟩ := List.mem_iff_getElem?.mp member
      obtain ⟨q, there⟩ := exists_seat here
      exact ⟨_, (relayoutMap_eq_some_iff increasing fits).mpr (.inr ⟨k, p, q, here, there, rfl, rfl⟩)⟩

/-- An instruction goes to its place in the layout without gaps. -/
theorem seat_of_getElem? (increasing : c.Increasing) (words : c.InWords) {k : Nat} {p : Placed}
    (here : c.instructions[k]? = some p) :
    ∃ q, c.seats[k]? = some q ∧ c.seat p.offset = q.offset := by
  obtain ⟨q, there⟩ := exists_seat here
  have found := (relayoutMap_eq_some_iff increasing words.recorded).mpr
    (.inr ⟨k, p, q, here, there, rfl, rfl⟩)
  have before := (Instruction.bounds_of_mem_placeFrom (List.mem_iff_getElem?.mpr ⟨k, there⟩)).2
  exact ⟨q, there, (sentBy_of_some found).trans (wrapped_of_lt (before.trans words.seated))⟩

/-- The recorded end of the code goes to the end of the layout without gaps. -/
theorem seat_length (increasing : c.Increasing) (words : c.InWords) :
    c.seat c.length = endFrom 0 (c.instructions.map Placed.instruction) := by
  have found := (relayoutMap_eq_some_iff increasing words.recorded).mpr (.inl ⟨rfl, rfl⟩)
  rw [seat, sentBy_of_some found, endOf_seats, wrapped_of_lt words.seated]

/-- Closing gaps keeps the order of places. -/
theorem seat_lt_iff (increasing : c.Increasing) (words : c.InWords) {o o' : Nat}
    (starts : Starts c.instructions o) (ends : Ends c.instructions c.length o') :
    c.seat o < c.seat o' ↔ o < o' := by
  obtain ⟨p, member, rfl⟩ := List.mem_map.mp starts
  obtain ⟨k, here⟩ := List.mem_iff_getElem?.mp member
  obtain ⟨q, there, seated⟩ := seat_of_getElem? increasing words here
  rcases ends with rfl | starts'
  · have before := (Instruction.bounds_of_mem_placeFrom (List.mem_iff_getElem?.mpr ⟨k, there⟩)).2
    rw [seated, seat_length increasing words]
    exact iff_of_true before (offset_lt_length increasing words.recorded member)
  · obtain ⟨p', member', rfl⟩ := List.mem_map.mp starts'
    obtain ⟨k', here'⟩ := List.mem_iff_getElem?.mp member'
    obtain ⟨q', there', seated'⟩ := seat_of_getElem? increasing words here'
    rw [seated, seated', Instruction.offset_lt_iff (Instruction.increasing_placeFrom ..) there there',
      Instruction.offset_lt_iff increasing here here']

/-- A body with its gaps closed. -/
theorem laidOut_seat (increasing : c.Increasing) (words : c.InWords) :
    (c.mapOffsets c.seat).isLaidOut ∧ (c.mapOffsets c.seat).length = c.seat c.length := by
  have seated : c.instructions.map (c.seat ∘ Placed.offset) = c.seats.map Placed.offset := by
    refine List.ext_getElem? fun k => ?_
    rw [List.getElem?_map, List.getElem?_map]
    cases here : c.instructions[k]? with
    | none =>
        rw [List.getElem?_eq_none_iff, ← length_seats, ← List.getElem?_eq_none_iff] at here
        rw [here]
        rfl
    | some p =>
        obtain ⟨q, there, same⟩ := seat_of_getElem? increasing words here
        rw [there]
        exact congrArg some same
  have tiled : (c.mapOffsets c.seat).isLaidOut := by
    refine Instruction.tiles_of_offsets ?_
    rw [mapOffsets, Instruction.map_instruction_mapOffsets, Instruction.offsets_placeFrom_mapTargets,
      List.map_map]
    exact seated
  have ends : endOf (c.mapOffsets c.seat).instructions =
      endFrom 0 (c.instructions.map Placed.instruction) := by
    rw [Instruction.endOf_of_tiles tiled, mapOffsets, Instruction.map_instruction_mapOffsets,
      Instruction.endFrom_mapTargets]
  exact ⟨tiled, by rw [length_eq (ends ▸ words.seated), ends, seat_length increasing words]⟩

theorem tracks_seat (increasing : c.Increasing) (words : c.InWords)
    (places : ∀ o ∈ c.stops, Ends c.instructions c.length o) :
    Tracks c.seat id c (c.mapOffsets c.seat) where
  instruction := by
    intro k p here
    rw [mapOffsets, List.getElem?_map, id, here]
    rfl
  ordered := fun starts names => seat_lt_iff increasing words starts (names.elim .inr (places _))
  word := fun member => by
    have word := lt_of_ends increasing words.recorded (places _ member)
    exact ⟨word, seat_lt_word increasing words.recorded word⟩
  stop := fun _ => (laidOut_seat increasing words).2.symm
  handlers := rfl
  attributes := rfl

theorem increasing_of_laidOut (laidOut : c.isLaidOut) : c.Increasing := by
  rw [Increasing, ← Instruction.placeFrom_of_tiles laidOut]
  exact Instruction.increasing_placeFrom ..

theorem map_mapOffsets_id (ps : List Placed) : ps.map (Placed.mapOffsets id) = ps := by
  refine (List.map_congr_left fun p _ => ?_).trans (List.map_id _)
  rw [Placed.mapOffsets, Instruction.mapTargets_id]
  rfl

/-- Whether the start and the length of each variable are words. -/
def VariablesFit (c : Code) : Prop :=
  ∀ e ∈ c.locals, e.start < 0x100000000 ∧ e.length < 0x100000000

theorem mapOffsets_id (fits : c.VariablesFit) : c.mapOffsets id = c := by
  have handlers : c.handlers.map (Handler.mapOffsets id) = c.handlers :=
    (List.map_congr_left fun _ _ => rfl).trans (List.map_id _)
  have lines (es : List LineNumber) : es.map (LineNumber.mapOffsets id) = es :=
    (List.map_congr_left fun _ _ => rfl).trans (List.map_id _)
  have attributes : c.attributes.map (CodeAttribute.mapOffsets id) = c.attributes := by
    refine (List.map_congr_left fun a member => ?_).trans (List.map_id _)
    rcases a with ⟨name, frames⟩ | ⟨name, entries⟩ | ⟨generic, name, entries⟩ | raw
    · rfl
    · rw [CodeAttribute.mapOffsets, lines, id]
    · refine congrArg (CodeAttribute.variables generic name) ?_
      refine (List.map_congr_left fun e listed => ?_).trans (List.map_id _)
      obtain ⟨start, length⟩ := fits e (List.mem_flatMap.mpr ⟨_, member, listed⟩)
      have same : distance e.start e.stop = e.length := by
        rw [distance, LocalVariable.stop, wrapped, wrapped]
        omega
      rw [LocalVariable.mapOffsets, id, id, same, id]
    · rfl
  rw [mapOffsets, map_mapOffsets_id, handlers, attributes]

/-- Where there are no gaps, nothing is moved. -/
theorem seat_of_laidOut (laidOut : c.isLaidOut) (fits : endOf c.instructions < 0x100000000) :
    c.seat = id := by
  have increasing := increasing_of_laidOut laidOut
  have same : c.seats = c.instructions := Instruction.placeFrom_of_tiles laidOut
  funext o
  rw [seat, sentBy, id]
  cases found : c.relayoutMap[o]? with
  | none => rfl
  | some o' =>
      rw [Option.getD_some]
      rcases (relayoutMap_eq_some_iff increasing fits).mp found with
        ⟨rfl, rfl⟩ | ⟨k, p, q, here, there, rfl, rfl⟩
      · rw [same, length]
      · rw [same, here] at there
        cases there
        exact wrapped_of_lt ((offset_lt_endOf increasing (List.mem_iff_getElem?.mpr ⟨k, here⟩)).trans fits)

/-- Closing gaps is moving the body, unless there are none. -/
theorem relayout_of_stale (stale : ¬ c.isLaidOut) :
    c.relayout = .ok () d ↔ c.Movable (fun o => c.relayoutMap[o]?) true ∧
      d = c.movedBy (fun o => c.relayoutMap[o]?) true := by
  have runs : c.relayout = move (fun o => c.relayoutMap[o]?) true c := by
    change (if (!c.isLaidOut) = true then move (fun o => c.relayoutMap[o]?) true else pure ()) c = _
    rw [if_pos (by simpa using stale)]
  rw [runs, does_move c d]

/-! ### Bodies without frames -/

theorem frameless_of_stackMap? (frameless : c.stackMap? = none) :
    ∀ a ∈ c.attributes, framesOf? a = none :=
  List.findSome?_eq_none_iff.mp frameless

/-- Gaps are closed in a body without frames if there are none, or if the recorded layout has a place
for each reference. -/
theorem relayout_eq_ok_iff (frameless : c.stackMap? = none) (ranges : c.VariablesFit)
    (fits : endOf c.instructions < 0x100000000) :
    c.relayout = .ok () d ↔
      (c.isLaidOut ∨ c.Movable (fun o => c.relayoutMap[o]?) true) ∧ d = c.mapOffsets c.seat := by
  have moves : c.movedBy (fun o => c.relayoutMap[o]?) true = c.mapOffsets c.seat :=
    movedBy_eq fun _ => frameless_of_stackMap? frameless
  by_cases laidOut : c.isLaidOut
  · rw [relayout_eq laidOut, seat_of_laidOut laidOut fits, mapOffsets_id ranges,
      and_iff_right (.inl laidOut)]
    exact ⟨fun same => by cases same; rfl, fun same => by rw [same]⟩
  · rw [relayout_of_stale laidOut, moves, or_iff_right laidOut]

theorem definedOn_relayoutMap_iff (increasing : c.Increasing)
    (fits : endOf c.instructions < 0x100000000) {offsets : List Nat} :
    DefinedOn (fun o => c.relayoutMap[o]?) offsets ↔
      ∀ o ∈ offsets, Ends c.instructions c.length o :=
  forall₂_congr fun _ _ => isSome_relayoutMap_iff increasing fits

/-- The range of a variable of an anchored body does not wrap around. -/
theorem Anchored.stop_eq (sound : c.Anchored) (increasing : c.Increasing)
    (fits : endOf c.instructions < 0x100000000) {e : LocalVariable} (member : e ∈ c.locals) :
    e.stop = e.start + e.length :=
  wrapped_of_lt (lt_of_ends increasing fits (sound.locals e member).2)

theorem Anchored.variablesFit (sound : c.Anchored) (increasing : c.Increasing)
    (fits : endOf c.instructions < 0x100000000) : c.VariablesFit := by
  intro e member
  have word := lt_of_ends increasing fits (sound.locals e member).2
  exact ⟨(Nat.le_add_right ..).trans_lt word, (Nat.le_add_left ..).trans_lt word⟩

theorem Anchored.movable (sound : c.Anchored) (increasing : c.Increasing)
    (fits : endOf c.instructions < 0x100000000) (frameless : c.stackMap? = none) : c.Movable (fun o => c.relayoutMap[o]?) true := by
  refine ⟨fun p member => ?_, fun h member => ?_, fun a member => ⟨?_, fun _ table holds => ?_⟩⟩
  · refine (definedOn_relayoutMap_iff increasing fits).mpr
      (List.forall_mem_cons.mpr ⟨?_, fun t target => ?_⟩)
    · exact .inr (List.mem_map.mpr ⟨p, member, rfl⟩)
    · exact .inr (sound.targets p member t target)
  · obtain ⟨start, stop, handler⟩ := sound.handlers h member
    refine (definedOn_relayoutMap_iff increasing fits).mpr ?_
    simpa [Handler.named] using ⟨.inr start, stop, .inr handler⟩
  · refine (definedOn_relayoutMap_iff increasing fits).mpr fun o names => ?_
    rcases CodeAttribute.mem_named_iff.mp names with ⟨e, listed, rfl⟩ | ⟨e, listed, names⟩
    · exact .inr (sound.lines e (List.mem_flatMap.mpr ⟨a, member, listed⟩))
    · have inside := List.mem_flatMap.mpr ⟨a, member, listed⟩
      obtain ⟨start, stop⟩ := sound.locals e inside
      rcases List.mem_pair.mp names with rfl | rfl
      · exact .inr start
      · rw [sound.stop_eq increasing fits inside]
        exact stop
  · rw [frameless_of_stackMap? frameless a member] at holds
    cases holds

theorem Movable.stops (movable : c.Movable (fun o => c.relayoutMap[o]?) true)
    (increasing : c.Increasing) (fits : endOf c.instructions < 0x100000000)
    (words : ∀ o ∈ c.stops, o < 0x100000000) : ∀ o ∈ c.stops, Ends c.instructions c.length o := by
  obtain ⟨-, handlers, attributes⟩ := movable
  intro o member
  rcases List.mem_append.mp member with caught | living
  · obtain ⟨h, inside, rfl⟩ := List.mem_map.mp caught
    exact (definedOn_relayoutMap_iff increasing fits).mp (handlers h inside) _ (.tail _ (.head _))
  · obtain ⟨e, inside, rfl⟩ := List.mem_map.mp living
    obtain ⟨a, inside, listed⟩ := List.mem_flatMap.mp inside
    have names := CodeAttribute.mem_named_iff.mpr (.inr ⟨e, listed, .tail _ (.head _)⟩)
    have word := words _ (end_mem_stops (List.mem_flatMap.mpr ⟨a, inside, listed⟩))
    rw [LocalVariable.stop, wrapped_of_lt word] at names
    exact (definedOn_relayoutMap_iff increasing fits).mp (attributes a inside).1 _ names

/-- Closing gaps in a body whose references are places gives a body without gaps that tracks it. -/
theorem Anchored.relayout (sound : c.Anchored) (increasing : c.Increasing) (words : c.InWords)
    (frameless : c.stackMap? = none) :
    c.relayout = .ok () (c.mapOffsets c.seat) ∧ (c.mapOffsets c.seat).isLaidOut ∧
      (c.mapOffsets c.seat).Anchored ∧ Tracks c.seat id c (c.mapOffsets c.seat) := by
  have fits := words.recorded
  have tracks := tracks_seat increasing words sound.stops
  have movable := sound.movable increasing fits frameless
  have ranges := sound.variablesFit increasing fits
  refine ⟨(relayout_eq_ok_iff frameless ranges fits).mpr ⟨.inr movable, rfl⟩,
    (laidOut_seat increasing words).1, tracks.anchored sound fun p member t target => ?_, tracks⟩
  obtain ⟨p, old, rfl⟩ := List.mem_map.mp member
  rw [Placed.mapOffsets, Instruction.targets_mapTargets] at target
  obtain ⟨t, reached, rfl⟩ := List.mem_map.mp target
  exact tracks.start (sound.targets p old t reached)

/-! ### Gaps after room was made -/

section

variable (laidOut : c.isLaidOut)
  (room : endOf c.instructions + (endFrom pos insns - pos) < 0x100000000)

include laidOut room

theorem shift_offset_lt {p q : Placed} (member : p ∈ c.instructions) (member' : q ∈ c.instructions)
    (less : p.offset < q.offset) : Frame.shift pos (endFrom pos insns - pos) p.offset <
      Frame.shift pos (endFrom pos insns - pos) q.offset := by
  have near {p : Placed} (member : p ∈ c.instructions) :
      p.offset + (endFrom pos insns - pos) < 0x100000000 :=
    room_of_ends laidOut room (.inr (List.mem_map_of_mem member))
  exact (Frame.shift_lt_iff (near member) (near member')).mpr less

theorem shift_offset_lt_length {p : Placed} (member : p ∈ c.instructions) :
    Frame.shift pos (endFrom pos insns - pos) p.offset <
      Frame.shift pos (endFrom pos insns - pos) c.length := by
  have inside := offset_lt_length (increasing_of_laidOut laidOut) (fits_of_room room) member
  refine (Frame.shift_lt_iff (room_of_ends laidOut room (.inr (List.mem_map_of_mem member))) ?_).mpr inside
  exact room_of_ends laidOut room (.inl rfl)

/-- What lies behind the room is moved past the new instructions. -/
theorem endFrom_le_shift (place : Ends c.instructions c.length pos) {p : Placed}
    (member : p ∈ c.back pos) :
    endFrom pos insns ≤ Frame.shift pos (endFrom pos insns - pos) p.offset := by
  have behind := le_of_mem_back laidOut (fits_of_room room) place member
  have start := Instruction.le_endFrom pos insns
  rw [shift_of_mem_back laidOut room place member]
  omega

/-- Offsets increase where room was made. -/
theorem increasing_withRoom (place : Ends c.instructions c.length pos) :
    (c.withRoom pos insns).Increasing := by
  have sorted := increasing_of_laidOut laidOut
  have inside {p : Placed} (member : p ∈ c.front pos ++ c.back pos) : p ∈ c.instructions := by
    rwa [front_append_back] at member
  have lows : ∀ p ∈ c.front pos, Frame.shift pos (endFrom pos insns - pos) p.offset < pos := by
    intro p member
    rw [shift_of_mem_front _ member]
    exact lt_of_mem_front member
  have highs : ∀ p ∈ c.back pos,
      endFrom pos insns ≤ Frame.shift pos (endFrom pos insns - pos) p.offset :=
    fun p member => endFrom_le_shift laidOut room place member
  have start := Instruction.le_endFrom pos insns
  rw [Increasing, ← front_append_back c pos, List.map_append, List.pairwise_append,
    List.pairwise_map, List.pairwise_map] at sorted
  obtain ⟨first, last, -⟩ := sorted
  rw [Increasing, withRoom, List.map_append, List.map_append, List.map_map, List.map_map,
    List.pairwise_append, List.pairwise_append, List.pairwise_map,
    List.pairwise_map (l := c.back pos)]
  simp only [List.forall_mem_append, List.forall_mem_map]
  refine ⟨⟨first.imp_of_mem ?_, Instruction.increasing_placeFrom .., ?_⟩, last.imp_of_mem ?_, ?_, ?_⟩
  · intro p q low low' less
    exact shift_offset_lt laidOut room (inside (List.mem_append_left _ low))
      (inside (List.mem_append_left _ low')) less
  · intro p low q new
    exact (lows p low).trans_le (Instruction.bounds_of_mem_placeFrom new).1
  · intro p q high high' less
    exact shift_offset_lt laidOut room (inside (List.mem_append_right _ high))
      (inside (List.mem_append_right _ high')) less
  · intro p low q high
    exact (lows p low).trans_le (start.trans (highs q high))
  · intro p new q high
    exact (Instruction.bounds_of_mem_placeFrom new).2.trans_le (highs q high)

/-- All instructions start before the place that the end of the code is sent to. -/
theorem offset_lt_shift_length (place : Ends c.instructions c.length pos) :
    ∀ p ∈ (c.withRoom pos insns).instructions,
      p.offset < Frame.shift pos (endFrom pos insns - pos) c.length := by
  have inside {p : Placed} (member : p ∈ c.front pos ++ c.back pos) : p ∈ c.instructions := by
    rwa [front_append_back] at member
  have atEnd : endFrom pos insns ≤ Frame.shift pos (endFrom pos insns - pos) c.length := by
    have upTo := le_length laidOut (fits_of_room room) place
    have start := Instruction.le_endFrom pos insns
    rw [shift_length laidOut room place]
    omega
  rw [withRoom, List.forall_mem_append, List.forall_mem_append, List.forall_mem_map,
    List.forall_mem_map]
  refine ⟨⟨?_, ?_⟩, ?_⟩
  · intro p low
    exact shift_offset_lt_length laidOut room (inside (List.mem_append_left _ low))
  · intro p new
    exact (Instruction.bounds_of_mem_placeFrom new).2.trans_le atEnd
  · intro p high
    exact shift_offset_lt_length laidOut room (inside (List.mem_append_right _ high))

variable (sound : c.Anchored)

include sound

/-- The end of the range of a variable moves like all other offsets. -/
theorem variableEnd_withRoom {e : LocalVariable} (member : e ∈ c.locals) :
    (e.mapOffsets (Frame.shift pos (endFrom pos insns - pos))).start +
        (e.mapOffsets (Frame.shift pos (endFrom pos insns - pos))).length =
      Frame.shift pos (endFrom pos insns - pos) (e.start + e.length) := by
  have stop := (sound.locals e member).2
  have near := room_of_ends laidOut room stop
  have word : e.start + e.length < 0x100000000 := (Nat.le_add_right ..).trans_lt near
  refine LocalVariable.add_mapOffsets word ?_ (Frame.shift_lt word)
  rcases Nat.eq_zero_or_pos e.length with none | some
  · rw [none, Nat.add_zero]
  · exact (Frame.shift_lt_shift (fun _ => near) (Nat.lt_add_of_pos_right some)).le

theorem stops_withRoom : (c.withRoom pos insns).stops =
    c.stops.map (Frame.shift pos (endFrom pos insns - pos)) :=
  stops_of_moved rfl rfl fun _ => variableEnd_withRoom laidOut room sound

theorem variablesFit_withRoom : (c.withRoom pos insns).VariablesFit := by
  have listed : (c.withRoom pos insns).locals =
      c.locals.map (LocalVariable.mapOffsets (Frame.shift pos (endFrom pos insns - pos))) :=
    locals_of_moved rfl
  rw [VariablesFit, listed, List.forall_mem_map]
  intro e member
  have near := room_of_ends laidOut room (.inr (sound.locals e member).1)
  exact ⟨Frame.shift_lt ((Nat.le_add_right ..).trans_lt near), wrapped_lt _⟩

end

/-- The end of the code goes where all other places go if the last instruction keeps its size. -/
theorem length_withRoom_iff (laidOut : c.isLaidOut)
    (room : endOf c.instructions + (endFrom pos insns - pos) < 0x100000000)
    (fits' : endOf (c.withRoom pos insns).instructions < 0x100000000)
    (place : Starts c.instructions pos) :
    Frame.shift pos (endFrom pos insns - pos) c.length = (c.withRoom pos insns).length ↔
      ∀ p, c.instructions.getLast? = some p →
        p.instruction.size (p.offset + (endFrom pos insns - pos)) = p.instruction.size p.offset := by
  have fits := fits_of_room room
  have nonempty : c.back pos ≠ [] := by
    intro none
    obtain ⟨p, member, here⟩ := List.mem_map.mp place
    rw [← front_append_back c pos, none, List.append_nil] at member
    exact absurd here (lt_of_mem_front member).ne
  obtain ⟨ps, last, split⟩ := (List.eq_nil_or_concat _).resolve_left nonempty
  rw [List.concat_eq_append] at split
  have whole : c.instructions = c.front pos ++ ps ++ [last] := by
    rw [List.append_assoc, ← split, front_append_back]
  have behind : Frame.shift pos (endFrom pos insns - pos) last.offset =
      last.offset + (endFrom pos insns - pos) := by
    refine shift_of_mem_back laidOut room (.inr place) ?_
    rw [split]
    exact List.mem_concat_self
  have ends : c.length = last.offset + last.instruction.size last.offset := by
    rw [length_eq fits, endOf, whole, List.getLast?_concat]
  have ends' : (c.withRoom pos insns).length = last.offset + (endFrom pos insns - pos) +
      last.instruction.size (last.offset + (endFrom pos insns - pos)) := by
    rw [length_eq fits', endOf, withRoom, split, List.map_append, List.map_singleton,
      ← List.append_assoc, List.getLast?_concat]
    simp only [Placed.mapOffsets, Instruction.size_mapTargets, behind]
  rw [whole, List.getLast?_concat, ends', shift_length laidOut room (.inr place), ends]
  constructor
  · rintro same _ ⟨⟩
    omega
  · intro same
    have kept := same last rfl
    omega

/-- Instructions without targets can be put before any instruction of a body without frames, as long as no
offset wraps around. Closing the gaps then gives a body that is laid out and tracks the old one, just if no
range ends at the end of the code or the last instruction is of the same size as before. It is of another
size only if it is a switch and the inserted length is no multiple of four. -/
theorem relayout_insertAt (insns : List Instruction) (laidOut : c.isLaidOut) (sound : c.Anchored)
    (frameless : c.stackMap? = none) (place : Starts c.instructions pos)
    (plain : ∀ i ∈ insns, i.targets = [])
    (room : endOf c.instructions + (endFrom pos insns - pos) < 0x100000000)
    (words : (c.insertAt pos insns).1.InWords) :
    let len := endFrom pos insns - pos
    let f := Frame.shift pos len
    move (fun o => some (f o)) false c = .ok () (c.mapOffsets f) ∧
      ((∃ d, relayout (c.insertAt pos insns).1 = .ok () d ∧ d.isLaidOut ∧ d.Anchored ∧
          ∃ g, Tracks g (indexPast (c.front pos).length insns.length) c d) ↔
        (c.length ∈ c.stops → ∀ p, c.instructions.getLast? = some p →
          p.instruction.size (p.offset + len) = p.instruction.size p.offset)) := by
  intro len f
  have increasing := increasing_withRoom laidOut room (.inr place)
  have frameless' : (c.withRoom pos insns).stackMap? = none :=
    (stackMap?_mapOffsets _ c).trans frameless
  have stops : (c.withRoom pos insns).stops = c.stops.map f := stops_withRoom laidOut room sound
  have stopWords : ∀ o ∈ (c.withRoom pos insns).stops, o < 0x100000000 := by
    rw [stops, List.forall_mem_map]
    intro o member
    exact Frame.shift_lt ((Nat.le_add_right ..).trans_lt (room_of_ends laidOut room (sound.stops o member)))
  have ranges := variablesFit_withRoom laidOut room sound
  rw [insertAt_of_room laidOut room (.inr place)] at words ⊢
  rw [← length_withRoom_iff laidOut room words.recorded place]
  refine ⟨move_of_total f c, ?_, fun stop => ?_⟩
  · rintro ⟨d, closed, -, anchored, -⟩ member
    have member' : f c.length ∈ (c.withRoom pos insns).stops := by
      rw [stops]
      exact List.mem_map_of_mem member
    have ends : Ends (c.withRoom pos insns).instructions (c.withRoom pos insns).length
        (f c.length) := by
      obtain ⟨tiled | movable, rfl⟩ := (relayout_eq_ok_iff frameless' ranges words.recorded).mp closed
      · rw [seat_of_laidOut tiled words.recorded, mapOffsets_id ranges] at anchored
        exact anchored.stops _ member'
      · exact movable.stops increasing words.recorded stopWords _ member'
    -- All instructions start before the moved end, so it can only be the recorded end.
    refine ends.resolve_right fun starts => ?_
    obtain ⟨p, inside, same⟩ := List.mem_map.mp starts
    exact absurd same (offset_lt_shift_length laidOut room (.inr place) p inside).ne
  · have noTargets : ∀ i ∈ insns, ∀ t ∈ i.targets, Starts (c.withRoom pos insns).instructions t := by
      intro i member t target
      rw [plain i member] at target
      cases target
    obtain ⟨closed, tiled, anchored, tracks⟩ :=
      (anchored_withRoom laidOut room sound stop noTargets).relayout increasing words frameless'
    exact ⟨_, closed, tiled, anchored, _,
      (tracks_withRoom laidOut room sound.stops stop).trans tracks sound⟩

/-- A body with an octet in front of its switch, which takes one octet less of padding. -/
def switchingLater : Code where
  maxStack := 1
  maxLocals := 1
  instructions := [⟨0, .simple 0x1a⟩, ⟨1, .simple 0⟩, ⟨2, .tableSwitch 20 0 0 [0]⟩, ⟨20, .simple 0xb1⟩]
  handlers := [⟨0, 20, 20, 0⟩, ⟨2, 21, 0, 0⟩]
  attributes := [.lineNumbers 5 [⟨2, 7⟩], .variables false 6 [⟨2, 19, 3, 4, 0⟩]]

theorem relayout_insertAt_switching :
    switching.isLaidOut ∧ switching.Anchored ∧ switching.stackMap? = none ∧
      Starts switching.instructions 1 ∧ switching.length ∈ switching.stops ∧
      relayout (switching.insertAt 1 [.simple 0]).1 = .ok () switchingLater ∧
      switchingLater.isLaidOut ∧ switchingLater.Anchored ∧
      ∃ f, Tracks f (indexPast (switching.front 1).length 1) switching switchingLater := by
  have laidOut : switching.isLaidOut := by decide
  have sound : switching.Anchored := by decide
  have place : Starts switching.instructions 1 := by decide
  have kept : ∀ p, switching.instructions.getLast? = some p →
      p.instruction.size (p.offset + (endFrom 1 [.simple 0] - 1)) = p.instruction.size p.offset := by
    rintro _ ⟨⟩
    rfl
  obtain ⟨d, closed, tiled, anchored, tracks⟩ :=
    (relayout_insertAt [.simple 0] laidOut sound rfl place (by decide) (by decide)
      (by decide)).2.mpr fun _ => kept
  have runs : relayout (switching.insertAt 1 [.simple 0]).1 = .ok () switchingLater := by cbv
  cases closed.symm.trans runs
  exact ⟨laidOut, sound, rfl, place, by decide, runs, tiled, anchored, tracks⟩

/-- A switch with no keys that goes back to itself, with a handler of all the code. -/
def spinning : Code where
  maxStack := 1
  maxLocals := 0
  instructions := [⟨0, .lookupSwitch 0 []⟩]
  handlers := [⟨0, 12, 0, 0⟩]
  attributes := []

/-- An octet in front of the last switch takes one octet of padding from it, so the code is as long as
before. There are no gaps to close, but the handler ends behind the code. -/
theorem no_relayout_insertAt_spinning :
    spinning.isLaidOut ∧ spinning.Anchored ∧ spinning.stackMap? = none ∧
      Starts spinning.instructions 0 ∧
      relayout (spinning.insertAt 0 [.simple 0]).1 = .ok () { spinning with
        instructions := [⟨0, .simple 0⟩, ⟨1, .lookupSwitch 1 []⟩]
        handlers := [⟨1, 13, 1, 0⟩] } ∧
      ¬ ∃ d, relayout (spinning.insertAt 0 [.simple 0]).1 = .ok () d ∧ d.isLaidOut ∧ d.Anchored ∧
        ∃ f, Tracks f (indexPast (spinning.front 0).length 1) spinning d := by
  have tiled : (spinning.insertAt 0 [.simple 0]).1.isLaidOut := by decide
  have unsound : ¬ (spinning.insertAt 0 [.simple 0]).1.Anchored := by decide
  refine ⟨by decide, by decide, rfl, by decide, relayout_eq tiled, ?_⟩
  rintro ⟨d, closed, -, anchored, -⟩
  rw [relayout_eq tiled] at closed
  cases closed
  exact unsound anchored

end Code

end JarGate
