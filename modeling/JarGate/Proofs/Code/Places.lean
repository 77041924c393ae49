import JarGate.Proofs.Code.Insertion
import JarGate.Proofs.Code.StateMoves

/-!
# The places of a body

A body refers to its code by the offsets at which instructions start and, for the ends of ranges, by the
length of the code. A body tracks another one if it holds all instructions of it and refers to the same
ones. When room is made for instructions whose length is a multiple of four, the instructions behind
them keep their sizes, so the body with the room is laid out and tracks the one without.
-/

namespace JarGate

/-! ### References -/

/-- The lines that an attribute lists. -/
def CodeAttribute.lines : CodeAttribute → List LineNumber
  | .lineNumbers _ entries => entries
  | _ => []

/-- The variables that an attribute lists. -/
def CodeAttribute.locals : CodeAttribute → List LocalVariable
  | .variables _ _ entries => entries
  | _ => []

/-- Whether the exceptions of the instruction at an offset are caught. -/
def Handler.Covers (h : Handler) (offset : Nat) : Prop :=
  h.start ≤ offset ∧ offset < h.stop

/-- Whether a variable has a value at an offset. -/
def LocalVariable.Covers (e : LocalVariable) (offset : Nat) : Prop :=
  e.start ≤ offset ∧ offset < e.start + e.length

namespace Code

/-- The lines of the method. -/
def lines (c : Code) : List LineNumber := c.attributes.flatMap CodeAttribute.lines

/-- The variables of the method. -/
def locals (c : Code) : List LocalVariable := c.attributes.flatMap CodeAttribute.locals

/-- Where the ranges of handlers and variables end. -/
def stops (c : Code) : List Nat :=
  c.handlers.map Handler.stop ++ c.locals.map fun e => e.start + e.length

/-- Whether all that refers to the code refers to the start of an instruction or, where a range may end
there, to the end of the code. -/
structure Anchored (c : Code) : Prop where
  targets : ∀ p ∈ c.instructions, ∀ t ∈ p.instruction.targets, Starts c.instructions t
  handlers : ∀ h ∈ c.handlers, Starts c.instructions h.start ∧
    Ends c.instructions c.length h.stop ∧ Starts c.instructions h.handler
  lines : ∀ e ∈ c.lines, Starts c.instructions e.start
  locals : ∀ e ∈ c.locals, Starts c.instructions e.start ∧
    Ends c.instructions c.length (e.start + e.length)

instance (c : Code) : Decidable c.Anchored :=
  decidable_of_iff
    ((∀ p ∈ c.instructions, ∀ t ∈ p.instruction.targets, Starts c.instructions t) ∧
      (∀ h ∈ c.handlers, Starts c.instructions h.start ∧ Ends c.instructions c.length h.stop ∧
        Starts c.instructions h.handler) ∧
      (∀ e ∈ c.lines, Starts c.instructions e.start) ∧
      ∀ e ∈ c.locals, Starts c.instructions e.start ∧
        Ends c.instructions c.length (e.start + e.length))
    ⟨fun ⟨targets, handlers, lines, locals⟩ => ⟨targets, handlers, lines, locals⟩,
      fun ⟨targets, handlers, lines, locals⟩ => ⟨targets, handlers, lines, locals⟩⟩

/-- Whether `d` is `c` with its references sent through `f`, where `f` sends the instruction at index
`k` of `c` to the one at index `place k` of `d`, keeps the order of instructions and ends of ranges, none of
which wraps around, and sends the end of the code to the end of the code if a range ends there. -/
structure Tracks (f place : Nat → Nat) (c d : Code) : Prop where
  instruction : ∀ {k p}, c.instructions[k]? = some p →
    d.instructions[place k]? = some (p.mapOffsets f)
  ordered : ∀ {o o'}, Starts c.instructions o → Starts c.instructions o' ∨ o' ∈ c.stops →
    (f o < f o' ↔ o < o')
  word : ∀ {o}, o ∈ c.stops → o < 0x100000000 ∧ f o < 0x100000000
  stop : c.length ∈ c.stops → f c.length = d.length
  handlers : d.handlers = c.handlers.map (Handler.mapOffsets f)
  attributes : d.attributes = c.attributes.map (CodeAttribute.mapOffsets f)

variable {c d : Code} {f place : Nat → Nat} {pos : Nat} {insns : List Instruction}

theorem stop_mem_stops {h : Handler} (member : h ∈ c.handlers) : h.stop ∈ c.stops :=
  List.mem_append_left _ (List.mem_map.mpr ⟨h, member, rfl⟩)

theorem end_mem_stops {e : LocalVariable} (member : e ∈ c.locals) : e.start + e.length ∈ c.stops :=
  List.mem_append_right _ (List.mem_map.mpr ⟨e, member, rfl⟩)

/-! ### Moved references -/

section

variable (handlers : d.handlers = c.handlers.map (Handler.mapOffsets f))
  (attributes : d.attributes = c.attributes.map (CodeAttribute.mapOffsets f))

include attributes in
theorem lines_of_moved : d.lines = c.lines.map (LineNumber.mapOffsets f) := by
  rw [Code.lines, Code.lines, attributes, List.flatMap_map, List.map_flatMap]
  congr 1
  funext a
  cases a <;> rfl

include attributes in
theorem locals_of_moved : d.locals = c.locals.map (LocalVariable.mapOffsets f) := by
  rw [Code.locals, Code.locals, attributes, List.flatMap_map, List.map_flatMap]
  congr 1
  funext a
  cases a <;> rfl

include handlers attributes in
theorem stops_of_moved (moved : ∀ e ∈ c.locals,
      (e.mapOffsets f).start + (e.mapOffsets f).length = f (e.start + e.length)) :
    d.stops = c.stops.map f := by
  have ends : d.locals.map (fun e => e.start + e.length) =
      (c.locals.map fun e => e.start + e.length).map f := by
    rw [locals_of_moved attributes, List.map_map, List.map_map]
    exact List.map_congr_left moved
  have caught : d.handlers.map Handler.stop = (c.handlers.map Handler.stop).map f := by
    rw [handlers, List.map_map, List.map_map]
    rfl
  rw [stops, stops, List.map_append, caught, ends]

end

theorem Anchored.stops (sound : c.Anchored) : ∀ o ∈ c.stops, Ends c.instructions c.length o := by
  intro o member
  rcases List.mem_append.mp member with caught | living
  · obtain ⟨h, old, rfl⟩ := List.mem_map.mp caught
    exact (sound.handlers h old).2.1
  · obtain ⟨e, old, rfl⟩ := List.mem_map.mp living
    exact (sound.locals e old).2

namespace Tracks

theorem start (tracks : Tracks f place c d) {o : Nat} (starts : Starts c.instructions o) :
    Starts d.instructions (f o) := by
  obtain ⟨p, member, rfl⟩ := List.mem_map.mp starts
  obtain ⟨k, found⟩ := List.mem_iff_getElem?.mp member
  have moved := List.mem_iff_getElem?.mpr ⟨place k, tracks.instruction found⟩
  exact List.mem_map.mpr ⟨_, moved, rfl⟩

theorem ends (tracks : Tracks f place c d) (sound : c.Anchored) {o : Nat} (member : o ∈ c.stops) :
    Ends d.instructions d.length (f o) := by
  rcases sound.stops o member with rfl | starts
  · exact .inl (tracks.stop member)
  · exact .inr (tracks.start starts)

/-- The start of the range of a variable stays before its end. -/
theorem le (tracks : Tracks f place c d) (sound : c.Anchored) :
    ∀ e ∈ c.locals, f e.start ≤ f (e.start + e.length) := by
  intro e member
  rcases Nat.eq_zero_or_pos e.length with none | some
  · rw [none, Nat.add_zero]
  · have less : e.start < e.start + e.length := by omega
    exact ((tracks.ordered (sound.locals e member).1 (.inr (end_mem_stops member))).mpr less).le

/-- The end of the range of a variable goes where every other end of a range goes. -/
theorem variableEnd (tracks : Tracks f place c d) (sound : c.Anchored) {e : LocalVariable}
    (member : e ∈ c.locals) :
    (e.mapOffsets f).start + (e.mapOffsets f).length = f (e.start + e.length) := by
  obtain ⟨word, word'⟩ := tracks.word (end_mem_stops member)
  exact LocalVariable.add_mapOffsets word (tracks.le sound e member) word'

theorem stops (tracks : Tracks f place c d) (sound : c.Anchored) : d.stops = c.stops.map f :=
  stops_of_moved tracks.handlers tracks.attributes fun _ => tracks.variableEnd sound

theorem anchored (tracks : Tracks f place c d) (sound : c.Anchored)
    (targets : ∀ p ∈ d.instructions, ∀ t ∈ p.instruction.targets, Starts d.instructions t) :
    d.Anchored where
  targets := targets
  handlers := by
    rw [tracks.handlers]
    intro h member
    obtain ⟨h, old, rfl⟩ := List.mem_map.mp member
    obtain ⟨start, -, handler⟩ := sound.handlers h old
    exact ⟨tracks.start start, tracks.ends sound (stop_mem_stops old), tracks.start handler⟩
  lines := by
    rw [lines_of_moved tracks.attributes]
    intro e member
    obtain ⟨e, old, rfl⟩ := List.mem_map.mp member
    exact tracks.start (sound.lines e old)
  locals := by
    rw [locals_of_moved tracks.attributes]
    intro e member
    obtain ⟨e, old, rfl⟩ := List.mem_map.mp member
    rw [tracks.variableEnd sound old]
    exact ⟨tracks.start (sound.locals e old).1, tracks.ends sound (end_mem_stops old)⟩

theorem trans {e : Code} {g place' : Nat → Nat} (first : Tracks f place c d)
    (second : Tracks g place' d e) (sound : c.Anchored) : Tracks (g ∘ f) (place' ∘ place) c e where
  instruction := by
    intro k p found
    rw [Function.comp_apply, second.instruction (first.instruction found), Placed.mapOffsets,
      Placed.mapOffsets, Placed.mapOffsets, Instruction.mapTargets_mapTargets]
    rfl
  ordered := by
    intro o o' starts names
    have names' : Starts d.instructions (f o') ∨ f o' ∈ d.stops := by
      rw [first.stops sound]
      exact names.imp first.start (List.mem_map_of_mem)
    exact (second.ordered (first.start starts) names').trans (first.ordered starts names)
  word := by
    intro o member
    have member' : f o ∈ d.stops := by
      rw [first.stops sound]
      exact List.mem_map_of_mem member
    exact ⟨(first.word member).1, (second.word member').2⟩
  stop := by
    intro member
    have same := first.stop member
    have member' : d.length ∈ d.stops := by
      rw [first.stops sound, ← same]
      exact List.mem_map_of_mem member
    rw [Function.comp_apply, same, second.stop member']
  handlers := by
    rw [second.handlers, first.handlers, List.map_map]
    rfl
  attributes := by
    rw [second.attributes, first.attributes, List.map_map]
    refine List.map_congr_left fun a member => ?_
    rcases a with ⟨name, frames⟩ | ⟨name, entries⟩ | ⟨generic, name, entries⟩ | raw
    · rfl
    · rw [Function.comp_apply, CodeAttribute.mapOffsets, CodeAttribute.mapOffsets,
        CodeAttribute.mapOffsets, List.map_map]
      rfl
    · rw [Function.comp_apply, CodeAttribute.mapOffsets, CodeAttribute.mapOffsets,
        CodeAttribute.mapOffsets, List.map_map]
      congr 1
      refine List.map_congr_left fun v inside => ?_
      have listed : v ∈ c.locals := List.mem_flatMap.mpr ⟨_, member, inside⟩
      obtain ⟨word, word'⟩ := first.word (end_mem_stops listed)
      have moved : (v.mapOffsets f).stop = f v.stop := by
        rw [LocalVariable.stop, first.variableEnd sound listed, LocalVariable.stop, wrapped_of_lt word,
          wrapped_of_lt word']
      rw [Function.comp_apply, LocalVariable.mapOffsets, moved]
      rfl
    · rfl

/-- An instruction is covered by the same handlers as before. -/
theorem handler_covers (tracks : Tracks f place c d) (sound : c.Anchored) {h : Handler}
    (member : h ∈ c.handlers) {o : Nat} (starts : Starts c.instructions o) :
    (h.mapOffsets f).Covers (f o) ↔ h.Covers o := by
  have before := tracks.ordered starts (.inl (sound.handlers h member).1)
  have upTo := tracks.ordered starts (.inr (stop_mem_stops member))
  exact and_congr (Nat.not_lt.symm.trans ((not_congr before).trans Nat.not_lt)) upTo

/-- An instruction is covered by the ranges of the same variables as before. -/
theorem local_covers (tracks : Tracks f place c d) (sound : c.Anchored) {e : LocalVariable}
    (member : e ∈ c.locals) {o : Nat} (starts : Starts c.instructions o) :
    (e.mapOffsets f).Covers (f o) ↔ e.Covers o := by
  have before := tracks.ordered starts (.inl (sound.locals e member).1)
  have upTo := tracks.ordered starts (.inr (end_mem_stops member))
  rw [LocalVariable.Covers, tracks.variableEnd sound member]
  exact and_congr (Nat.not_lt.symm.trans ((not_congr before).trans Nat.not_lt)) upTo

end Tracks

end Code

/-! ### Layouts -/

namespace Instruction

variable {pos o : Nat} {insns is js : List Instruction} {ps qs : List Placed}

theorem length_placeFrom (pos : Nat) (insns : List Instruction) :
    (placeFrom pos insns).length = insns.length := by
  induction insns generalizing pos with
  | nil => rfl
  | cons i is ih => rw [placeFrom_cons, List.length_cons, List.length_cons, ih]

theorem map_instruction_placeFrom (pos : Nat) (insns : List Instruction) :
    (placeFrom pos insns).map Placed.instruction = insns := by
  induction insns generalizing pos with
  | nil => rfl
  | cons i is ih => rw [placeFrom_cons, List.map_cons, ih]

theorem tilesFrom_append_iff :
    tilesFrom pos (ps ++ qs) ↔
      tilesFrom pos ps ∧ tilesFrom (endFrom pos (ps.map Placed.instruction)) qs := by
  induction ps generalizing pos with
  | nil => simp [tilesFrom, endFrom]
  | cons p ps ih =>
      rw [List.cons_append, tilesFrom, tilesFrom, Bool.and_eq_true, Bool.and_eq_true, ih, List.map_cons,
        endFrom, and_assoc]

theorem endFrom_append (pos : Nat) (is js : List Instruction) :
    endFrom pos (is ++ js) = endFrom (endFrom pos is) js := by
  induction is generalizing pos with
  | nil => rfl
  | cons i is ih => rw [List.cons_append, endFrom, endFrom, ih]

theorem endFrom_mapTargets (f : Nat → Nat) (pos : Nat) (insns : List Instruction) :
    endFrom pos (insns.map (mapTargets f)) = endFrom pos insns := by
  induction insns generalizing pos with
  | nil => rfl
  | cons i is ih => rw [List.map_cons, endFrom, endFrom, size_mapTargets, ih]

theorem endFrom_add {len : Nat} (aligned : len % 4 = 0) (pos : Nat) (insns : List Instruction) :
    endFrom (pos + len) insns = endFrom pos insns + len := by
  induction insns generalizing pos with
  | nil => rfl
  | cons i is ih =>
      have behind : pos + len + i.size pos = pos + i.size pos + len := by omega
      rw [endFrom, endFrom, size_add aligned, behind, ih]

theorem map_instruction_mapOffsets (f : Nat → Nat) (ps : List Placed) :
    (ps.map (Placed.mapOffsets f)).map Placed.instruction =
      (ps.map Placed.instruction).map (mapTargets f) := by
  rw [List.map_map, List.map_map]
  rfl

/-- The instructions that start before the start of an instruction, or before the end of the code, end
there. -/
theorem endFrom_takeWhile (tiles : tilesFrom pos ps)
    (place : o = endFrom pos (ps.map Placed.instruction) ∨ o ∈ ps.map Placed.offset) :
    endFrom pos ((ps.takeWhile (·.offset < o)).map Placed.instruction) = o := by
  induction ps generalizing pos with
  | nil => exact (place.resolve_right List.not_mem_nil).symm
  | cons p ps ih =>
      rw [tilesFrom, Bool.and_eq_true, beq_iff_eq] at tiles
      obtain ⟨rfl, tiles⟩ := tiles
      rw [List.map_cons, endFrom, List.map_cons, List.mem_cons] at place
      rcases Nat.lt_or_ge p.offset o with before | behind
      · have later := ih tiles (place.imp_right fun member => member.resolve_left before.ne')
        rw [List.takeWhile_cons, if_pos (decide_eq_true before), List.map_cons, endFrom, later]
      · have here : o = p.offset := by
          have positive := size_pos p.offset p.instruction
          have grows := le_endFrom (p.offset + p.instruction.size p.offset) (ps.map Placed.instruction)
          rcases place with rfl | rfl | member
          · omega
          · rfl
          · rw [← placeFrom_of_tiles tiles] at member
            obtain ⟨q, later, rfl⟩ := List.mem_map.mp member
            have least := (bounds_of_mem_placeFrom later).1
            omega
        rw [here, List.takeWhile_cons, if_neg (by simp)]
        rfl

end Instruction

/-! ### Room for instructions -/

theorem Frame.shift_lt_iff {start len o o' : Nat} (fits : o + len < 0x100000000)
    (fits' : o' + len < 0x100000000) : shift start len o < shift start len o' ↔ o < o' := by
  rw [shift_of_lt fun _ => fits, shift_of_lt fun _ => fits']
  split <;> split <;> omega

namespace Code

open Instruction (endFrom endOf placeFrom tilesFrom)

variable {c : Code} {pos : Nat} {insns : List Instruction}

theorem length_of_laidOut (laidOut : c.isLaidOut) (fits : endOf c.instructions < 0x100000000) :
    c.length = endFrom 0 (c.instructions.map Placed.instruction) := by
  rw [length_eq fits, Instruction.endOf_of_tiles laidOut]

theorem front_append_back (c : Code) (pos : Nat) : c.front pos ++ c.back pos = c.instructions :=
  List.takeWhile_append_dropWhile

theorem lt_of_mem_front {p : Placed} (member : p ∈ c.front pos) : p.offset < pos :=
  of_decide_eq_true (List.mem_takeWhile_imp (p := fun q : Placed => decide (q.offset < pos)) member)

/-- The code is cut in two at the start of an instruction or at its end. -/
theorem tiles_of_place (laidOut : c.isLaidOut) (fits : endOf c.instructions < 0x100000000)
    (place : Ends c.instructions c.length pos) :
    tilesFrom 0 (c.front pos) ∧ endFrom 0 ((c.front pos).map Placed.instruction) = pos ∧
      tilesFrom pos (c.back pos) := by
  have upTo : endFrom 0 ((c.front pos).map Placed.instruction) = pos := by
    rw [Ends, length_of_laidOut laidOut fits] at place
    exact Instruction.endFrom_takeWhile laidOut place
  rw [isLaidOut, ← front_append_back c pos, Instruction.tilesFrom_append_iff, upTo] at laidOut
  exact ⟨laidOut.1, upTo, laidOut.2⟩

theorem le_of_mem_back (laidOut : c.isLaidOut) (fits : endOf c.instructions < 0x100000000)
    (place : Ends c.instructions c.length pos) {p : Placed} (member : p ∈ c.back pos) :
    pos ≤ p.offset := by
  rw [← Instruction.placeFrom_of_tiles (tiles_of_place laidOut fits place).2.2] at member
  exact (Instruction.bounds_of_mem_placeFrom member).1

theorem le_length (laidOut : c.isLaidOut) (fits : endOf c.instructions < 0x100000000)
    (place : Ends c.instructions c.length pos) : pos ≤ c.length := by
  rw [length_eq fits]
  exact le_endOf_of_ends laidOut fits place

theorem shift_of_mem_front {p : Placed} (len : Nat) (member : p ∈ c.front pos) :
    Frame.shift pos len p.offset = p.offset :=
  if_neg (Nat.not_le.mpr (lt_of_mem_front member))

/-! #### Bodies that stay below the limit of a word -/

section

variable {len : Nat} (laidOut : c.isLaidOut) (room : endOf c.instructions + len < 0x100000000)

include room in
theorem fits_of_room : endOf c.instructions < 0x100000000 := (Nat.le_add_right ..).trans_lt room

include laidOut room

theorem room_of_ends {o : Nat} (ends : Ends c.instructions c.length o) : o + len < 0x100000000 :=
  (Nat.add_le_add_right (le_endOf_of_ends laidOut (fits_of_room room) ends) len).trans_lt room

variable (place : Ends c.instructions c.length pos)

include place

theorem shift_of_mem_back {p : Placed} (member : p ∈ c.back pos) :
    Frame.shift pos len p.offset = p.offset + len := by
  have behind := le_of_mem_back laidOut (fits_of_room room) place member
  have starts : Starts c.instructions p.offset :=
    List.mem_map_of_mem ((List.dropWhile_sublist _).mem member)
  rw [Frame.shift, if_pos behind, wrapped_of_lt (room_of_ends laidOut room (.inr starts))]

theorem shift_length : Frame.shift pos len c.length = c.length + len := by
  have upTo := le_length laidOut (fits_of_room room) place
  rw [Frame.shift, if_pos upTo, wrapped_of_lt (room_of_ends laidOut room (.inl rfl))]

end

/-- Room can be made where no offset wraps around. -/
theorem insertAt_of_room (laidOut : c.isLaidOut)
    (room : endOf c.instructions + (endFrom pos insns - pos) < 0x100000000)
    (place : Ends c.instructions c.length pos) :
    c.insertAt pos insns = (c.withRoom pos insns, endFrom pos insns - pos) := by
  have fits := fits_of_room room
  have start := Instruction.le_endFrom pos insns
  have upTo := le_endOf_of_ends laidOut fits place
  refine insertAt_eq (by omega) fun p member => ?_
  have near := room_of_ends laidOut room (.inr (List.mem_map_of_mem member))
  rw [Frame.shift_of_lt fun _ => near]
  split <;> omega

/-- The index of an instruction after `count` others were put behind the first `front` ones. -/
def indexPast (front count k : Nat) : Nat :=
  if k < front then k else k + count

/-- A body with room tracks the one without if the end of the code moves like all other places. -/
theorem tracks_withRoom (laidOut : c.isLaidOut)
    (room : endOf c.instructions + (endFrom pos insns - pos) < 0x100000000)
    (places : ∀ o ∈ c.stops, Ends c.instructions c.length o)
    (stop : c.length ∈ c.stops →
      Frame.shift pos (endFrom pos insns - pos) c.length = (c.withRoom pos insns).length) :
    Tracks (Frame.shift pos (endFrom pos insns - pos)) (indexPast (c.front pos).length insns.length) c
      (c.withRoom pos insns) where
  instruction := by
    intro k p found
    rw [← front_append_back c pos] at found
    rw [withRoom, List.append_assoc, indexPast]
    rcases Nat.lt_or_ge k (c.front pos).length with before | behind
    · rw [List.getElem?_append_left before] at found
      rw [if_pos before, List.getElem?_append_left (by rwa [List.length_map]), List.getElem?_map, found]
      rfl
    -- Behind the room the index is counted past the new instructions.
    · have past : k + insns.length - (c.front pos).length - insns.length =
          k - (c.front pos).length := by omega
      rw [List.getElem?_append_right behind] at found
      rw [if_neg (Nat.not_lt.mpr behind), List.getElem?_append_right (by rw [List.length_map]; omega),
        List.length_map, List.getElem?_append_right (by rw [Instruction.length_placeFrom]; omega),
        Instruction.length_placeFrom, past, List.getElem?_map, found]
      rfl
  ordered := fun starts names => Frame.shift_lt_iff (room_of_ends laidOut room (.inr starts))
    (room_of_ends laidOut room (names.elim .inr (places _)))
  word := fun member => by
    have near := room_of_ends laidOut room (places _ member)
    have word := (Nat.le_add_right ..).trans_lt near
    exact ⟨word, Frame.shift_lt word⟩
  stop := stop
  handlers := rfl
  attributes := rfl

theorem anchored_withRoom (laidOut : c.isLaidOut)
    (room : endOf c.instructions + (endFrom pos insns - pos) < 0x100000000) (sound : c.Anchored)
    (stop : c.length ∈ c.stops →
      Frame.shift pos (endFrom pos insns - pos) c.length = (c.withRoom pos insns).length)
    (targets : ∀ i ∈ insns, ∀ t ∈ i.targets, Starts (c.withRoom pos insns).instructions t) :
    (c.withRoom pos insns).Anchored := by
  have tracks := tracks_withRoom laidOut room sound.stops stop
  refine tracks.anchored sound fun p member t target => ?_
  have old {q : Placed} (member : q ∈ c.instructions)
      (moved : q.mapOffsets (Frame.shift pos (endFrom pos insns - pos)) = p) :
      Starts (c.withRoom pos insns).instructions t := by
    rw [← moved, Placed.mapOffsets, Instruction.targets_mapTargets] at target
    obtain ⟨t, reached, rfl⟩ := List.mem_map.mp target
    exact tracks.start (sound.targets q member t reached)
  rw [← front_append_back c pos] at old
  rcases List.mem_append.mp member with early | late
  · rcases List.mem_append.mp early with first | new
    · obtain ⟨q, before, moved⟩ := List.mem_map.mp first
      exact old (List.mem_append_left _ before) moved
    · exact targets _ (Instruction.mem_placeFrom new) t target
  · obtain ⟨q, behind, moved⟩ := List.mem_map.mp late
    exact old (List.mem_append_right _ behind) moved

/-- Aligned room leaves no gaps. -/
theorem laidOut_withRoom (laidOut : c.isLaidOut)
    (room : endOf c.instructions + (endFrom pos insns - pos) < 0x100000000)
    (place : Ends c.instructions c.length pos) (aligned : (endFrom pos insns - pos) % 4 = 0) :
    (c.withRoom pos insns).isLaidOut ∧
      (c.withRoom pos insns).length = c.length + (endFrom pos insns - pos) := by
  have fits := fits_of_room room
  obtain ⟨first, upTo, last⟩ := tiles_of_place laidOut fits place
  have grown : endFrom pos insns = pos + (endFrom pos insns - pos) :=
    (Nat.add_sub_cancel' (Instruction.le_endFrom pos insns)).symm
  have first' := Instruction.tilesFrom_shift 0 (Nat.zero_mod 4) (c.front pos) fun p member =>
    shift_of_mem_front (endFrom pos insns - pos) member
  have last' := Instruction.tilesFrom_shift pos aligned (c.back pos) fun p member =>
    shift_of_mem_back laidOut room place member
  rw [Nat.add_zero] at first'
  rw [← grown] at last'
  have tiled : (c.withRoom pos insns).isLaidOut := by
    rw [isLaidOut, withRoom, List.append_assoc, Instruction.tilesFrom_append_iff,
      Instruction.map_instruction_mapOffsets, Instruction.endFrom_mapTargets, upTo,
      Instruction.tilesFrom_append, last', first']
    exact ⟨first, last⟩
  have whole : endOf c.instructions = endFrom pos ((c.back pos).map Placed.instruction) := by
    rw [Instruction.endOf_of_tiles laidOut, ← front_append_back c pos, List.map_append,
      Instruction.endFrom_append, upTo]
  have ends : endOf (c.withRoom pos insns).instructions =
      endOf c.instructions + (endFrom pos insns - pos) := by
    rw [Instruction.endOf_of_tiles tiled, whole, ← Instruction.endFrom_add aligned, ← grown, withRoom]
    simp only [List.map_append, Instruction.map_instruction_mapOffsets, Instruction.endFrom_append,
      Instruction.endFrom_mapTargets, Instruction.map_instruction_placeFrom, upTo]
  exact ⟨tiled, by rw [length_eq (ends ▸ room), ends, length_eq fits]⟩

/-- A range covers the instructions that are put into it, also those at its end, but not those at its
start. -/
theorem covers_room {start stop o : Nat} (least : pos ≤ o) (most : o < endFrom pos insns)
    (fits : start + (endFrom pos insns - pos) < 0x100000000)
    (fits' : stop + (endFrom pos insns - pos) < 0x100000000) :
    (Frame.shift pos (endFrom pos insns - pos) start ≤ o ∧
      o < Frame.shift pos (endFrom pos insns - pos) stop) ↔ start < pos ∧ pos ≤ stop := by
  rw [Frame.shift_of_lt fun _ => fits, Frame.shift_of_lt fun _ => fits']
  split <;> split <;> omega

/-- Instructions whose length is a multiple of four can be put at any place of a body, as long as no offset
wraps around. The move cannot fail. The body is laid out as before and its length grows by the inserted
length, which is the answer. The old instructions stand in their order before and behind the new ones, and
only offsets of them and in them are changed. All that refers to an instruction refers to it still, and each
instruction is covered by the same handlers and variables. -/
theorem insertAt_keeps_places (insns : List Instruction) (laidOut : c.isLaidOut) (sound : c.Anchored)
    (place : Ends c.instructions c.length pos) (aligned : (endFrom pos insns - pos) % 4 = 0)
    (targets : ∀ i ∈ insns, ∀ t ∈ i.targets, Starts (c.insertAt pos insns).1.instructions t)
    (room : endOf c.instructions + (endFrom pos insns - pos) < 0x100000000) :
    let len := endFrom pos insns - pos
    let f := Frame.shift pos len
    let d := (c.insertAt pos insns).1
    move (fun o => some (f o)) false c = .ok () (c.mapOffsets f) ∧ (c.insertAt pos insns).2 = len ∧
      d.isLaidOut ∧ d.Anchored ∧ d.length = c.length + len ∧
      (∃ front back, c.instructions = front ++ back ∧
        (∀ p ∈ front, p.offset < pos) ∧ (∀ p ∈ back, pos ≤ p.offset) ∧
        d = { c.mapOffsets f with
          instructions := front.map (Placed.mapOffsets f) ++ placeFrom pos insns ++
            back.map (Placed.mapOffsets f) } ∧
        Tracks f (indexPast front.length insns.length) c d) ∧
      (∀ h ∈ c.handlers,
        (∀ p ∈ c.instructions, (h.mapOffsets f).Covers (f p.offset) ↔ h.Covers p.offset) ∧
        ∀ p ∈ placeFrom pos insns, (h.mapOffsets f).Covers p.offset ↔ h.start < pos ∧ pos ≤ h.stop) ∧
      ∀ e ∈ c.locals,
        (∀ p ∈ c.instructions, (e.mapOffsets f).Covers (f p.offset) ↔ e.Covers p.offset) ∧
        ∀ p ∈ placeFrom pos insns,
          (e.mapOffsets f).Covers p.offset ↔ e.start < pos ∧ pos ≤ e.start + e.length := by
  intro len f d
  have fits := fits_of_room room
  have result : d = c.withRoom pos insns := congrArg Prod.fst (insertAt_of_room laidOut room place)
  have answer : (c.insertAt pos insns).2 = len := congrArg Prod.snd (insertAt_of_room laidOut room place)
  change ∀ i ∈ insns, ∀ t ∈ i.targets, Starts d.instructions t at targets
  rw [result] at targets ⊢
  obtain ⟨tiled, grown⟩ := laidOut_withRoom laidOut room place aligned
  have stop : f c.length = (c.withRoom pos insns).length :=
    (shift_length laidOut room place).trans grown.symm
  have tracks : Tracks f _ c (c.withRoom pos insns) :=
    tracks_withRoom laidOut room sound.stops fun _ => stop
  have near {o : Nat} (ends : Ends c.instructions c.length o) : o + len < 0x100000000 :=
    room_of_ends laidOut room ends
  have starts {p : Placed} (member : p ∈ c.instructions) : Starts c.instructions p.offset :=
    List.mem_map.mpr ⟨p, member, rfl⟩
  refine ⟨move_of_total f c, answer, tiled, anchored_withRoom laidOut room sound (fun _ => stop) targets,
    grown,
    ⟨c.front pos, c.back pos, (front_append_back c pos).symm, fun p member => lt_of_mem_front member,
      fun p member => le_of_mem_back laidOut fits place member, rfl, tracks⟩, ?_, ?_⟩
  · intro h member
    refine ⟨fun p old => tracks.handler_covers sound member (starts old), fun p new => ?_⟩
    obtain ⟨least, most⟩ := Instruction.bounds_of_mem_placeFrom new
    obtain ⟨start, stop, -⟩ := sound.handlers h member
    exact covers_room least most (near (.inr start)) (near stop)
  · intro e member
    refine ⟨fun p old => tracks.local_covers sound member (starts old), fun p new => ?_⟩
    obtain ⟨least, most⟩ := Instruction.bounds_of_mem_placeFrom new
    obtain ⟨start, stop⟩ := sound.locals e member
    rw [LocalVariable.Covers, tracks.variableEnd sound member]
    exact covers_room least most (near (.inr start)) (near stop)

/-- A switch between a load and a return, with ranges that end before and at the end of the code. -/
def switching : Code where
  maxStack := 1
  maxLocals := 1
  instructions := [⟨0, .simple 0x1a⟩, ⟨1, .tableSwitch 20 0 0 [0]⟩, ⟨20, .simple 0xb1⟩]
  handlers := [⟨0, 20, 20, 0⟩, ⟨1, 21, 0, 0⟩]
  attributes := [.lineNumbers 5 [⟨1, 7⟩], .variables false 6 [⟨1, 20, 3, 4, 0⟩]]

/-- Four octets of code that goes back to the start. -/
def goingBack : List Instruction := [.simple 0, .branch 0xa7 0]

theorem insertAt_keeps_places_switching :
    switching.isLaidOut ∧ switching.Anchored ∧ Ends switching.instructions switching.length 1 ∧
      (switching.insertAt 1 goingBack).2 = 4 ∧ (switching.insertAt 1 goingBack).1.isLaidOut ∧
      (switching.insertAt 1 goingBack).1.Anchored ∧
      (switching.insertAt 1 goingBack).1 =
        { maxStack := 1
          maxLocals := 1
          instructions := [⟨0, .simple 0x1a⟩, ⟨1, .simple 0⟩, ⟨2, .branch 0xa7 0⟩,
            ⟨5, .tableSwitch 24 0 0 [0]⟩, ⟨24, .simple 0xb1⟩]
          handlers := [⟨0, 24, 24, 0⟩, ⟨5, 25, 0, 0⟩]
          attributes := [.lineNumbers 5 [⟨5, 7⟩], .variables false 6 [⟨5, 20, 3, 4, 0⟩]] } := by
  have laidOut : switching.isLaidOut := by decide
  have sound : switching.Anchored := by decide
  have place : Ends switching.instructions switching.length 1 := by decide
  obtain ⟨-, answer, tiled, anchored, -⟩ :=
    insertAt_keeps_places goingBack laidOut sound place (by decide) (by decide) (by decide)
  exact ⟨laidOut, sound, place, answer, tiled, anchored, by decide⟩

end Code

end JarGate
