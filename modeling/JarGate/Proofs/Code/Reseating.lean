import JarGate.Proofs.Code.FrameReferences
import JarGate.Proofs.Code.Relayout

/-!
# References across closed gaps

Closing the gaps of a layout either carries every reference over to the new one or reports an error. What
a body refers to by offset are the targets of its instructions, the ranges of its handlers, the positions
of its lines and variables, and the offsets that its frames name. A reference to the recorded offset of an
instruction becomes one to the new offset of the same instruction, and one to the recorded end of the code
becomes one to the new end. A reference to anything else is an error, and so is a number in a frame that
would not fit its sixteen bits any more, or a table of frames whose offsets wrap around; there are no other
errors. All this is so as long as neither end of the code wraps around: an end that does would be taken for
one of the places of the body.
-/

namespace JarGate

/-! ### What a body refers to -/

/-- The offsets in an attribute. -/
def CodeAttribute.references : CodeAttribute → List Nat
  | .stackMap _ table => Frame.offsets table ++ table.flatMap Frame.objects
  | a => a.named

namespace Code

variable {c d : Code}

/-- Everything in a body that refers to a place in the code. -/
def references (c : Code) : List Nat :=
  c.instructions.flatMap (·.instruction.targets) ++ c.handlers.flatMap Handler.named ++
    c.attributes.flatMap CodeAttribute.references

/-- The tables of frames of a body. -/
def frameTables (c : Code) : List (List Frame) := c.attributes.filterMap framesOf?

/-- Why the gaps of a body cannot be closed. -/
inductive Blocked (c : Code) : Prop
  /-- A reference is neither to an instruction nor to the end of the code. -/
  | stray {o : Nat} (refers : o ∈ c.references) (nowhere : ¬ Ends c.instructions c.length o) : Blocked c
  /-- The offsets of a table of frames wrap around, so that they do not increase. -/
  | wraps {table : List Frame} (held : table ∈ c.frameTables) (far : ¬ Frame.Unwrapped none table) :
      Blocked c
  /-- Two frames, or the start of the code and the first one, would be too far apart. -/
  | distance {table : List Frame} {delta : Nat} (held : table ∈ c.frameTables)
      (between : delta ∈ Frame.deltas ((Frame.offsets table).map c.seat)) (large : 65535 < delta) :
      Blocked c
  /-- An uninitialized object would have been made at too great an offset. -/
  | object {table : List Frame} {o : Nat} (held : table ∈ c.frameTables)
      (made : o ∈ table.flatMap Frame.objects) (large : 65535 < c.seat o) : Blocked c

/-- Whether an offset is a place of one layout, and another one the same place of another layout: the
start of the instruction with the same number, or the end of the code. -/
inductive SamePlace (c d : Code) : Nat → Nat → Prop
  | instruction {k : Nat} {p q : Placed} (here : c.instructions[k]? = some p)
      (there : d.instructions[k]? = some q) : SamePlace c d p.offset q.offset
  | stop : SamePlace c d c.length d.length

/-! ### Order -/

section

variable (increasing : c.Increasing) (words : c.InWords)

include increasing words

theorem seat_lt {o o' : Nat} (place : Ends c.instructions c.length o)
    (place' : Ends c.instructions c.length o') (less : o < o') : c.seat o < c.seat o' := by
  rcases place with rfl | starts
  · -- Nothing lies behind the end of the code.
    rcases place' with rfl | starts'
    · exact absurd less (Nat.lt_irrefl _)
    · obtain ⟨p, member, rfl⟩ := List.mem_map.mp starts'
      exact absurd less (Nat.lt_asymm (offset_lt_length increasing words.recorded member))
  · exact (seat_lt_iff increasing words starts place').mpr less

theorem increasing_seat_iff {offsets : List Nat} (places : ∀ o ∈ offsets, Ends c.instructions c.length o) :
    (offsets.map c.seat).Pairwise (· < ·) ↔ offsets.Pairwise (· < ·) := by
  rw [List.pairwise_map]
  refine ⟨fun seated => seated.imp_of_mem fun {o o'} inside inside' less => ?_,
    fun sorted => sorted.imp_of_mem fun inside inside' less =>
      seat_lt increasing words (places _ inside) (places _ inside') less⟩
  obtain behind | rfl | before := Nat.lt_trichotomy o o'
  · exact behind
  · exact absurd less (Nat.lt_irrefl _)
  · exact absurd less (Nat.lt_asymm (seat_lt increasing words (places _ inside') (places _ inside) before))

end

/-! ### When gaps can be closed -/

/-- Whether the offsets of a table of frames do not wrap around, and its numbers still fit when the gaps of a
body are closed. -/
def FitsSeated (c : Code) (table : List Frame) : Prop :=
  Frame.Unwrapped none table ∧ (∀ delta ∈ Frame.deltas ((Frame.offsets table).map c.seat), delta ≤ 0xFFFF) ∧
    ∀ o ∈ table.flatMap Frame.objects, c.seat o ≤ 0xFFFF

theorem movable_attribute_iff (increasing : c.Increasing) (words : c.InWords) {a : CodeAttribute} :
    a.Movable (fun o => c.relayoutMap[o]?) true ↔
      (∀ o ∈ a.references, Ends c.instructions c.length o) ∧
        ∀ table, framesOf? a = some table → c.FitsSeated table := by
  rw [CodeAttribute.Movable, definedOn_relayoutMap_iff increasing words.recorded]
  cases a with
  | stackMap name table =>
      have single (P : List Frame → Prop) :
          (∀ t, framesOf? (.stackMap name table) = some t → P t) ↔ P table := by
        simp [framesOf?]
      have sorted (places : ∀ o ∈ Frame.offsets table, Ends c.instructions c.length o) :
          ((Frame.offsets table).map c.seat).Pairwise (· < ·) ↔ Frame.Unwrapped none table :=
        (increasing_seat_iff increasing words places).trans Frame.increasing_offsets_iff
      simp only [single, CodeAttribute.named, CodeAttribute.references, List.forall_mem_append,
        Frame.exists_renumber_iff, definedOn_relayoutMap_iff increasing words.recorded, FitsBy,
        isSome_relayoutMap_iff increasing words.recorded]
      rw [and_iff_right (List.forall_mem_nil _)]
      constructor
      · intro movable
        obtain ⟨places, objects, -, ordered, small⟩ := movable trivial
        exact ⟨⟨places, fun o made => (objects o made).1⟩, (sorted places).mp ordered, small,
          fun o made => (objects o made).2⟩
      · rintro ⟨⟨places, made⟩, unwrapped, small, fit⟩ -
        exact ⟨places, fun o member => ⟨made o member, fit o member⟩, fun o _ => Nat.zero_le o,
          (sorted places).mpr unwrapped, small⟩
  | _ => simp [framesOf?, CodeAttribute.references]

theorem movable_iff (increasing : c.Increasing) (words : c.InWords) :
    c.Movable (fun o => c.relayoutMap[o]?) true ↔
      (∀ o ∈ c.references, Ends c.instructions c.length o) ∧
        ∀ table ∈ c.frameTables, c.FitsSeated table := by
  have each : ∀ a ∈ c.attributes, a.Movable (fun o => c.relayoutMap[o]?) true ↔
      (∀ o ∈ a.references, Ends c.instructions c.length o) ∧
        ∀ table, framesOf? a = some table → c.FitsSeated table :=
    fun _ _ => movable_attribute_iff increasing words
  have starts : ∀ p ∈ c.instructions, Ends c.instructions c.length p.offset :=
    fun p member => .inr (List.mem_map_of_mem member)
  simp only [Movable, definedOn_relayoutMap_iff increasing words.recorded, forall₂_congr each,
    references, frameTables, List.forall_mem_append, List.forall_mem_flatMap, Placed.named,
    List.forall_mem_cons, List.mem_filterMap]
  constructor
  · rintro ⟨instructions, handlers, attributes⟩
    refine ⟨⟨⟨fun p member => (instructions p member).2, handlers⟩,
      fun a member => (attributes a member).1⟩, ?_⟩
    rintro table ⟨a, member, held⟩
    exact (attributes a member).2 table held
  · rintro ⟨⟨⟨targets, handlers⟩, attributes⟩, tables⟩
    exact ⟨fun p member => ⟨starts p member, targets p member⟩, handlers,
      fun a member => ⟨attributes a member, fun table held => tables table ⟨a, member, held⟩⟩⟩

theorem not_movable_iff (increasing : c.Increasing) (words : c.InWords) :
    ¬ c.Movable (fun o => c.relayoutMap[o]?) true ↔ c.Blocked := by
  rw [movable_iff increasing words]
  constructor
  · intro stuck
    by_contra free
    refine stuck ⟨fun o refers => ?_, fun table held => ⟨?_, fun delta between => ?_, fun o made => ?_⟩⟩
    · by_contra nowhere
      exact free (.stray refers nowhere)
    · by_contra far
      exact free (.wraps held far)
    · by_contra large
      exact free (.distance held between (Nat.lt_of_not_le large))
    · by_contra large
      exact free (.object held made (Nat.lt_of_not_le large))
  · rintro (⟨refers, nowhere⟩ | ⟨held, far⟩ | ⟨held, between, large⟩ | ⟨held, made, large⟩)
      ⟨places, tables⟩
    · exact nowhere (places _ refers)
    · exact far (tables _ held).1
    · exact absurd ((tables _ held).2.1 _ between) (Nat.not_le.mpr large)
    · exact absurd ((tables _ held).2.2 _ made) (Nat.not_le.mpr large)

/-! ### What closing gaps does -/

theorem references_movedAttribute (increasing : c.Increasing) (words : c.InWords) {a : CodeAttribute}
    (movable : a.Movable (fun o => c.relayoutMap[o]?) true)
    (places : ∀ o ∈ a.references, Ends c.instructions c.length o) :
    (a.movedBy (fun o => c.relayoutMap[o]?) true).references = a.references.map c.seat := by
  rcases a with ⟨name, table⟩ | ⟨name, entries⟩ | ⟨generic, name, entries⟩ | raw
  · obtain ⟨table', renumbered⟩ := movable.2 rfl table rfl
    obtain ⟨offsets, objects⟩ :=
      Frame.named_of_renumber (lt_of_relayoutMap increasing words.recorded) renumbered
    have kept : CodeAttribute.movedBy (fun o => c.relayoutMap[o]?) true (.stackMap name table) =
        .stackMap name table' := by
      rw [CodeAttribute.movedBy, if_pos rfl, renumbered]
      rfl
    rw [kept, CodeAttribute.references, CodeAttribute.references, offsets, objects, List.map_append]
    rfl
  · change (entries.map _).map _ = (entries.map _).map _
    rw [List.map_map, List.map_map]
    rfl
  · change (entries.map _).flatMap _ = (entries.flatMap _).map _
    rw [List.flatMap_map, List.map_flatMap]
    refine List.flatMap_congr fun e member => ?_
    -- The moved end is found again behind the moved start.
    have word {o : Nat} (refers : o ∈ e.named) : c.seat o < 0x100000000 :=
      seat_lt_word increasing words.recorded (lt_of_ends increasing words.recorded
        (places o (List.mem_flatMap.mpr ⟨e, member, refers⟩)))
    have stop := LocalVariable.stop_mapOffsets (word (.head _)) (word (.tail _ (.head _)))
    change [c.seat e.start, (e.mapOffsets c.seat).stop] = [c.seat e.start, c.seat e.stop]
    rw [stop]
  · rfl

theorem references_movedBy (increasing : c.Increasing) (words : c.InWords)
    (movable : c.Movable (fun o => c.relayoutMap[o]?) true) :
    (c.movedBy (fun o => c.relayoutMap[o]?) true).references = c.references.map c.seat := by
  have places := ((movable_iff increasing words).mp movable).1
  rw [references, references, List.map_append, List.map_append, List.map_flatMap, List.map_flatMap,
    List.map_flatMap, movedBy, List.flatMap_map, List.flatMap_map, List.flatMap_map]
  refine congr (congrArg _ (congr (congrArg _ ?_) ?_)) ?_
  · refine List.flatMap_congr fun p _ => ?_
    exact Instruction.targets_mapTargets ..
  · exact List.flatMap_congr fun h _ => rfl
  · refine List.flatMap_congr fun a member => ?_
    exact references_movedAttribute increasing words (movable.2.2 a member) fun o refers => places o (List.mem_append_right _ (List.mem_flatMap.mpr ⟨a, member, refers⟩))

/-- The body with its gaps closed has the layout of the one whose frames were left alone. -/
theorem laidOut_movedBy (increasing : c.Increasing) (words : c.InWords) :
    (c.movedBy (fun o => c.relayoutMap[o]?) true).isLaidOut ∧
      (c.movedBy (fun o => c.relayoutMap[o]?) true).length = c.seat c.length :=
  laidOut_seat increasing words

theorem samePlace_movedBy (increasing : c.Increasing) (words : c.InWords) {o : Nat}
    (place : Ends c.instructions c.length o) :
    SamePlace c (c.movedBy (fun o => c.relayoutMap[o]?) true) o (c.seat o) := by
  rcases place with rfl | starts
  · rw [← (laidOut_movedBy increasing words).2]
    exact .stop
  · obtain ⟨p, member, rfl⟩ := List.mem_map.mp starts
    obtain ⟨k, here⟩ := List.mem_iff_getElem?.mp member
    have there : (c.movedBy (fun o => c.relayoutMap[o]?) true).instructions[k]? =
        some (p.mapOffsets c.seat) := by
      rw [movedBy, List.getElem?_map, here]
      rfl
    exact .instruction here there

/-- A body of which the instructions at the offsets 1 and 16 were dropped. -/
def gappy : Code where
  maxStack := 1
  maxLocals := 1
  instructions := [⟨0, .simple 0x1a⟩, ⟨4, .lookupSwitch 20 []⟩, ⟨20, .simple 0xb1⟩]
  handlers := [⟨0, 21, 20, 0⟩]
  attributes := [.stackMap 3 [.oneStack 20 (.uninitialized 4)], .lineNumbers 5 [⟨20, 7⟩],
    .variables false 6 [⟨4, 17, 3, 4, 0⟩]]

/-- This body without gaps. Its switch has one octet less of padding. -/
def gapless : Code where
  maxStack := 1
  maxLocals := 1
  instructions := [⟨0, .simple 0x1a⟩, ⟨1, .lookupSwitch 12 []⟩, ⟨12, .simple 0xb1⟩]
  handlers := [⟨0, 13, 12, 0⟩]
  attributes := [.stackMap 3 [.oneStack 12 (.uninitialized 1)], .lineNumbers 5 [⟨12, 7⟩],
    .variables false 6 [⟨1, 12, 3, 4, 0⟩]]

/-- Two instructions, the second of which ends where offsets wrap around. -/
def distant : Code where
  maxStack := 0
  maxLocals := 0
  instructions := [⟨0, .simple 0⟩, ⟨4294967295, .simple 0xb1⟩]
  handlers := []
  attributes := []

end Code

end JarGate
