import JarGate.Proofs.Code.Relocation
import JarGate.Proofs.Format.CodeBodies
import JarGate.Proofs.Pool.Lookups

/-!
# Code put in front of a body

Putting canonical instructions whose length is a multiple of four in front of a well-formed body gives
a well-formed body, and so do new frames whose numbers suit their forms. A body stays well formed when
the pool grows.
-/

namespace JarGate

namespace Instruction

theorem form_mapTargets (f : Nat → Nat) (insn : Instruction) : (insn.mapTargets f).form = insn.form := by
  cases insn <;> rfl

theorem lead_mapTargets (f : Nat → Nat) (insn : Instruction) : (insn.mapTargets f).lead = insn.lead := by
  cases insn <;> rfl

theorem targets_mapTargets (f : Nat → Nat) (insn : Instruction) :
    (insn.mapTargets f).targets = insn.targets.map f := by
  cases insn <;> simp [mapTargets, targets]

theorem mapTargets_mapTargets (f g : Nat → Nat) (insn : Instruction) :
    (insn.mapTargets f).mapTargets g = insn.mapTargets (g ∘ f) := by
  cases insn <;> simp [mapTargets]

theorem Canonical.mapTargets {insn : Instruction} (h : insn.Canonical) (f : Nat → Nat) :
    (insn.mapTargets f).Canonical := by
  refine ⟨?_, ?_⟩
  · rw [lead_mapTargets, form_mapTargets]
    exact h.form
  · have fit := h.operands
    cases insn with
    | tableSwitch default low high targets =>
        simpa only [Instruction.mapTargets, OperandsFit, List.length_map] using fit
    | lookupSwitch default pairs =>
        simpa only [Instruction.mapTargets, OperandsFit, List.length_map] using fit
    | _ => exact fit

theorem mem_placeFrom {pos : Nat} {insns : List Instruction} {p : Placed}
    (member : p ∈ placeFrom pos insns) : p.instruction ∈ insns := by
  induction insns generalizing pos with
  | nil => cases member
  | cons i is ih =>
      rw [placeFrom_cons, List.mem_cons] at member
      rcases member with rfl | later
      · exact List.mem_cons_self ..
      · exact List.mem_cons_of_mem _ (ih later)

end Instruction

namespace Code

/-! ### Places that are moved -/

/-- A map of offsets that sends the places of some instructions to places of others, in their order and
without wrapping around. -/
structure Carries (f : Nat → Nat) (placed : List Placed) (length : Nat) (placed' : List Placed)
    (length' : Nat) : Prop where
  start : ∀ {o}, Starts placed o → Starts placed' (f o)
  stop : ∀ {o}, Ends placed length o → Ends placed' length' (f o)
  mono : StrictMono f
  word : ∀ {o}, Ends placed length o → o < 0x100000000 ∧ f o < 0x100000000

variable {f : Nat → Nat} {placed placed' : List Placed} {length length' : Nat} {pool : ConstantPool}

theorem Carries.handler (carries : Carries f placed length placed' length') {h : Handler}
    (sound : h.WellFormed pool placed length) : (h.mapOffsets f).WellFormed pool placed' length' where
  start := carries.start sound.start
  stop := carries.stop sound.stop
  ordered := carries.mono sound.ordered
  handler := carries.start sound.handler
  catchType := sound.catchType

/-- The end of the range of a variable moves like every other end of a range. -/
theorem Carries.variableEnd (carries : Carries f placed length placed' length') {e : LocalVariable}
    (stop : Ends placed length (e.start + e.length)) :
    (e.mapOffsets f).start + (e.mapOffsets f).length = f (e.start + e.length) := by
  obtain ⟨word, word'⟩ := carries.word stop
  exact LocalVariable.add_mapOffsets word (carries.mono.monotone (Nat.le_add_right _ _)) word'

theorem Carries.attribute (carries : Carries f placed length placed' length') {a : CodeAttribute}
    (sound : a.WellFormed pool placed length) : (a.mapOffsets f).WellFormed pool placed' length' := by
  obtain ⟨named, inPlace⟩ := sound
  rcases a with ⟨name, frames⟩ | ⟨name, entries⟩ | ⟨generic, name, entries⟩ | raw
  · exact ⟨named, inPlace⟩
  · refine ⟨named, fun e member => ?_⟩
    obtain ⟨e, old, rfl⟩ := List.mem_map.mp member
    exact carries.start (inPlace e old)
  · refine ⟨named, fun e member => ?_⟩
    obtain ⟨e, old, rfl⟩ := List.mem_map.mp member
    rw [carries.variableEnd (inPlace e old).2]
    exact ⟨carries.start (inPlace e old).1, carries.stop (inPlace e old).2⟩
  · exact ⟨named, inPlace⟩

/-! ### In front of a body -/

section

variable {c : Code} {insns : List Instruction} {len : Nat}

theorem starts_inFront {o : Nat} (h : Starts c.instructions o) :
    Starts (c.inFront insns len).instructions (o + len) := by
  obtain ⟨p, member, rfl⟩ := List.mem_map.mp h
  refine List.mem_map.mpr ⟨p.mapOffsets (· + len), List.mem_append_right _ ?_, rfl⟩
  exact List.mem_map.mpr ⟨p, member, rfl⟩

theorem endOf_inFront (nonempty : c.instructions ≠ []) (aligned : len % 4 = 0) :
    Instruction.endOf (c.inFront insns len).instructions = Instruction.endOf c.instructions + len := by
  obtain ⟨ps, p, last⟩ := List.eq_nil_or_concat c.instructions |>.resolve_left nonempty
  simp only [inFront, mapOffsets, Instruction.endOf, last, List.concat_eq_append,
    List.map_append, List.map_cons, List.map_nil, ← List.append_assoc, List.getLast?_concat,
    Placed.mapOffsets, Instruction.size_mapTargets, Instruction.size_add aligned]
  omega

theorem length_inFront (nonempty : c.instructions ≠ []) (aligned : len % 4 = 0)
    (fits : Instruction.endOf c.instructions + len < 0x100000000) :
    (c.inFront insns len).length = c.length + len := by
  rw [length_eq (endOf_inFront nonempty aligned ▸ fits), endOf_inFront nonempty aligned,
    length_eq ((Nat.le_add_right ..).trans_lt fits)]

/-- Every place of a body without gaps lies at its end or before. -/
theorem le_endOf_of_ends (laidOut : c.isLaidOut) (fits : Instruction.endOf c.instructions < 0x100000000)
    {o : Nat} (ends : Ends c.instructions c.length o) : o ≤ Instruction.endOf c.instructions := by
  rcases ends with rfl | starts
  · exact (length_eq fits).le
  · obtain ⟨p, member, rfl⟩ := List.mem_map.mp starts
    exact (Instruction.offset_lt_endOf laidOut member).le

theorem carries_inFront (laidOut : c.isLaidOut) (nonempty : c.instructions ≠ []) (aligned : len % 4 = 0)
    (fits : Instruction.endOf c.instructions + len < 0x100000000) :
    Carries (· + len) c.instructions c.length (c.inFront insns len).instructions
      (c.inFront insns len).length where
  start := starts_inFront
  stop := fun ends =>
    ends.imp (fun same => by rw [length_inFront nonempty aligned fits, same]) starts_inFront
  mono := fun _ _ less => Nat.add_lt_add_right less len
  word := fun ends => by
    have most := le_endOf_of_ends laidOut ((Nat.le_add_right ..).trans_lt fits) ends
    omega

/-- Where the first instruction of the body is found behind the code in front of it. -/
theorem starts_first (laidOut : c.isLaidOut) (nonempty : c.instructions ≠ []) :
    Starts c.instructions 0 := by
  obtain ⟨p, ps, first⟩ := List.exists_cons_of_ne_nil nonempty
  rw [isLaidOut, first, Instruction.tilesFrom, Bool.and_eq_true, beq_iff_eq] at laidOut
  rw [first, ← laidOut.1]
  exact List.mem_cons_self ..

/-- Canonical instructions in front of a well-formed body. Their branches may only go to the start of
the body. -/
theorem WellFormed.inFront (sound : c.WellFormed pool)
    (canonical : ∀ i ∈ insns, i.Canonical)
    (targets : ∀ i ∈ insns, ∀ t ∈ i.targets, t = Instruction.endFrom 0 insns)
    (aligned : Instruction.endFrom 0 insns % 4 = 0)
    (fits : Instruction.endOf c.instructions + Instruction.endFrom 0 insns < 0x100000000) :
    (c.inFront insns (Instruction.endFrom 0 insns)).WellFormed pool := by
  have carries : Carries _ _ _ (c.inFront insns _).instructions _ :=
    carries_inFront sound.laidOut sound.nonempty aligned fits
  refine ⟨⟨?_, ?_⟩, ?_, ?_, ?_, ?_⟩
  · intro p member
    rcases List.mem_append.mp member with new | old
    · exact canonical _ (Instruction.mem_placeFrom new)
    · obtain ⟨q, before, rfl⟩ := List.mem_map.mp old
      exact (sound.instructions.canonical q before).mapTargets _
  · intro p member t target
    rcases List.mem_append.mp member with new | old
    · have first := carries.start (starts_first sound.laidOut sound.nonempty)
      rw [Nat.zero_add] at first
      rwa [targets _ (Instruction.mem_placeFrom new) t target]
    · obtain ⟨q, before, rfl⟩ := List.mem_map.mp old
      rw [Placed.mapOffsets, Instruction.targets_mapTargets] at target
      obtain ⟨t, reached, rfl⟩ := List.mem_map.mp target
      exact carries.start (sound.instructions.targets q before t reached)
  · have behind := Instruction.tilesFrom_shift (f := (· + Instruction.endFrom 0 insns)) 0 aligned
      c.instructions fun _ _ => rfl
    rw [Nat.zero_add] at behind
    rw [isLaidOut, Code.inFront, Instruction.tilesFrom_append, mapOffsets, behind]
    exact sound.laidOut
  · obtain ⟨p, ps, first⟩ := List.exists_cons_of_ne_nil sound.nonempty
    simp [Code.inFront, mapOffsets, first]
  · intro h member
    obtain ⟨h, old, rfl⟩ := List.mem_map.mp member
    exact carries.handler (sound.handlers h old)
  · intro a member
    obtain ⟨a, old, rfl⟩ := List.mem_map.mp member
    exact carries.attribute (sound.attributes a old)

end

/-! ### New frames -/

/-- The frames that were set are the frames of the method. -/
@[simp] theorem stackMap?_setStackMap (c : Code) (name : UInt16) (frames : List Frame) :
    (c.setStackMap name frames).stackMap? = some frames := by
  have first (as : List CodeAttribute) :
      (withFrames name frames as).findSome? framesOf? = some frames := by
    induction as with
    | nil => rfl
    | cons a as ih =>
        cases a with
        | stackMap name' frames' => rfl
        | _ => exact ih
  exact first c.attributes

theorem mem_withFrames {name : UInt16} {frames : List Frame} {as : List CodeAttribute}
    {a : CodeAttribute} (member : a ∈ withFrames name frames as) :
    a ∈ as ∨ a = .stackMap name frames ∨
      ∃ name' frames', .stackMap name' frames' ∈ as ∧ a = .stackMap name' frames := by
  induction as with
  | nil => exact .inr (.inl (List.mem_singleton.mp member))
  | cons b bs ih =>
      cases b with
      | stackMap name' frames' =>
          rcases List.mem_cons.mp member with rfl | later
          · exact .inr (.inr ⟨name', frames', List.mem_cons_self .., rfl⟩)
          · exact .inl (List.mem_cons_of_mem _ later)
      | _ =>
          rcases List.mem_cons.mp member with rfl | later
          · exact .inl (List.mem_cons_self ..)
          · refine (ih later).imp (List.mem_cons_of_mem _) (Or.imp_right ?_)
            exact fun ⟨name', frames', found, same⟩ => ⟨name', frames', List.mem_cons_of_mem _ found, same⟩

theorem WellFormed.setStackMap {c : Code} {name : UInt16} {frames : List Frame}
    (sound : c.WellFormed pool) (named : pool.utf8 name = .ok "StackMapTable")
    (formed : ∀ f ∈ frames, f.Formed) : (c.setStackMap name frames).WellFormed pool := by
  refine { sound with attributes := fun a member => ?_ }
  rcases mem_withFrames member with old | rfl | ⟨name', frames', found, rfl⟩
  · exact sound.attributes a old
  · exact ⟨⟨_, named, rfl⟩, formed⟩
  · exact ⟨(sound.attributes _ found).named, formed⟩

/-! ### Growing pools -/

/-- No offset that a well-formed body names lies behind its end. -/
theorem WellFormed.named_le {c : Code} (sound : c.WellFormed pool)
    (fits : Instruction.endOf c.instructions < 0x100000000) :
    ∀ o ∈ c.named, o ≤ Instruction.endOf c.instructions := by
  have place {o : Nat} (ends : Ends c.instructions c.length o) : o ≤ Instruction.endOf c.instructions :=
    le_endOf_of_ends sound.laidOut fits ends
  rw [named, List.forall_mem_append, List.forall_mem_append, List.forall_mem_flatMap,
    List.forall_mem_flatMap, List.forall_mem_flatMap]
  refine ⟨⟨fun p member => ?_, fun h member => ?_⟩, fun a member => ?_⟩
  · refine List.forall_mem_cons.mpr ⟨place (.inr (List.mem_map_of_mem member)), fun t target => ?_⟩
    exact place (.inr (sound.instructions.targets p member t target))
  · have formed := sound.handlers h member
    simp only [Handler.named, List.forall_mem_cons]
    exact ⟨place (.inr formed.start), place formed.stop, place (.inr formed.handler), List.forall_mem_nil _⟩
  · have inPlace := (sound.attributes a member).inPlace
    rcases a with ⟨name, table⟩ | ⟨name, entries⟩ | ⟨generic, name, entries⟩ | raw
    · exact List.forall_mem_nil _
    · exact List.forall_mem_map.mpr fun e listed => place (.inr (inPlace e listed))
    · refine List.forall_mem_flatMap.mpr fun e listed => ?_
      obtain ⟨start, stop⟩ := inPlace e listed
      have word : e.start + e.length < 0x100000000 := (place stop).trans_lt fits
      rw [LocalVariable.named, LocalVariable.stop, wrapped_of_lt word]
      simp only [List.forall_mem_cons]
      exact ⟨place (.inr start), place stop, List.forall_mem_nil _⟩
    · exact List.forall_mem_nil _

theorem WellFormed.extends {c : Code} {p q : ConstantPool} (sound : c.WellFormed p)
    (grown : p.Extends q) : c.WellFormed q where
  instructions := sound.instructions
  laidOut := sound.laidOut
  nonempty := sound.nonempty
  handlers := fun h member =>
    { sound.handlers h member with
      catchType := (sound.handlers h member).catchType.imp_right (Exists.imp fun _ => grown.get) }
  attributes := fun a member =>
    { sound.attributes a member with
      named := (sound.attributes a member).named.imp fun _ found => ⟨grown.utf8 found.1, found.2⟩ }

end Code

end JarGate
