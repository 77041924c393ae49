import JarGate.ClassFile.Code
import JarGate.Proofs.Edit
import JarGate.Proofs.Format.CodeArrays
import JarGate.Proofs.Success

/-!
# Relocation

Moving code through a partial map succeeds if the map covers every offset that the code names, and is
then an ordinary function on method bodies. `Code.insertAt` moves by the inserted length what lies at
its offset or later; at the start of a body that is all of it. As long as no offset wraps around, moving
is adding.
-/

namespace JarGate

/-! ### Offsets that are named -/

/-- The place of an instruction and its targets. -/
def Placed.named (p : Placed) : List Nat := p.offset :: p.instruction.targets

/-- The three offsets of a handler. -/
def Handler.named (h : Handler) : List Nat := [h.start, h.stop, h.handler]

/-- Both ends of the range of a variable. -/
def LocalVariable.named (e : LocalVariable) : List Nat := [e.start, e.stop]

/-- The offsets in an attribute, except those of frames. -/
def CodeAttribute.named : CodeAttribute → List Nat
  | .lineNumbers _ entries => entries.map LineNumber.start
  | .variables _ _ entries => entries.flatMap LocalVariable.named
  | _ => []

/-- The offsets in a body, except those of frames. -/
def Code.named (c : Code) : List Nat :=
  c.instructions.flatMap Placed.named ++ c.handlers.flatMap Handler.named ++
    c.attributes.flatMap CodeAttribute.named

/-! ### Moved offsets -/

/-- Moves every target. -/
def Instruction.mapTargets (f : Nat → Nat) : Instruction → Instruction
  | branch op target => branch op (f target)
  | wideBranch op target => wideBranch op (f target)
  | tableSwitch default low high targets => tableSwitch (f default) low high (targets.map f)
  | lookupSwitch default pairs => lookupSwitch (f default) (pairs.map fun p => (p.1, f p.2))
  | other => other

/-- Moves the place of an instruction and its targets. -/
def Placed.mapOffsets (f : Nat → Nat) (p : Placed) : Placed :=
  ⟨f p.offset, p.instruction.mapTargets f⟩

/-- Moves the three offsets of a handler. -/
def Handler.mapOffsets (f : Nat → Nat) (h : Handler) : Handler :=
  { h with start := f h.start, stop := f h.stop, handler := f h.handler }

/-- Moves the start of a line. -/
def LineNumber.mapOffsets (f : Nat → Nat) (e : LineNumber) : LineNumber :=
  { e with start := f e.start }

/-- Moves both ends of the range of a variable. -/
def LocalVariable.mapOffsets (f : Nat → Nat) (e : LocalVariable) : LocalVariable :=
  { e with start := f e.start, length := Code.distance (f e.start) (f e.stop) }

/-- Moves the offsets of an attribute, except those of frames. -/
def CodeAttribute.mapOffsets (f : Nat → Nat) : CodeAttribute → CodeAttribute
  | .stackMap name frames => .stackMap name frames
  | .lineNumbers name entries => .lineNumbers name (entries.map (LineNumber.mapOffsets f))
  | .variables generic name entries =>
    .variables generic name (entries.map (LocalVariable.mapOffsets f))
  | .other raw => .other raw

/-- Moves every offset of a body, except those of frames. -/
def Code.mapOffsets (f : Nat → Nat) (c : Code) : Code :=
  { c with
    instructions := c.instructions.map (Placed.mapOffsets f)
    handlers := c.handlers.map (Handler.mapOffsets f)
    attributes := c.attributes.map (CodeAttribute.mapOffsets f) }

/-! ### Moving through partial maps -/

/-- Where a partial map sends an offset, and the offset itself where it sends it nowhere. -/
def sentBy (via : Nat → Option Nat) (offset : Nat) : Nat := (via offset).getD offset

/-- Whether a partial map covers some offsets. -/
def DefinedOn (via : Nat → Option Nat) (offsets : List Nat) : Prop := ∀ o ∈ offsets, (via o).isSome

section

variable {via : Nat → Option Nat} {offsets : List Nat}

theorem sentBy_of_some {o o' : Nat} (sent : via o = some o') : sentBy via o = o' := by
  rw [sentBy, sent, Option.getD_some]

theorem definedOn_cons {o : Nat} :
    DefinedOn via (o :: offsets) ↔ (via o).isSome ∧ DefinedOn via offsets :=
  List.forall_mem_cons

theorem definedOn_nil : DefinedOn via [] := nofun

theorem definedOn_flatMap {α : Type} {as : List α} {named : α → List Nat} :
    DefinedOn via (as.flatMap named) ↔ ∀ a ∈ as, DefinedOn via (named a) :=
  List.forall_mem_flatMap

theorem definedOn_singleton {o : Nat} : DefinedOn via [o] ↔ (via o).isSome := by
  rw [definedOn_cons, and_iff_left definedOn_nil]

namespace Instruction

theorem moved_eq_ok_iff {o o' : Nat} :
    moved via o = .ok o' ↔ (via o).isSome ∧ o' = sentBy via o := by
  rw [moved, sentBy]
  cases via o with
  | none => exact ⟨nofun, nofun⟩
  | some t => simp [eq_comm]

theorem bind_moved_eq_ok_iff {α : Type} {o : Nat} {later : Nat → Except ClassError α} {a : α} :
    moved via o >>= later = .ok a ↔ (via o).isSome ∧ later (sentBy via o) = .ok a := by
  simp only [bind_eq_ok_iff, moved_eq_ok_iff, and_assoc, exists_and_left, exists_eq_left]

theorem map_moved_eq_ok_iff {α : Type} {put : Nat → α} {o : Nat} {a : α} :
    (moved via o).map put = .ok a ↔ (via o).isSome ∧ a = put (sentBy via o) := by
  simp only [map_eq_ok_iff, moved_eq_ok_iff, and_assoc, exists_and_left, exists_eq_left]
  exact and_congr_right' eq_comm

theorem lift_moved_eq_ok_iff {σ α : Type} {o : Nat} {later : Nat → Edit ClassError σ α} {s t : σ}
    {a : α} : (Edit.lift (moved via o) >>= later) s = .ok a t ↔
      (via o).isSome ∧ later (sentBy via o) s = .ok a t := by
  simp only [Edit.bind_eq_ok, Edit.lift_eq_ok, moved_eq_ok_iff, and_assoc, exists_and_left,
    exists_eq_left]

theorem match_moved_eq_ok_iff {σ : Type} {o : Nat} {s t : σ}
    {later : Nat → EStateM.Result ClassError σ Unit} :
    (match moved via o with
      | .error e => EStateM.Result.error e s
      | .ok o' => later o') = .ok () t ↔
      (via o).isSome ∧ later (sentBy via o) = .ok () t := by
  rw [moved, sentBy]
  cases via o with
  | none => exact ⟨nofun, nofun⟩
  | some o' => exact (and_iff_right rfl).symm

theorem does_moveTargets : Edit.Does (moveTargets via) (fun insn => DefinedOn via insn.targets)
    (mapTargets (sentBy via)) := by
  have target : Edit.Does (fun t => Edit.replace (moved via t) t)
      (fun t => (via t).isSome) (sentBy via) :=
    fun t t' => Edit.replace_eq_ok.trans moved_eq_ok_iff
  have pair : Edit.Does (fun p : Int32 × Nat => Edit.replace ((moved via p.2).map (p.1, ·)) p)
      (fun p => (via p.2).isSome) (fun p => (p.1, sentBy via p.2)) :=
    fun p p' => Edit.replace_eq_ok.trans map_moved_eq_ok_iff
  intro insn insn'
  cases insn with
  | branch op t =>
      exact (Edit.replace_eq_ok.trans map_moved_eq_ok_iff).trans
        (and_congr_left' definedOn_singleton.symm)
  | wideBranch op t =>
      exact (Edit.replace_eq_ok.trans map_moved_eq_ok_iff).trans
        (and_congr_left' definedOn_singleton.symm)
  | tableSwitch default low high ts =>
      have covers : DefinedOn via (tableSwitch default low high ts).targets ↔
          (via default).isSome ∧ ∀ t ∈ ts, (via t).isSome := definedOn_cons
      exact match_moved_eq_ok_iff.trans ((and_congr_right' (target.each.within _ insn')).trans
        (and_assoc.symm.trans (and_congr_left' covers.symm)))
  | lookupSwitch default pairs =>
      have covers : DefinedOn via (lookupSwitch default pairs).targets ↔
          (via default).isSome ∧ ∀ p ∈ pairs, (via p.2).isSome :=
        definedOn_cons.trans (and_congr_right' List.forall_mem_map)
      exact match_moved_eq_ok_iff.trans ((and_congr_right' (pair.each.within _ insn')).trans
        (and_assoc.symm.trans (and_congr_left' covers.symm)))
  | _ => exact Edit.pure_eq_ok.trans (and_congr_left' (iff_of_true rfl definedOn_nil))

end Instruction

namespace Code

open Instruction (bind_moved_eq_ok_iff map_moved_eq_ok_iff lift_moved_eq_ok_iff)

theorem does_movePlaced : Edit.Does (movePlaced via) (fun p => DefinedOn via p.named)
    (Placed.mapOffsets (sentBy via)) := by
  intro p p'
  have inside : Edit.within Placed.instruction (fun i p => { p with instruction := i })
      (Instruction.moveTargets via) ⟨sentBy via p.offset, p.instruction⟩ = .ok () p' ↔
        DefinedOn via p.instruction.targets ∧ p' = p.mapOffsets (sentBy via) :=
    Instruction.does_moveTargets.within _ p'
  simp only [movePlaced, Edit.get_bind, lift_moved_eq_ok_iff, Edit.set_bind, inside, Placed.named,
    definedOn_cons, and_assoc]

theorem does_moveHandler : Edit.Does (moveHandler via) (fun h => DefinedOn via h.named)
    (Handler.mapOffsets (sentBy via)) := by
  intro h h'
  simp only [moveHandler, Edit.get_bind, lift_moved_eq_ok_iff, Edit.set_bind, Edit.set_eq_ok,
    Handler.named, definedOn_cons, definedOn_nil, true_and, and_assoc, Handler.mapOffsets]

theorem does_moveLine : Edit.Does (moveLine via) (fun e => (via e.start).isSome)
    (LineNumber.mapOffsets (sentBy via)) :=
  fun _ _ => Edit.replace_eq_ok.trans map_moved_eq_ok_iff

theorem does_moveVariable : Edit.Does (moveVariable via) (fun e => DefinedOn via e.named)
    (LocalVariable.mapOffsets (sentBy via)) := by
  intro e e'
  simp only [moveVariable, Edit.replace_eq_ok, bind_moved_eq_ok_iff, pure_eq_ok_iff,
    LocalVariable.named, definedOn_cons, definedOn_nil, true_and, and_assoc, LocalVariable.mapOffsets]
  rw [and_left_comm]
  exact and_congr_right' (and_congr_right' eq_comm)

end Code

/-- Moves the offsets of an attribute; those of frames only where `frames` is set and they can be
moved. -/
def CodeAttribute.movedBy (via : Nat → Option Nat) (frames : Bool) : CodeAttribute → CodeAttribute
  | .stackMap name table =>
    .stackMap name (if frames then (Frame.renumber table via).toOption.getD table else table)
  | a => a.mapOffsets (sentBy via)

/-- Whether a partial map covers the offsets of an attribute, those of frames only where `frames` is
set. -/
def CodeAttribute.Movable (via : Nat → Option Nat) (frames : Bool) (a : CodeAttribute) : Prop :=
  DefinedOn via a.named ∧ (frames → ∀ table, Code.framesOf? a = some table →
    ∃ table', Frame.renumber table via = .ok table')

namespace Code

theorem does_moveAttribute {frames : Bool} : Edit.Does (moveAttribute via frames)
    (CodeAttribute.Movable via frames) (CodeAttribute.movedBy via frames) := by
  intro a a'
  rw [CodeAttribute.Movable]
  rcases a with ⟨name, table⟩ | ⟨name, entries⟩ | ⟨generic, name, entries⟩ | raw
  · cases frames with
    | false => exact Edit.pure_eq_ok.trans (and_congr_left' (iff_of_true rfl ⟨definedOn_nil, nofun⟩))
    | true =>
        change Edit.replace ((Frame.renumber table via).map (CodeAttribute.stackMap name)) _ = _ ↔ _
        rw [Edit.replace_eq_ok, CodeAttribute.movedBy]
        cases renumbered : Frame.renumber table via with
        | error err =>
            refine ⟨nofun, fun ⟨⟨_, formed⟩, _⟩ => ?_⟩
            obtain ⟨table', same⟩ := formed rfl table rfl
            rw [renumbered] at same
            cases same
        | ok table' =>
            have formed : ∀ t, framesOf? (.stackMap name table) = some t →
                ∃ t', Frame.renumber t via = .ok t' := by
              rintro _ ⟨⟩
              exact ⟨table', renumbered⟩
            rw [and_iff_right ⟨definedOn_nil, fun _ => formed⟩]
            exact ⟨fun same => (Except.ok.inj same).symm, fun same => congrArg _ same.symm⟩
  · change Edit.within (fun _ => entries) (fun es _ => CodeAttribute.lineNumbers name es)
      (Edit.each (moveLine via)) (.lineNumbers name entries) = _ ↔ _
    refine (does_moveLine.each.within _ a').trans (and_congr_left' ?_)
    exact ⟨fun covers => ⟨List.forall_mem_map.mpr covers, nofun⟩,
      fun both => List.forall_mem_map.mp both.1⟩
  · change Edit.within (fun _ => entries) (fun es _ => CodeAttribute.variables generic name es)
      (Edit.each (moveVariable via)) (.variables generic name entries) = _ ↔ _
    refine (does_moveVariable.each.within _ a').trans (and_congr_left' ?_)
    exact ⟨fun covers => ⟨definedOn_flatMap.mpr covers, nofun⟩,
      fun both => definedOn_flatMap.mp both.1⟩
  · exact Edit.pure_eq_ok.trans (and_congr_left' (iff_of_true rfl ⟨definedOn_nil, nofun⟩))

/-- Moves every offset of a body; those of frames only where `frames` is set. -/
def movedBy (via : Nat → Option Nat) (frames : Bool) (c : Code) : Code :=
  { c with
    instructions := c.instructions.map (Placed.mapOffsets (sentBy via))
    handlers := c.handlers.map (Handler.mapOffsets (sentBy via))
    attributes := c.attributes.map (CodeAttribute.movedBy via frames) }

/-- Whether a partial map covers the offsets of a body; those of frames only where `frames` is set. -/
def Movable (via : Nat → Option Nat) (frames : Bool) (c : Code) : Prop :=
  (∀ p ∈ c.instructions, DefinedOn via p.named) ∧ (∀ h ∈ c.handlers, DefinedOn via h.named) ∧
    ∀ a ∈ c.attributes, a.Movable via frames

/-- A body is moved if the map covers its offsets, and only then. -/
theorem does_move {frames : Bool} :
    Edit.Does (Code.move via frames) (Movable via frames) (movedBy via frames) :=
  does_movePlaced.each.within.bind (does_moveHandler.each.within.bind does_moveAttribute.each.within)

theorem movedBy_eq {frames : Bool} {c : Code}
    (frameless : frames → ∀ a ∈ c.attributes, framesOf? a = none) :
    c.movedBy via frames = c.mapOffsets (sentBy via) := by
  have each : c.attributes.map (CodeAttribute.movedBy via frames) =
      c.attributes.map (CodeAttribute.mapOffsets (sentBy via)) := by
    refine List.map_congr_left fun a member => ?_
    cases a with
    | stackMap name table =>
        cases frames with
        | false => rfl
        | true => cases frameless rfl _ member
    | _ => rfl
  rw [movedBy, each, mapOffsets]

/-- The frames of the method stay as they are. -/
@[simp] theorem stackMap?_mapOffsets (f : Nat → Nat) (c : Code) :
    (c.mapOffsets f).stackMap? = c.stackMap? := by
  have same : framesOf? ∘ CodeAttribute.mapOffsets f = framesOf? := by
    funext a
    cases a <;> rfl
  rw [stackMap?, mapOffsets, List.findSome?_map, same, stackMap?]

/-- Moving a body through a map that covers every offset cannot fail. -/
theorem move_of_total (f : Nat → Nat) (c : Code) :
    move (fun o => some (f o)) false c = .ok () (c.mapOffsets f) := by
  have all (offsets : List Nat) : DefinedOn (fun o => some (f o)) offsets := fun _ _ => rfl
  have movable : c.Movable (fun o => some (f o)) false :=
    ⟨fun p _ => all p.named, fun h _ => all h.named, fun a _ => ⟨all a.named, nofun⟩⟩
  have frameless : false → ∀ a ∈ c.attributes, framesOf? a = none :=
    fun impossible => nomatch impossible
  rw [does_move.run movable, movedBy_eq frameless]
  rfl

end Code

end

/-! ### Maps that agree -/

section

variable {f g : Nat → Nat}

theorem Instruction.mapTargets_congr {insn : Instruction} (same : ∀ t ∈ insn.targets, f t = g t) :
    insn.mapTargets f = insn.mapTargets g := by
  cases insn with
  | branch op t | wideBranch op t => rw [mapTargets, mapTargets, same t (List.mem_singleton_self t)]
  | tableSwitch default low high ts =>
      obtain ⟨first, rest⟩ := List.forall_mem_cons.mp same
      rw [mapTargets, mapTargets, first, List.map_congr_left rest]
  | lookupSwitch default pairs =>
      obtain ⟨first, rest⟩ := List.forall_mem_cons.mp same
      have each : ∀ p ∈ pairs, (p.1, f p.2) = (p.1, g p.2) := fun p member =>
        congrArg (Prod.mk p.1) (rest p.2 (List.mem_map_of_mem member))
      rw [mapTargets, mapTargets, first, List.map_congr_left each]
  | _ => rfl

theorem CodeAttribute.mapOffsets_congr {a : CodeAttribute} (same : ∀ o ∈ a.named, f o = g o) :
    a.mapOffsets f = a.mapOffsets g := by
  rcases a with ⟨name, table⟩ | ⟨name, entries⟩ | ⟨generic, name, entries⟩ | raw
  · rfl
  · refine congrArg (CodeAttribute.lineNumbers name) (List.map_congr_left fun e member => ?_)
    rw [LineNumber.mapOffsets, LineNumber.mapOffsets, same e.start (List.mem_map_of_mem member)]
  · refine congrArg (CodeAttribute.variables generic name) (List.map_congr_left fun e member => ?_)
    have start := same e.start (List.mem_flatMap.mpr ⟨e, member, .head _⟩)
    have stop := same e.stop (List.mem_flatMap.mpr ⟨e, member, .tail _ (.head _)⟩)
    rw [LocalVariable.mapOffsets, LocalVariable.mapOffsets, start, stop]
  · rfl

/-- What moving does to a body depends on the offsets that it names alone. -/
theorem Code.mapOffsets_congr {c : Code} (same : ∀ o ∈ c.named, f o = g o) :
    c.mapOffsets f = c.mapOffsets g := by
  rw [named, List.forall_mem_append, List.forall_mem_append, List.forall_mem_flatMap,
    List.forall_mem_flatMap, List.forall_mem_flatMap] at same
  obtain ⟨⟨instructions, handlers⟩, attributes⟩ := same
  have placed : c.instructions.map (Placed.mapOffsets f) = c.instructions.map (Placed.mapOffsets g) := by
    refine List.map_congr_left fun p member => ?_
    obtain ⟨here, targets⟩ := List.forall_mem_cons.mp (instructions p member)
    rw [Placed.mapOffsets, Placed.mapOffsets, here, Instruction.mapTargets_congr targets]
  have caught : c.handlers.map (Handler.mapOffsets f) = c.handlers.map (Handler.mapOffsets g) := by
    refine List.map_congr_left fun h member => ?_
    have each := handlers h member
    simp only [Handler.named, List.forall_mem_cons] at each
    rw [Handler.mapOffsets, Handler.mapOffsets, each.1, each.2.1, each.2.2.1]
  have tables : c.attributes.map (CodeAttribute.mapOffsets f) =
      c.attributes.map (CodeAttribute.mapOffsets g) :=
    List.map_congr_left fun a member => CodeAttribute.mapOffsets_congr (attributes a member)
  rw [mapOffsets, mapOffsets, placed, caught, tables]

end

/-! ### Ends of ranges -/

/-- Behind a start, the distance to an offset that is a word leads to that offset. -/
theorem Code.wrapped_add_distance {start stop : Nat} (word : start < 0x100000000)
    (word' : stop < 0x100000000) : wrapped (start + distance start stop) = stop := by
  rw [distance, wrapped, wrapped]
  omega

theorem Code.distance_of_le {start stop : Nat} (le : start ≤ stop) (word : stop < 0x100000000) :
    distance start stop = stop - start := by
  rw [distance, wrapped]
  omega

/-- The end of the range of a variable goes where the map sends it. -/
theorem LocalVariable.stop_mapOffsets {f : Nat → Nat} {e : LocalVariable}
    (word : f e.start < 0x100000000) (word' : f e.stop < 0x100000000) :
    (e.mapOffsets f).stop = f e.stop :=
  Code.wrapped_add_distance word word'

theorem LocalVariable.add_mapOffsets {f : Nat → Nat} {e : LocalVariable}
    (word : e.start + e.length < 0x100000000) (ordered : f e.start ≤ f (e.start + e.length))
    (word' : f (e.start + e.length) < 0x100000000) :
    (e.mapOffsets f).start + (e.mapOffsets f).length = f (e.start + e.length) := by
  rw [mapOffsets, stop, wrapped_of_lt word, Code.distance_of_le ordered word']
  exact Nat.add_sub_cancel' ordered

/-! ### Making room -/

theorem takeWhile_congr {α : Type} {p q : α → Bool} {as : List α} (same : ∀ a ∈ as, p a = q a) :
    as.takeWhile p = as.takeWhile q := by
  induction as with
  | nil => rfl
  | cons a as ih =>
      obtain ⟨here, rest⟩ := List.forall_mem_cons.mp same
      rw [List.takeWhile_cons, List.takeWhile_cons, here, ih rest]

theorem Frame.shift_zero {len o : Nat} (fits : o + len < 0x100000000) : shift 0 len o = o + len := by
  rw [shift, if_pos (Nat.zero_le o), wrapped_of_lt fits]

namespace Instruction

/-- Where instructions end that follow each other from an offset on. -/
def endFrom (pos : Nat) : List Instruction → Nat
  | [] => pos
  | i :: is => endFrom (pos + i.size pos) is

theorem placeFrom_cons (pos : Nat) (i : Instruction) (is : List Instruction) :
    placeFrom pos (i :: is) = ⟨pos, i⟩ :: placeFrom (pos + i.size pos) is := by
  have onto (done : List Placed) (pos : Nat) (is : List Instruction) :
      placeOnto done pos is = done.reverse ++ placeOnto [] pos is := by
    induction is generalizing done pos with
    | nil => simp [placeOnto]
    | cons i is ih =>
        rw [placeOnto, placeOnto, ih, ih [⟨pos, i⟩]]
        simp
  rw [placeFrom, placeOnto, onto]
  rfl

theorem le_endFrom (pos : Nat) (insns : List Instruction) : pos ≤ endFrom pos insns := by
  induction insns generalizing pos with
  | nil => exact Nat.le_refl pos
  | cons i is ih => exact (Nat.le_add_right pos _).trans (ih _)

theorem bounds_of_mem_placeFrom {pos : Nat} {insns : List Instruction} {p : Placed}
    (member : p ∈ placeFrom pos insns) : pos ≤ p.offset ∧ p.offset < endFrom pos insns := by
  induction insns generalizing pos with
  | nil => cases member
  | cons i is ih =>
      rw [placeFrom_cons, List.mem_cons] at member
      have positive := size_pos pos i
      rw [endFrom]
      rcases member with rfl | later
      · exact ⟨Nat.le_refl pos, (Nat.lt_add_of_pos_right positive).trans_le (le_endFrom _ is)⟩
      · obtain ⟨least, most⟩ := ih later
        exact ⟨by omega, most⟩

theorem endOf_placeFrom {pos : Nat} {is : List Instruction} (nonempty : is ≠ []) :
    endOf (placeFrom pos is) = endFrom pos is := by
  induction is generalizing pos with
  | nil => exact absurd rfl nonempty
  | cons i is ih =>
      rw [placeFrom_cons, endFrom]
      cases is with
      | nil => rfl
      | cons j js =>
          rw [← ih (List.cons_ne_nil j js), placeFrom_cons, endOf, List.getLast?_cons_cons, ← endOf]

theorem placeFrom_of_tiles {pos : Nat} {ps : List Placed} (tiles : tilesFrom pos ps) :
    placeFrom pos (ps.map Placed.instruction) = ps := by
  induction ps generalizing pos with
  | nil => rfl
  | cons p ps ih =>
      rw [tilesFrom, Bool.and_eq_true, beq_iff_eq] at tiles
      obtain ⟨rfl, tiles⟩ := tiles
      rw [List.map_cons, placeFrom_cons, ih tiles]

theorem endOf_of_tiles {ps : List Placed} (tiles : tilesFrom 0 ps) : endOf ps = endFrom 0 (ps.map Placed.instruction) := by
  cases ps with
  | nil => rfl
  | cons p ps =>
      have nonempty : (p :: ps).map Placed.instruction ≠ [] := List.cons_ne_nil _ _
      rw [← endOf_placeFrom nonempty, placeFrom_of_tiles tiles]

theorem offset_lt_endOf {ps : List Placed} (tiles : tilesFrom 0 ps) {p : Placed} (member : p ∈ ps) :
    p.offset < endOf ps := by
  rw [endOf_of_tiles tiles]
  rw [← placeFrom_of_tiles tiles] at member
  exact (bounds_of_mem_placeFrom member).2

theorem tilesFrom_append {pos : Nat} {is : List Instruction} {ps : List Placed} :
    tilesFrom pos (placeFrom pos is ++ ps) = tilesFrom (endFrom pos is) ps := by
  induction is generalizing pos with
  | nil => rfl
  | cons i is ih => rw [placeFrom_cons, List.cons_append, tilesFrom, ih, beq_self_eq_true, Bool.true_and,
      endFrom]

/-- Switches keep their padding where the distance is a multiple of four. -/
theorem size_add {len : Nat} (aligned : len % 4 = 0) (pos : Nat) (insn : Instruction) :
    insn.size (pos + len) = insn.size pos := by
  have same : switchPadding (pos + len) = switchPadding pos := by
    simp only [switchPadding]
    omega
  cases insn <;> simp only [size, same]

@[simp] theorem size_mapTargets (f : Nat → Nat) (pos : Nat) (insn : Instruction) :
    (insn.mapTargets f).size pos = insn.size pos := by
  cases insn <;> simp [mapTargets, size]

theorem tilesFrom_shift {f : Nat → Nat} {len : Nat} (pos : Nat) (aligned : len % 4 = 0)
    (ps : List Placed) (moved : ∀ p ∈ ps, f p.offset = p.offset + len) :
    tilesFrom (pos + len) (ps.map (Placed.mapOffsets f)) = tilesFrom pos ps := by
  induction ps generalizing pos with
  | nil => rfl
  | cons p ps ih =>
      obtain ⟨here, later⟩ := List.forall_mem_cons.mp moved
      have behind : pos + len + p.instruction.size pos = pos + p.instruction.size pos + len := by omega
      have same : (p.offset + len == pos + len) = (p.offset == pos) := by
        rw [Bool.eq_iff_iff, beq_iff_eq, beq_iff_eq]
        omega
      simp only [List.map_cons, tilesFrom, Placed.mapOffsets, size_mapTargets, size_add aligned, behind,
        ih _ later, here, same]

end Instruction

namespace Code

open Instruction (endFrom placeFrom endOf)

/-- The instructions that start before an offset. -/
def front (c : Code) (pos : Nat) : List Placed := c.instructions.takeWhile (·.offset < pos)

/-- The instructions from the first one on that does not start before an offset. -/
def back (c : Code) (pos : Nat) : List Placed := c.instructions.dropWhile (·.offset < pos)

/-- What `insertAt` leaves of a body when instructions are put at an offset. -/
def withRoom (c : Code) (pos : Nat) (insns : List Instruction) : Code :=
  let f := Frame.shift pos (endFrom pos insns - pos)
  let moved := c.mapOffsets f
  { moved with instructions :=
      (c.front pos).map (Placed.mapOffsets f) ++ placeFrom pos insns ++
        (c.back pos).map (Placed.mapOffsets f) }

/-- Where instructions are put at an offset, and end before offsets wrap around, `insertAt` is `withRoom`
if what lies before that offset still does when it has been moved. -/
theorem insertAt_eq {c : Code} {pos : Nat} {insns : List Instruction}
    (fits : endFrom pos insns < 0x100000000)
    (still : ∀ p ∈ c.instructions,
      Frame.shift pos (endFrom pos insns - pos) p.offset < pos ↔ p.offset < pos) :
    c.insertAt pos insns = (c.withRoom pos insns, endFrom pos insns - pos) := by
  have word : wrapped (endFrom pos insns - pos) = endFrom pos insns - pos :=
    wrapped_of_lt ((Nat.sub_le ..).trans_lt fits)
  have answer : (if (placeFrom pos insns).isEmpty then 0
      else wrapped (endOf (placeFrom pos insns) - pos)) = endFrom pos insns - pos := by
    cases insns with
    | nil => exact (Nat.sub_self pos).symm
    | cons i is =>
        rw [Instruction.endOf_placeFrom (List.cons_ne_nil i is), word, Instruction.placeFrom_cons]
        rfl
  have inserted : (placeFrom pos insns).map (fun p => { p with offset := wrapped p.offset }) =
      placeFrom pos insns := by
    refine (List.map_congr_left fun p member => ?_).trans (List.map_id _)
    rw [wrapped_of_lt ((Instruction.bounds_of_mem_placeFrom member).2.trans fits), id]
  have before : (c.instructions.map (Placed.mapOffsets
      (Frame.shift pos (endFrom pos insns - pos)))).takeWhile (·.offset < pos) =
      (c.front pos).map (Placed.mapOffsets (Frame.shift pos (endFrom pos insns - pos))) := by
    rw [List.takeWhile_map, front]
    congr 1
    exact takeWhile_congr fun p member => decide_eq_decide.mpr (still p member)
  have behind (p : Placed → Bool) (ps : List Placed) :
      ps.drop (ps.takeWhile p).length = ps.dropWhile p :=
    calc ps.drop (ps.takeWhile p).length
      _ = (ps.takeWhile p ++ ps.dropWhile p).drop (ps.takeWhile p).length := by
        rw [List.takeWhile_append_dropWhile]
      _ = ps.dropWhile p := List.drop_left ..
  simp only [insertAt, answer, inserted]
  rw [Edit.final, move_of_total]
  simp only [withRoom, mapOffsets, before, List.length_map, ← List.map_drop, front, behind, back]

/-- What is put in front of a body needs no place to be found. -/
theorem insertAt_zero {c : Code} {insns : List Instruction} (fits : endFrom 0 insns < 0x100000000) :
    c.insertAt 0 insns = (c.withRoom 0 insns, endFrom 0 insns) :=
  insertAt_eq fits fun _ _ => iff_of_false (Nat.not_lt_zero _) (Nat.not_lt_zero _)

/-- A body with instructions in front of it. -/
def inFront (c : Code) (insns : List Instruction) (len : Nat) : Code :=
  let moved := c.mapOffsets (· + len)
  { moved with instructions := Instruction.placeFrom 0 insns ++ moved.instructions }

/-- In front of a body whose offsets do not wrap around, room is made by adding to them. -/
theorem withRoom_zero {c : Code} {insns : List Instruction}
    (fits : ∀ o ∈ c.named, o + endFrom 0 insns < 0x100000000) :
    c.withRoom 0 insns = c.inFront insns (endFrom 0 insns) := by
  have all : c.front 0 = [] ∧ c.back 0 = c.instructions := by
    rw [front, back]
    cases c.instructions <;> simp
  have moved : c.mapOffsets (Frame.shift 0 (endFrom 0 insns)) = c.mapOffsets (· + endFrom 0 insns) :=
    mapOffsets_congr fun o names => Frame.shift_zero (fits o names)
  rw [withRoom, Nat.sub_zero, moved, all.1, all.2, inFront, ← moved]
  rfl

end Code

end JarGate
