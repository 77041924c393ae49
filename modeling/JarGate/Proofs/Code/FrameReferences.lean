import JarGate.Proofs.Code.Relocation
import JarGate.Proofs.Code.Renumbering

/-!
# The offsets that frames name

A table of frames names an offset for each of its frames, and one for each uninitialized object in the
types that are written out. Renumbering sends all of them through one map. It succeeds just where the map
covers them, the offsets of the frames stay in order, and each number still fits the sixteen bits that the
format has for it.
-/

namespace JarGate

variable {via : Nat → Option Nat}

/-- If each element of a list names what a map makes of the names of its counterpart, then so does the
whole list. -/
theorem flatMap_of_forall₂ {α β : Type} {R : α → β → Prop} {as : List α} {bs : List β}
    {names : α → List Nat} {names' : β → List Nat} {f : Nat → Nat} (each : List.Forall₂ R as bs)
    (moved : ∀ a b, R a b → names' b = (names a).map f) :
    bs.flatMap names' = (as.flatMap names).map f := by
  induction each with
  | nil => rfl
  | cons head _ ih => rw [List.flatMap_cons, List.flatMap_cons, List.map_append, moved _ _ head, ih]

/-! ### Uninitialized objects -/

/-- The offset at which an uninitialized object was made. -/
def VerificationType.objects : VerificationType → List Nat
  | uninitialized o => [o.toNat]
  | _ => []

/-- Whether a map sends an offset to one that fits sixteen bits. -/
def FitsBy (via : Nat → Option Nat) (o : Nat) : Prop := (via o).isSome ∧ sentBy via o ≤ 0xFFFF

namespace VerificationType

variable {t t' : VerificationType}

theorem exists_moved_iff : (∃ t', t.moved via = .ok t') ↔ ∀ o ∈ t.objects, FitsBy via o := by
  cases t with
  | uninitialized o =>
      rw [objects, List.forall_mem_singleton, FitsBy, sentBy]
      simp only [moved]
      cases sent : via o.toNat with
      | none => simp
      | some o' =>
          by_cases small : o' < 0x10000
          · simp [small, Nat.le_of_lt_succ small]
          · have large : ¬ o' ≤ 0xFFFF := fun fits => small (Nat.lt_succ_of_le fits)
            simp [small, large]
  | _ => exact ⟨fun _ => List.forall_mem_nil _, fun _ => ⟨_, rfl⟩⟩

theorem objects_moved (h : t.moved via = .ok t') : t'.objects = t.objects.map (sentBy via) := by
  cases t with
  | uninitialized o =>
      simp only [moved] at h
      split at h
      next => cases h
      next o' sent =>
        split at h
        next small =>
          cases h
          simp only [objects, List.map_singleton, sentBy_of_some sent, UInt16.toNat_ofNat',
            Nat.mod_eq_of_lt small]
        next => cases h
  | _ =>
      cases h
      rfl

end VerificationType

namespace Frame

variable {f g : Frame} {frames done out : List Frame} {previous target : Option Nat}

/-- The types that a frame writes out. -/
def types : Frame → List VerificationType
  | oneStack _ t | oneStackExtended _ t => [t]
  | append _ locals => locals
  | full _ locals stack => locals ++ stack
  | same _ | sameExtended _ | chop _ _ => []

/-- The offsets of the uninitialized objects in a frame. -/
def objects (f : Frame) : List Nat := f.types.flatMap VerificationType.objects

theorem types_movedTypes (typed : f.movedTypes via = .ok g) :
    List.Forall₂ (fun t t' => t.moved via = .ok t') f.types g.types := by
  cases movedTypes_eq_ok_iff.mp typed with
  | same | sameExtended | chop => exact .nil
  | oneStack top | oneStackExtended top => exact .cons top .nil
  | append locals => exact locals
  | full locals stack => exact List.rel_append locals stack

theorem exists_movedTypes_iff :
    (∃ g, f.movedTypes via = .ok g) ↔ ∀ o ∈ f.objects, FitsBy via o := by
  rw [objects, List.forall_mem_flatMap]
  simp only [← VerificationType.exists_moved_iff]
  constructor
  · rintro ⟨g, typed⟩ t member
    obtain ⟨t', -, moved⟩ := exists_of_forall₂ (types_movedTypes typed) t member
    exact ⟨t', moved⟩
  · intro each
    cases f with
    | same d | sameExtended d | chop d count => exact ⟨_, rfl⟩
    | oneStack d t | oneStackExtended d t =>
        obtain ⟨t', moved⟩ := each t (List.mem_singleton_self t)
        exact ⟨_, bind_eq_ok_iff.mpr ⟨t', moved, rfl⟩⟩
    | append d added =>
        obtain ⟨added', moved⟩ := exists_mapM each
        exact ⟨_, bind_eq_ok_iff.mpr ⟨added', moved, rfl⟩⟩
    | full d all stack =>
        obtain ⟨first, second⟩ := List.forall_mem_append.mp each
        obtain ⟨all', moved⟩ := exists_mapM first
        obtain ⟨stack', moved'⟩ := exists_mapM second
        exact ⟨_, bind_eq_ok_iff.mpr ⟨all', moved, bind_eq_ok_iff.mpr ⟨stack', moved', rfl⟩⟩⟩

theorem types_withDelta {delta : Nat} (placed : f.withDelta delta = .ok g) : g.types = f.types := by
  obtain ⟨d, -, put⟩ := putAt_of_withDelta placed
  cases put <;> rfl

theorem RenumberedTo.objects_eq (h : RenumberedTo via f g) : g.objects = f.objects.map (sentBy via) := by
  obtain ⟨f', delta, typed, placed⟩ := h
  rw [objects, types_withDelta placed, objects]
  exact flatMap_of_forall₂ (types_movedTypes typed) fun _ _ => VerificationType.objects_moved

/-! ### Offsets of frames -/

/-- The offsets of frames increase from the place in front of them. -/
theorem increasing_offsetsOnto {previous : Option Nat} {frames : List Frame}
    (fits : Unwrapped previous frames) :
    (∀ o ∈ offsetsOnto [] previous frames, offsetBehind previous ≤ o) ∧
      (offsetsOnto [] previous frames).Pairwise (· < ·) := by
  induction frames generalizing previous with
  | nil => exact ⟨nofun, .nil⟩
  | cons f fs ih =>
      obtain ⟨here, fits⟩ := fits.cons
      obtain ⟨later, ordered⟩ := ih fits
      rw [offsetsOnto_cons, List.forall_mem_cons, List.pairwise_cons]
      refine ⟨⟨by omega, fun o member => ?_⟩, later, ordered⟩
      have behind := later o member
      rw [offsetBehind] at behind
      omega

theorem increasing_offsets (fits : Unwrapped none frames) : (offsets frames).Pairwise (· < ·) :=
  (increasing_offsetsOnto fits).2

/-- Offsets that wrap around do not increase. -/
theorem increasing_offsets_iff : (offsets frames).Pairwise (· < ·) ↔ Unwrapped none frames :=
  ⟨unwrapped_of_increasing (Nat.zero_le _) fun o _ => Nat.zero_le o, increasing_offsets⟩

/-! ### Renumbering -/

theorem exists_renumberOnto_iff :
    (∃ out, renumberOnto via done previous target frames = .ok out) ↔
      DefinedOn via (offsetsOnto [] previous frames) ∧ (∀ o ∈ frames.flatMap objects, FitsBy via o) ∧
        Spaced target ((offsetsOnto [] previous frames).map (sentBy via)) := by
  induction frames generalizing done previous target with
  | nil => exact ⟨fun _ => ⟨definedOn_nil, List.forall_mem_nil _, spaced_nil⟩, fun _ => ⟨_, rfl⟩⟩
  | cons f fs ih =>
      rw [offsetsOnto_cons, definedOn_cons, List.flatMap_cons, List.forall_mem_append,
        List.map_cons, spaced_cons, ← exists_movedTypes_iff]
      simp only [renumberOnto_cons_iff]
      constructor
      · rintro ⟨out, o, delta, g, g', sent, distance, typed, placed, h⟩
        obtain ⟨covers, fit, spaced⟩ := ih.mp ⟨out, h⟩
        rw [sent, sentBy_of_some sent]
        exact ⟨⟨rfl, covers⟩, ⟨⟨g, typed⟩, fit⟩,
          ⟨delta, distance, exists_withDelta_iff.mp ⟨g', placed⟩⟩, spaced⟩
      · rintro ⟨⟨sends, covers⟩, ⟨⟨g, typed⟩, fit⟩, ⟨delta, distance, close⟩, spaced⟩
        obtain ⟨o, sent⟩ := Option.isSome_iff_exists.mp sends
        rw [sentBy_of_some sent] at distance spaced
        obtain ⟨g', placed⟩ := exists_withDelta_iff (f := g).mpr close
        obtain ⟨out, h⟩ := ih.mpr ⟨covers, fit, spaced⟩
        exact ⟨out, o, delta, g, g', sent, distance, typed, placed, h⟩

/-- When a table can be renumbered. -/
theorem exists_renumber_iff : (∃ out, renumber frames via = .ok out) ↔
    DefinedOn via (offsets frames) ∧ (∀ o ∈ frames.flatMap objects, FitsBy via o) ∧
      Spaced none ((offsets frames).map (sentBy via)) :=
  exists_renumberOnto_iff

theorem offsets_of_renumberOnto (words : ∀ o o', via o = some o' → o' < 0x100000000)
    (h : renumberOnto via done previous target frames = .ok out) :
    ∃ gs, out = done.reverse ++ gs ∧
      offsetsOnto [] target gs = (offsetsOnto [] previous frames).map (sentBy via) := by
  induction frames generalizing done previous target with
  | nil =>
      cases h
      exact ⟨[], (List.append_nil _).symm, rfl⟩
  | cons f fs ih =>
      obtain ⟨o, delta, g, g', sent, distance, -, placed, h⟩ := renumberOnto_cons_iff.mp h
      obtain ⟨gs, rfl, moved⟩ := ih h
      have there := offsetAfter_of_deltaAfter (words _ _ sent) distance (toNat_delta_withDelta placed)
      refine ⟨g' :: gs, by simp, ?_⟩
      rw [offsetsOnto_cons, offsetsOnto_cons, there, moved, List.map_cons, sentBy_of_some sent]

/-- A table that was renumbered names what the map made of the offsets before. -/
theorem named_of_renumber (words : ∀ o o', via o = some o' → o' < 0x100000000)
    (h : renumber frames via = .ok out) :
    offsets out = (offsets frames).map (sentBy via) ∧
      out.flatMap objects = (frames.flatMap objects).map (sentBy via) := by
  obtain ⟨gs, same, moved⟩ := offsets_of_renumberOnto words h
  obtain rfl : out = gs := same
  obtain ⟨gs, same, each⟩ := renumbered_of_renumberOnto h
  obtain rfl : out = gs := same
  exact ⟨moved, flatMap_of_forall₂ each fun _ _ => RenumberedTo.objects_eq⟩

end Frame

end JarGate
