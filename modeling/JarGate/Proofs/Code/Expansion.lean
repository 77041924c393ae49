import JarGate.ClassFile.FrameState
import JarGate.Proofs.Success

/-!
# The states of frames

What a table of frames stands for is stated as a relation, `Expands`, frame by frame. Compressing states
gives frames that stand for just these states, whatever hints are given, so that splicing can be
described by what it does to states alone: it moves them, and puts one more in its place.
-/

namespace JarGate

/-! ### Moved types -/

/-- Whether a type is another one with the offset of an uninitialized object moved. -/
inductive VerificationType.Moves (f : Nat → Nat) : VerificationType → VerificationType → Prop
  | uninitialized {o o' : UInt16} (moved : o'.toNat = f o.toNat) :
    Moves f (uninitialized o) (uninitialized o')
  | other {t : VerificationType} (settled : ∀ o, t ≠ uninitialized o) : Moves f t t

/-- Whether a state is another one with the offsets of uninitialized objects moved. -/
structure FrameState.Moves (f : Nat → Nat) (s s' : FrameState) : Prop where
  locals : List.Forall₂ (VerificationType.Moves f) s.locals s'.locals
  stack : List.Forall₂ (VerificationType.Moves f) s.stack s'.stack

theorem VerificationType.moves_of_moved {f : Nat → Nat} {t t' : VerificationType}
    (h : t.moved (fun o => some (f o)) = .ok t') : Moves f t t' := by
  cases t with
  | uninitialized o =>
      simp only [moved] at h
      split at h
      next small =>
        cases h
        apply Moves.uninitialized
        rw [UInt16.toNat_ofNat', Nat.mod_eq_of_lt small]
      next => cases h
  | _ =>
      cases h
      exact .other nofun

theorem FrameState.moves_of_moved {f : Nat → Nat} {s s' : FrameState}
    (h : s.moved (fun o => some (f o)) = .ok s') : Moves f s s' := by
  simp only [moved, bind_eq_ok_iff, pure_eq_ok_iff, mapM_eq_ok_iff] at h
  obtain ⟨locals, each, stack, each', rfl⟩ := h
  exact ⟨each.imp fun _ _ => VerificationType.moves_of_moved,
    each'.imp fun _ _ => VerificationType.moves_of_moved⟩

namespace Frame

/-! ### Moved frames -/

/-- Whether a frame is another one with the types that it writes out moved. Its form and its numbers are
those of the other one. -/
inductive TypesMoved (move : Nat → Option Nat) : Frame → Frame → Prop
  | same (d : UInt16) : TypesMoved move (.same d) (.same d)
  | sameExtended (d : UInt16) : TypesMoved move (.sameExtended d) (.sameExtended d)
  | chop (d : UInt16) (count : UInt8) : TypesMoved move (.chop d count) (.chop d count)
  | oneStack {d : UInt16} {t t' : VerificationType} (top : t.moved move = .ok t') :
    TypesMoved move (.oneStack d t) (.oneStack d t')
  | oneStackExtended {d : UInt16} {t t' : VerificationType} (top : t.moved move = .ok t') :
    TypesMoved move (.oneStackExtended d t) (.oneStackExtended d t')
  | append {d : UInt16} {added added' : List VerificationType}
      (locals : List.Forall₂ (fun t t' => t.moved move = .ok t') added added') :
    TypesMoved move (.append d added) (.append d added')
  | full {d : UInt16} {all all' top top' : List VerificationType}
      (locals : List.Forall₂ (fun t t' => t.moved move = .ok t') all all')
      (stack : List.Forall₂ (fun t t' => t.moved move = .ok t') top top') :
    TypesMoved move (.full d all top) (.full d all' top')

theorem movedTypes_eq_ok_iff {move : Nat → Option Nat} {f g : Frame} :
    f.movedTypes move = .ok g ↔ TypesMoved move f g := by
  constructor
  · intro typed
    cases f with
    | same d =>
        cases typed
        exact .same d
    | sameExtended d =>
        cases typed
        exact .sameExtended d
    | chop d count =>
        cases typed
        exact .chop d count
    | oneStack d t =>
        obtain ⟨t', top, same⟩ := bind_eq_ok_iff.mp typed
        cases same
        exact .oneStack top
    | oneStackExtended d t =>
        obtain ⟨t', top, same⟩ := bind_eq_ok_iff.mp typed
        cases same
        exact .oneStackExtended top
    | append d added =>
        obtain ⟨added', locals, same⟩ := bind_eq_ok_iff.mp typed
        cases same
        exact .append (mapM_eq_ok_iff.mp locals)
    | full d all top =>
        obtain ⟨all', locals, rest⟩ := bind_eq_ok_iff.mp typed
        obtain ⟨top', stack, same⟩ := bind_eq_ok_iff.mp rest
        cases same
        exact .full (mapM_eq_ok_iff.mp locals) (mapM_eq_ok_iff.mp stack)
  · intro moved
    cases moved with
    | same | sameExtended | chop => rfl
    | oneStack top | oneStackExtended top => exact bind_eq_ok_iff.mpr ⟨_, top, rfl⟩
    | append locals => exact bind_eq_ok_iff.mpr ⟨_, mapM_eq_ok_iff.mpr locals, rfl⟩
    | full locals stack =>
        exact bind_eq_ok_iff.mpr ⟨_, mapM_eq_ok_iff.mpr locals,
          bind_eq_ok_iff.mpr ⟨_, mapM_eq_ok_iff.mpr stack, rfl⟩⟩

/-- Whether a frame is another one at a distance. A short form gives way to the extended one where the
distance exceeds what its tag can hold. -/
inductive PutAt (d : UInt16) : Frame → Frame → Prop
  | same {e : UInt16} (short : d.toNat ≤ maxShortDelta) : PutAt d (.same e) (.same d)
  | longSame {e : UInt16} (long : maxShortDelta < d.toNat) : PutAt d (.same e) (.sameExtended d)
  | sameExtended {e : UInt16} : PutAt d (.sameExtended e) (.sameExtended d)
  | oneStack {e : UInt16} {t : VerificationType} (short : d.toNat ≤ maxShortDelta) :
    PutAt d (.oneStack e t) (.oneStack d t)
  | longOneStack {e : UInt16} {t : VerificationType} (long : maxShortDelta < d.toNat) :
    PutAt d (.oneStack e t) (.oneStackExtended d t)
  | oneStackExtended {e : UInt16} {t : VerificationType} :
    PutAt d (.oneStackExtended e t) (.oneStackExtended d t)
  | chop {e : UInt16} {count : UInt8} : PutAt d (.chop e count) (.chop d count)
  | append {e : UInt16} {added : List VerificationType} : PutAt d (.append e added) (.append d added)
  | full {e : UInt16} {all top : List VerificationType} : PutAt d (.full e all top) (.full d all top)

theorem putAt_of_withDelta {f g : Frame} {delta : Nat} (h : f.withDelta delta = .ok g) :
    ∃ d : UInt16, delta = d.toNat ∧ PutAt d f g := by
  rw [withDelta] at h
  split at h
  next small =>
    obtain rfl := Except.ok.inj h
    have value : (UInt16.ofNat delta).toNat = delta := by
      rw [UInt16.toNat_ofNat', Nat.mod_eq_of_lt small]
    refine ⟨UInt16.ofNat delta, value.symm, ?_⟩
    cases f with
    | same e =>
        dsimp only
        split
        next short => exact .same (value.trans_le short)
        next long => exact .longSame ((Nat.lt_of_not_le long).trans_eq value.symm)
    | oneStack e t =>
        dsimp only
        split
        next short => exact .oneStack (value.trans_le short)
        next long => exact .longOneStack ((Nat.lt_of_not_le long).trans_eq value.symm)
    | sameExtended e => exact .sameExtended
    | oneStackExtended e t => exact .oneStackExtended
    | chop e count => exact .chop
    | append e added => exact .append
    | full e all top => exact .full
  next => cases h

/-! ### Expanding -/

/-- Whether frames behind a place stand for states. `previous` is the offset of the frame at that place
and `locals` are the locals there. -/
inductive Expands : Option Nat → List VerificationType → List Frame → List (Nat × FrameState) → Prop
  | nil {previous : Option Nat} {locals : List VerificationType} : Expands previous locals [] []
  | cons {previous : Option Nat} {locals : List VerificationType} {f : Frame} {fs : List Frame}
      {state : FrameState} {states : List (Nat × FrameState)} (here : f.apply locals = .ok state)
      (behind : Expands (some (offsetAfter previous f)) state.locals fs states) :
      Expands previous locals (f :: fs) ((offsetAfter previous f, state) :: states)

variable {previous : Option Nat} {locals initial : List VerificationType} {f g : Frame}
  {frames done out : List Frame} {states : List (Nat × FrameState)} {state : FrameState}

theorem expandOnto_eq_ok_iff {past all : List (Nat × FrameState)} :
    expandOnto past previous locals frames = .ok all ↔
      ∃ states, Expands previous locals frames states ∧ all = past.reverse ++ states := by
  induction frames generalizing past previous locals with
  | nil =>
      constructor
      · rintro ⟨⟩
        exact ⟨[], .nil, (List.append_nil _).symm⟩
      · rintro ⟨_, ⟨⟩, rfl⟩
        rw [List.append_nil, expandOnto]
  | cons f fs ih =>
      rw [expandOnto]
      cases applied : f.apply locals with
      | error e =>
          constructor
          · nofun
          · rintro ⟨_, described, -⟩
            cases described with
            | cons here _ =>
                rw [applied] at here
                cases here
      | ok state =>
          dsimp only
          rw [ih]
          constructor
          · rintro ⟨states, behind, rfl⟩
            exact ⟨_, .cons applied behind, by simp⟩
          · rintro ⟨_, described, rfl⟩
            cases described with
            | cons here behind =>
                obtain rfl := Except.ok.inj (applied.symm.trans here)
                exact ⟨_, behind, by simp⟩

theorem expand_eq_ok_iff : expand frames initial = .ok states ↔ Expands none initial frames states := by
  rw [expand, expandOnto_eq_ok_iff]
  simp

theorem offsetAfter_lt (previous : Option Nat) (f : Frame) : offsetAfter previous f < 0x100000000 := by
  cases previous with
  | none => exact f.delta.toNat_lt.trans (by decide)
  | some p => exact wrapped_lt _

theorem Expands.length_eq (h : Expands previous locals frames states) :
    states.length = frames.length := by
  induction h with
  | nil => rfl
  | cons _ _ ih => exact congrArg Nat.succ ih

/-- The states that frames stand for lie at offsets that are words. -/
theorem Expands.lt (h : Expands previous locals frames states) : ∀ s ∈ states, s.1 < 0x100000000 := by
  induction h with
  | nil => exact List.forall_mem_nil _
  | cons _ _ ih => exact List.forall_mem_cons.mpr ⟨offsetAfter_lt .., ih⟩

theorem offsetsOnto_eq (past : List Nat) (previous : Option Nat) (frames : List Frame) :
    offsetsOnto past previous frames = past.reverse ++ offsetsOnto [] previous frames := by
  induction frames generalizing past previous with
  | nil => simp [offsetsOnto]
  | cons f fs ih =>
      rw [offsetsOnto, offsetsOnto, ih, ih [offsetAfter previous f]]
      simp

theorem offsetsOnto_cons (previous : Option Nat) (f : Frame) (fs : List Frame) :
    offsetsOnto [] previous (f :: fs) =
      offsetAfter previous f :: offsetsOnto [] (some (offsetAfter previous f)) fs :=
  offsetsOnto_eq [offsetAfter previous f] _ fs

/-- The states that frames stand for lie at the offsets of the frames. -/
theorem Expands.offsets_eq (h : Expands previous locals frames states) :
    states.map (·.1) = offsetsOnto [] previous frames := by
  induction h with
  | nil => rfl
  | cons _ _ ih => rw [List.map_cons, ih, offsetsOnto_cons]

/-! ### Offsets that do not wrap around -/

/-- The first offset that is free behind the frame before. -/
def offsetBehind : Option Nat → Nat
  | none => 0
  | some p => p + 1

/-- Whether no offset of frames behind a place wraps around: each frame takes the octets up to its offset,
and these do not exceed what a word can count. -/
def Unwrapped (previous : Option Nat) (frames : List Frame) : Prop :=
  offsetBehind previous + (frames.map (·.delta.toNat + 1)).sum ≤ 0x100000000

instance : Decidable (Unwrapped previous frames) := inferInstanceAs (Decidable (_ ≤ _))

theorem offsetAfter_of_lt (fits : offsetBehind previous + f.delta.toNat < 0x100000000) :
    offsetAfter previous f = offsetBehind previous + f.delta.toNat := by
  cases previous with
  | none => rw [offsetAfter, offsetBehind, Nat.zero_add]
  | some p =>
      rw [offsetBehind, Nat.add_right_comm] at fits
      rw [offsetAfter, wrapped_of_lt fits, offsetBehind, Nat.add_right_comm]

/-- The first of some frames is found at its distance, and the others do not wrap around behind it. -/
theorem Unwrapped.cons (h : Unwrapped previous (f :: frames)) :
    offsetAfter previous f = offsetBehind previous + f.delta.toNat ∧
      Unwrapped (some (offsetAfter previous f)) frames := by
  rw [Unwrapped, List.map_cons, List.sum_cons] at h
  have fits : offsetBehind previous + f.delta.toNat < 0x100000000 := by omega
  have here := offsetAfter_of_lt fits
  refine ⟨here, ?_⟩
  rw [Unwrapped, here, offsetBehind]
  omega

/-- Each frame takes at most as many octets as its distance can count. -/
theorem sum_deltas_le (frames : List Frame) :
    (frames.map (·.delta.toNat + 1)).sum ≤ frames.length * 0x10000 := by
  have each : ∀ n ∈ frames.map (·.delta.toNat + 1), n ≤ 0x10000 :=
    List.forall_mem_map.mpr fun f _ => f.delta.toNat_lt
  have total := List.sum_le_card_nsmul _ _ each
  rwa [List.length_map, smul_eq_mul] at total

/-- A table of no more frames than a file can hold does not wrap around. -/
theorem unwrapped_of_few (few : frames.length ≤ 0xFFFF) : Unwrapped none frames := by
  have total := sum_deltas_le frames
  rw [Unwrapped, offsetBehind]
  omega

/-- An offset that wraps around lies before the one that it was counted from. -/
theorem unwrapped_of_increasing (word : offsetBehind previous ≤ 0x100000000)
    (behind : ∀ o ∈ offsetsOnto [] previous frames, offsetBehind previous ≤ o)
    (sorted : (offsetsOnto [] previous frames).Pairwise (· < ·)) : Unwrapped previous frames := by
  induction frames generalizing previous with
  | nil => exact word
  | cons f fs ih =>
      rw [offsetsOnto_cons, List.forall_mem_cons] at behind
      rw [offsetsOnto_cons, List.pairwise_cons] at sorted
      have word' : offsetBehind (some (offsetAfter previous f)) ≤ 0x100000000 := offsetAfter_lt previous f
      have fits := ih word' sorted.1 sorted.2
      have here : offsetAfter previous f = offsetBehind previous + f.delta.toNat := by
        have short := f.delta.toNat_lt
        have behind := behind.1
        cases previous with
        | none => exact (Nat.zero_add _).symm
        | some p =>
            rw [offsetAfter, wrapped, offsetBehind] at behind
            rw [offsetBehind] at word
            rw [offsetAfter, wrapped, offsetBehind]
            omega
      rw [Unwrapped, here, offsetBehind] at fits
      rw [Unwrapped, List.map_cons, List.sum_cons]
      omega

theorem unwrapped_replicate_iff (f : Frame) (n : Nat) :
    Unwrapped none (List.replicate n f) ↔ n * (f.delta.toNat + 1) ≤ 0x100000000 := by
  rw [Unwrapped, List.map_replicate, List.sum_replicate, smul_eq_mul, offsetBehind, Nat.zero_add]

/-- The offsets of states increase from the place in front of them. -/
theorem Expands.increasing (h : Expands previous locals frames states)
    (fits : Unwrapped previous frames) :
    (∀ s ∈ states, offsetBehind previous ≤ s.1) ∧ (states.map (·.1)).Pairwise (· < ·) := by
  induction h with
  | nil => exact ⟨List.forall_mem_nil _, .nil⟩
  | cons _ _ ih =>
      obtain ⟨here, fits⟩ := fits.cons
      obtain ⟨later, ordered⟩ := ih fits
      rw [List.forall_mem_cons, List.map_cons, List.pairwise_cons]
      refine ⟨⟨by omega, fun s member => ?_⟩, ?_, ordered⟩
      · have behind := later s member
        rw [offsetBehind] at behind
        omega
      · exact List.forall_mem_map.mpr later

/-! ### Compressing -/

theorem apply_withDelta {delta : Nat} (h : f.withDelta delta = .ok g) : g.apply = f.apply := by
  obtain ⟨d, -, put⟩ := putAt_of_withDelta h
  funext before
  cases put <;> rfl

theorem toNat_delta_withDelta {delta : Nat} (h : f.withDelta delta = .ok g) :
    g.delta.toNat = delta := by
  obtain ⟨d, rfl, put⟩ := putAt_of_withDelta h
  cases put <;> rfl

theorem offsetAfter_of_deltaAfter {offset delta : Nat} (word : offset < 0x100000000)
    (h : deltaAfter previous offset = .ok delta) (there : g.delta.toNat = delta) :
    offsetAfter previous g = offset := by
  cases previous with
  | none =>
      cases h
      exact there
  | some p =>
      simp only [deltaAfter] at h
      split at h
      next less =>
        cases h
        have whole : p + (offset - p - 1) + 1 = offset := by omega
        rw [offsetAfter, there, whole, wrapped_of_lt word]
      next => cases h

/-- The smallest frame for a state describes that state. -/
theorem apply_smallest (before : List VerificationType) (state : FrameState) :
    (smallest before state).apply before = .ok state := by
  obtain ⟨locals, stack⟩ := state
  simp only [smallest]
  split
  · split
    next same =>
      subst same
      rfl
    next =>
      split
      next shorter =>
        obtain ⟨less, few, start⟩ := shorter
        have count : (UInt8.ofNat (before.length - locals.length)).toNat =
            before.length - locals.length := by
          rw [UInt8.toNat_ofNat', Nat.mod_eq_of_lt (by omega)]
        have kept : before.length - (before.length - locals.length) = locals.length := by omega
        rw [apply, count, if_pos (Nat.sub_le ..), kept, ← List.prefix_iff_eq_take.mp start]
        rfl
      next =>
        split
        next longer =>
          obtain ⟨added, rfl⟩ := longer.2.2
          rw [List.drop_left]
          rfl
        next => rfl
  · split
    next same =>
      subst same
      rfl
    next => rfl
  · rfl

/-- Whatever the hint is, the frame that is chosen describes the state. -/
theorem apply_choose (before : List VerificationType) (state : FrameState) (hint : Option Frame) :
    (choose before state hint).apply before = .ok state := by
  cases hint with
  | none => exact apply_smallest before state
  | some f =>
      rw [choose]
      split
      next s described =>
        split
        next same => rw [described, same]
        next => exact apply_smallest before state
      next => exact apply_smallest before state

/-- A state is compressed to the frame that is chosen for it, at its distance. -/
theorem compressOnto_cons_iff {offset : Nat} {hints : List (Option Frame)} :
    compressOnto done previous locals hints ((offset, state) :: states) = .ok out ↔
      ∃ delta f, deltaAfter previous offset = .ok delta ∧
        (choose locals state hints.head?.join).withDelta delta = .ok f ∧
        compressOnto (f :: done) (some offset) state.locals hints.tail states = .ok out := by
  rw [compressOnto]
  cases deltaAfter previous offset with
  | error e => simp
  | ok delta =>
      dsimp only
      cases chosen : (choose locals state hints.head?.join).withDelta delta with
      | error e => simp [chosen]
      | ok f => simp [chosen]

theorem expands_of_compressOnto {hints : List (Option Frame)}
    (words : ∀ s ∈ states, s.1 < 0x100000000)
    (h : compressOnto done previous locals hints states = .ok out) :
    ∃ frames, out = done.reverse ++ frames ∧ Expands previous locals frames states := by
  induction states generalizing done previous locals hints with
  | nil =>
      cases h
      exact ⟨[], (List.append_nil _).symm, .nil⟩
  | cons entry states ih =>
      obtain ⟨offset, state⟩ := entry
      obtain ⟨word, words⟩ := List.forall_mem_cons.mp words
      obtain ⟨delta, f, distance, chosen, h⟩ := compressOnto_cons_iff.mp h
      obtain ⟨frames, rfl, behind⟩ := ih words h
      have here : f.apply locals = .ok state := by
        rw [apply_withDelta chosen]
        exact apply_choose locals state _
      have there := offsetAfter_of_deltaAfter word distance (toNat_delta_withDelta chosen)
      have whole : Expands previous locals (f :: frames)
          ((offsetAfter previous f, state) :: states) := .cons here (by rwa [there])
      rw [there] at whole
      exact ⟨f :: frames, by simp, whole⟩

/-- Frames that states were compressed to stand for these states, whatever the hints were. -/
theorem expand_of_compress {hints : List (Option Frame)} (words : ∀ s ∈ states, s.1 < 0x100000000)
    (h : compress states initial hints = .ok frames) : expand frames initial = .ok states := by
  obtain ⟨_, rfl, described⟩ := expands_of_compressOnto words h
  exact expand_eq_ok_iff.mpr described

/-! ### Splicing -/

/-- Whether a state at an offset is another one moved. -/
def MovesTo (f : Nat → Nat) (s s' : Nat × FrameState) : Prop :=
  s'.1 = f s.1 ∧ s.2.Moves f s'.2

/-- States with one more at its place by offset, unless there is one at that offset already. -/
def withState (live : Option (Nat × FrameState)) (states : List (Nat × FrameState)) :
    List (Nat × FrameState) :=
  match live with
  | none => states
  | some (offset, state) =>
    if states.any (·.1 = offset) then states
    else states.takeWhile (·.1 < offset) ++ (offset, state) :: states.dropWhile (·.1 < offset)

theorem insertState_fst (offset : Nat) (state : FrameState) (states : List (Nat × FrameState))
    (hints : List (Option Frame)) :
    (insertState offset state states hints).1 = withState (some (offset, state)) states := by
  rw [insertState, withState]
  split
  · rfl
  · have before : states.take (states.takeWhile (·.1 < offset)).length =
        states.takeWhile (·.1 < offset) :=
      (List.prefix_iff_eq_take.mp (List.takeWhile_prefix _)).symm
    have behind : states.drop (states.takeWhile (·.1 < offset)).length =
        states.dropWhile (·.1 < offset) := by
      have whole := List.takeWhile_append_dropWhile (p := (·.1 < offset)) (l := states)
      exact (congrArg (List.drop _) whole.symm).trans List.drop_left
    dsimp only
    rw [before, behind]

theorem shift_lt {start len o : Nat} (word : o < 0x100000000) : shift start len o < 0x100000000 := by
  rw [shift]
  split
  · exact wrapped_lt _
  · exact word

theorem shift_of_lt {start len o : Nat} (fits : start ≤ o → o + len < 0x100000000) :
    shift start len o = if start ≤ o then o + len else o := by
  rw [shift]
  split
  next behind => exact wrapped_of_lt (fits behind)
  next => rfl

theorem words_withState {live : Option (Nat × FrameState)} (word : ∀ s ∈ live, s.1 < 0x100000000)
    (words : ∀ s ∈ states, s.1 < 0x100000000) : ∀ s ∈ withState live states, s.1 < 0x100000000 := by
  match live with
  | none => exact words
  | some (offset, state) =>
      rw [withState]
      split
      · exact words
      · rw [List.forall_mem_append, List.forall_mem_cons]
        exact ⟨fun s member => words s ((List.takeWhile_sublist _).mem member), word _ rfl,
          fun s member => words s ((List.dropWhile_sublist _).mem member)⟩

/-- What splicing does to an entry of a table: its state is moved, and so are the types of its frame,
which becomes a hint. -/
def moveEntry (start len : Nat) (p : (Nat × FrameState) × Frame) :
    Except ClassError ((Nat × FrameState) × Option Frame) := do
  let state ← p.1.2.moved fun o => some (shift start len o)
  let frame ← p.2.movedTypes fun o => some (shift start len o)
  return ((shift start len p.1.1, state), some frame)

theorem splice_eq (frames : List Frame) (initial : List VerificationType) (start len : Nat)
    (live : Option FrameState) :
    splice frames initial start len live = (do
      let states ← expand frames initial
      let moved ← (states.zip frames).mapM (moveEntry start len)
      let (states, hints) := match live with
        | none => (moved.map (·.1), moved.map (·.2))
        | some state => insertState (wrapped (start + len)) state (moved.map (·.1)) (moved.map (·.2))
      compress states initial hints) := rfl

theorem movesTo_of_mapM {start len : Nat} {moved : List ((Nat × FrameState) × Option Frame)}
    (expanded : expand frames initial = .ok states)
    (run : (states.zip frames).mapM (moveEntry start len) = .ok moved) :
    List.Forall₂ (MovesTo (shift start len)) states (moved.map (·.1)) := by
  have kept : (states.zip frames).map (·.1) = states :=
    List.map_fst_zip (expand_eq_ok_iff.mp expanded).length_eq.le
  conv_lhs => rw [← kept]
  rw [List.forall₂_map_left_iff, List.forall₂_map_right_iff]
  refine (mapM_eq_ok_iff.mp run).imp fun p q step => ?_
  simp only [moveEntry, bind_eq_ok_iff, pure_eq_ok_iff] at step
  obtain ⟨state, typed, frame, -, rfl⟩ := step
  exact ⟨rfl, FrameState.moves_of_moved typed⟩

theorem words_of_movesTo {start len : Nat} {moved : List (Nat × FrameState)}
    (h : List.Forall₂ (MovesTo (shift start len)) states moved)
    (words : ∀ s ∈ states, s.1 < 0x100000000) : ∀ s ∈ moved, s.1 < 0x100000000 := by
  induction h with
  | nil => exact List.forall_mem_nil _
  | cons here _ ih =>
      obtain ⟨word, words⟩ := List.forall_mem_cons.mp words
      exact List.forall_mem_cons.mpr ⟨here.1.trans_lt (shift_lt word), ih words⟩

/-- Splicing moves every state, puts the state at the end of the inserted code in its place, and compresses
what it has. -/
theorem compress_of_splice {start len : Nat} {live : Option FrameState}
    (h : splice frames initial start len live = .ok out) :
    ∃ states moved hints, expand frames initial = .ok states ∧
      List.Forall₂ (MovesTo (shift start len)) states moved ∧
      compress (withState (live.map (wrapped (start + len), ·)) moved) initial hints = .ok out := by
  simp only [splice_eq, bind_eq_ok_iff] at h
  obtain ⟨states, expanded, moved, run, compressed⟩ := h
  have moves := movesTo_of_mapM expanded run
  cases live with
  | none => exact ⟨states, _, _, expanded, moves, compressed⟩
  | some state =>
      dsimp only at compressed
      rw [insertState_fst] at compressed
      exact ⟨states, _, _, expanded, moves, compressed⟩

/-- The states that a spliced table is compressed from lie at offsets that are words. -/
theorem words_of_splice {start len : Nat} {live : Option FrameState} {moved : List (Nat × FrameState)}
    (expanded : expand frames initial = .ok states)
    (moves : List.Forall₂ (MovesTo (shift start len)) states moved) :
    ∀ s ∈ withState (live.map (wrapped (start + len), ·)) moved, s.1 < 0x100000000 := by
  refine words_withState (fun s member => ?_)
    (words_of_movesTo moves (expand_eq_ok_iff.mp expanded).lt)
  obtain ⟨state, -, rfl⟩ := Option.map_eq_some_iff.mp member
  exact wrapped_lt _

/-- The new table stands for the moved states, with the state at the end of the inserted code among them. -/
theorem expand_of_splice {start len : Nat} {live : Option FrameState}
    (h : splice frames initial start len live = .ok out) :
    ∃ states moved, expand frames initial = .ok states ∧
      List.Forall₂ (MovesTo (shift start len)) states moved ∧
      expand out initial = .ok (withState (live.map (wrapped (start + len), ·)) moved) := by
  obtain ⟨states, moved, hints, expanded, moves, compressed⟩ := compress_of_splice h
  exact ⟨states, moved, expanded, moves,
    expand_of_compress (words_of_splice expanded moves) compressed⟩

end Frame

end JarGate
