import JarGate.Proofs.Code.Relocation
import JarGate.Proofs.Code.Renumbering
import JarGate.Proofs.Code.Representability

/-!
# Frames behind code that was put in front

Code in front of a whole body moves all frames alike, so only the first one gets another distance: every
other one lies as far behind the frame before it as it did. That leaves few reasons for which there can be
no room for the code, and bounds how much longer the table gets.
-/

namespace JarGate

variable {move : Nat → Option Nat}

/-- A moved type takes as many octets as before. -/
theorem VerificationType.length_write_moved {t t' : VerificationType} (h : t.moved move = .ok t') :
    t'.write.length = t.write.length := by
  cases t with
  | uninitialized o =>
      rw [moved] at h
      split at h
      · cases h
      · split at h
        · cases h
          rfl
        · cases h
  | _ =>
      cases h
      rfl

theorem VerificationType.length_flatMap_write_moved {ts ts' : List VerificationType}
    (each : List.Forall₂ (fun t t' => t.moved move = .ok t') ts ts') :
    (ts'.flatMap write).length = (ts.flatMap write).length := by
  induction each with
  | nil => rfl
  | cons here _ ih =>
      rw [List.flatMap_cons, List.flatMap_cons, List.length_append, List.length_append,
        length_write_moved here, ih]

/-- Only what becomes of the offsets of a file matters to the types in a state. -/
theorem FrameState.Moves.congr {f g : Nat → Nat} {s s' : FrameState} (h : s.Moves f s')
    (same : ∀ o : UInt16, f o.toNat = g o.toNat) : s.Moves g s' := by
  have each (t t' : VerificationType) (moves : VerificationType.Moves f t t') :
      VerificationType.Moves g t t' := by
    cases moves with
    | uninitialized moved => exact .uninitialized (moved.trans (same _))
    | other settled => exact .other settled
  exact ⟨h.locals.imp each, h.stack.imp each⟩

namespace Frame

variable {f g : Frame} {frames out done : List Frame} {previous : Option Nat}
  {locals initial : List VerificationType} {states moved : List (Nat × FrameState)} {len : Nat}
  {live : Option FrameState}

/-! ### Room behind the frames -/

/-- Whether frames behind a place can be moved by some octets without an offset wrapping around. -/
def RoomBehind (len : Nat) (previous : Option Nat) (frames : List Frame) : Prop :=
  offsetBehind previous + (frames.map (·.delta.toNat + 1)).sum + len ≤ 0x100000000

/-- Behind a table that a file can hold there is room for as much code as a file can hold. -/
theorem roomBehind_of_few (few : frames.length ≤ 0xFFFF) (small : len ≤ 0x10000) :
    RoomBehind len none frames := by
  have total := sum_deltas_le frames
  rw [RoomBehind, offsetBehind]
  omega

theorem RoomBehind.unwrapped (room : RoomBehind len previous frames) : Unwrapped previous frames :=
  (Nat.le_add_right ..).trans room

/-- The first of some frames can be moved, and so can the others behind it. -/
theorem RoomBehind.cons (room : RoomBehind len previous (f :: frames)) :
    offsetAfter previous f = offsetBehind previous + f.delta.toNat ∧
      offsetAfter previous f + len < 0x100000000 ∧
      RoomBehind len (some (offsetAfter previous f)) frames := by
  obtain ⟨here, -⟩ := room.unwrapped.cons
  rw [RoomBehind, List.map_cons, List.sum_cons] at room
  rw [RoomBehind, here, offsetBehind]
  omega

theorem RoomBehind.lt (room : RoomBehind len previous frames)
    (h : Expands previous locals frames states) : ∀ s ∈ states, s.1 + len < 0x100000000 := by
  induction h with
  | nil => exact List.forall_mem_nil _
  | cons _ _ ih =>
      obtain ⟨-, fits, room⟩ := room.cons
      exact List.forall_mem_cons.mpr ⟨fits, ih room⟩

/-- What moving does to states depends on their offsets and on the offsets that a type can name. -/
theorem movesTo_congr {f g : Nat → Nat} (offsets : ∀ s ∈ states, f s.1 = g s.1)
    (types : ∀ o : UInt16, f o.toNat = g o.toNat) (each : List.Forall₂ (MovesTo f) states moved) :
    List.Forall₂ (MovesTo g) states moved := by
  induction each with
  | nil => exact .nil
  | cons here _ ih =>
      obtain ⟨there, offsets⟩ := List.forall_mem_cons.mp offsets
      exact .cons ⟨here.1.trans there, here.2.congr types⟩ (ih offsets)

/-- Where no offset wraps around, states behind code in front are moved by adding its length. -/
theorem movesTo_add (small : len ≤ 0x10000) (fits : ∀ s ∈ states, s.1 + len < 0x100000000)
    (each : List.Forall₂ (MovesTo (shift 0 len)) states moved) :
    List.Forall₂ (MovesTo (· + len)) states moved := by
  refine movesTo_congr (fun s member => shift_zero (fits s member)) (fun o => shift_zero ?_) each
  have word := o.toNat_lt
  omega

/-! ### Distances -/

theorem deltasFrom_add (next len : Nat) (offsets : List Nat) :
    deltasFrom (next + len) (offsets.map (· + len)) = deltasFrom next offsets := by
  induction offsets generalizing next with
  | nil => rfl
  | cons offset offsets ih =>
      rw [List.map_cons, deltasFrom, deltasFrom, Nat.add_sub_add_right, Nat.add_right_comm, ih]

/-- The frames of a table have the distances of the states that they stand for. -/
theorem Expands.deltas_eq (h : Expands previous locals frames states) (fits : Unwrapped previous frames) :
    deltasFrom (offsetBehind previous) (states.map (·.1)) = frames.map (·.delta.toNat) := by
  induction h with
  | nil => rfl
  | cons here behind ih =>
      obtain ⟨there, fits⟩ := fits.cons
      rw [List.map_cons, List.map_cons, deltasFrom, there, Nat.add_sub_cancel_left, ← there]
      exact congrArg _ (ih fits)

/-- Where all frames are moved alike, the first is the only one that gets another distance. -/
theorem Expands.deltas_moved (h : Expands none initial (f :: frames) states)
    (fits : Unwrapped none (f :: frames)) (each : List.Forall₂ (MovesTo (· + len)) states moved) :
    (moved.map (·.1)).head? = some (f.delta.toNat + len) ∧
      ∀ next, deltasFrom next (moved.map (·.1)) =
        (f.delta.toNat + len - next) :: frames.map (·.delta.toNat) := by
  have offsets := offsets_of_movesTo each
  cases h with
  | cons here behind =>
      have rest := behind.deltas_eq fits.cons.2
      rw [List.map_cons, List.map_cons] at offsets
      rw [offsets]
      refine ⟨rfl, fun next => ?_⟩
      rw [deltasFrom, ← rest, ← deltasFrom_add (offsetBehind _) len, offsetBehind, Nat.add_right_comm]
      rfl

theorem delta_le (f : Frame) : f.delta.toNat ≤ 0xFFFF := Nat.le_of_lt_succ f.delta.toNat_lt

theorem deltas_le (frames : List Frame) : ∀ d ∈ frames.map (·.delta.toNat), d ≤ 0xFFFF :=
  List.forall_mem_map.mpr fun f _ => f.delta_le

/-! ### A state in front of moved ones -/

/-- Nothing lies in front of the place to which the first octet was moved. -/
theorem le_of_movesTo (h : List.Forall₂ (MovesTo (· + len)) states moved) : ∀ s ∈ moved, len ≤ s.1 := by
  induction h with
  | nil => nofun
  | cons here _ ih =>
      rw [List.forall_mem_cons]
      exact ⟨by rw [here.1]; exact Nat.le_add_left .., ih⟩

/-- There is a state at that place if there was one at the first octet. -/
theorem any_of_movesTo (h : List.Forall₂ (MovesTo (· + len)) states moved) :
    moved.any (·.1 = len) = states.any (·.1 = 0) := by
  induction h with
  | nil => rfl
  | cons here _ ih =>
      rw [List.any_cons, List.any_cons, ih, here.1]
      simp

/-- A state at the first octet of moved code comes in front of all others. -/
theorem withState_of_movesTo (h : List.Forall₂ (MovesTo (· + len)) states moved) (state : FrameState) :
    withState (some (len, state)) moved =
      (if states.any (·.1 = 0) then [] else [(len, state)]) ++ moved := by
  have behind := le_of_movesTo h
  rw [withState, any_of_movesTo h]
  split
  · rfl
  · have none_before : ∀ s ∈ moved, ¬ decide (s.1 < len) = true := by
      intro s member
      simpa using behind s member
    have front : moved.takeWhile (·.1 < len) = [] := by
      cases moved with
      | nil => rfl
      | cons s rest => exact List.takeWhile_cons_of_neg (none_before s (List.mem_cons_self ..))
    have rest : moved.dropWhile (·.1 < len) = moved := by
      cases moved with
      | nil => rfl
      | cons s rest => exact List.dropWhile_cons_of_neg (none_before s (List.mem_cons_self ..))
    rw [front, rest]
    rfl

/-! ### No room -/

/-- Why some octets of code cannot be put in front of the body that frames belong to: the frames do not
expand over the locals at the entry, an uninitialized object cannot be moved, or the first frame gets too
far away from the start of the code. The last cannot be where the code branches to the body, since that
place has a frame of its own. -/
inductive NoRoom (frames : List Frame) (initial : List VerificationType) (len : Nat)
    (live : Option FrameState) : Prop
  | unexpanded {why : ClassError} (failed : expand frames initial = .error why)
  | uninitialized {states : List (Nat × FrameState)} {s : Nat × FrameState} {o : UInt16}
      (expanded : expand frames initial = .ok states) (member : s ∈ states)
      (named : .uninitialized o ∈ s.2.locals ++ s.2.stack) (large : 65535 < o.toNat + len)
  | distance {f : Frame} {rest : List Frame} (unbranched : live = none) (first : frames = f :: rest)
      (large : 65535 < f.delta.toNat + len)

/-- A state at the start of the code is that of the first frame. -/
theorem Expands.delta_eq_zero (h : Expands none initial (f :: frames) states)
    (fits : Unwrapped none (f :: frames)) (entered : states.any (·.1 = 0)) : f.delta.toNat = 0 := by
  obtain ⟨⟨o, state⟩, member, zero⟩ := List.any_eq_true.mp entered
  obtain rfl : o = 0 := of_decide_eq_true zero
  cases h with
  | cons here behind =>
      rcases List.mem_cons.mp member with first | later
      · exact (congrArg Prod.fst first).symm
      · exact absurd ((behind.increasing fits.cons.2).1 _ later) (Nat.not_succ_le_zero _)

/-- The distances between moved states, without one in front of them. -/
theorem deltas_moved_le (h : Expands none initial frames states) (fits : Unwrapped none frames)
    (each : List.Forall₂ (MovesTo (· + len)) states moved)
    (close : ∀ f rest, frames = f :: rest → f.delta.toNat + len ≤ 0xFFFF) :
    ∀ d ∈ deltas (moved.map (·.1)), d ≤ 0xFFFF := by
  cases frames with
  | nil =>
      cases h
      cases each
      exact nofun
  | cons f rest =>
      obtain ⟨-, distances⟩ := h.deltas_moved fits each
      rw [deltas, distances]
      exact List.forall_mem_cons.mpr ⟨close f rest rfl, deltas_le rest⟩

/-- The distances between moved states, behind one at the place that the first octet was moved to. -/
theorem deltas_behind_le (h : Expands none initial frames states) (fits : Unwrapped none frames)
    (each : List.Forall₂ (MovesTo (· + len)) states moved) :
    ∀ d ∈ deltasFrom (len + 1) (moved.map (·.1)), d ≤ 0xFFFF := by
  cases frames with
  | nil =>
      cases h
      cases each
      exact nofun
  | cons f rest =>
      obtain ⟨-, distances⟩ := h.deltas_moved fits each
      have first := f.delta_le
      rw [distances]
      exact List.forall_mem_cons.mpr ⟨by omega, deltas_le rest⟩

/-- Splicing at the start of the code fails only where there is no room. -/
theorem noRoom_of_splice (few : frames.length ≤ 0xFFFF) (small : len ≤ 0xFFFF) {e : ClassError}
    (failed : splice frames initial 0 len live = .error e) : NoRoom frames initial len live := by
  have behind : RoomBehind len none frames := roomBehind_of_few few (small.trans (Nat.le_succ _))
  cases expanded : expand frames initial with
  | error why => exact .unexpanded expanded
  | ok states =>
      -- Without one of the reasons, all states can be moved and all distances between them be held.
      by_contra room
      have described := expand_eq_ok_iff.mp expanded
      have fits := behind.lt described
      have movable : ∀ s ∈ states, s.2.Movable (shift 0 len) := by
        rintro s member _ inside o rfl
        have word := o.toNat_lt
        rw [shift_zero (by omega)]
        by_contra large
        exact room (.uninitialized expanded member inside (Nat.lt_of_not_le large))
      have word : wrapped (0 + len) = len := by
        rw [Nat.zero_add, wrapped_of_lt (small.trans_lt (by decide))]
      have close : ∀ moved, List.Forall₂ (MovesTo (shift 0 len)) states moved →
          ∀ d ∈ deltas ((withState (live.map (wrapped (0 + len), ·)) moved).map (·.1)), d ≤ 0xFFFF := by
        intro moved each
        replace each := movesTo_add (small.trans (Nat.le_succ _)) fits each
        rw [word]
        cases live with
        | none =>
            refine deltas_moved_le described behind.unwrapped each fun f rest first => ?_
            by_contra large
            exact room (.distance rfl first (Nat.lt_of_not_le large))
        | some state =>
            rw [Option.map_some, withState_of_movesTo each]
            split
            next entered =>
              refine deltas_moved_le described behind.unwrapped each fun f rest first => ?_
              subst first
              rw [described.delta_eq_zero behind.unwrapped entered, Nat.zero_add]
              exact small
            next =>
              rw [List.singleton_append, List.map_cons, deltas, deltasFrom]
              exact List.forall_mem_cons.mpr
                ⟨small, deltas_behind_le described behind.unwrapped each⟩
      obtain ⟨out, spliced⟩ :=
        exists_splice expanded movable behind.unwrapped (fun s member _ => fits s member) close
      rw [failed] at spliced
      cases spliced

/-! ### Sizes -/

theorem size_movedTypes (typed : f.movedTypes move = .ok g) : g.size = f.size := by
  cases movedTypes_eq_ok_iff.mp typed with
  | same | sameExtended | chop => rfl
  | oneStack top | oneStackExtended top =>
      simp only [size, fields, List.length_append, VerificationType.length_write_moved top]
  | append locals =>
      simp only [size, fields, List.length_append, VerificationType.length_flatMap_write_moved locals,
        be16_length]
  | full locals stack =>
      simp only [size, fields, List.length_append, VerificationType.length_flatMap_write_moved locals,
        VerificationType.length_flatMap_write_moved stack, be16_length]

theorem delta_movedTypes (typed : f.movedTypes move = .ok g) : g.delta = f.delta := by
  cases movedTypes_eq_ok_iff.mp typed <;> rfl

theorem Representable.short (fits : f.Representable) : f.Short := by
  cases f with
  | same d | oneStack d t => exact fits
  | _ => trivial

/-- The extended forms take two octets more than the short ones. -/
theorem size_withDelta_le {delta : Nat} (placed : f.withDelta delta = .ok g) : g.size ≤ f.size + 2 := by
  obtain ⟨d, -, put⟩ := putAt_of_withDelta placed
  cases put with
  | longSame | longOneStack =>
      simp only [size, fields, List.length_append, be16_length, List.length_nil]
      omega
  | _ => simp [size, fields]

/-- A frame that comes closer does not grow. -/
theorem size_withDelta_le_of_le {delta : Nat} (short : f.Short) (closer : delta ≤ f.delta.toNat)
    (placed : f.withDelta delta = .ok g) : g.size ≤ f.size := by
  obtain ⟨d, rfl, put⟩ := putAt_of_withDelta placed
  cases put with
  | longSame long | longOneStack long => exact absurd (closer.trans short) (Nat.not_le_of_lt long)
  | _ => simp [size, fields]

/-- What has become of frames behind code in front: they are representable and take at most some more
octets. -/
structure Lengthened (extra : Nat) (frames gs : List Frame) : Prop where
  fits : ∀ g ∈ gs, g.Representable
  size : (gs.map size).sum ≤ (frames.map size).sum + extra

theorem Lengthened.nil (extra : Nat) : Lengthened extra [] [] := ⟨nofun, Nat.zero_le _⟩

theorem Lengthened.cons {extra more : Nat} {fs gs : List Frame} (fits : g.Representable)
    (here : g.size ≤ f.size + more) (behind : Lengthened extra fs gs) :
    Lengthened (more + extra) (f :: fs) (g :: gs) where
  fits := List.forall_mem_cons.mpr ⟨fits, behind.fits⟩
  size := by
    have rest := behind.size
    rw [List.map_cons, List.map_cons, List.sum_cons, List.sum_cons]
    omega

/-- Behind a frame that was moved, the others keep their distances. -/
theorem renumberOnto_behind (fits : ∀ f ∈ frames, f.Representable) {p : Nat}
    (room : RoomBehind len (some p) frames)
    (h : renumberOnto (fun o => some (shift 0 len o)) done (some p) (some (p + len)) frames = .ok out) :
    ∃ gs, out = done.reverse ++ gs ∧ Lengthened 0 frames gs := by
  induction frames generalizing done p with
  | nil =>
      cases h
      exact ⟨[], (List.append_nil _).symm, .nil 0⟩
  | cons f fs ih =>
      obtain ⟨here, rest⟩ := List.forall_mem_cons.mp fits
      obtain ⟨o, delta, g, g', sent, distance, typed, placed, h⟩ := renumberOnto_cons_iff.mp h
      obtain ⟨there, fit, room⟩ := room.cons
      rw [shift_zero fit, Option.some.injEq] at sent
      subst sent
      have same : delta = g.delta.toNat := by
        obtain ⟨-, rfl⟩ := deltaAfter_eq_ok_iff.mp distance
        rw [delta_movedTypes typed, there, offsetBehind, offsetBehind]
        omega
      have moved := representable_movedTypes here typed
      rw [same, withDelta_delta moved.short] at placed
      obtain rfl := Except.ok.inj placed
      obtain ⟨gs, rfl, lengthened⟩ := ih rest room h
      refine ⟨g :: gs, by simp, .cons moved ?_ lengthened⟩
      exact (size_movedTypes typed).le

/-- All frames of a table behind a place, where the first may grow by some octets. -/
theorem renumberOnto_front (fits : ∀ f ∈ frames, f.Representable) {target : Option Nat} {extra : Nat}
    (room : RoomBehind len none frames)
    (first : ∀ {f g : Frame} {delta : Nat}, f.Short →
      deltaAfter target (f.delta.toNat + len) = .ok delta → f.withDelta delta = .ok g →
      g.size ≤ f.size + extra)
    (h : renumberOnto (fun o => some (shift 0 len o)) done none target frames = .ok out) :
    ∃ gs, out = done.reverse ++ gs ∧ Lengthened extra frames gs := by
  cases frames with
  | nil =>
      cases h
      exact ⟨[], (List.append_nil _).symm, .nil extra⟩
  | cons f fs =>
      obtain ⟨here, rest⟩ := List.forall_mem_cons.mp fits
      obtain ⟨o, delta, g, g', sent, distance, typed, placed, h⟩ := renumberOnto_cons_iff.mp h
      obtain ⟨-, fit, room⟩ := room.cons
      rw [shift_zero fit, Option.some.injEq] at sent
      subst sent
      have moved := representable_movedTypes here typed
      rw [offsetAfter, ← delta_movedTypes typed] at distance
      have grown := first moved.short distance placed
      rw [size_movedTypes typed] at grown
      obtain ⟨gs, rfl, lengthened⟩ := renumberOnto_behind rest room h
      refine ⟨g' :: gs, by simp, ?_⟩
      exact .cons (representable_withDelta moved placed) grown lengthened

theorem insertState_front {state : FrameState} {hints : List (Option Frame)}
    (behind : ∀ s ∈ states, len ≤ s.1) (free : ¬ states.any (·.1 = len) = true) :
    insertState len state states hints = ((len, state) :: states, none :: hints) := by
  have front : states.takeWhile (·.1 < len) = [] := by
    cases states with
    | nil => rfl
    | cons s rest =>
        have after : ¬ decide (s.1 < len) = true := by simpa using behind s (List.mem_cons_self ..)
        exact List.takeWhile_cons_of_neg after
  rw [insertState, if_neg free, front]
  rfl

/-- The first frame of a table that is moved alone may need its extended form. -/
theorem lengthened_of_renumber (fits : ∀ f ∈ frames, f.Representable) (room : RoomBehind len none frames)
    (h : renumber frames (fun o => some (shift 0 len o)) = .ok out) : Lengthened 2 frames out := by
  obtain ⟨gs, same, lengthened⟩ := renumberOnto_front fits room (fun _ _ => size_withDelta_le) h
  rwa [same]

/-- Behind a new frame at the place that the first octet was moved to, no frame grows: the first one comes
closer by the octet between them. -/
theorem lengthened_behind_new (fits : ∀ f ∈ frames, f.Representable) (room : RoomBehind len none frames)
    (h : renumberOnto (fun o => some (shift 0 len o)) [g] none (some len) frames = .ok out) :
    ∃ gs, out = g :: gs ∧ Lengthened 0 frames gs := by
  have closer {f g : Frame} {delta : Nat} (short : f.Short)
      (distance : deltaAfter (some len) (f.delta.toNat + len) = .ok delta)
      (placed : f.withDelta delta = .ok g) : g.size ≤ f.size + 0 := by
    obtain ⟨-, rfl⟩ := deltaAfter_eq_ok_iff.mp distance
    refine size_withDelta_le_of_le short ?_ placed
    rw [offsetBehind]
    omega
  exact renumberOnto_front fits room closer h

/-- A new first frame takes its octets. -/
theorem Lengthened.behind_new {extra : Nat} {gs : List Frame} (fits : g.Representable)
    (small : g.size ≤ extra) (h : Lengthened 0 frames gs) : Lengthened extra frames (g :: gs) where
  fits := List.forall_mem_cons.mpr ⟨fits, h.fits⟩
  size := by
    have rest := h.size
    rw [List.map_cons, List.sum_cons]
    omega

/-- Code in front of a body adds at most three octets to its table. -/
theorem splice_front_le (fits : ∀ f ∈ frames, f.Representable) (few : frames.length ≤ 0xFFFF)
    (small : len ≤ 0x10000) (settled : ∀ o, .uninitialized o ∉ initial) (entry : ∀ state ∈ live, state = .entry initial)
    (done : splice frames initial 0 len live = .ok out) : Lengthened 3 frames out := by
  simp only [splice_eq, bind_eq_ok_iff] at done
  obtain ⟨states, expanded, moved, run, compressed⟩ := done
  have described := expand_eq_ok_iff.mp expanded
  have room := roomBehind_of_few few small
  have unmoved : initial.mapM (·.moved fun o => some (shift 0 len o)) = .ok initial :=
    VerificationType.mapM_moved_of_settled settled
  have alone (h : compress (moved.map (·.1)) initial (moved.map (·.2)) = .ok out) :
      Lengthened 3 frames out := by
    rw [compress, described.compressOnto_eq_renumberOnto unmoved run] at h
    have lengthened := lengthened_of_renumber fits room h
    exact ⟨lengthened.fits, lengthened.size.trans (Nat.le_succ _)⟩
  cases live with
  | none => exact alone compressed
  | some state =>
      obtain rfl := entry state rfl
      dsimp only at compressed
      rw [Nat.zero_add, wrapped_of_lt (small.trans_lt (by decide))] at compressed
      by_cases taken : (moved.map (·.1)).any (·.1 = len) = true
      · rw [insertState, if_pos taken] at compressed
        exact alone compressed
      · have behind := movesTo_add small (room.lt described) (movesTo_of_mapM expanded run)
        rw [insertState_front (le_of_movesTo behind) taken] at compressed
        obtain ⟨delta, f, -, chosen, later⟩ := compressOnto_cons_iff.mp compressed
        have first : choose initial (.entry initial) none = same 0 := if_pos rfl
        rw [List.head?_cons, Option.join_some, first] at chosen
        rw [List.tail_cons, FrameState.entry,
          described.compressOnto_eq_renumberOnto unmoved run] at later
        obtain ⟨gs, rfl, lengthened⟩ := lengthened_behind_new fits room later
        have new : f.Representable := representable_withDelta (f := same 0) (Nat.zero_le _) chosen
        exact lengthened.behind_new new (size_withDelta_le chosen)

end Frame

end JarGate
