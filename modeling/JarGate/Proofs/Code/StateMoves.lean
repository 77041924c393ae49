import JarGate.Proofs.Code.Compression

/-!
# Frames around inserted code

Splicing a table of frames makes room for code that was inserted. In terms of the states that the table
stands for, each is moved together with the offsets of uninitialized objects in it, and a state at the
end of the inserted code is put in its place. This can only fail where the table does not expand, or
where a number does not fit the sixteen bits that the format has for it.
-/

namespace JarGate

variable {move : Nat → Nat}

/-! ### Types that can be moved -/

/-- Whether the offset of an uninitialized object fits its field after a move. -/
def VerificationType.Movable (move : Nat → Nat) (t : VerificationType) : Prop :=
  ∀ o, t = uninitialized o → move o.toNat ≤ 0xFFFF

theorem VerificationType.exists_moved {t : VerificationType} (movable : t.Movable move) :
    ∃ t', t.moved (fun o => some (move o)) = .ok t' := by
  cases t with
  | uninitialized o =>
      have small : move o.toNat < 0x10000 := Nat.lt_succ_of_le (movable o rfl)
      exact ⟨_, if_pos small⟩
  | _ => exact ⟨_, rfl⟩

theorem VerificationType.exists_mapM_moved {ts : List VerificationType}
    (movable : ∀ t ∈ ts, t.Movable move) : ∃ ts', ts.mapM (·.moved fun o => some (move o)) = .ok ts' :=
  exists_mapM fun t member => exists_moved (movable t member)

/-- Whether all types of a state can be moved. -/
def FrameState.Movable (move : Nat → Nat) (s : FrameState) : Prop :=
  ∀ t ∈ s.locals ++ s.stack, t.Movable move

theorem FrameState.exists_moved {s : FrameState} (movable : s.Movable move) :
    ∃ s', s.moved (fun o => some (move o)) = .ok s' := by
  obtain ⟨locals, stack⟩ := List.forall_mem_append.mp movable
  obtain ⟨locals', moved⟩ := VerificationType.exists_mapM_moved locals
  obtain ⟨stack', moved'⟩ := VerificationType.exists_mapM_moved stack
  refine ⟨⟨locals', stack'⟩, ?_⟩
  rw [FrameState.moved, moved, moved']
  rfl

namespace Frame

variable {f : Frame} {frames out : List Frame} {previous : Option Nat}
  {locals initial : List VerificationType} {state : FrameState}
  {states moved result : List (Nat × FrameState)} {start len : Nat}

/-- A frame names no types but those of the state that it describes. -/
theorem exists_movedTypes (described : f.apply locals = .ok state) (movable : state.Movable move) :
    ∃ g, f.movedTypes (fun o => some (move o)) = .ok g := by
  obtain ⟨inLocals, onStack⟩ := List.forall_mem_append.mp movable
  cases f with
  | same d | sameExtended d | chop d count => exact ⟨_, rfl⟩
  | oneStack d t | oneStackExtended d t =>
      cases described
      obtain ⟨t', moved⟩ := VerificationType.exists_moved (onStack t (List.mem_singleton_self t))
      rw [movedTypes, moved]
      exact ⟨_, rfl⟩
  | append d added =>
      cases described
      have behind : ∀ t ∈ added, t.Movable move :=
        fun t member => inLocals t (List.mem_append_right _ member)
      obtain ⟨added', moved⟩ := VerificationType.exists_mapM_moved behind
      rw [movedTypes, moved]
      exact ⟨_, rfl⟩
  | full d all stack =>
      cases described
      obtain ⟨all', moved⟩ := VerificationType.exists_mapM_moved inLocals
      obtain ⟨stack', moved'⟩ := VerificationType.exists_mapM_moved onStack
      rw [movedTypes, moved, moved']
      exact ⟨_, rfl⟩

theorem Expands.apply_of_mem_zip (h : Expands previous locals frames states) :
    ∀ p ∈ states.zip frames, ∃ before, p.2.apply before = .ok p.1.2 := by
  induction h with
  | nil => nofun
  | cons here _ ih => exact List.forall_mem_cons.mpr ⟨⟨_, here⟩, ih⟩

/-! ### Increasing offsets -/

theorem shift_lt_shift {o o' : Nat} (fits : start ≤ o' → o' + len < 0x100000000) (less : o < o') :
    shift start len o < shift start len o' := by
  have fits' : start ≤ o → o + len < 0x100000000 := by omega
  rw [shift_of_lt fits, shift_of_lt fits']
  split <;> split <;> omega

theorem offsets_of_movesTo (h : List.Forall₂ (MovesTo move) states moved) :
    moved.map (·.1) = (states.map (·.1)).map move := by
  induction h with
  | nil => rfl
  | cons here _ ih => rw [List.map_cons, List.map_cons, List.map_cons, ih, here.1]

theorem increasing_of_movesTo (h : List.Forall₂ (MovesTo (shift start len)) states moved)
    (fits : ∀ s ∈ states, start ≤ s.1 → s.1 + len < 0x100000000)
    (increasing : (states.map (·.1)).Pairwise (· < ·)) : (moved.map (·.1)).Pairwise (· < ·) := by
  rw [offsets_of_movesTo h, List.pairwise_map]
  refine increasing.imp_of_mem fun {_ o'} _ member less => shift_lt_shift ?_ less
  obtain ⟨s, inside, rfl⟩ := List.mem_map.mp member
  exact fits s inside

/-! ### One more state -/

/-- Whether states are given ones with one more at its place by offset. Where there is none to put, or
one at its offset already, they are just those given. -/
inductive Places : Option (Nat × FrameState) → List (Nat × FrameState) → List (Nat × FrameState) → Prop
  | none (states : List (Nat × FrameState)) : Places none states states
  | taken {live : Nat × FrameState} {states : List (Nat × FrameState)}
      (taken : ∃ s ∈ states, s.1 = live.1) : Places (some live) states states
  | put {live : Nat × FrameState} {front back : List (Nat × FrameState)}
      (before : ∀ s ∈ front, s.1 < live.1) (behind : ∀ s ∈ back, live.1 < s.1) :
      Places (some live) (front ++ back) (front ++ live :: back)

variable {live : Option (Nat × FrameState)}

theorem Places.increasing (h : Places live states result)
    (increasing : (states.map (·.1)).Pairwise (· < ·)) : (result.map (·.1)).Pairwise (· < ·) := by
  cases h with
  | none => exact increasing
  | taken => exact increasing
  | @put live front back before behind =>
      rw [List.pairwise_map] at increasing ⊢
      obtain ⟨first, second, across⟩ := List.pairwise_append.mp increasing
      refine List.pairwise_append.mpr ⟨first, List.pairwise_cons.mpr ⟨behind, second⟩, ?_⟩
      intro s member
      exact List.forall_mem_cons.mpr ⟨before s member, across s member⟩

/-- What is left behind the states in front of an offset lies behind it. -/
theorem lt_of_mem_dropWhile {offset : Nat} (increasing : (states.map (·.1)).Pairwise (· < ·))
    (free : ∀ s ∈ states, s.1 ≠ offset) : ∀ s ∈ states.dropWhile (·.1 < offset), offset < s.1 := by
  induction states with
  | nil => nofun
  | cons t rest ih =>
      rw [List.map_cons, List.pairwise_cons] at increasing
      rw [List.forall_mem_cons] at free
      by_cases before : t.1 < offset
      · rw [List.dropWhile_cons_of_pos (by simpa using before)]
        exact ih increasing.2 free.2
      · rw [List.dropWhile_cons_of_neg (by simpa using before)]
        have behind : offset < t.1 := Nat.lt_of_le_of_ne (Nat.le_of_not_lt before) free.1.symm
        refine List.forall_mem_cons.mpr ⟨behind, fun s member => ?_⟩
        exact behind.trans (increasing.1 s.1 (List.mem_map_of_mem member))

theorem places_withState (live : Option (Nat × FrameState))
    (increasing : (states.map (·.1)).Pairwise (· < ·)) : Places live states (withState live states) := by
  match live with
  | none => exact .none states
  | some (offset, state) =>
      rw [withState]
      split
      next found =>
        obtain ⟨s, member, same⟩ := List.any_eq_true.mp found
        exact .taken ⟨s, member, of_decide_eq_true same⟩
      next free =>
        have apart : ∀ s ∈ states, s.1 ≠ offset := fun s member same =>
          free (List.any_eq_true.mpr ⟨s, member, decide_eq_true same⟩)
        have before : ∀ s ∈ states.takeWhile (·.1 < offset), s.1 < offset := by
          intro s member
          have passed := List.mem_takeWhile_imp member
          simpa using passed
        have put : Places (some (offset, state)) _ _ :=
          .put before (lt_of_mem_dropWhile increasing apart)
        rwa [List.takeWhile_append_dropWhile] at put

/-- Where states with one more among them increase, the others do. -/
theorem increasing_of_withState
    (increasing : ((withState live states).map (·.1)).Pairwise (· < ·)) :
    (states.map (·.1)).Pairwise (· < ·) := by
  match live with
  | none => exact increasing
  | some (offset, state) =>
      rw [withState] at increasing
      split at increasing
      · exact increasing
      · have kept := (List.Sublist.refl (states.takeWhile (·.1 < offset))).append
          (List.sublist_cons_self (offset, state) (states.dropWhile (·.1 < offset)))
        rw [List.takeWhile_append_dropWhile] at kept
        exact increasing.sublist (kept.map _)

/-! ### Splicing -/

/-- Splicing succeeds if the table expands, its states can be moved, and the result has no greater
deltas than the format can hold. -/
theorem exists_splice {live : Option FrameState} (expanded : expand frames initial = .ok states)
    (movable : ∀ s ∈ states, s.2.Movable (shift start len))
    (fits : Unwrapped none frames) (room : ∀ s ∈ states, start ≤ s.1 → s.1 + len < 0x100000000)
    (close : ∀ moved, List.Forall₂ (MovesTo (shift start len)) states moved →
      ∀ d ∈ deltas ((withState (live.map (wrapped (start + len), ·)) moved).map (·.1)), d ≤ 0xFFFF) :
    ∃ out, splice frames initial start len live = .ok out := by
  have described := expand_eq_ok_iff.mp expanded
  have each : ∀ p ∈ states.zip frames, ∃ q, moveEntry start len p = .ok q := by
    intro p member
    obtain ⟨before, applied⟩ := described.apply_of_mem_zip p member
    have inRange := movable p.1 (List.of_mem_zip member).1
    obtain ⟨state, typed⟩ := FrameState.exists_moved inRange
    obtain ⟨g, typed'⟩ := exists_movedTypes applied inRange
    refine ⟨((shift start len p.1.1, state), some g), ?_⟩
    rw [moveEntry, typed, typed']
    rfl
  obtain ⟨moved, run⟩ := exists_mapM each
  have moves := movesTo_of_mapM expanded run
  have increasing := increasing_of_movesTo moves room (described.increasing fits).2
  simp only [splice_eq, bind_eq_ok_iff, expanded, run, Except.ok.injEq, exists_eq_left']
  cases live with
  | none => exact exists_compress_iff.mpr ⟨increasing, close _ moves⟩
  | some state =>
      have placed :=
        (places_withState (some (wrapped (start + len), state)) increasing).increasing increasing
      have small := close _ moves
      dsimp only
      rw [exists_compress_iff, insertState_fst]
      exact ⟨placed, small⟩

/-- Splicing keeps every state. Where it succeeds, the new table stands for the states of the old one,
each moved by the length of the inserted code if it lay behind its start, with the offsets of
uninitialized objects in its locals and on its stack moved alike; if there is a state for the end of the
inserted code, it is put in its place unless a moved one is there, and the offsets are increasing. As long
as no offset wraps around, splicing fails only if the old table does not expand, if the moved offset of an
uninitialized object exceeds 65535, or if a delta of the new table would. -/
theorem splice_keeps_states (frames : List Frame) (initial : List VerificationType) (start len : Nat)
    (live : Option FrameState) :
    (∀ out, splice frames initial start len live = .ok out →
      ∃ states moved result, expand frames initial = .ok states ∧
        List.Forall₂ (MovesTo (shift start len)) states moved ∧
        Places (live.map (wrapped (start + len), ·)) moved result ∧
        (result.map (·.1)).Pairwise (· < ·) ∧ expand out initial = .ok result) ∧
    (Unwrapped none frames → (∀ o ∈ offsets frames, start ≤ o → o + len < 0x100000000) →
      ∀ e, splice frames initial start len live = .error e →
        (∃ e, expand frames initial = .error e) ∨
        ∃ states, expand frames initial = .ok states ∧
          ((∃ s ∈ states, ∃ o, .uninitialized o ∈ s.2.locals ++ s.2.stack ∧
              65535 < shift start len o.toNat) ∨
            ∃ moved result, List.Forall₂ (MovesTo (shift start len)) states moved ∧
              Places (live.map (wrapped (start + len), ·)) moved result ∧
              ∃ d ∈ deltas (result.map (·.1)), 65535 < d)) := by
  constructor
  · intro out spliced
    obtain ⟨states, moved, hints, expanded, moves, compressed⟩ := compress_of_splice spliced
    have increasing := (exists_compress_iff.mp ⟨out, compressed⟩).1
    have places := places_withState (live.map (wrapped (start + len), ·))
      (increasing_of_withState increasing)
    exact ⟨states, moved, _, expanded, moves, places, increasing,
      expand_of_compress (words_of_splice expanded moves) compressed⟩
  · intro fits room e failed
    cases expanded : expand frames initial with
    | error e' => exact .inl ⟨e', rfl⟩
    | ok states =>
        have described := expand_eq_ok_iff.mp expanded
        have room' : ∀ s ∈ states, start ≤ s.1 → s.1 + len < 0x100000000 := by
          intro s member
          refine room s.1 ?_
          rw [offsets, ← described.offsets_eq]
          exact List.mem_map_of_mem member
        refine .inr ⟨states, rfl, ?_⟩
        by_contra fine
        rw [not_or] at fine
        obtain ⟨small, close⟩ := fine
        have movable : ∀ s ∈ states, s.2.Movable (shift start len) := by
          rintro s member _ inside o rfl
          by_contra large
          exact small ⟨s, member, o, inside, Nat.lt_of_not_le large⟩
        have near : ∀ moved, List.Forall₂ (MovesTo (shift start len)) states moved →
            ∀ d ∈ deltas ((withState (live.map (wrapped (start + len), ·)) moved).map (·.1)),
              d ≤ 0xFFFF := by
          intro moved moves d member
          by_contra large
          have increasing := increasing_of_movesTo moves room' (described.increasing fits).2
          exact close ⟨moved, _, moves, places_withState _ increasing, d, member, Nat.lt_of_not_le large⟩
        obtain ⟨out, spliced⟩ := exists_splice expanded movable fits room' near
        rw [failed] at spliced
        cases spliced

/-- Frames of code that makes objects at the offsets 0 and 6, of which the second lives in a local
until the offset 9. -/
def objectFrames : List Frame :=
  [.oneStack 3 (.uninitialized 0), .append 1 [.uninitialized 6], .chop 3 1]

/-- Four octets at the offset 6 move the second object and the last frame. The frame for the end of
these octets has dropped the object already, so that the last one cannot chop it off any more. In code
that is full, the object cannot be moved. -/
theorem splice_keeps_states_object :
    splice objectFrames [.integer] 6 4 (some (.entry [.integer])) =
      .ok [.oneStack 3 (.uninitialized 0), .append 1 [.uninitialized 10], .chop 4 1, .same 2] ∧
    (∃ states moved result, expand objectFrames [.integer] = .ok states ∧
      List.Forall₂ (MovesTo (shift 6 4)) states moved ∧
      Places (some (10, .entry [.integer])) moved result ∧ (result.map (·.1)).Pairwise (· < ·) ∧
      expand [.oneStack 3 (.uninitialized 0), .append 1 [.uninitialized 10], .chop 4 1, .same 2]
        [.integer] = .ok result) ∧
    splice objectFrames [.integer] 6 65530 none = .error (.overflow (.uninitialized 65536)) ∧
    ∃ states, expand objectFrames [.integer] = .ok states ∧
      ((∃ s ∈ states, ∃ o, .uninitialized o ∈ s.2.locals ++ s.2.stack ∧ 65535 < shift 6 65530 o.toNat) ∨
        ∃ moved result, List.Forall₂ (MovesTo (shift 6 65530)) states moved ∧
          Places none moved result ∧ ∃ d ∈ deltas (result.map (·.1)), 65535 < d) := by
  have spliced : splice objectFrames [.integer] 6 4 (some (.entry [.integer])) =
      .ok [.oneStack 3 (.uninitialized 0), .append 1 [.uninitialized 10], .chop 4 1, .same 2] := by
    decide
  have failed : splice objectFrames [.integer] 6 65530 none =
      .error (.overflow (.uninitialized 65536)) := by
    decide
  obtain ⟨kept, -⟩ := splice_keeps_states objectFrames [.integer] 6 4 (some (.entry [.integer]))
  obtain ⟨-, fails⟩ := splice_keeps_states objectFrames [.integer] 6 65530 none
  refine ⟨spliced, kept _ spliced, failed, (fails (by decide) (by decide) _ failed).resolve_left ?_⟩
  rintro ⟨e, unexpanded⟩
  nomatch unexpanded

end Frame

end JarGate
