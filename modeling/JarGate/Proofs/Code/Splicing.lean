import JarGate.Proofs.Code.Expansion
import JarGate.Proofs.Format.Frames

/-!
# Frames that were spliced

Splicing expands frames to states and compresses the states again. Whatever comes out has numbers that
suit its form: it is either a frame that went in, at another distance, or the smallest frame for its
state.
-/

namespace JarGate

namespace Frame

variable {f g : Frame}

theorem formed_withDelta {delta : Nat} (fits : f.Formed) (h : f.withDelta delta = .ok g) :
    g.Formed := by
  obtain ⟨d, -, put⟩ := putAt_of_withDelta h
  cases put with
  | same short | oneStack short => exact short
  | longSame | sameExtended | longOneStack | oneStackExtended | full => trivial
  | chop | append => exact fits

theorem formed_movedTypes {move : Nat → Option Nat} (fits : f.Formed) (h : f.movedTypes move = .ok g) :
    g.Formed := by
  cases movedTypes_eq_ok_iff.mp h with
  | append locals => simpa only [Formed, ← locals.length_eq] using fits
  | same | sameExtended | chop | oneStack | oneStackExtended | full => exact fits

theorem formed_smallest (before : List VerificationType) (state : FrameState) :
    (smallest before state).Formed := by
  simp only [smallest]
  split
  · split
    · exact Nat.zero_le _
    · split
      next shorter =>
        obtain ⟨less, few, -⟩ := shorter
        have value : (UInt8.ofNat (before.length - state.locals.length)).toNat =
            before.length - state.locals.length := by
          rw [UInt8.toNat_ofNat', Nat.mod_eq_of_lt (by omega)]
        simp only [Formed, value]
        omega
      next =>
        split
        next longer =>
          obtain ⟨more, few, -⟩ := longer
          simp only [Formed, List.length_drop]
          omega
        next => trivial
  · split
    · exact Nat.zero_le _
    · trivial
  · trivial

theorem formed_choose (before : List VerificationType) (state : FrameState) {hint : Option Frame}
    (fits : ∀ f, hint = some f → f.Formed) : (choose before state hint).Formed := by
  cases hint with
  | none => exact formed_smallest before state
  | some f =>
      simp only [choose]
      split
      · split
        · exact fits f rfl
        · exact formed_smallest before state
      · exact formed_smallest before state

/-- Hints whose numbers suit their forms. -/
def HintsFormed (hints : List (Option Frame)) : Prop := ∀ f, some f ∈ hints → f.Formed

theorem formed_compressOnto {done : List Frame} {previous : Option Nat}
    {locals : List VerificationType} {hints : List (Option Frame)} {states : List (Nat × FrameState)}
    {out : List Frame} (fits : HintsFormed hints) (before : ∀ f ∈ done, f.Formed)
    (h : compressOnto done previous locals hints states = .ok out) : ∀ f ∈ out, f.Formed := by
  induction states generalizing done previous locals hints with
  | nil =>
      cases h
      exact fun f member => before f (List.mem_reverse.mp member)
  | cons entry states ih =>
      obtain ⟨offset, state⟩ := entry
      obtain ⟨delta, f, -, chosen, h⟩ := compressOnto_cons_iff.mp h
      have first : ∀ f, hints.head?.join = some f → f.Formed := fun f same =>
        fits f (List.mem_of_mem_head? (by simpa using Option.join_eq_some_iff.mp same))
      have formed := formed_withDelta (formed_choose locals state first) chosen
      exact ih (fun f member => fits f (List.mem_of_mem_tail member))
        (List.forall_mem_cons.mpr ⟨formed, before⟩) h

/-- Splicing keeps the numbers of frames fit for their forms. -/
theorem formed_of_splice {frames out : List Frame} {initial : List VerificationType} {start len : Nat}
    {live : Option FrameState} (fits : ∀ f ∈ frames, f.Formed)
    (h : splice frames initial start len live = .ok out) : ∀ f ∈ out, f.Formed := by
  simp only [splice, bind_eq_ok_iff] at h
  obtain ⟨states, -, moved, each, compressed⟩ := h
  have sound : HintsFormed (moved.map (·.2)) := by
    intro f member
    obtain ⟨entry, member, same⟩ := List.mem_map.mp member
    obtain ⟨i, bound, rfl⟩ := List.getElem_of_mem member
    have run := (mapM_eq_ok_iff.mp each).get (by
      rw [(mapM_eq_ok_iff.mp each).length_eq]
      exact bound) bound
    simp only [bind_eq_ok_iff, pure_eq_ok_iff, List.get_eq_getElem, List.getElem_zip] at run
    obtain ⟨_, -, g, typed, result⟩ := run
    rw [← result] at same
    cases same
    exact formed_movedTypes (fits _ (List.getElem_mem _)) typed
  have inserted (state : FrameState) : HintsFormed
      (insertState (wrapped (start + len)) state (moved.map (·.1)) (moved.map (·.2))).2 := by
    intro f member
    simp only [insertState] at member
    split at member
    · exact sound f member
    · simp only [List.mem_append, List.mem_cons, reduceCtorEq, false_or] at member
      exact sound f (member.elim List.mem_of_mem_take List.mem_of_mem_drop)
  cases live with
  | none => exact formed_compressOnto sound (List.forall_mem_nil _) compressed
  | some state => exact formed_compressOnto (inserted state) (List.forall_mem_nil _) compressed

end Frame

end JarGate
