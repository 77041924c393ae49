import JarGate.Proofs.Code.Expansion

/-!
# When states can be compressed

States can be written as frames just where their offsets increase and each distance fits the sixteen
bits that a frame has for it. Nothing else about the states, the locals at the entry or the hints
matters. Hints matter for the form of the frames: a table that is compressed with its own frames as
hints comes out as it went in, unless it has a frame in a short form whose distance that form cannot
hold, or so many frames that the offset of one wraps around.
-/

namespace JarGate

namespace Frame

/-! ### Distances -/

/-- The deltas of frames at some offsets, where `next` is the first offset that is free. -/
def deltasFrom (next : Nat) : List Nat → List Nat
  | [] => []
  | offset :: offsets => (offset - next) :: deltasFrom (offset + 1) offsets

/-- The deltas of the frames of a table at some offsets: the first offset, and after that each gap
less one. -/
def deltas (offsets : List Nat) : List Nat := deltasFrom 0 offsets

variable {previous : Option Nat} {locals initial : List VerificationType} {f : Frame}
  {frames done : List Frame} {states : List (Nat × FrameState)}

theorem deltaAfter_eq_ok_iff {offset delta : Nat} :
    deltaAfter previous offset = .ok delta ↔
      offsetBehind previous ≤ offset ∧ offset - offsetBehind previous = delta := by
  cases previous with
  | none =>
      rw [deltaAfter, offsetBehind]
      constructor
      · rintro ⟨⟩
        exact ⟨Nat.zero_le _, rfl⟩
      · rintro ⟨-, rfl⟩
        rfl
  | some p =>
      rw [deltaAfter, offsetBehind]
      constructor
      · intro h
        split at h
        next less =>
          cases h
          omega
        next => cases h
      · rintro ⟨behind, rfl⟩
        have less : p < offset := behind
        rw [if_pos less, Nat.sub_sub]

theorem exists_withDelta_iff {delta : Nat} : (∃ g, f.withDelta delta = .ok g) ↔ delta ≤ 0xFFFF := by
  rw [withDelta]
  by_cases small : delta < 0x10000
  · rw [if_pos small]
    exact ⟨fun _ => Nat.le_of_lt_succ small, fun _ => ⟨_, rfl⟩⟩
  · rw [if_neg small]
    constructor
    · rintro ⟨g, failed⟩
      cases failed
    · intro fits
      omega

/-- Whether frames can be put at some offsets behind a place: these increase, and each distance fits. -/
def Spaced (previous : Option Nat) (offsets : List Nat) : Prop :=
  (∀ o ∈ offsets, offsetBehind previous ≤ o) ∧ offsets.Pairwise (· < ·) ∧
    ∀ d ∈ deltasFrom (offsetBehind previous) offsets, d ≤ 0xFFFF

theorem spaced_nil : Spaced previous [] := ⟨nofun, .nil, nofun⟩

theorem spaced_cons {offset : Nat} {offsets : List Nat} :
    Spaced previous (offset :: offsets) ↔
      (∃ delta, deltaAfter previous offset = .ok delta ∧ delta ≤ 0xFFFF) ∧
        Spaced (some offset) offsets := by
  rw [Spaced, deltasFrom, List.forall_mem_cons, List.forall_mem_cons, List.pairwise_cons]
  constructor
  · rintro ⟨⟨behind, -⟩, ⟨later, ordered⟩, fits, small⟩
    exact ⟨⟨_, deltaAfter_eq_ok_iff.mpr ⟨behind, rfl⟩, fits⟩, later, ordered, small⟩
  · rintro ⟨⟨_, distance, fits⟩, later, ordered, small⟩
    obtain ⟨behind, rfl⟩ := deltaAfter_eq_ok_iff.mp distance
    refine ⟨⟨behind, fun o member => ?_⟩, ⟨later, ordered⟩, fits, small⟩
    exact behind.trans ((Nat.le_succ offset).trans (later o member))

/-! ### Success -/

theorem exists_compressOnto_iff {hints : List (Option Frame)} :
    (∃ out, compressOnto done previous locals hints states = .ok out) ↔
      Spaced previous (states.map (·.1)) := by
  induction states generalizing done previous locals hints with
  | nil => exact ⟨fun _ => spaced_nil, fun _ => ⟨_, rfl⟩⟩
  | cons entry states ih =>
      obtain ⟨offset, state⟩ := entry
      rw [List.map_cons, spaced_cons]
      simp only [compressOnto_cons_iff]
      constructor
      · rintro ⟨out, delta, f, distance, chosen, h⟩
        exact ⟨⟨delta, distance, exists_withDelta_iff.mp ⟨f, chosen⟩⟩, ih.mp ⟨out, h⟩⟩
      · rintro ⟨⟨delta, distance, fits⟩, later⟩
        obtain ⟨f, chosen⟩ :=
          exists_withDelta_iff (f := choose locals state hints.head?.join).mpr fits
        obtain ⟨out, h⟩ := ih.mpr later
        exact ⟨out, delta, f, distance, chosen, h⟩

/-- Whether states can be compressed is decided by their offsets alone. -/
theorem exists_compress_iff {hints : List (Option Frame)} :
    (∃ frames, compress states initial hints = .ok frames) ↔
      (states.map (·.1)).Pairwise (· < ·) ∧ ∀ d ∈ deltas (states.map (·.1)), d ≤ 0xFFFF := by
  rw [compress, exists_compressOnto_iff]
  exact and_iff_right fun o _ => Nat.zero_le o

/-! ### Forms that are kept -/

/-- Whether the distance of a frame in a short form is one that the form can hold. -/
def Short : Frame → Prop
  | same d | oneStack d _ => d.toNat ≤ 63
  | _ => True

theorem withDelta_delta (short : f.Short) : f.withDelta f.delta.toNat = .ok f := by
  rw [withDelta, if_pos f.delta.toNat_lt, UInt16.ofNat_toNat]
  cases f with
  | same d | oneStack d t =>
      have held : d.toNat ≤ maxShortDelta := short
      simp only [delta, held, if_true]
  | _ => rfl

/-- A frame that describes a state is chosen for it if it is the hint. -/
theorem choose_of_apply {state : FrameState} (described : f.apply locals = .ok state) :
    choose locals state (some f) = f := by
  rw [choose, described]
  exact if_pos rfl

theorem deltaAfter_offsetAfter (here : offsetAfter previous f = offsetBehind previous + f.delta.toNat) :
    deltaAfter previous (offsetAfter previous f) = .ok f.delta.toNat := by
  rw [deltaAfter_eq_ok_iff, here]
  exact ⟨Nat.le_add_right .., Nat.add_sub_cancel_left ..⟩

theorem compressOnto_of_expands (short : ∀ f ∈ frames, f.Short) (fits : Unwrapped previous frames)
    (h : Expands previous locals frames states) :
    compressOnto done previous locals (frames.map some) states = .ok (done.reverse ++ frames) := by
  induction h generalizing done with
  | nil => rw [compressOnto, List.append_nil]
  | @cons previous locals f fs state states here behind ih =>
      obtain ⟨first, rest⟩ := List.forall_mem_cons.mp short
      obtain ⟨there, fits⟩ := fits.cons
      have chosen : choose locals state ((f :: fs).map some).head?.join = f := choose_of_apply here
      refine compressOnto_cons_iff.mpr ⟨_, f, deltaAfter_offsetAfter there, ?_, ?_⟩
      · rw [chosen, withDelta_delta first]
      · rw [List.map_cons, List.tail_cons, ih rest fits, List.reverse_cons, List.append_assoc]
        rfl

/-- There are no frames for offsets that wrap around. -/
theorem Expands.unwrapped (h : Expands previous locals frames states)
    (word : offsetBehind previous ≤ 0x100000000) (spaced : Spaced previous (states.map (·.1))) :
    Unwrapped previous frames := by
  rw [h.offsets_eq] at spaced
  exact unwrapped_of_increasing word spaced.1 spaced.2.1

/-- Frames of each form, behind an `int` at the entry. The distances of the first two are the greatest
that their forms can hold. -/
def variedFrames : List Frame :=
  [.same 63, .oneStack 63 .null, .append 300 [.float, .long], .oneStackExtended 5 (.uninitialized 7),
    .chop 0 2, .sameExtended 2, .full 65535 [] [.double]]

/-- The states that these frames stand for. -/
def variedStates : List (Nat × FrameState) :=
  [(63, ⟨[.integer], []⟩), (127, ⟨[.integer], [.null]⟩), (428, ⟨[.integer, .float, .long], []⟩),
    (434, ⟨[.integer, .float, .long], [.uninitialized 7]⟩), (435, ⟨[.integer], []⟩),
    (438, ⟨[.integer], []⟩), (65974, ⟨[], [.double]⟩)]

/-- More frames than a file can hold, each as far behind the one before as a frame can be. The offset of
the last one wraps around. -/
def farFrames : List Frame := List.replicate 65537 (.sameExtended 65535)

theorem exists_expands_replicate (previous : Option Nat) (locals : List VerificationType) (d : UInt16)
    (n : Nat) : ∃ states, Expands previous locals (List.replicate n (.sameExtended d)) states := by
  induction n generalizing previous with
  | zero => exact ⟨[], .nil⟩
  | succ n ih =>
      obtain ⟨states, behind⟩ := ih (some (offsetAfter previous (.sameExtended d)))
      exact ⟨_, .cons rfl behind⟩

end Frame

end JarGate
