import JarGate.Proofs.Code.FrameReferences
import JarGate.Proofs.Code.FrontFrames
import JarGate.Proofs.Code.Places
import JarGate.Proofs.Injection.Prologue

/-!
# Frame offsets in words

The offsets of frames are sums in words of 32 bits, which may wrap around, and nothing compares them with
the length of the code. A table that was read has at most 65535 frames, each at most 65536 octets behind the
one before it, so that the last offset stays 65537 below the limit. So no sum wraps around where frames are
expanded, renumbered or spliced, as long as the code that is put between them is not longer than that; only
a prologue that is built to leave the method by a longer way is.
-/

namespace JarGate

/-! ### Maps that agree -/

section

variable {via via' : Nat → Option Nat} (same : ∀ o < 0x10000, via o = via' o)

include same

/-- A type names no offset above sixteen bits. -/
theorem VerificationType.moved_congr (t : VerificationType) : t.moved via = t.moved via' := by
  cases t with
  | uninitialized o => rw [moved, moved, same o.toNat o.toNat_lt]
  | _ => rfl

theorem Frame.movedTypes_congr (f : Frame) : f.movedTypes via = f.movedTypes via' := by
  have each : (fun t : VerificationType => t.moved via) = (·.moved via') :=
    funext fun t => t.moved_congr same
  cases f with
  | oneStack d t | oneStackExtended d t => rw [movedTypes, movedTypes, t.moved_congr same]
  | append d added => rw [movedTypes, movedTypes, each]
  | full d locals stack => rw [movedTypes, movedTypes, each]
  | _ => rfl

/-- Renumbering asks for nothing but the offsets of the frames and offsets of sixteen bits. -/
theorem Frame.renumberOnto_congr {done frames : List Frame} {previous target : Option Nat}
    (offsets : ∀ o ∈ offsetsOnto [] previous frames, via o = via' o) :
    renumberOnto via done previous target frames = renumberOnto via' done previous target frames := by
  induction frames generalizing done previous target with
  | nil => rfl
  | cons f fs ih =>
      rw [offsetsOnto_cons, List.forall_mem_cons] at offsets
      obtain ⟨here, offsets⟩ := offsets
      simp only [renumberOnto, here, f.movedTypes_congr same, ih offsets]

end

namespace Frame

open Instruction (endFrom simple)
open Prologue (build exitSequence)

variable {f : Frame} {frames out : List Frame} {previous : Option Nat} {body : Bytes}

/-! ### Offsets as sums -/

/-- An offset that does not wrap around is one less than the sum of all distances up to its frame. -/
theorem offsetsOnto_eq_sums (fits : Unwrapped previous frames) :
    offsetsOnto [] previous frames = (List.range frames.length).map fun i =>
      offsetBehind previous + ((frames.take (i + 1)).map (·.delta.toNat + 1)).sum - 1 := by
  induction frames generalizing previous with
  | nil => rfl
  | cons f fs ih =>
      obtain ⟨here, fits⟩ := fits.cons
      rw [offsetsOnto_cons, ih fits, List.length_cons, List.range_succ_eq_map, List.map_cons, List.map_map,
        here]
      congr 1
      apply List.map_congr_left
      intro i _
      rw [Function.comp_apply, List.take_succ_cons, List.map_cons, List.sum_cons, offsetBehind]
      omega

/-- No offset of frames behind a place reaches the end of the octets that they take. -/
theorem offsetsOnto_lt (fits : Unwrapped previous frames) : ∀ o ∈ offsetsOnto [] previous frames,
    o < offsetBehind previous + (frames.map (·.delta.toNat + 1)).sum := by
  induction frames generalizing previous with
  | nil => exact List.forall_mem_nil _
  | cons f fs ih =>
      obtain ⟨here, fits⟩ := fits.cons
      rw [offsetsOnto_cons, List.forall_mem_cons, List.map_cons, List.sum_cons]
      refine ⟨by omega, fun o member => ?_⟩
      have bound := ih fits o member
      rw [offsetBehind] at bound
      omega

/-- The offsets of a table that was read leave room for 65536 octets below 32 bits. -/
theorem room_of_readTable (read : readTable body = .ok frames) {len : Nat} (short : len ≤ 0x10000) :
    ∀ o ∈ offsets frames, o + len < 2 ^ 32 := by
  intro o member
  have few := (written_of_readTable read).1.few
  have bound := offsetsOnto_lt (unwrapped_of_few few) o member
  have total := sum_deltas_le frames
  rw [offsetBehind] at bound
  omega

/-! ### Lengths of prologues -/

/-- Every prologue whose way out is one of those for the types of results takes four or eight octets. -/
theorem endFrom_build_le (gateRef : UInt16) {shape : PrologueShape} {exit : List Instruction}
    (possible : shape = .callOnly ∨ ∃ result approximate, exitSequence result approximate = .ok exit) :
    endFrom 0 (build gateRef shape exit) ≤ 8 := by
  cases shape with
  | callOnly =>
      have size : endFrom 0 (Prologue.prologueFor gateRef .callOnly none) = 4 := rfl
      rw [Prologue.build_callOnly gateRef exit none, size]
      decide
  | earlyReturn =>
      obtain ⟨result, approximate, left⟩ := possible.resolve_left nofun
      have size : endFrom 0 (Prologue.prologueFor gateRef .earlyReturn result) = 8 := by
        cases result <;> rfl
      rw [Prologue.exitSequence_eq left, Prologue.build_earlyReturn, size]

theorem endFrom_replicate_simple (pos n : Nat) (op : UInt8) :
    endFrom pos (List.replicate n (simple op)) = pos + n := by
  induction n generalizing pos with
  | zero => rfl
  | succ n ih =>
      rw [List.replicate_succ, endFrom, ih]
      exact Nat.add_right_comm pos 1 n

theorem sizeOf_replicate_simple (n : Nat) (op : UInt8) :
    Prologue.sizeOf (List.replicate n (simple op)) = n := by
  have onto (len : Nat) :
      (List.replicate n (simple op)).foldl (fun len insn => len + insn.size 0) len = len + n := by
    induction n generalizing len with
    | zero => rfl
    | succ n ih =>
        rw [List.replicate_succ, List.foldl_cons, ih]
        exact Nat.add_right_comm len 1 n
  rw [Prologue.sizeOf, onto, Nat.zero_add]

/-- A prologue can be built with any way out, and gets as long as that. -/
theorem endFrom_build_simple (gateRef : UInt16) (n : Nat) (op : UInt8) :
    endFrom 0 (build gateRef .earlyReturn (List.replicate n (simple op))) =
      Prologue.padding (6 + n) + (6 + n) := by
  have call : Prologue.sizeOf [Prologue.gateCall gateRef] + 3 = 6 := rfl
  rw [build, sizeOf_replicate_simple, call, Instruction.endFrom_append, endFrom_replicate_simple, endFrom,
    endFrom, endFrom_replicate_simple]
  simp only [Prologue.gateCall, Instruction.size]
  omega

/-! ### Tables that were read -/

/-- The offsets of a table that was read are moved by adding. -/
theorem shift_of_readTable (read : readTable body = .ok frames) {len : Nat} (short : len ≤ 0x10000)
    (start : Nat) : ∀ o ∈ offsets frames, shift start len o = if start ≤ o then o + len else o := by
  intro o member
  exact shift_of_lt fun _ => room_of_readTable read short o member

/-- Splicing moves the states of a table that was read by adding, and puts the new one where it should. -/
theorem expand_of_splice_readTable (read : readTable body = .ok frames) {initial : List VerificationType}
    {start len : Nat} {live : Option FrameState} (short : len ≤ 0x10000)
    (target : live = none ∨ start + len < 2 ^ 32) (spliced : splice frames initial start len live = .ok out) :
    ∃ states moved, expand frames initial = .ok states ∧
      List.Forall₂ (MovesTo fun o => if start ≤ o then o + len else o) states moved ∧
      expand out initial = .ok (withState (live.map (start + len, ·)) moved) := by
  obtain ⟨states, states', expanded, each, stands⟩ := expand_of_splice spliced
  have placed : live.map (wrapped (start + len), ·) = live.map (start + len, ·) := by
    obtain rfl | word := target
    · rfl
    · rw [wrapped_of_lt word]
  rw [placed] at stands
  refine ⟨states, states', expanded, movesTo_congr ?_ ?_ each, stands⟩
  · intro s member
    apply shift_of_readTable read short start s.1
    rw [offsets, ← (expand_eq_ok_iff.mp expanded).offsets_eq]
    exact List.mem_map_of_mem member
  · intro o
    have word := o.toNat_lt
    exact shift_of_lt fun _ => by omega

/-- As many frames as a table can count, each as far behind the one before it as a frame can be. -/
def fullTable : List Frame :=
  List.replicate 0xFFFF (.sameExtended 0xFFFF)

theorem representable_fullTable : RepresentableTable fullTable where
  few := (List.length_replicate ..).le
  each := by
    intro f member
    obtain rfl := List.eq_of_mem_replicate member
    trivial

theorem exists_read_fullTable : ∃ body, readTable body = .ok fullTable := by
  obtain ⟨body, written, -⟩ := representable_fullTable.exists_writeTable
  exact ⟨body, (readTable_iff_of_written written).mpr representable_fullTable⟩

theorem last_offset_fullTable : 0xFFFEFFFF ∈ offsets fullTable := by
  have fits : Unwrapped none fullTable := unwrapped_of_few representable_fullTable.few
  have total : ((fullTable.take (0xFFFE + 1)).map (·.delta.toNat + 1)).sum = 0xFFFF * 0x10000 := by
    rw [fullTable, List.take_replicate, List.map_replicate, List.sum_replicate, smul_eq_mul]
    rfl
  have inside : 0xFFFE < fullTable.length := by
    rw [fullTable, List.length_replicate]
    decide
  rw [offsets, offsetsOnto_eq_sums fits]
  refine List.mem_map.mpr ⟨0xFFFE, List.mem_range.mpr inside, ?_⟩
  rw [total, offsetBehind]

end Frame

end JarGate
