import Mathlib
import JarGate.Archive.Record

/-!
# Records are read back

What stands at a position of an archive is stated as `Stands`. A record that stands somewhere is read as
the values that it was written for, if they fit their fields, and no record is read beyond the end.
-/

namespace JarGate

namespace Bytes

theorem toNatLittle_of_lt {width n : Nat} (small : n < 256 ^ width) :
    toNatLittle (littleEndian width n) = n := by
  rw [toNatLittle_littleEndian]
  exact Nat.mod_eq_of_lt small

/-- Fields are read back, whatever follows them. -/
theorem fields?_ofFields {widths values : List Nat}
    (fit : List.Forall₂ (fun width value => value < 256 ^ width) widths values) (rest : Bytes) :
    fields? widths (ofFields (widths.zip values) ++ rest) = some (values, rest) := by
  induction fit with
  | nil => rfl
  | @cons width value widths values head _ ih =>
      have whole : ofFields ((width :: widths).zip (value :: values)) ++ rest =
          littleEndian width value ++ (ofFields (widths.zip values) ++ rest) := by
        simp [ofFields]
      have length := length_littleEndian width value
      rw [whole, fields?, List.take_left' length, List.drop_left' length]
      dsimp only
      rw [if_pos length, ih, toNatLittle_of_lt head]
      rfl

/-- Fields are read where there are as many octets as they take. -/
theorem sum_le_of_fields? {widths : List Nat} {bytes : Bytes} {r : List Nat × Bytes}
    (h : fields? widths bytes = some r) : widths.sum ≤ bytes.length := by
  induction widths generalizing bytes r with
  | nil => exact Nat.zero_le _
  | cons width widths ih =>
      rw [fields?] at h
      dsimp only at h
      split at h
      next full =>
        obtain ⟨r', rest, -⟩ := Option.map_eq_some_iff.mp h
        have later := ih rest
        rw [List.length_take] at full
        rw [List.length_drop] at later
        rw [List.sum_cons]
        omega
      next => cases h

end Bytes

namespace Archive

/-- Whether octets stand at a position of an archive. -/
def Stands (bytes : Array UInt8) (position : Nat) (octets : Bytes) : Prop :=
  octets <+: bytes.toList.drop position

variable {bytes : Array UInt8} {position : Nat} {octets : Bytes}

namespace Stands

theorem append_iff {first second : Bytes} : Stands bytes position (first ++ second) ↔
    Stands bytes position first ∧ Stands bytes (position + first.length) second := by
  constructor
  · rintro ⟨rest, whole⟩
    refine ⟨⟨second ++ rest, by rw [← whole, List.append_assoc]⟩, ⟨rest, ?_⟩⟩
    rw [← List.drop_drop, ← whole, List.append_assoc, List.drop_left]
  · rintro ⟨⟨rest, whole⟩, ⟨rest', whole'⟩⟩
    refine ⟨rest', ?_⟩
    rw [← List.drop_drop, ← whole, List.drop_left] at whole'
    rw [← whole, ← whole', List.append_assoc]

/-- What is cut out of an archive where octets stand. -/
theorem slice (h : Stands bytes position octets) :
    slice bytes position (position + octets.length) = octets := by
  rw [Archive.slice, Array.toList_extract, List.extract_eq_take_drop, Nat.add_sub_cancel_left]
  exact (List.prefix_iff_eq_take.mp h).symm

theorem le_size (h : Stands bytes position octets) (nonempty : octets ≠ []) :
    position + octets.length ≤ bytes.size := by
  have length := List.IsPrefix.length_le h
  have positive := List.length_pos_iff.mpr nonempty
  have size : bytes.toList.length = bytes.size := Array.length_toList
  rw [List.length_drop] at length
  omega

end Stands

namespace Layout

variable {l : Layout} {values : List Nat}

theorem size_eq (l : Layout) : l.size = l.mark.length + l.widths.sum := by
  have fold (n : Nat) (widths : List Nat) : widths.foldl (· + ·) n = n + widths.sum := by
    induction widths generalizing n with
    | nil => rfl
    | cons width widths ih => rw [List.foldl_cons, ih, List.sum_cons, Nat.add_assoc]
  exact fold _ _

/-- Whether values fit the fields of a record. -/
def Fit (l : Layout) (values : List Nat) : Prop :=
  List.Forall₂ (fun width value => value < 256 ^ width) l.widths values

theorem marks_of_stands (h : Stands bytes position (l.write values)) : l.marks bytes position = true := by
  rw [marks, (Stands.append_iff.mp h).1.slice]
  exact beq_self_eq_true _

/-- A record is read where it stands. -/
theorem at?_of_stands (fit : l.Fit values) (h : Stands bytes position (l.write values)) :
    l.at? bytes position = some values := by
  obtain ⟨-, fields⟩ := Stands.append_iff.mp h
  have length : l.size = l.mark.length + (Bytes.ofFields (l.widths.zip values)).length := by
    rw [← length_write fit.length_eq.symm, write, List.length_append]
  have read := Bytes.fields?_ofFields fit []
  rw [List.append_nil] at read
  rw [at?, marks_of_stands h, if_pos rfl, length, ← Nat.add_assoc, fields.slice, read]
  rfl

/-- No record is read beyond the end. -/
theorem le_of_at? (positive : 0 < l.widths.sum) (h : l.at? bytes position = some values) :
    position + l.size ≤ bytes.size := by
  rw [at?] at h
  split at h
  next =>
    obtain ⟨r, read, -⟩ := Option.map_eq_some_iff.mp h
    have room := Bytes.sum_le_of_fields? read
    have bound : (Archive.slice bytes (position + l.mark.length) (position + l.size)).length ≤
        bytes.size - (position + l.mark.length) := by
      rw [Archive.slice, Array.length_toList, Array.size_extract]
      omega
    rw [size_eq]
    omega
  next => cases h

end Layout

/-- The last answer, where there is none behind it. -/
theorem lastBelow?_eq_some {α : Type} {answer? : Nat → Option α} {a : α} {bound : Nat}
    (here : answer? position = some a) (within : position < bound)
    (behind : ∀ i, position < i → i < bound → answer? i = none) : lastBelow? answer? bound = some a := by
  induction bound with
  | zero => exact absurd within (Nat.not_lt_zero _)
  | succ bound ih =>
      rw [lastBelow?]
      by_cases same : position = bound
      · rw [← same, here]
      · rw [behind bound (by omega) (by omega)]
        exact ih (by omega) fun i after before => behind i after (by omega)

end Archive

end JarGate
