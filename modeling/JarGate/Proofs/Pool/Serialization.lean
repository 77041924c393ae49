import JarGate.Proofs.Pool.Requests

/-!
# Pools that are written and read back

Additions look up no links, and reading checks all of them again. That no pool is refused therefore
rests on what every addition preserves: a pool that was reached is well formed. Of a well-formed pool
only a text can be too long to be written, and all other limits were met when its constants were added.
-/

namespace JarGate

namespace Constant

variable {c : Constant} {bs : Bytes}

/-- Only a text can be too long to be written. -/
theorem exists_write_iff :
    (∃ bs, c.write = .ok bs) ↔ ∀ octets, c = .utf8 octets → octets.length ≤ 0xFFFF := by
  cases c with
  | utf8 octets =>
      simp only [write_utf8_iff, utf8.injEq, forall_eq', exists_and_left, exists_eq, and_true]
      exact Nat.lt_succ_iff
  | _ => exact ⟨nofun, fun _ => ⟨_, rfl⟩⟩

/-- A text takes most octets, three more than it has itself. -/
theorem length_le_of_write (written : c.write = .ok bs) : bs.length ≤ 3 + 0xFFFF := by
  cases c with
  | utf8 octets =>
      obtain ⟨small, rfl⟩ := write_utf8_iff.mp written
      simp only [List.length_append, List.length_cons, be16_length]
      omega
  | _ =>
      cases written
      simp [be16, be32, be64]

end Constant

namespace ConstantPool

variable {pool : ConstantPool}

/-! ### When a pool is written, and with how many octets -/

theorem exists_slotOctets_iff {cs : List Constant} : (∃ bs, SlotOctets cs bs) ↔
    ∀ octets, Constant.utf8 octets ∈ cs → octets.length ≤ 0xFFFF := by
  induction cs with
  | nil => exact iff_of_true ⟨[], slotOctets_nil.mpr rfl⟩ nofun
  | cons c cs ih =>
      simp only [List.mem_cons, or_imp, forall_and, ← ih, slotOctets_cons]
      constructor
      · rintro ⟨_, xs, ys, rfl, first, others⟩
        refine ⟨fun octets same => ?_, ys, others⟩
        exact Constant.exists_write_iff.mp ⟨xs, first⟩ octets same.symm
      · rintro ⟨short, ys, others⟩
        obtain ⟨xs, first⟩ := Constant.exists_write_iff.mpr fun octets same => short octets same.symm
        exact ⟨_, xs, ys, rfl, first, others⟩

theorem SlotOctets.length_le {cs : List Constant} {bs : Bytes} (h : SlotOctets cs bs) :
    bs.length ≤ cs.length * (3 + 0xFFFF) := by
  induction cs generalizing bs with
  | nil => simp [slotOctets_nil.mp h]
  | cons c cs ih =>
      obtain ⟨xs, ys, rfl, first, others⟩ := slotOctets_cons.mp h
      have head := Constant.length_le_of_write first
      have tail := ih others
      rw [List.length_append, List.length_cons, Nat.succ_mul]
      omega

/-- A well-formed pool is written unless one of its texts is too long. -/
theorem WellFormed.exists_write_iff (sound : pool.WellFormed) : (∃ out, pool.write = .ok out) ↔
    ∀ octets, Constant.utf8 octets ∈ pool.entries.toList → octets.length ≤ 0xFFFF := by
  obtain ⟨cs, layout, -⟩ := sound.layout
  have slots : (∃ out, pool.write = .ok out) ↔ ∃ bs, SlotOctets cs bs := by
    simp only [write_eq_ok_iff, layout, List.drop_one, List.tail_cons]
    constructor
    · rintro ⟨_, -, xs, octets, -⟩
      exact ⟨xs, octets⟩
    · rintro ⟨xs, octets⟩
      exact ⟨_, sound.small, xs, octets, rfl⟩
  rw [slots, exists_slotOctets_iff, layout]
  simp

/-- No pool that is written comes near the largest position. -/
theorem length_lt_of_write {out : Bytes} (written : pool.write = .ok out) :
    out.length < Decoder.positionLimit := by
  obtain ⟨small, xs, octets, rfl⟩ := write_eq_ok_iff.mp written
  have length : (pool.entries.toList.drop 1).length ≤ 0x10000 := by
    rw [List.length_drop, Array.length_toList]
    exact Nat.le_trans (Nat.sub_le ..) small.le
  have total := octets.length_le.trans (Nat.mul_le_mul_right _ length)
  rw [List.length_append, be16_length, Decoder.positionLimit, UInt64.size]
  omega

/-! ### Reached pools -/

theorem slots_append_wide {cs : List Constant} {c : Constant} (h : Slots cs) (wide : c.isWide = true) :
    Slots (cs ++ [c, .unusable]) := by
  induction h with
  | nil => exact .wide wide .nil
  | narrow usable narrow _ ih => exact .narrow usable narrow ih
  | wide wide' _ ih => exact .wide wide' ih

theorem linked_of_isWide {c : Constant} (wide : c.isWide = true) : pool.Linked c := by
  cases c with
  | long | double => trivial
  | _ => cases wide

/-- A constant of eight octets takes two indices at once, so the layout is kept. -/
theorem grown_push_wide {c : Constant} (sound : pool.WellFormed) (room : pool.count + 2 < 0x10000)
    (wide : c.isWide = true) : Grown pool ⟨(pool.entries.push c).push .unusable⟩ := by
  have grown : pool.Extends ⟨(pool.entries.push c).push .unusable⟩ := ⟨[c, .unusable], by simp⟩
  refine ⟨grown, ?_, ?_, ?_⟩
  · simpa [count] using room
  · obtain ⟨cs, same, slots⟩ := sound.layout
    exact ⟨cs ++ [c, .unusable], by simp [same], slots_append_wide slots wide⟩
  · have before := check?_eq_none_iff.mp sound.links
    refine check?_eq_none_iff.mpr fun c' member => ?_
    simp only [Array.toList_push, List.mem_append, List.mem_singleton] at member
    rcases member with (old | rfl) | rfl
    · exact (before c' old).extends grown
    · exact linked_of_isWide wide
    · trivial

/-- A constant whose links are right leaves a grown pool behind, also where there is no room for it. -/
theorem grown_final_push {c : Constant} (sound : pool.WellFormed) (usable : c ≠ .unusable)
    (linked : pool.Linked c) : Grown pool ((push c).final pool) := by
  cases wide : c.isWide with
  | true =>
      simp only [Edit.final, push, wide, if_true]
      by_cases room : pool.count + 2 < 0x10000
      · rw [if_pos room]
        exact grown_push_wide sound room wide
      · rw [if_neg room]
        exact .refl sound
  | false =>
      simp only [Edit.final, push, wide, Bool.false_eq_true, if_false]
      by_cases room : pool.count + 1 < 0x10000
      · rw [if_pos room]
        exact grown_push sound room usable wide linked
      · rw [if_neg room]
        exact .refl sound

/-- The pools that additions lead to, whether these succeed or not: requests, and constants of any kind
whose links are right where they are appended. -/
inductive Reached : ConstantPool → Prop
  | original {pool : ConstantPool} (original : pool.Original) : Reached pool
  | request {pool : ConstantPool} (r : Request) (before : Reached pool) :
      Reached (r.addition.final pool)
  | push {pool : ConstantPool} {c : Constant} (usable : c ≠ .unusable) (linked : pool.Linked c)
      (before : Reached pool) : Reached ((push c).final pool)

namespace Reached

theorem wellFormed (reached : pool.Reached) : pool.WellFormed := by
  induction reached with
  | original original => exact original.wellFormed
  | request r _ sound => exact (r.adds.final sound).wellFormed
  | push usable linked _ sound => exact (grown_final_push sound usable linked).wellFormed

theorem run {requests : List Request} (reached : pool.Reached) : (Request.run requests pool).Reached := by
  induction requests generalizing pool with
  | nil => exact reached
  | cons r rs ih => exact ih (.request r reached)

/-- Writing and reading are inverse on every pool that additions lead to. The pool is written just if each
of its texts has at most 65535 octets; and what is written is read back, whatever follows it, as the same
pool, with an index that holds nothing behind each constant of eight octets, and up to its last octet. -/
theorem read_written (reached : pool.Reached) :
    ((∃ out, pool.write = .ok out) ↔
      ∀ octets, Constant.utf8 octets ∈ pool.entries.toList → octets.length ≤ 65535) ∧
    ∀ out, pool.write = .ok out → ∀ rest,
      ConstantPool.read (Cursor.ofBytes (out ++ rest)) = .ok (pool, ⟨out.length, rest⟩) := by
  have sound := reached.wellFormed
  refine ⟨sound.exists_write_iff, fun out written rest => ?_⟩
  have fits : 0 + out.length < Decoder.positionLimit := by
    rw [Nat.zero_add]
    exact length_lt_of_write written
  have read := accepts_read.complete rest ⟨written, sound⟩ fits
  rwa [Nat.zero_add] at read

/-- The pool of `repetitive`, behind a request for a reference to a method and a number of eight octets. -/
def lengthened : ConstantPool :=
  (ConstantPool.push (.double 9)).final (Request.run [.methodRef "A" "A" "()V"]
    ⟨#[.unusable, .utf8 [0xC1, 0x81], .utf8 [0x41], .utf8 [0x41], .long 7, .unusable]⟩)

/-- Both numbers of eight octets are read back with the index behind them. -/
theorem read_written_lengthened :
    ∃ out, lengthened.write = .ok out ∧
      ConstantPool.read (Cursor.ofBytes (out ++ [7, 7])) = .ok (lengthened, ⟨out.length, [7, 7]⟩) := by
  have read : ConstantPool.read (Cursor.ofBytes Request.repetitive) = .ok (⟨#[.unusable,
      .utf8 [0xC1, 0x81], .utf8 [0x41], .utf8 [0x41], .long 7, .unusable]⟩, ⟨24, []⟩) := by
    cbv
  have reached : lengthened.Reached := .push (by decide) trivial (.run (.original (.read read)))
  have listed : lengthened.entries.toList = [.unusable, .utf8 [0xC1, 0x81], .utf8 [0x41], .utf8 [0x41],
      .long 7, .unusable, .classInfo 2, .utf8 [0x28, 0x29, 0x56], .nameAndType 2 7, .methodRef 6 8,
      .double 9, .unusable] := by
    cbv
  obtain ⟨written, back⟩ := read_written reached
  obtain ⟨out, written⟩ := written.mpr (by simp [listed])
  exact ⟨out, written, back out written _⟩

end Reached

end ConstantPool

end JarGate
