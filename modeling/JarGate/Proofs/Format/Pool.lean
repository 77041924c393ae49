import JarGate.Proofs.Format.Constants

/-!
# Constant pools in octets

A pool that was read is well formed: its constants lie where their widths put them, and every link
between them is right. A well-formed pool is read from exactly the octets that it is written as.
-/

namespace JarGate

open Decoder

namespace ConstantPool

/-- The entries behind index zero: each constant of eight octets is followed by an index that holds
none. -/
inductive Slots : List Constant → Prop
  | nil : Slots []
  | narrow {c : Constant} {cs : List Constant} (usable : c ≠ .unusable) (narrow : c.isWide = false)
      (rest : Slots cs) : Slots (c :: cs)
  | wide {c : Constant} {cs : List Constant} (wide : c.isWide = true) (rest : Slots cs) :
      Slots (c :: .unusable :: cs)

/-- The octets of the entries behind index zero. -/
def SlotOctets (cs : List Constant) (bs : Bytes) : Prop :=
  ∃ chunks, cs.mapM Constant.write = .ok chunks ∧ bs = chunks.flatten

theorem slotOctets_nil {bs : Bytes} : SlotOctets [] bs ↔ bs = [] := by
  simp [SlotOctets]

theorem slotOctets_cons {c : Constant} {cs : List Constant} {bs : Bytes} :
    SlotOctets (c :: cs) bs ↔ ∃ xs ys, bs = xs ++ ys ∧ c.write = .ok xs ∧ SlotOctets cs ys := by
  simp only [SlotOctets, mapM_eq_ok_iff]
  constructor
  · rintro ⟨chunks, each, rfl⟩
    obtain _ | ⟨head, tail⟩ := each
    exact ⟨_, _, rfl, head, _, tail, rfl⟩
  · rintro ⟨xs, _, rfl, head, chunks, tail, rfl⟩
    exact ⟨xs :: chunks, .cons head tail, rfl⟩

theorem usable_of_isWide {c : Constant} (wide : c.isWide = true) : c ≠ .unusable := by
  rintro rfl
  cases wide

theorem readEntries_succ (count rounds : Nat) (entries : Array Constant) :
    readEntries count (rounds + 1) entries =
      (if entries.size < count then do
        let constant ← Constant.read entries.size
        if constant.isWide then
          if entries.size + 1 < count then
            readEntries count rounds ((entries.push constant).push .unusable)
          else fault (.wideConstantOverruns entries.size)
        else readEntries count rounds (entries.push constant)
      else pure entries : Decoder (Array Constant)) := by
  funext c
  rw [readEntries]
  split
  · change _ = Constant.read entries.size c >>= fun p => _
    cases Constant.read entries.size c with
    | error e => rfl
    | ok p =>
        obtain ⟨constant, next⟩ := p
        change _ = (if constant.isWide then _ else _ : Decoder (Array Constant)) next
        dsimp only
        split
        · split <;> rfl
        · rfl
  · rfl

/-- Entries that octets add to those that are there. -/
def Added (count : Nat) (entries : Array Constant) : Grammar (Array Constant) := fun _ bs all =>
  ∃ cs, all.toList = entries.toList ++ cs ∧ Slots cs ∧ SlotOctets cs bs ∧
    entries.size + cs.length = count

theorem accepts_added_none {count : Nat} {entries : Array Constant} (full : entries.size = count) :
    Accepts (pure entries) (Added count entries) := by
  refine (Accepts.pure entries).congr fun pos bs all => ⟨?_, ?_⟩
  · rintro ⟨rfl, rfl⟩
    exact ⟨[], by simp, .nil, slotOctets_nil.mpr rfl, by simpa using full⟩
  · rintro ⟨cs, same, slots, octets, len⟩
    obtain rfl : cs = [] := List.length_eq_zero_iff.mp (by omega)
    refine ⟨slotOctets_nil.mp octets, ?_⟩
    rw [List.append_nil] at same
    exact Array.toList_inj.mp same

/-- A first constant, and the entries behind it. -/
theorem added_iff {count pos : Nat} {entries all : Array Constant} {bs : Bytes}
    (room : entries.size < count) : Added count entries pos bs all ↔
      ∃ c xs ys, bs = xs ++ ys ∧ (c.write = .ok xs ∧ c ≠ .unusable) ∧
        if c.isWide then
          entries.size + 1 < count ∧
            Added count ((entries.push c).push .unusable) (pos + xs.length) ys all
        else Added count (entries.push c) (pos + xs.length) ys all := by
  constructor
  · rintro ⟨_, same, slots, octets, len⟩
    cases slots with
    | nil =>
        rw [List.length_nil] at len
        omega
    | @narrow c cs usable narrow rest =>
        obtain ⟨xs, ys, rfl, first, others⟩ := slotOctets_cons.mp octets
        refine ⟨c, xs, ys, rfl, ⟨first, usable⟩, ?_⟩
        rw [if_neg (by simp [narrow])]
        refine ⟨cs, by simpa using same, rest, others, ?_⟩
        simp only [Array.size_push, List.length_cons] at len ⊢
        omega
    | @wide c cs wide rest =>
        obtain ⟨xs, ys, rfl, first, others⟩ := slotOctets_cons.mp octets
        obtain ⟨_, zs, rfl, nothing, tail⟩ := slotOctets_cons.mp others
        cases nothing
        refine ⟨c, xs, zs, rfl, ⟨first, usable_of_isWide wide⟩, ?_⟩
        simp only [List.length_cons] at len
        rw [if_pos wide]
        refine ⟨by omega, cs, by simpa using same, rest, tail, ?_⟩
        simp only [Array.size_push]
        omega
  · rintro ⟨c, xs, ys, rfl, ⟨first, usable⟩, others⟩
    split at others
    next wide =>
      obtain ⟨_, cs, same, slots, octets, len⟩ := others
      refine ⟨c :: .unusable :: cs, by simpa using same, .wide wide slots, ?_, ?_⟩
      · exact slotOctets_cons.mpr ⟨xs, ys, rfl, first, slotOctets_cons.mpr ⟨[], ys, rfl, rfl, octets⟩⟩
      · simp only [Array.size_push, List.length_cons] at len ⊢
        omega
    next narrow =>
      obtain ⟨cs, same, slots, octets, len⟩ := others
      refine ⟨c :: cs, by simpa using same, .narrow usable (by simpa using narrow) slots,
        slotOctets_cons.mpr ⟨xs, ys, rfl, first, octets⟩, ?_⟩
      simp only [Array.size_push, List.length_cons] at len ⊢
      omega

/-- Reading adds entries until there are as many as announced, if the rounds suffice. -/
theorem accepts_readEntries (count rounds : Nat) (entries : Array Constant)
    (enough : count ≤ entries.size + rounds) (room : entries.size ≤ count) :
    Accepts (readEntries count rounds entries) (Added count entries) := by
  induction rounds generalizing entries with
  | zero => exact accepts_added_none (by omega)
  | succ rounds ih =>
      rw [readEntries_succ]
      by_cases more : entries.size < count
      · rw [if_pos more]
        refine ((Constant.accepts_read entries.size).bind fun c => Accepts.ite (G := fun pos bs all =>
          entries.size + 1 < count ∧ Added count ((entries.push c).push .unusable) pos bs all)
          ?_ ?_).congr fun pos bs all => (added_iff more).symm
        · by_cases fits : entries.size + 1 < count
          · rw [if_pos fits]
            have next := ih ((entries.push c).push .unusable) (by simp; omega) (by simp; omega)
            exact next.congr fun pos bs all => ⟨fun added => ⟨fits, added⟩, And.right⟩
          · rw [if_neg fits]
            exact .of_fails (fails_fault _) fun _ _ _ described => fits described.1
        · exact ih (entries.push c) (by simp; omega) (by simp; omega)
      · rw [if_neg more]
        exact accepts_added_none (by omega)

/-! ### Whole pools -/

/-- Index zero holds no constant, the constants behind it lie where their widths put them, and the
links between them are right. -/
structure WellFormed (pool : ConstantPool) : Prop where
  small : pool.count < 0x10000
  layout : ∃ cs, pool.entries.toList = .unusable :: cs ∧ Slots cs
  links : pool.check? = none

theorem write_eq_ok_iff {pool : ConstantPool} {bs : Bytes} : pool.write = .ok bs ↔
    pool.count < 0x10000 ∧ ∃ xs, SlotOctets (pool.entries.toList.drop 1) xs ∧
      bs = be16 (UInt16.ofNat pool.count) ++ xs := by
  simp only [write]
  split
  next small =>
    simp only [bind_eq_ok_iff, pure_eq_ok_iff]
    constructor
    · rintro ⟨chunks, each, rfl⟩
      exact ⟨small, _, ⟨chunks, each, rfl⟩, rfl⟩
    · rintro ⟨-, _, ⟨chunks, each, rfl⟩, rfl⟩
      exact ⟨chunks, each, rfl⟩
  next large => simp [large]

/-- The entries behind an announced number of them. -/
def Announced (n : UInt16) : Grammar ConstantPool := fun pos bs pool =>
  Added n.toNat #[.unusable] pos bs pool.entries ∧ pool.check? = none

theorem announced_iff {bs : Bytes} {pool : ConstantPool} :
    (∃ n pos ys, bs = be16 n ++ ys ∧ Announced n pos ys pool) ↔
      pool.write = .ok bs ∧ pool.WellFormed := by
  have count : pool.count = pool.entries.toList.length := Array.length_toList.symm
  constructor
  · rintro ⟨n, pos, ys, rfl, ⟨cs, same, slots, octets, len⟩, links⟩
    have size : pool.count = n.toNat := by
      rw [count, same, List.length_append]
      exact len
    have small : pool.count < 0x10000 := size ▸ n.toNat_lt
    refine ⟨write_eq_ok_iff.mpr ⟨small, ys, ?_, ?_⟩, small, ⟨cs, same, slots⟩, links⟩
    · rwa [same]
    · rw [size, UInt16.ofNat_toNat]
  · rintro ⟨written, small, ⟨cs, same, slots⟩, links⟩
    obtain ⟨-, ys, octets, rfl⟩ := write_eq_ok_iff.mp written
    rw [same] at octets
    refine ⟨UInt16.ofNat pool.count, 0, ys, rfl, ⟨cs, same, slots, octets, ?_⟩, links⟩
    rw [UInt16.toNat_ofNat', Nat.mod_eq_of_lt small, count, same]
    simp only [List.size_toArray, List.length_cons, List.length_nil]
    omega

/-- A pool is read from exactly the octets that it is written as, if it is well formed. -/
theorem accepts_read : Accepts read (fun _ bs pool => pool.write = .ok bs ∧ pool.WellFormed) := by
  unfold read
  dsimp only
  refine (Accepts.bind accepts_u16 (F := Announced) fun n => ?_).congr fun pos bs pool => ?_
  · by_cases none : n.toNat = 0
    · rw [if_pos none]
      refine .of_fails ((fails_fault _).bind _) ?_
      rintro pos bs pool ⟨⟨cs, _, _, _, len⟩, _⟩
      simp only [List.size_toArray, List.length_cons, List.length_nil] at len
      omega
    · rw [if_neg none]
      have entries := accepts_readEntries n.toNat n.toNat #[.unusable] (by simp) (by simp; omega)
      refine (entries.bind (F := fun all _ bs pool => bs = [] ∧ all = pool.entries ∧
        pool.check? = Option.none) fun all => ?_).congr fun pos bs pool => ?_
      · split
        next why wrong =>
          refine .of_fails (fails_fault _) ?_
          rintro pos bs pool ⟨_, rfl, right⟩
          rw [wrong] at right
          cases right
        next right =>
          refine (Accepts.pure _).congr fun pos bs pool => ⟨?_, ?_⟩
          · rintro ⟨rfl, rfl⟩
            exact ⟨rfl, rfl, right⟩
          · rintro ⟨rfl, rfl, _⟩
            exact ⟨rfl, rfl⟩
      · constructor
        · rintro ⟨all, xs, _, rfl, added, rfl, rfl, links⟩
          rw [List.append_nil]
          exact ⟨added, links⟩
        · rintro ⟨added, links⟩
          exact ⟨_, bs, [], (List.append_nil bs).symm, added, rfl, rfl, links⟩
  · rw [← announced_iff]
    constructor
    · rintro ⟨n, _, ys, rfl, rfl, announced⟩
      exact ⟨n, _, ys, rfl, announced⟩
    · rintro ⟨n, _, ys, rfl, announced⟩
      exact ⟨n, _, ys, rfl, rfl, announced⟩

end ConstantPool

end JarGate
