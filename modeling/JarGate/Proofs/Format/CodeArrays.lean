import JarGate.Proofs.Format.Switches

/-!
# Code arrays in octets

A code array is read as instructions that follow each other without gaps, each canonical, whose
branches land on instructions. Such a list of instructions is read from exactly the octets it is
written as, up to the reserved ones.
-/

namespace JarGate

open Decoder Mark

namespace Instruction

theorem size_pos (pos : Nat) (insn : Instruction) : 0 < insn.size pos := by
  cases insn with
  | localVar op index wide => cases wide <;> exact Nat.succ_pos _
  | iinc index delta wide => cases wide <;> exact Nat.succ_pos _
  | tableSwitch default low high targets => simp only [size]; omega
  | lookupSwitch default pairs => simp only [size]; omega
  | _ => exact Nat.succ_pos _

/-! ### Writing one instruction after another -/

theorem writeOnto_eq (done : List Bytes) (pos : Nat) (placed : List Placed) :
    writeOnto done pos placed = (writeOnto [] pos placed).map (done.reverse.flatten ++ ·) := by
  induction placed generalizing done pos with
  | nil => simp [writeOnto, Except.map]
  | cons p ps ih =>
      simp only [writeOnto]
      split
      · split
        next chunk _ =>
          rw [ih, ih [chunk]]
          cases writeOnto [] (pos + chunk.length) ps <;> simp [Except.map]
        next => rfl
      · rfl

theorem writeOnto_cons_iff {pos : Nat} {p : Placed} {ps : List Placed} {out : Bytes} :
    writeOnto [] pos (p :: ps) = .ok out ↔ pos = p.offset ∧ ∃ chunk rest,
      p.instruction.write pos = .ok chunk ∧
      writeOnto [] (pos + p.instruction.size pos) ps = .ok rest ∧ out = chunk ++ rest := by
  constructor
  · intro h
    rw [writeOnto] at h
    split at h
    next placed =>
      split at h
      next chunk written =>
        rw [writeOnto_eq] at h
        obtain ⟨rest, later, rfl⟩ := map_eq_ok_iff.mp h
        rw [← placed] at written
        rw [write_length written] at later
        refine ⟨placed, chunk, rest, written, later, ?_⟩
        simp only [List.reverse_singleton, List.flatten_singleton]
      next => cases h
    next => cases h
  · rintro ⟨placed, chunk, rest, written, later, rfl⟩
    rw [writeOnto, if_pos placed, ← placed, written]
    dsimp only
    rw [writeOnto_eq, write_length written, later]
    simp [Except.map]

theorem tiles_of_write {pos : Nat} {placed : List Placed} {out : Bytes}
    (h : writeOnto [] pos placed = .ok out) : tilesFrom pos placed := by
  induction placed generalizing pos out with
  | nil => rfl
  | cons p ps ih =>
      obtain ⟨at_, _, rest, _, later, _⟩ := writeOnto_cons_iff.mp h
      rw [tilesFrom, Bool.and_eq_true, beq_iff_eq]
      exact ⟨at_.symm, ih later⟩

/-! ### What a list of instructions is read from -/

theorem isPlain_marks {pos : Nat} {insn : Instruction} : ∀ m ∈ insn.marks pos, m.isPlain := by
  have both {ms ns : List Mark} (left : ∀ m ∈ ms, m.isPlain) (right : ∀ m ∈ ns, m.isPlain) :
      ∀ m ∈ ms ++ ns, m.isPlain := List.forall_mem_append.mpr ⟨left, right⟩
  cases insn with
  | invokeInterface index count => exact both isPlain_keep isPlain_reserve
  | invokeDynamic index => exact both isPlain_keep isPlain_reserve
  | tableSwitch default low high targets =>
      exact both isPlain_keep (both isPlain_reserve isPlain_keep)
  | lookupSwitch default pairs => exact both isPlain_keep (both isPlain_reserve isPlain_keep)
  | _ => exact isPlain_keep

theorem marks_length (pos : Nat) (insn : Instruction) :
    (insn.marks pos).length = insn.size pos := by
  cases insn with
  | tableSwitch default low high targets =>
      simp only [marks, size, keep, reserve, List.length_append, List.length_replicate]
      omega
  | lookupSwitch default pairs =>
      simp only [marks, size, keep, reserve, List.length_append, List.length_replicate]
      omega
  | localVar op index wide => cases wide <;> rfl
  | iinc index delta wide => cases wide <;> rfl
  | _ => rfl

theorem Spells.length_eq {length pos : Nat} {insn : Instruction} {bs : Bytes}
    (h : insn.Spells length pos bs) : bs.length = insn.size pos := by
  obtain ⟨out, written, settled⟩ := h.octets
  rw [settled.length_eq.1, marks_length]

/-- Octets from a position on that stand for instructions without gaps. -/
inductive Listing (length : Nat) : Nat → Bytes → List Placed → Prop
  | nil (pos : Nat) : Listing length pos [] []
  | cons {pos : Nat} {xs ys : Bytes} {insn : Instruction} {ps : List Placed}
      (head : insn.Spells length pos xs) (tail : Listing length (pos + xs.length) ys ps) :
      Listing length pos (xs ++ ys) (⟨pos, insn⟩ :: ps)

theorem readOnto_sound {length rounds : Nat} {done placed : List Placed} {c : Cursor}
    (enough : c.rest.length ≤ rounds) (h : readOnto length rounds done c = .ok placed) :
    ∃ ps, placed = done.reverse ++ ps ∧ Listing length c.pos c.rest ps := by
  induction rounds generalizing done c with
  | zero =>
      cases h
      rw [List.length_eq_zero_iff.mp (Nat.le_zero.mp enough)]
      exact ⟨[], (List.append_nil _).symm, .nil _⟩
  | succ rounds ih =>
      rw [readOnto] at h
      split at h
      next atEnd =>
        cases h
        rw [List.isEmpty_iff.mp atEnd]
        exact ⟨[], (List.append_nil _).symm, .nil _⟩
      next =>
        split at h
        next => cases h
        next insn next first =>
          obtain ⟨xs, split, moved, spelled⟩ := (accepts_read length).sound first
          have shorter : next.rest.length ≤ rounds := by
            have taken := List.length_pos_of_ne_nil spelled.ne_nil
            rw [split, List.length_append] at enough
            omega
          obtain ⟨ps, rfl, listed⟩ := ih shorter h
          refine ⟨⟨c.pos, insn⟩ :: ps, by simp, ?_⟩
          rw [split]
          rw [moved] at listed
          exact .cons spelled listed

theorem readOnto_complete {length rounds pos : Nat} {done placed : List Placed} {bs : Bytes}
    (listed : Listing length pos bs placed) (enough : bs.length ≤ rounds)
    (fits : pos + bs.length < positionLimit) :
    readOnto length rounds done ⟨pos, bs⟩ = .ok (done.reverse ++ placed) := by
  induction listed generalizing rounds done with
  | nil pos => cases rounds <;> simp [readOnto, Cursor.atEnd]
  | @cons pos xs ys insn ps head _ ih =>
      rw [List.length_append] at enough fits
      have taken := List.length_pos_of_ne_nil head.ne_nil
      obtain ⟨rounds, rfl⟩ : ∃ n, rounds = n + 1 := ⟨rounds - 1, by omega⟩
      have more : ¬ Cursor.atEnd ⟨pos, xs ++ ys⟩ := by
        simp only [Cursor.atEnd, List.isEmpty_iff]
        exact List.append_ne_nil_of_left_ne_nil head.ne_nil ys
      rw [readOnto, if_neg more, (accepts_read length).complete ys head (by omega)]
      dsimp only
      rw [ih (by omega) (by omega)]
      simp

/-- Which octets of a code array are reserved. -/
def listingMarks (placed : List Placed) : List Mark :=
  placed.flatMap fun p => p.instruction.marks p.offset

theorem isPlain_listingMarks {placed : List Placed} : ∀ m ∈ listingMarks placed, m.isPlain := by
  intro m member
  obtain ⟨p, -, marked⟩ := List.mem_flatMap.mp member
  exact isPlain_marks m marked

theorem listingMarks_cons (p : Placed) (ps : List Placed) :
    listingMarks (p :: ps) = p.instruction.marks p.offset ++ listingMarks ps := rfl

theorem length_eq_of_write {pos : Nat} {placed : List Placed} {out : Bytes}
    (h : writeOnto [] pos placed = .ok out) : out.length = (listingMarks placed).length := by
  induction placed generalizing pos out with
  | nil =>
      cases h
      rfl
  | cons p ps ih =>
      obtain ⟨rfl, chunk, rest, written, later, rfl⟩ := writeOnto_cons_iff.mp h
      rw [List.length_append, ih later, write_length written, listingMarks_cons, List.length_append,
        marks_length]

theorem listing_iff {length pos : Nat} {bs : Bytes} {placed : List Placed} :
    Listing length pos bs placed ↔
      (∀ p ∈ placed, p.instruction.Canonical ∧ Reaches length p.offset p.instruction.targets) ∧
      ∃ out, writeOnto [] pos placed = .ok out ∧ Settled (listingMarks placed) bs out := by
  constructor
  · intro h
    induction h with
    | nil pos => exact ⟨nofun, [], rfl, .nil⟩
    | cons head _ ih =>
        obtain ⟨sound, rest, later, settled⟩ := ih
        rw [head.length_eq] at later
        obtain ⟨first, written, settled'⟩ := head.octets
        exact ⟨List.forall_mem_cons.mpr ⟨⟨head.canonical, head.targets⟩, sound⟩, first ++ rest,
          writeOnto_cons_iff.mpr ⟨rfl, first, rest, written, later, rfl⟩, settled'.append settled⟩
  · rintro ⟨sound, out, written, settled⟩
    induction placed generalizing pos bs out with
    | nil =>
        obtain ⟨rfl, -⟩ := Settled.nil_iff.mp settled
        exact .nil pos
    | cons p ps ih =>
        obtain ⟨⟨canonical, reaches⟩, sound⟩ := List.forall_mem_cons.mp sound
        obtain ⟨rfl, first, rest, written', later, rfl⟩ := writeOnto_cons_iff.mp written
        have len := (write_length written').trans (marks_length _ _).symm
        obtain ⟨xs, ys, rfl, head, settled⟩ :=
          (Settled.append_written_iff isPlain_marks len).mp settled
        have spelled : p.instruction.Spells length p.offset xs :=
          ⟨canonical, reaches, first, written', head⟩
        rw [← spelled.length_eq] at later
        exact .cons spelled (ih sound _ later settled)

/-- What an instruction is written as settles to itself. -/
theorem settled_of_write {pos : Nat} {insn : Instruction} {out : Bytes}
    (written : insn.write pos = .ok out) : Settled (insn.marks pos) out out := by
  have zeros (n : Nat) : Settled (reserve n) (List.replicate n 0) (List.replicate n 0) :=
    Settled.reserve_iff.mpr ⟨List.length_replicate, rfl⟩
  cases insn with
  | invokeInterface index count =>
      cases written
      exact (Settled.keep_rfl (Opcode.invokeinterface :: be16 index ++ [count])).append (zeros 1)
  | invokeDynamic index =>
      cases written
      exact (Settled.keep_rfl (Opcode.invokedynamic :: be16 index)).append (zeros 2)
  | tableSwitch default low high targets =>
      obtain ⟨out', written', settled⟩ := octets_tableSwitch_iff.mpr
        ⟨List.replicate (switchPadding pos) 0, List.length_replicate, rfl⟩
      obtain rfl : out' = out := Except.ok.inj (written'.symm.trans written)
      exact settled.settle
  | lookupSwitch default pairs =>
      obtain ⟨out', written', settled⟩ := octets_lookupSwitch_iff.mpr
        ⟨List.replicate (switchPadding pos) 0, List.length_replicate, rfl⟩
      obtain rfl : out' = out := Except.ok.inj (written'.symm.trans written)
      exact settled.settle
  | _ => exact Settled.keep_iff.mpr ⟨rfl, write_length written⟩

theorem settled_of_writeOnto {pos : Nat} {placed : List Placed} {out : Bytes}
    (written : writeOnto [] pos placed = .ok out) : Settled (listingMarks placed) out out := by
  induction placed generalizing pos out with
  | nil =>
      cases written
      exact .nil
  | cons p ps ih =>
      obtain ⟨rfl, chunk, rest, first, later, rfl⟩ := writeOnto_cons_iff.mp written
      exact (settled_of_write first).append (ih later)

/-! ### Whole code arrays -/

theorem boundaries_contains {placed : List Placed} {offset : Nat} :
    (boundaries placed).contains offset ↔ offset ∈ placed.map Placed.offset := by
  have onto (set : Std.HashSet Nat) : (placed.foldl (fun set p => set.insert p.offset) set).contains
      offset ↔ set.contains offset ∨ offset ∈ placed.map Placed.offset := by
    induction placed generalizing set with
    | nil => simp
    | cons p ps ih =>
        rw [List.foldl_cons, ih, Std.HashSet.contains_insert, List.map_cons, List.mem_cons,
          Bool.or_eq_true, beq_iff_eq]
        tauto
  simpa [boundaries] using onto ∅

theorem strayBranch?_eq_none_iff {starts : Std.HashSet Nat} {placed : List Placed} :
    strayBranch? starts placed = none ↔
      ∀ p ∈ placed, ∀ t ∈ p.instruction.targets, starts.contains t := by
  induction placed with
  | nil => simp [strayBranch?]
  | cons p ps ih =>
      rw [strayBranch?, List.forall_mem_cons, ← ih]
      cases stray : p.instruction.targets.find? fun t => !starts.contains t with
      | none =>
          rw [List.find?_eq_none] at stray
          have inside : ∀ t ∈ p.instruction.targets, starts.contains t := by simpa using stray
          exact (and_iff_right inside).symm
      | some t =>
          have outside : starts.contains t = false := by simpa using List.find?_some stray
          simp only [reduceCtorEq, false_iff]
          exact fun all => absurd (all.1 t (List.mem_of_find?_eq_some stray)) (by simp [outside])

/-- Instructions as they are in code that was read. -/
structure WellFormed (placed : List Placed) : Prop where
  canonical : ∀ p ∈ placed, p.instruction.Canonical
  targets : ∀ p ∈ placed, ∀ t ∈ p.instruction.targets, t ∈ placed.map Placed.offset

/-- Instructions without gaps end behind the start of each. -/
theorem offset_lt_of_write {pos : Nat} {placed : List Placed} {out : Bytes}
    (h : writeOnto [] pos placed = .ok out) : ∀ o ∈ placed.map Placed.offset, o < pos + out.length := by
  induction placed generalizing pos out with
  | nil => nofun
  | cons p ps ih =>
      obtain ⟨rfl, chunk, rest, written, later, rfl⟩ := writeOnto_cons_iff.mp h
      have positive := size_pos p.offset p.instruction
      rw [← write_length written] at positive later
      rw [List.length_append, List.map_cons, List.forall_mem_cons]
      refine ⟨by omega, fun o member => ?_⟩
      have before := ih later o member
      omega

theorem endOf_of_write {pos : Nat} {placed : List Placed} {out : Bytes}
    (h : writeOnto [] pos placed = .ok out) (nonempty : placed ≠ []) :
    endOf placed = pos + out.length := by
  induction placed generalizing pos out with
  | nil => exact absurd rfl nonempty
  | cons p ps ih =>
      obtain ⟨rfl, chunk, rest, written, later, rfl⟩ := writeOnto_cons_iff.mp h
      rw [List.length_append, write_length written]
      cases ps with
      | nil =>
          cases later
          rfl
      | cons q qs =>
          have ends := ih later (List.cons_ne_nil q qs)
          rw [endOf, List.getLast?_cons_cons, ← endOf, ends, Nat.add_assoc]

/-- What is written of instructions is as long as where they end. -/
theorem length_of_writeAll {placed : List Placed} {out : Bytes} (written : writeAll placed = .ok out) :
    out.length = endOf placed := by
  cases placed with
  | nil =>
      cases written
      rfl
  | cons p ps => rw [endOf_of_write written (List.cons_ne_nil p ps), Nat.zero_add]

/-- What is read from a code array is well formed, and is written as the octets it was read from. -/
theorem written_of_readAll {code : Bytes} {placed : List Placed} (read : readAll code = .ok placed) :
    WellFormed placed ∧ ∃ out, writeAll placed = .ok out ∧ Settled (listingMarks placed) code out := by
  simp only [readAll, bind_eq_ok_iff] at read
  obtain ⟨placed', read, checked⟩ := read
  split at checked
  next => cases checked
  next unstray =>
    cases checked
    obtain ⟨_, rfl, listed⟩ := readOnto_sound (c := .ofBytes code) (Nat.le_refl _) read
    obtain ⟨sound, out, written, settled⟩ := listing_iff.mp listed
    refine ⟨⟨fun p member => (sound p member).1, fun p member t target => ?_⟩, out, written, settled⟩
    exact boundaries_contains.mp (strayBranch?_eq_none_iff.mp unstray p member t target)

/-- Well-formed instructions are read from the octets that they are written as, in code so small that a
distance of 32 bits reaches from any place to any other. -/
theorem readAll_of_written {code out : Bytes} {placed : List Placed} (small : code.length < 0x80000000)
    (wellFormed : WellFormed placed) (written : writeAll placed = .ok out)
    (settled : Settled (listingMarks placed) code out) : readAll code = .ok placed := by
  have fits : 0 + code.length < positionLimit := by
    have limit : 0x80000000 ≤ positionLimit := by decide
    omega
  have unstray : strayBranch? (boundaries placed) placed = none :=
    strayBranch?_eq_none_iff.mpr fun p member t target =>
      boundaries_contains.mpr (wellFormed.targets p member t target)
  have inside := offset_lt_of_write written
  have same : out.length = code.length := settled.length_eq.2.trans settled.length_eq.1.symm
  have listed : Listing code.length 0 code placed := by
    refine listing_iff.mpr ⟨fun p member => ⟨wellFormed.canonical p member, fun t target => ?_⟩,
      out, written, settled⟩
    have origin := inside p.offset (List.mem_map_of_mem member)
    have reached := inside t (wellFormed.targets p member t target)
    exact ⟨by omega, by omega, by omega⟩
  have read : readOnto code.length code.length [] (.ofBytes code) = .ok placed :=
    readOnto_complete listed (Nat.le_refl _) fits
  simp only [readAll, bind_eq_ok_iff]
  refine ⟨placed, read, ?_⟩
  rw [unstray]
  rfl

/-- A code array is read from exactly the octets that its instructions are written as. -/
theorem readAll_eq_ok_iff {code : Bytes} {placed : List Placed} (small : code.length ≤ maxCodeLength) :
    readAll code = .ok placed ↔ WellFormed placed ∧
      ∃ out, writeAll placed = .ok out ∧ Settled (listingMarks placed) code out := by
  refine ⟨written_of_readAll, ?_⟩
  rintro ⟨wellFormed, out, written, settled⟩
  exact readAll_of_written (Nat.lt_of_le_of_lt small (by decide)) wellFormed written settled

end Instruction

end JarGate
