import JarGate.Proofs.Format.Forms

/-!
# Instructions in octets

An instruction is read from the octets that it is written as, up to the octets of it that are
reserved. Distances are measured from the start of the instruction, so all statements name its
position; a target lies inside the code that is read.
-/

namespace JarGate

open Decoder Mark

namespace Instruction

/-- Which octets of an instruction at a position are reserved. -/
def marks (pos : Nat) (insn : Instruction) : List Mark :=
  match insn with
  | invokeInterface _ _ => keep 4 ++ reserve 1
  | invokeDynamic _ => keep 3 ++ reserve 2
  | tableSwitch _ _ _ targets => keep 1 ++ (reserve (switchPadding pos) ++ keep (12 + 4 * targets.length))
  | lookupSwitch _ pairs => keep 1 ++ (reserve (switchPadding pos) ++ keep (8 + 8 * pairs.length))
  | _ => keep (insn.size pos)

theorem distance32_length (pos target : Nat) : (distance32 pos target).length = 4 := rfl

theorem distance16_eq_ok_iff {pos target : Nat} {bs : Bytes} : distance16 pos target = .ok bs ↔
    (-0x8000 ≤ (target : Int) - pos ∧ (target : Int) - pos < 0x8000) ∧
      bs = be16 (Int16.ofInt (target - pos)).toUInt16 := by
  simp only [distance16]
  split
  next near => simp [near, eq_comm]
  next far =>
    constructor
    · intro h
      cases h
    · exact fun h => absurd h.1 far

theorem narrowIndex_eq_ok_iff {index : UInt16} {b : UInt8} :
    narrowIndex index = .ok b ↔ index.toNat < 0x100 ∧ b = UInt8.ofNat index.toNat := by
  simp only [narrowIndex]
  split
  next small => simp [small, eq_comm]
  next large => simp [large]

theorem narrowDelta_eq_ok_iff {delta : Int16} {b : UInt8} : narrowDelta delta = .ok b ↔
    (-128 ≤ delta.toInt ∧ delta.toInt < 128) ∧ b = delta.toInt8.toUInt8 := by
  simp only [narrowDelta]
  split
  next small => simp [small, eq_comm]
  next large => simp [large]

/-- An instruction is written with as many octets as its size says. -/
theorem write_length {insn : Instruction} {pos : Nat} {bs : Bytes} (h : insn.write pos = .ok bs) :
    bs.length = insn.size pos := by
  cases insn with
  | localVar op index wide =>
      cases wide with
      | true => cases h; rfl
      | false =>
          obtain ⟨b, -, h⟩ := bind_eq_ok_iff.mp h
          cases h
          rfl
  | iinc index delta wide =>
      cases wide with
      | true => cases h; rfl
      | false =>
          obtain ⟨b, -, h⟩ := bind_eq_ok_iff.mp h
          obtain ⟨b', -, h⟩ := bind_eq_ok_iff.mp h
          cases h
          rfl
  | branch op target =>
      obtain ⟨bs, near, h⟩ := bind_eq_ok_iff.mp h
      cases h
      rw [(distance16_eq_ok_iff.mp near).2]
      rfl
  | tableSwitch default low high targets =>
      cases h
      simp [size, List.length_flatMap, distance32_length]
      omega
  | lookupSwitch default pairs =>
      cases h
      simp [size, List.length_flatMap, distance32_length]
      omega
  | _ => cases h; rfl

/-- Whether a distance of 32 bits reaches a target. -/
def Near (pos target : Nat) : Prop :=
  -0x80000000 ≤ (target : Int) - pos ∧ (target : Int) - pos < 0x80000000

/-- Octets at a position that stand for an instruction of code of some length. -/
structure Spells (length pos : Nat) (insn : Instruction) (bs : Bytes) : Prop where
  canonical : insn.Canonical
  targets : ∀ t ∈ insn.targets, t < length ∧ Near pos t
  octets : ∃ out, insn.write pos = .ok out ∧ Settled (insn.marks pos) bs out

/-- The octets behind the first octet of an instruction at a position. -/
def Body (length pos : Nat) (op : UInt8) : Grammar Instruction := fun _ bs insn =>
  insn.Spells length pos (op :: bs)

section

variable {α β : Type} {length pos : Nat} {op : UInt8} {f : OperandForm}

theorem octets_iff_of_keep {insn : Instruction} {bs : Bytes}
    (exact : insn.marks pos = keep (insn.size pos)) :
    (∃ out, insn.write pos = .ok out ∧ Settled (insn.marks pos) bs out) ↔
      insn.write pos = .ok bs := by
  constructor
  · rintro ⟨out, written, settled⟩
    rw [exact] at settled
    rwa [(Settled.keep_iff.mp settled).1]
  · intro written
    refine ⟨bs, written, ?_⟩
    rw [exact]
    exact Settled.keep_iff.mpr ⟨rfl, write_length written⟩

/-- Octets in the middle of an instruction that may be anything. -/
theorem octets_iff_of_reserve {insn : Instruction} {bs : Bytes} (head tail : Bytes) (k : Nat)
    (marked : insn.marks pos = keep head.length ++ (reserve k ++ keep tail.length))
    (writes : insn.write pos = .ok (head ++ (List.replicate k 0 ++ tail))) :
    (∃ out, insn.write pos = .ok out ∧ Settled (insn.marks pos) bs out) ↔
      ∃ zs, zs.length = k ∧ bs = head ++ (zs ++ tail) := by
  rw [marked, writes]
  constructor
  · rintro ⟨out, written, settled⟩
    cases written
    obtain ⟨ws, xs, ys, len, rfl, split, settled⟩ := Settled.append_keep_iff.mp settled
    obtain ⟨rfl, rfl⟩ := List.append_inj split len.symm
    obtain ⟨zs, xs', ys', filled, rfl, split', settled⟩ := Settled.append_reserve_iff.mp settled
    obtain ⟨rfl, -⟩ := Settled.keep_iff.mp settled
    obtain rfl := List.append_cancel_left split'
    exact ⟨zs, filled, rfl⟩
  · rintro ⟨zs, filled, rfl⟩
    exact ⟨_, rfl, (Settled.keep_iff.mpr ⟨rfl, rfl⟩).append
      ((Settled.reserve_iff.mpr ⟨filled, rfl⟩).append (Settled.keep_iff.mpr ⟨rfl, rfl⟩))⟩

theorem lead_of_write {insn : Instruction} {out : Bytes} (written : insn.write pos = .ok out) :
    ∃ rest, out = insn.lead :: rest := by
  cases insn with
  | localVar op index wide =>
      cases wide with
      | true => cases written; exact ⟨_, rfl⟩
      | false =>
          obtain ⟨b, -, h⟩ := bind_eq_ok_iff.mp written
          cases h
          exact ⟨_, rfl⟩
  | iinc index delta wide =>
      cases wide with
      | true => cases written; exact ⟨_, rfl⟩
      | false =>
          obtain ⟨b, -, h⟩ := bind_eq_ok_iff.mp written
          obtain ⟨b', -, h⟩ := bind_eq_ok_iff.mp h
          cases h
          exact ⟨_, rfl⟩
  | branch op target =>
      obtain ⟨bs, -, h⟩ := bind_eq_ok_iff.mp written
      cases h
      exact ⟨_, rfl⟩
  | _ => cases written; exact ⟨_, rfl⟩

/-- Whatever is reserved, the first octet of an instruction never is. -/
theorem marks_eq (insn : Instruction) (pos : Nat) : ∃ ms, insn.marks pos = kept :: ms := by
  cases insn with
  | localVar op index wide => cases wide <;> exact ⟨_, rfl⟩
  | iinc index delta wide => cases wide <;> exact ⟨_, rfl⟩
  | _ => exact ⟨_, rfl⟩

theorem Spells.lead {insn : Instruction} {bs : Bytes} (h : insn.Spells length pos (op :: bs)) :
    insn.lead = op := by
  obtain ⟨out, written, settled⟩ := h.octets
  obtain ⟨rest, rfl⟩ := lead_of_write written
  obtain ⟨ms, marked⟩ := insn.marks_eq pos
  rw [marked] at settled
  cases settled
  rfl

theorem Spells.form {insn : Instruction} {bs : Bytes} (h : insn.Spells length pos (op :: bs))
    (announced : Opcode.form? op = some f) : insn.form = f := by
  have own := h.canonical.form
  rw [h.lead, announced] at own
  exact (Option.some.inj own).symm

theorem Spells.write {insn : Instruction} {bs : Bytes} (h : insn.Spells length pos bs)
    (exact : insn.marks pos = keep (insn.size pos)) : insn.write pos = .ok bs :=
  (octets_iff_of_keep exact).mp h.octets

/-- A form without reserved octets and without targets. -/
theorem accepts_form {d : Decoder Instruction} {k : α → Instruction} {operands : α → Bytes}
    (h : Accepts d (fun _ bs insn => ∃ a, bs = operands a ∧ insn = k a))
    (announced : Opcode.form? op = some f)
    (exact : ∀ a, (k a).marks pos = keep ((k a).size pos)) (targets : ∀ a, (k a).targets = [])
    (writes : ∀ a, (k a).write pos = .ok (op :: operands a))
    (canonical : ∀ a, (k a).form = f ∧ (k a).lead = op ∧ (k a).OperandsFit)
    (only : ∀ insn : Instruction, insn.form = f → insn.lead = op → insn.OperandsFit →
      ∃ a, insn = k a) :
    Accepts d (Body length pos op) := by
  refine h.congr fun _ bs insn => ⟨?_, ?_⟩
  · rintro ⟨a, rfl, rfl⟩
    obtain ⟨form, lead, fit⟩ := canonical a
    refine ⟨⟨?_, fit⟩, ?_, (octets_iff_of_keep (exact a)).mpr (writes a)⟩
    · rw [lead, form, announced]
    · rw [targets]
      rintro t ⟨⟩
  · intro spelled
    obtain ⟨a, rfl⟩ := only insn (spelled.form announced) spelled.lead spelled.canonical.operands
    have same := Except.ok.inj ((writes a).symm.trans (spelled.write (exact a)))
    exact ⟨a, (List.cons_eq_cons.mp same).2.symm, rfl⟩

theorem accepts_operand {d : Decoder α} {k : α → Instruction} {operand : α → Bytes}
    (h : Accepts d (fun _ bs a => bs = operand a)) :
    Accepts (do return k (← d)) (fun _ bs insn => ∃ a, bs = operand a ∧ insn = k a) :=
  (h.bind fun a => .pure (k a)).congr fun _ bs insn => by
    constructor
    · rintro ⟨a, _, _, rfl, rfl, rfl, rfl⟩
      exact ⟨a, List.append_nil _, rfl⟩
    · rintro ⟨a, rfl, rfl⟩
      exact ⟨a, _, [], (List.append_nil _).symm, rfl, rfl, rfl⟩

theorem accepts_two_operands {d : Decoder α} {e : Decoder β} {k : α × β → Instruction}
    {first : α → Bytes} {second : β → Bytes} (hd : Accepts d (fun _ bs a => bs = first a))
    (he : Accepts e (fun _ bs b => bs = second b)) :
    Accepts (do
        let a ← d
        let b ← e
        return k (a, b))
      (fun _ bs insn => ∃ p : α × β, bs = first p.1 ++ second p.2 ∧ insn = k p) :=
  (hd.bind fun a => he.bind fun b => .pure (k (a, b))).congr fun _ bs insn => by
    constructor
    · rintro ⟨a, _, _, rfl, rfl, b, _, _, rfl, rfl, rfl, rfl⟩
      exact ⟨(a, b), by rw [List.append_nil], rfl⟩
    · rintro ⟨⟨a, b⟩, rfl, rfl⟩
      exact ⟨a, _, _, rfl, rfl, b, _, [], (List.append_nil _).symm, rfl, rfl, rfl⟩

theorem accepts_bipush (announced : Opcode.form? op = some .bipush) :
    Accepts (do return bipush (← i8)) (Body length pos op) := by
  obtain rfl := Opcode.eq_of_form announced rfl
  refine accepts_form (accepts_operand accepts_i8) announced (fun _ => rfl) (fun _ => rfl)
    (fun _ => rfl) (fun _ => ⟨rfl, rfl, trivial⟩) fun insn form _ _ =>
      isOfForm_of_form form

theorem accepts_sipush (announced : Opcode.form? op = some .sipush) :
    Accepts (do return sipush (← i16)) (Body length pos op) := by
  obtain rfl := Opcode.eq_of_form announced rfl
  refine accepts_form (accepts_operand accepts_i16) announced (fun _ => rfl) (fun _ => rfl)
    (fun _ => rfl) (fun _ => ⟨rfl, rfl, trivial⟩) fun insn form _ _ =>
      isOfForm_of_form form

theorem accepts_ldc (announced : Opcode.form? op = some .ldc) :
    Accepts (do return ldc (← u8)) (Body length pos op) := by
  obtain rfl := Opcode.eq_of_form announced rfl
  refine accepts_form (accepts_operand accepts_u8) announced (fun _ => rfl) (fun _ => rfl)
    (fun _ => rfl) (fun _ => ⟨rfl, rfl, trivial⟩) fun insn form _ _ =>
      isOfForm_of_form form

theorem accepts_ldcW (announced : Opcode.form? op = some .ldcW) :
    Accepts (do return ldcW (← u16)) (Body length pos op) := by
  obtain rfl := Opcode.eq_of_form announced rfl
  refine accepts_form (accepts_operand accepts_u16) announced (fun _ => rfl) (fun _ => rfl)
    (fun _ => rfl) (fun _ => ⟨rfl, rfl, trivial⟩) fun insn form _ _ =>
      isOfForm_of_form form

theorem accepts_ldc2W (announced : Opcode.form? op = some .ldc2W) :
    Accepts (do return ldc2W (← u16)) (Body length pos op) := by
  obtain rfl := Opcode.eq_of_form announced rfl
  refine accepts_form (accepts_operand accepts_u16) announced (fun _ => rfl) (fun _ => rfl)
    (fun _ => rfl) (fun _ => ⟨rfl, rfl, trivial⟩) fun insn form _ _ =>
      isOfForm_of_form form

theorem accepts_newArray (announced : Opcode.form? op = some .newArray) :
    Accepts (do return newArray (← u8)) (Body length pos op) := by
  obtain rfl := Opcode.eq_of_form announced rfl
  refine accepts_form (accepts_operand accepts_u8) announced (fun _ => rfl) (fun _ => rfl)
    (fun _ => rfl) (fun _ => ⟨rfl, rfl, trivial⟩) fun insn form _ _ =>
      isOfForm_of_form form

theorem accepts_multiNewArray (announced : Opcode.form? op = some .multiNewArray) :
    Accepts (do return multiNewArray (← u16) (← u8)) (Body length pos op) := by
  obtain rfl := Opcode.eq_of_form announced rfl
  refine accepts_form (accepts_two_operands (k := fun p => multiNewArray p.1 p.2) accepts_u16
    accepts_u8) announced (fun _ => rfl) (fun _ => rfl) (fun _ => rfl)
    (fun _ => ⟨rfl, rfl, trivial⟩) fun insn form _ _ => ?_
  obtain ⟨index, dimensions, rfl⟩ := isOfForm_of_form form
  exact ⟨(index, dimensions), rfl⟩

theorem accepts_constant (announced : Opcode.form? op = some .constant) :
    Accepts (do return constant op (← u16)) (Body length pos op) := by
  refine accepts_form (accepts_operand accepts_u16) announced (fun _ => rfl) (fun _ => rfl)
    (fun _ => rfl) (fun _ => ⟨rfl, rfl, trivial⟩) fun insn form lead _ => ?_
  obtain ⟨_, index, rfl⟩ := isOfForm_of_form form
  cases lead
  exact ⟨index, rfl⟩

theorem accepts_simple (announced : Opcode.form? op = some .none) :
    Accepts (pure (simple op)) (Body length pos op) := by
  have nothing : Accepts (pure (simple op)) (fun _ bs insn => ∃ _ : Unit, bs = [] ∧ insn = simple op) :=
    (Accepts.pure _).congr fun _ _ _ => by simp [Grammar.pure]
  refine accepts_form nothing announced (fun _ => rfl) (fun _ => rfl) (fun _ => rfl)
    (fun _ => ⟨rfl, rfl, trivial⟩) fun insn form lead _ => ?_
  obtain ⟨_, rfl⟩ := isOfForm_of_form form
  cases lead
  exact ⟨(), rfl⟩

theorem toUInt16_ofNat {index : UInt16} (small : index.toNat < 0x100) :
    (UInt8.ofNat index.toNat).toUInt16 = index := by
  apply UInt16.toNat_inj.mp
  rw [UInt8.toNat_toUInt16, UInt8.toNat_ofNat', Nat.mod_eq_of_lt small]

theorem narrowIndex_toUInt16 (b : UInt8) : narrowIndex b.toUInt16 = .ok b := by
  refine narrowIndex_eq_ok_iff.mpr ⟨?_, ?_⟩
  · rw [UInt8.toNat_toUInt16]
    exact b.toNat_lt
  · rw [UInt8.toNat_toUInt16, UInt8.ofNat_toNat]

theorem toInt16_toInt8 {delta : Int16} (small : -128 ≤ delta.toInt ∧ delta.toInt < 128) :
    delta.toInt8.toInt16 = delta := by
  apply Int16.toInt_inj.mp
  rw [Int8.toInt_toInt16, Int16.toInt_toInt8]
  exact Int.bmod_eq_of_le (by omega) (by omega)

theorem narrowDelta_toInt16 (d : Int8) : narrowDelta d.toInt16 = .ok d.toUInt8 := by
  refine narrowDelta_eq_ok_iff.mpr ⟨?_, ?_⟩
  · rw [Int8.toInt_toInt16]
    exact ⟨d.le_toInt, d.toInt_lt⟩
  · rw [Int8.toInt8_toInt16]

theorem accepts_localVar (announced : Opcode.form? op = some .localVar) :
    Accepts (do return localVar op (← u8).toUInt16 false) (Body length pos op) := by
  have fits (b : UInt8) : (localVar op b.toUInt16 false).OperandsFit :=
    ⟨Opcode.hasLocal_of_form announced,
      fun _ => (narrowIndex_eq_ok_iff.mp (narrowIndex_toUInt16 b)).1⟩
  refine accepts_form (accepts_operand (k := fun b => localVar op b.toUInt16 false) accepts_u8)
    announced (fun _ => rfl) (fun _ => rfl) (fun b => ?_) (fun b => ⟨rfl, rfl, fits b⟩)
    fun insn form lead fit => ?_
  · simp only [write, narrowIndex_toUInt16]
    rfl
  · obtain ⟨_, index, rfl⟩ := isOfForm_of_form form
    cases lead
    have short := toUInt16_ofNat (fit.2 rfl)
    refine ⟨UInt8.ofNat index.toNat, ?_⟩
    rw [short]
    rfl

theorem accepts_iinc (announced : Opcode.form? op = some .iinc) :
    Accepts (do return iinc (← u8).toUInt16 (← i8).toInt16 false) (Body length pos op) := by
  obtain rfl := Opcode.eq_of_form announced rfl
  have fits (p : UInt8 × Int8) : (iinc p.1.toUInt16 p.2.toInt16 false).OperandsFit := fun _ =>
    ⟨(narrowIndex_eq_ok_iff.mp (narrowIndex_toUInt16 p.1)).1,
      (narrowDelta_eq_ok_iff.mp (narrowDelta_toInt16 p.2)).1⟩
  refine accepts_form (accepts_two_operands (k := fun p => iinc p.1.toUInt16 p.2.toInt16 false)
    accepts_u8 accepts_i8) announced (fun _ => rfl) (fun _ => rfl) (fun p => ?_)
    (fun p => ⟨rfl, rfl, fits p⟩) fun insn form lead fit => ?_
  · simp only [write, narrowIndex_toUInt16, narrowDelta_toInt16]
    rfl
  · obtain ⟨index, delta, rfl⟩ := isOfForm_of_form form
    obtain ⟨small, near⟩ := fit rfl
    exact ⟨(UInt8.ofNat index.toNat, delta.toInt8), by
      rw [toUInt16_ofNat small, toInt16_toInt8 near]⟩

/-! ### Wide operands -/

/-- What follows the prefix that widens operands. -/
inductive WideOperands : Bytes → Instruction → Prop
  | localVar {op : UInt8} (index : UInt16) (indexed : Opcode.hasLocal op) :
      WideOperands (op :: be16 index) (localVar op index true)
  | iinc (index : UInt16) (delta : Int16) :
      WideOperands (Opcode.iinc :: be16 index ++ be16 delta.toUInt16) (iinc index delta true)

theorem accepts_readWide : Accepts (readWide pos) (fun _ bs insn => WideOperands bs insn) := by
  have localVar (op : UInt8) := accepts_operand (k := fun index => localVar op index true) accepts_u16
  have iinc := accepts_two_operands (k := fun p => iinc p.1 p.2 true) accepts_u16 accepts_i16
  have other (op : UInt8) := Accepts.of_fails (G := fun _ _ (_ : Instruction) => False)
    (fails_fault (.wideOpcode op pos)) fun _ _ _ => id
  refine (accepts_u8.bind fun op => (localVar op).ite (iinc.ite (other op))).congr
    fun p bs insn => ⟨?_, ?_⟩
  · rintro ⟨op, _, _, rfl, rfl, described⟩
    split at described
    next indexed =>
      obtain ⟨index, rfl, rfl⟩ := described
      exact .localVar index indexed
    next =>
      split at described
      next same =>
        obtain ⟨⟨index, delta⟩, rfl, rfl⟩ := described
        rw [same]
        exact .iinc index delta
      next => exact described.elim
  · rintro (⟨index, indexed⟩ | ⟨index, delta⟩)
    · exact ⟨_, [_], _, rfl, rfl, (if_pos indexed).mpr ⟨index, rfl, rfl⟩⟩
    · have unindexed : ¬ Opcode.hasLocal Opcode.iinc := by decide
      exact ⟨_, [_], _, rfl, rfl,
        (if_neg unindexed).mpr ((if_pos rfl).mpr ⟨(index, delta), rfl, rfl⟩)⟩

theorem accepts_wide (announced : Opcode.form? op = some .wide) :
    Accepts (readWide pos) (Body length pos op) := by
  obtain rfl := Opcode.eq_of_form announced rfl
  refine accepts_readWide.congr fun p bs insn => ⟨?_, ?_⟩
  · rintro (⟨index, indexed⟩ | ⟨index, delta⟩)
    · exact ⟨⟨announced, indexed, nofun⟩, nofun, (octets_iff_of_keep rfl).mpr rfl⟩
    · exact ⟨⟨announced, nofun⟩, nofun, (octets_iff_of_keep rfl).mpr rfl⟩
  · intro spelled
    rcases isOfForm_of_form (spelled.form announced) with ⟨op', index, rfl⟩ | ⟨index, delta, rfl⟩
    · have written := spelled.write rfl
      cases written
      exact .localVar index spelled.canonical.operands.1
    · have written := spelled.write rfl
      cases written
      exact .iinc index delta

/-! ### Reserved operands -/

theorem accepts_invokeInterface (announced : Opcode.form? op = some .invokeInterface) :
    Accepts (do
        let index ← u16
        let count ← u8
        let _ ← u8
        return invokeInterface index count)
      (Body length pos op) := by
  obtain rfl := Opcode.eq_of_form announced rfl
  have octets (index : UInt16) (count : UInt8) (bs : Bytes) :
      (∃ out, (invokeInterface index count).write pos = .ok out ∧
        Settled ((invokeInterface index count).marks pos) bs out) ↔ _ :=
    octets_iff_of_reserve (Opcode.invokeinterface :: be16 index ++ [count]) [] 1 rfl rfl
  refine (accepts_u16.bind fun index => accepts_u8.bind fun count => accepts_u8.bind fun _ =>
    .pure (invokeInterface index count)).congr fun p bs insn => ⟨?_, ?_⟩
  · rintro ⟨index, _, _, rfl, rfl, count, _, _, rfl, rfl, reserved, _, _, rfl, rfl, rfl, rfl⟩
    exact ⟨⟨announced, trivial⟩, nofun, (octets index count _).mpr ⟨[reserved], rfl, rfl⟩⟩
  · intro spelled
    obtain ⟨index, count, rfl⟩ := isOfForm_of_form (spelled.form announced)
    obtain ⟨zs, single, split⟩ := (octets index count _).mp spelled.octets
    obtain ⟨reserved, rfl⟩ := List.length_eq_one_iff.mp single
    obtain ⟨-, rfl⟩ := List.cons_eq_cons.mp split
    exact ⟨index, be16 index, _, rfl, rfl, count, [count], _, rfl, rfl, reserved, [reserved], [], rfl,
      rfl, rfl, rfl⟩

theorem accepts_invokeDynamic (announced : Opcode.form? op = some .invokeDynamic) :
    Accepts (do
        let index ← u16
        let _ ← u16
        return invokeDynamic index)
      (Body length pos op) := by
  obtain rfl := Opcode.eq_of_form announced rfl
  have octets (index : UInt16) (bs : Bytes) :
      (∃ out, (invokeDynamic index).write pos = .ok out ∧
        Settled ((invokeDynamic index).marks pos) bs out) ↔ _ :=
    octets_iff_of_reserve (Opcode.invokedynamic :: be16 index) [] 2 rfl rfl
  refine (accepts_u16.bind fun index => accepts_u16.bind fun _ =>
    .pure (invokeDynamic index)).congr fun p bs insn => ⟨?_, ?_⟩
  · rintro ⟨index, _, _, rfl, rfl, reserved, _, _, rfl, rfl, rfl, rfl⟩
    exact ⟨⟨announced, trivial⟩, nofun, (octets index _).mpr ⟨be16 reserved, rfl, rfl⟩⟩
  · intro spelled
    obtain ⟨index, rfl⟩ := isOfForm_of_form (spelled.form announced)
    obtain ⟨zs, two, split⟩ := (octets index _).mp spelled.octets
    obtain ⟨a, b, rfl⟩ := List.length_eq_two.mp two
    obtain ⟨-, rfl⟩ := List.cons_eq_cons.mp split
    exact ⟨index, be16 index, _, rfl, rfl, word16 a b, [a, b], [], rfl, (be16_word16 a b).symm, rfl,
      rfl⟩

/-! ### Branches -/

theorem accepts_targetAt (distance : Int) : Accepts (targetAt pos length distance)
    (fun _ bs t => bs = [] ∧ (t : Int) = pos + distance ∧ t < length) := by
  unfold targetAt
  dsimp only
  split
  next inside =>
    refine (Accepts.pure _).congr fun p bs t => ⟨?_, ?_⟩
    · rintro ⟨rfl, rfl⟩
      exact ⟨rfl, by omega⟩
    · rintro ⟨rfl, reached⟩
      exact ⟨rfl, by omega⟩
  next outside =>
    refine .of_fails (fails_fault _) fun p bs t described => outside ?_
    obtain ⟨-, reached⟩ := described
    omega

theorem accepts_branch (announced : Opcode.form? op = some .branch) :
    Accepts (do return branch op (← targetAt pos length (← i16).toInt)) (Body length pos op) := by
  refine (accepts_i16.bind fun d => (accepts_targetAt d.toInt).bind fun t =>
    .pure (branch op t)).congr fun p bs insn => ⟨?_, ?_⟩
  · rintro ⟨d, _, _, rfl, rfl, t, _, _, rfl, ⟨rfl, distance, inside⟩, rfl, rfl⟩
    have low := d.le_toInt
    have high := d.toInt_lt
    have apart : (t : Int) - pos = d.toInt := by omega
    have near : distance16 pos t = .ok (be16 d.toUInt16) := by
      rw [distance16_eq_ok_iff, apart, Int16.ofInt_toInt]
      exact ⟨by omega, rfl⟩
    refine ⟨⟨announced, trivial⟩, ?_, (octets_iff_of_keep rfl).mpr ?_⟩
    · simp only [Instruction.targets, List.mem_singleton, forall_eq, Near]
      omega
    · simp only [write, near]
      rfl
  · intro spelled
    obtain ⟨op', t, rfl⟩ := isOfForm_of_form (spelled.form announced)
    obtain rfl : op' = op := spelled.lead
    obtain ⟨inside, -⟩ := spelled.targets t (List.mem_singleton.mpr rfl)
    obtain ⟨near, written, same⟩ := bind_eq_ok_iff.mp (spelled.write rfl)
    obtain ⟨⟨low, high⟩, rfl⟩ := distance16_eq_ok_iff.mp written
    cases same
    refine ⟨_, _, [], (List.append_nil _).symm, rfl, t, [], [], rfl, ⟨rfl, ?_, inside⟩, rfl, rfl⟩
    rw [Int16.toInt_ofInt_of_le (by omega) (by omega)]
    omega

theorem accepts_readTarget : Accepts (readTarget pos length)
    (fun _ bs t => bs = distance32 pos t ∧ t < length ∧ Near pos t) := by
  refine (accepts_i32.bind fun d => accepts_targetAt d.toInt).congr fun p bs t => ⟨?_, ?_⟩
  · rintro ⟨d, _, _, rfl, rfl, rfl, reached, inside⟩
    have low := d.le_toInt
    have high := d.toInt_lt
    have apart : (t : Int) - pos = d.toInt := by omega
    refine ⟨?_, inside, ?_⟩
    · rw [distance32, apart, Int32.ofInt_toInt, List.append_nil]
    · rw [Near, apart]
      omega
  · rintro ⟨rfl, inside, near⟩
    have distance := Int32.toInt_ofInt_of_le near.1 near.2
    exact ⟨_, _, [], (List.append_nil _).symm, rfl, rfl, by omega, inside⟩

theorem accepts_wideBranch (announced : Opcode.form? op = some .wideBranch) :
    Accepts (do return wideBranch op (← readTarget pos length)) (Body length pos op) := by
  refine (accepts_readTarget.bind fun t => .pure (wideBranch op t)).congr fun p bs insn => ⟨?_, ?_⟩
  · rintro ⟨t, _, _, rfl, ⟨rfl, reached⟩, rfl, rfl⟩
    rw [List.append_nil]
    refine ⟨⟨announced, trivial⟩, ?_, (octets_iff_of_keep rfl).mpr rfl⟩
    intro t' member
    rwa [List.mem_singleton.mp member]
  · intro spelled
    obtain ⟨op', t, rfl⟩ := isOfForm_of_form (spelled.form announced)
    obtain rfl : op' = op := spelled.lead
    have same := spelled.write rfl
    cases same
    exact ⟨t, _, [], (List.append_nil _).symm, ⟨rfl, spelled.targets t (List.mem_singleton.mpr rfl)⟩,
      rfl, rfl⟩

end

end Instruction

end JarGate
