import JarGate.Proofs.Format.Instructions

/-!
# Switches in octets

The operands of a switch start at a multiple of four, so what a switch is read from depends on the
position twice: for the padding, and for the distances. With the switches the reader of instructions
is complete.
-/

namespace JarGate

open Decoder Mark

theorem hasAtLeast_iff {n : Nat} {bs : Bytes} : hasAtLeast n bs ↔ n ≤ bs.length := by
  induction n generalizing bs with
  | zero => simp [hasAtLeast]
  | succ n ih =>
      cases bs with
      | nil => simp [hasAtLeast]
      | cons b bs => simp [hasAtLeast, ih]

namespace Decoder

variable {α : Type}

/-- A look at what is left, whose outcome depends on nothing but what is then read. -/
theorem accepts_lookahead {d fail : Decoder α} {G : Grammar α} {q : Cursor → Prop} [DecidablePred q]
    {p : Prop} (h : Accepts d G) (fails : Fails fail)
    (decided : ∀ {pos bs a}, G pos bs a → ∀ rest, q ⟨pos, bs ++ rest⟩ ↔ p) :
    Accepts (do if q (← get) then d else fail) (fun pos bs a => p ∧ G pos bs a) where
  sound {c c' a} read := by
    change (if q c then d else fail) c = _ at read
    split at read
    next passed =>
      obtain ⟨bs, split, moved, described⟩ := h.sound read
      rw [show c = ⟨c.pos, bs ++ c'.rest⟩ from congrArg (Cursor.mk c.pos) split] at passed
      exact ⟨bs, split, moved, (decided described _).mp passed, described⟩
    next =>
      obtain ⟨e, failed⟩ := fails c
      rw [failed] at read
      cases read
  complete {pos bs a} rest described fits := by
    obtain ⟨holds, described⟩ := described
    change (if q ⟨pos, bs ++ rest⟩ then d else fail) _ = _
    rw [if_pos ((decided described rest).mpr holds)]
    exact h.complete rest described fits

end Decoder

namespace Instruction

variable {length pos : Nat} {op : UInt8}

/-- The targets of a switch are inside the code and near. -/
def Reaches (length pos : Nat) (ts : List Nat) : Prop := ∀ t ∈ ts, t < length ∧ Near pos t

/-- What follows the first octet of a switch over a range of keys. -/
def TableOperands (length pos : Nat) : Grammar Instruction := fun p bs insn =>
  ∃ zs default low high targets, zs.length = (4 - p % 4) % 4 ∧
    insn = tableSwitch default low high targets ∧ insn.OperandsFit ∧
    Reaches length pos (default :: targets) ∧
    bs = zs ++ (distance32 pos default ++ (be32 low.toUInt32 ++ (be32 high.toUInt32 ++
      targets.flatMap (distance32 pos))))

theorem accepts_targets (count : Nat) : Accepts (many count (readTarget pos length))
    (fun _ bs ts => ts.length = count ∧ bs = ts.flatMap (distance32 pos) ∧ Reaches length pos ts) :=
  (accepts_readTarget.many count).congr fun _ _ _ => by rw [Grammar.many_exact_iff]; rfl

theorem flatMap_distance32_length (ts : List Nat) :
    (ts.flatMap (distance32 pos)).length = 4 * ts.length := by
  simp only [List.length_flatMap, distance32_length, List.map_const', List.sum_replicate_nat]
  omega

theorem accepts_table (default : Nat) (low high : Int32) {why : Fault} :
    Accepts (do
        if hasAtLeast ((high.toInt - low.toInt + 1).toNat * 4) (← get).rest then
          return tableSwitch default low high
            (← many (high.toInt - low.toInt + 1).toNat (readTarget pos length))
        else fault why)
      (fun _ bs insn => ∃ targets, targets.length = (high.toInt - low.toInt + 1).toNat ∧
        bs = targets.flatMap (distance32 pos) ∧ Reaches length pos targets ∧
        insn = tableSwitch default low high targets) := by
  have targets : Accepts (many _ (readTarget pos length)) _ :=
    accepts_targets (high.toInt - low.toInt + 1).toNat
  have body := targets.bind fun targets => .pure (tableSwitch default low high targets)
  refine Accepts.congr (accepts_lookahead (p := True) body (fails_fault why) ?_)
    fun p bs insn => ⟨?_, ?_⟩
  · rintro p bs insn ⟨targets, _, _, rfl, ⟨count, rfl, -⟩, rfl, rfl⟩ rest
    rw [hasAtLeast_iff, List.append_nil, List.length_append, flatMap_distance32_length, count]
    simp only [iff_true]
    omega
  · rintro ⟨-, targets, _, _, rfl, ⟨count, rfl, reached⟩, rfl, rfl⟩
    exact ⟨targets, count, List.append_nil _, reached, rfl⟩
  · rintro ⟨targets, count, rfl, reached, rfl⟩
    exact ⟨trivial, targets, _, [], (List.append_nil _).symm, ⟨count, rfl, reached⟩, rfl, rfl⟩

theorem accepts_readTableSwitch :
    Accepts (readTableSwitch pos length) (TableOperands length pos) := by
  unfold readTableSwitch
  dsimp only
  refine Accepts.congr (accepts_align4.bind fun _ => accepts_readTarget.bind fun default =>
    accepts_i32.bind fun low => accepts_i32.bind fun high =>
      .refuse (.bind (fails_fault _) _) (accepts_table default low high)) fun p bs insn => ⟨?_, ?_⟩
  · rintro ⟨-, zs, _, rfl, filled, default, _, _, rfl, ⟨rfl, reached⟩, low, _, _, rfl, rfl, high, _, _,
      rfl, rfl, ordered, targets, count, rfl, reached', rfl⟩
    rw [Int32.lt_iff_toInt_lt] at ordered
    exact ⟨zs, default, low, high, targets, filled, rfl, ⟨by omega, by omega⟩,
      List.forall_mem_cons.mpr ⟨reached, reached'⟩, rfl⟩
  · rintro ⟨zs, default, low, high, targets, filled, rfl, ⟨ordered, count⟩, reached, rfl⟩
    obtain ⟨reached, reached'⟩ := List.forall_mem_cons.mp reached
    refine ⟨(), zs, _, rfl, filled, default, _, _, rfl, ⟨rfl, reached⟩, low, _, _, rfl, rfl, high, _, _,
      rfl, rfl, ?_, targets, by omega, rfl, reached', rfl⟩
    rw [Int32.lt_iff_toInt_lt]
    omega

/-! ### Switches over a set of keys -/

/-- The octets of a key and its target. -/
def pairBytes (pos : Nat) (p : Int32 × Nat) : Bytes := be32 p.1.toUInt32 ++ distance32 pos p.2

/-- What follows the first octet of a switch over a set of keys. -/
def LookupOperands (length pos : Nat) : Grammar Instruction := fun p bs insn =>
  ∃ zs default pairs, zs.length = (4 - p % 4) % 4 ∧ insn = lookupSwitch default pairs ∧
    insn.OperandsFit ∧ Reaches length pos (default :: pairs.map (·.2)) ∧
    bs = zs ++ (distance32 pos default ++ (be32 (UInt32.ofNat pairs.length) ++
      pairs.flatMap (pairBytes pos)))

theorem flatMap_pairBytes_length (ps : List (Int32 × Nat)) :
    (ps.flatMap (pairBytes pos)).length = 8 * ps.length := by
  simp only [List.length_flatMap, pairBytes, List.length_append, be32_length, distance32_length,
    List.map_const', List.sum_replicate_nat]
  omega

theorem accepts_pair : Accepts (do return ((← i32), (← readTarget pos length)))
    (fun _ bs p => bs = pairBytes pos p ∧ p.2 < length ∧ Near pos p.2) := by
  refine Accepts.congr (accepts_i32.bind fun key => accepts_readTarget.bind fun t => .pure (key, t))
    fun p bs pair => ⟨?_, ?_⟩
  · rintro ⟨key, _, _, rfl, rfl, t, _, _, rfl, ⟨rfl, reached⟩, rfl, rfl⟩
    rw [List.append_nil]
    exact ⟨rfl, reached⟩
  · rintro ⟨rfl, reached⟩
    exact ⟨pair.1, _, _, rfl, rfl, pair.2, _, [], (List.append_nil _).symm, ⟨rfl, reached⟩, rfl, rfl⟩

theorem toUInt32_eq_ofNat {count : Int32} (positive : 0 ≤ count.toInt) :
    count.toUInt32 = UInt32.ofNat count.toInt.toNat := by
  have same : Int32.ofNat count.toInt.toNat = count :=
    Int32.ofNat_toNatClampNeg count (Int32.le_iff_toInt_le.mpr positive)
  rw [← Int32.toUInt32_ofNat', same]

theorem accepts_pairs (default : Nat) (count : Int32) {why : Fault} :
    Accepts (do
        if 0 ≤ count.toInt ∧ hasAtLeast (count.toInt.toNat * 8) (← get).rest then
          return lookupSwitch default
            (← many count.toInt.toNat do return ((← i32), (← readTarget pos length)))
        else fault why)
      (fun _ bs insn => 0 ≤ count.toInt ∧ ∃ pairs, pairs.length = count.toInt.toNat ∧
        bs = pairs.flatMap (pairBytes pos) ∧ Reaches length pos (pairs.map (·.2)) ∧
        insn = lookupSwitch default pairs) := by
  have pair : Accepts (do return ((← i32), (← readTarget pos length))) _ := accepts_pair
  have pairs := pair.many count.toInt.toNat
  have body := pairs.bind fun pairs => .pure (lookupSwitch default pairs)
  refine Accepts.congr (accepts_lookahead (p := 0 ≤ count.toInt) body (fails_fault why) ?_)
    fun p bs insn => and_congr_right fun _ => ⟨?_, ?_⟩
  · rintro p bs insn ⟨pairs, _, _, rfl, ⟨len, run⟩, rfl, rfl⟩ rest
    obtain ⟨rfl, -⟩ := Grammar.many_exact_iff.mp run
    rw [hasAtLeast_iff, List.append_nil, List.length_append, flatMap_pairBytes_length, len]
    omega
  · rintro ⟨pairs, _, _, rfl, ⟨len, run⟩, rfl, rfl⟩
    obtain ⟨rfl, reached⟩ := Grammar.many_exact_iff.mp run
    exact ⟨pairs, len, List.append_nil _, List.forall_mem_map.mpr reached, rfl⟩
  · rintro ⟨pairs, len, rfl, reached, rfl⟩
    exact ⟨pairs, _, [], (List.append_nil _).symm,
      ⟨len, Grammar.many_exact_iff.mpr ⟨rfl, List.forall_mem_map.mp reached⟩⟩, rfl, rfl⟩

theorem accepts_readLookupSwitch :
    Accepts (readLookupSwitch pos length) (LookupOperands length pos) := by
  unfold readLookupSwitch
  dsimp only
  refine Accepts.congr (accepts_align4.bind fun _ => accepts_readTarget.bind fun default =>
    accepts_i32.bind fun count => accepts_pairs default count) fun p bs insn => ⟨?_, ?_⟩
  · rintro ⟨-, zs, _, rfl, filled, default, _, _, rfl, ⟨rfl, reached⟩, count, _, _, rfl, rfl, positive,
      pairs, len, rfl, reached', rfl⟩
    have small := count.toInt_lt
    refine ⟨zs, default, pairs, filled, rfl, ?_, List.forall_mem_cons.mpr ⟨reached, reached'⟩, ?_⟩
    · change pairs.length < 0x80000000
      omega
    · rw [len, toUInt32_eq_ofNat positive]
  · rintro ⟨zs, default, pairs, filled, rfl, small, reached, rfl⟩
    obtain ⟨reached, reached'⟩ := List.forall_mem_cons.mp reached
    have len : (Int32.ofNat pairs.length).toInt = pairs.length := Int32.toInt_ofNat_of_lt small
    refine ⟨(), zs, _, rfl, filled, default, _, _, rfl, ⟨rfl, reached⟩, Int32.ofNat pairs.length, _, _,
      rfl, congrArg be32 Int32.toUInt32_ofNat'.symm, by omega, pairs, by omega, rfl, reached', rfl⟩

/-! ### Instructions -/

/-- What may follow a first octet. Only switches depend on where they are read. -/
def Operands (length pos : Nat) (op : UInt8) : Option OperandForm → Grammar Instruction
  | some .tableSwitch => TableOperands length pos
  | some .lookupSwitch => LookupOperands length pos
  | _ => Body length pos op

theorem accepts_readOperands : Accepts (readOperands length pos op (Opcode.form? op))
    (Operands length pos op (Opcode.form? op)) := by
  cases announced : Opcode.form? op with
  | none =>
      refine .of_fails (fails_fault _) fun p bs insn spelled => ?_
      have own := spelled.canonical.form
      rw [spelled.lead, announced] at own
      cases own
  | some f =>
      cases f with
      | bipush => exact accepts_bipush announced
      | sipush => exact accepts_sipush announced
      | ldc => exact accepts_ldc announced
      | ldcW => exact accepts_ldcW announced
      | ldc2W => exact accepts_ldc2W announced
      | localVar => exact accepts_localVar announced
      | iinc => exact accepts_iinc announced
      | wide => exact accepts_wide announced
      | constant => exact accepts_constant announced
      | invokeInterface => exact accepts_invokeInterface announced
      | invokeDynamic => exact accepts_invokeDynamic announced
      | newArray => exact accepts_newArray announced
      | multiNewArray => exact accepts_multiNewArray announced
      | branch => exact accepts_branch announced
      | wideBranch => exact accepts_wideBranch announced
      | tableSwitch => exact accepts_readTableSwitch
      | lookupSwitch => exact accepts_readLookupSwitch
      | none => exact accepts_simple announced

theorem octets_tableSwitch_iff {default : Nat} {low high : Int32} {targets : List Nat} {bs : Bytes} :
    (∃ out, (tableSwitch default low high targets).write pos = .ok out ∧
      Settled ((tableSwitch default low high targets).marks pos) (Opcode.tableswitch :: bs) out) ↔
    ∃ zs : Bytes, zs.length = switchPadding pos ∧
      bs = zs ++ (distance32 pos default ++ (be32 low.toUInt32 ++ (be32 high.toUInt32 ++
        targets.flatMap (distance32 pos)))) := by
  rw [octets_iff_of_reserve [Opcode.tableswitch] (distance32 pos default ++ (be32 low.toUInt32 ++
    (be32 high.toUInt32 ++ targets.flatMap (distance32 pos)))) (switchPadding pos)]
  · simp
  · have total : 4 + (4 + (4 + 4 * targets.length)) = 12 + 4 * targets.length := by omega
    simp only [marks, List.length_append, be32_length, distance32_length, flatMap_distance32_length,
      total]
    rfl
  · simp only [write, List.append_assoc, List.cons_append, List.nil_append]
    rfl

theorem octets_lookupSwitch_iff {default : Nat} {pairs : List (Int32 × Nat)} {bs : Bytes} :
    (∃ out, (lookupSwitch default pairs).write pos = .ok out ∧
      Settled ((lookupSwitch default pairs).marks pos) (Opcode.lookupswitch :: bs) out) ↔
    ∃ zs : Bytes, zs.length = switchPadding pos ∧
      bs = zs ++ (distance32 pos default ++ (be32 (UInt32.ofNat pairs.length) ++
        pairs.flatMap (pairBytes pos))) := by
  rw [octets_iff_of_reserve [Opcode.lookupswitch] (distance32 pos default ++
    (be32 (UInt32.ofNat pairs.length) ++ pairs.flatMap (pairBytes pos))) (switchPadding pos)]
  · simp
  · have total : 4 + (4 + 8 * pairs.length) = 8 + 8 * pairs.length := by omega
    simp only [marks, List.length_append, be32_length, distance32_length, flatMap_pairBytes_length,
      total]
    rfl
  · simp only [write, List.append_assoc, List.cons_append, List.nil_append]
    rfl

/-- Right behind its first octet, an instruction is what its octets stand for. -/
theorem operands_iff {bs : Bytes} {insn : Instruction} :
    Operands length pos op (Opcode.form? op) (pos + 1) bs insn ↔
      insn.Spells length pos (op :: bs) := by
  cases announced : Opcode.form? op with
  | none => exact Iff.rfl
  | some f =>
      cases f with
      | tableSwitch =>
          obtain rfl := Opcode.eq_of_form announced rfl
          constructor
          · rintro ⟨zs, default, low, high, targets, filled, rfl, fit, reached, split⟩
            exact ⟨⟨announced, fit⟩, reached, octets_tableSwitch_iff.mpr ⟨zs, filled, split⟩⟩
          · intro spelled
            obtain ⟨default, low, high, targets, rfl⟩ := isOfForm_of_form (spelled.form announced)
            obtain ⟨zs, filled, split⟩ := octets_tableSwitch_iff.mp spelled.octets
            exact ⟨zs, default, low, high, targets, filled, rfl, spelled.canonical.operands,
              spelled.targets, split⟩
      | lookupSwitch =>
          obtain rfl := Opcode.eq_of_form announced rfl
          constructor
          · rintro ⟨zs, default, pairs, filled, rfl, fit, reached, split⟩
            exact ⟨⟨announced, fit⟩, reached, octets_lookupSwitch_iff.mpr ⟨zs, filled, split⟩⟩
          · intro spelled
            obtain ⟨default, pairs, rfl⟩ := isOfForm_of_form (spelled.form announced)
            obtain ⟨zs, filled, split⟩ := octets_lookupSwitch_iff.mp spelled.octets
            exact ⟨zs, default, pairs, filled, rfl, spelled.canonical.operands, spelled.targets, split⟩
      | _ => exact Iff.rfl

theorem Spells.ne_nil {bs : Bytes} {insn : Instruction} (h : insn.Spells length pos bs) :
    bs ≠ [] := by
  rintro rfl
  obtain ⟨out, -, settled⟩ := h.octets
  obtain ⟨ms, marked⟩ := insn.marks_eq pos
  rw [marked] at settled
  cases settled

/-- Instructions are read from exactly the octets that stand for them. -/
theorem accepts_read (length : Nat) :
    Accepts (read length) (fun pos bs insn => insn.Spells length pos bs) := by
  rw [read_eq]
  refine Accepts.congr (accepts_position.bind fun pos => accepts_u8.bind fun op =>
    accepts_readOperands) fun p bs insn => ⟨?_, ?_⟩
  · rintro ⟨_, _, _, rfl, ⟨rfl, rfl⟩, op, _, bs, rfl, rfl, described⟩
    exact operands_iff.mp described
  · intro spelled
    cases bs with
    | nil => exact absurd rfl spelled.ne_nil
    | cons op bs =>
        exact ⟨p, [], _, rfl, ⟨rfl, rfl⟩, op, [op], bs, rfl, rfl, operands_iff.mpr spelled⟩

end Instruction

end JarGate
