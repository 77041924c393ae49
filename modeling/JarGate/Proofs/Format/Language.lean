import JarGate.Proofs.Format.CodeArrays

/-!
# The language of code arrays

Which lists of instructions a code array can hold, said without the reader and the writer: the
instructions lie end to end, each is in one of the forms of the format, each branch goes to the start of
an instruction, and each branch of 16 bits is short enough. Such lists are what is written and read back,
and what is read from any octets is such a list.
-/

namespace JarGate

open Mark

/-- Opcodes of instructions that have no operands. -/
def Opcode.standsAlone (op : UInt8) : Bool :=
  op ≤ 0x0f || (0x1a ≤ op && op ≤ 0x35) || (0x3b ≤ op && op ≤ 0x83) || (0x85 ≤ op && op ≤ 0x98) ||
    (0xac ≤ op && op ≤ 0xb1) || op == 0xbe || op == 0xbf || op == 0xc2 || op == 0xc3

namespace Opcode

/-- The classes of opcodes decide the form of the operands. -/
theorem form?_eq_of_class : ∀ op,
    (form? op = some .none ↔ standsAlone op) ∧ (form? op = some .localVar ↔ hasLocal op) ∧
      (form? op = some .constant ↔ hasConstant op) ∧ (form? op = some .branch ↔ isBranch op) ∧
      (form? op = some .wideBranch ↔ isWideBranch op) := by
  decide +kernel

end Opcode

namespace Instruction

/-- Whether an instruction is in one of the forms of the format: its opcode is one for its operands, the
short forms are enough for what they hold, and a switch has a target for each key of its range. -/
def Suited : Instruction → Prop
  | simple op => Opcode.standsAlone op
  | localVar op index wide => Opcode.hasLocal op ∧ (wide = false → index.toNat < 0x100)
  | iinc index delta wide =>
    wide = false → index.toNat < 0x100 ∧ -0x80 ≤ delta.toInt ∧ delta.toInt < 0x80
  | constant op _ => Opcode.hasConstant op
  | branch op _ => Opcode.isBranch op
  | wideBranch op _ => Opcode.isWideBranch op
  | tableSwitch _ low high targets =>
    low.toInt ≤ high.toInt ∧ (targets.length : Int) = high.toInt - low.toInt + 1
  | _ => True

/-- Whether a code array can hold some instructions. -/
structure Expressible (placed : List Placed) : Prop where
  tiles : tilesFrom 0 placed
  suited : ∀ p ∈ placed, p.instruction.Suited
  targets : ∀ p ∈ placed, ∀ t ∈ p.instruction.targets, t ∈ placed.map Placed.offset
  near : ∀ p ∈ placed, ∀ op t, p.instruction = branch op t →
    -0x8000 ≤ (t : Int) - p.offset ∧ (t : Int) - p.offset < 0x8000

variable {insn : Instruction} {pos : Nat} {placed : List Placed} {code out : Bytes}

/-! ### Forms -/

theorem Canonical.suited (canonical : insn.Canonical) : insn.Suited := by
  obtain ⟨form, fit⟩ := canonical
  cases insn with
  | simple op => exact (Opcode.form?_eq_of_class op).1.mp form
  | constant op index => exact (Opcode.form?_eq_of_class op).2.2.1.mp form
  | branch op target => exact (Opcode.form?_eq_of_class op).2.2.2.1.mp form
  | wideBranch op target => exact (Opcode.form?_eq_of_class op).2.2.2.2.mp form
  | localVar op index wide => exact fit
  | iinc index delta wide => exact fit
  | tableSwitch default low high targets => exact fit
  | _ => trivial

/-- The size of a switch leaves no room for more keys than can be counted. -/
theorem Suited.canonical (suited : insn.Suited) (small : insn.size pos < 0x80000000) :
    insn.Canonical := by
  cases insn with
  | simple op => exact ⟨(Opcode.form?_eq_of_class op).1.mpr suited, trivial⟩
  | constant op index => exact ⟨(Opcode.form?_eq_of_class op).2.2.1.mpr suited, trivial⟩
  | branch op target => exact ⟨(Opcode.form?_eq_of_class op).2.2.2.1.mpr suited, trivial⟩
  | wideBranch op target => exact ⟨(Opcode.form?_eq_of_class op).2.2.2.2.mpr suited, trivial⟩
  | localVar op index wide =>
      cases wide with
      | true => exact ⟨rfl, suited⟩
      | false => exact ⟨(Opcode.form?_eq_of_class op).2.1.mpr suited.1, suited⟩
  | iinc index delta wide => cases wide <;> exact ⟨rfl, suited⟩
  | tableSwitch default low high targets => exact ⟨rfl, suited⟩
  | lookupSwitch default pairs =>
      refine ⟨rfl, ?_⟩
      simp only [size] at small
      change pairs.length < 0x80000000
      omega
  | _ => exact ⟨rfl, trivial⟩

/-! ### Writing -/

theorem exists_write (suited : insn.Suited)
    (near : ∀ op t, insn = branch op t → -0x8000 ≤ (t : Int) - pos ∧ (t : Int) - pos < 0x8000) :
    ∃ chunk, insn.write pos = .ok chunk := by
  cases insn with
  | localVar op index wide =>
      cases wide with
      | true => exact ⟨_, rfl⟩
      | false =>
          have short := narrowIndex_eq_ok_iff.mpr ⟨suited.2 rfl, rfl⟩
          rw [write, short]
          exact ⟨_, rfl⟩
  | iinc index delta wide =>
      cases wide with
      | true => exact ⟨_, rfl⟩
      | false =>
          obtain ⟨indexed, changed⟩ := suited rfl
          have short := narrowIndex_eq_ok_iff.mpr ⟨indexed, rfl⟩
          have short' := narrowDelta_eq_ok_iff.mpr ⟨changed, rfl⟩
          rw [write, short, short']
          exact ⟨_, rfl⟩
  | branch op t =>
      have reached := distance16_eq_ok_iff.mpr ⟨near op t rfl, rfl⟩
      rw [write, reached]
      exact ⟨_, rfl⟩
  | _ => exact ⟨_, rfl⟩

/-- What an instruction is written as, by itself. -/
def ChunkOf (p : Placed) (chunk : Bytes) : Prop :=
  p.instruction.write p.offset = .ok chunk ∧ chunk.length = p.instruction.size p.offset

theorem exists_chunks (tiles : tilesFrom pos placed)
    (each : ∀ p ∈ placed, ∃ chunk, p.instruction.write p.offset = .ok chunk) :
    ∃ chunks, List.Forall₂ ChunkOf placed chunks ∧ writeOnto [] pos placed = .ok chunks.flatten := by
  induction placed generalizing pos with
  | nil => exact ⟨[], .nil, rfl⟩
  | cons p ps ih =>
      rw [tilesFrom, Bool.and_eq_true, beq_iff_eq] at tiles
      obtain ⟨rfl, tiles⟩ := tiles
      obtain ⟨⟨chunk, written⟩, each⟩ := List.forall_mem_cons.mp each
      obtain ⟨chunks, all, later⟩ := ih tiles each
      exact ⟨chunk :: chunks, .cons ⟨written, write_length written⟩ all,
        writeOnto_cons_iff.mpr ⟨rfl, chunk, _, written, later, rfl⟩⟩

theorem size_le_of_chunks {chunks : List Bytes} (all : List.Forall₂ ChunkOf placed chunks) :
    ∀ p ∈ placed, p.instruction.size p.offset ≤ chunks.flatten.length := by
  intro p member
  obtain ⟨chunk, inside, -, len⟩ := exists_of_forall₂ all p member
  rw [← len]
  exact (List.sublist_flatten_of_mem inside).length_le

/-! ### Reading -/

theorem expressible_of_written (wellFormed : WellFormed placed) (written : writeAll placed = .ok out) :
    Expressible placed where
  tiles := tiles_of_write written
  suited := fun p member => (wellFormed.canonical p member).suited
  targets := wellFormed.targets
  near := by
    have each {pos : Nat} {ps : List Placed} {out : Bytes} (written : writeOnto [] pos ps = .ok out) :
        ∀ p ∈ ps, ∃ chunk, p.instruction.write p.offset = .ok chunk := by
      induction ps generalizing pos out with
      | nil => nofun
      | cons p ps ih =>
          obtain ⟨rfl, chunk, rest, first, later, -⟩ := writeOnto_cons_iff.mp written
          exact List.forall_mem_cons.mpr ⟨⟨chunk, first⟩, ih later⟩
    intro p member op t same
    obtain ⟨chunk, here⟩ := each written p member
    rw [same] at here
    obtain ⟨bs, reached, -⟩ := bind_eq_ok_iff.mp here
    exact (distance16_eq_ok_iff.mp reached).1

/-- The reader accepts just the language of the writer. Instructions that a code array can hold, of fewer
than 2³¹ octets, are written with as many octets each as their sizes say, and are read back from these.
What is read from any octets are instructions that a code array can hold, and they are written as the
same octets, except that reserved ones become zero: the padding of switches, the last octet of an
interface call, and the last two of a dynamic call. -/
theorem reader_accepts_written :
    (∀ placed, Expressible placed → endOf placed < 0x80000000 →
      ∃ chunks, List.Forall₂ ChunkOf placed chunks ∧ writeAll placed = .ok chunks.flatten ∧
        readAll chunks.flatten = .ok placed) ∧
    ∀ code placed, readAll code = .ok placed →
      Expressible placed ∧
        ∃ out, writeAll placed = .ok out ∧ Settled (listingMarks placed) code out := by
  constructor
  · intro placed sound small
    obtain ⟨chunks, all, written⟩ := exists_chunks sound.tiles fun p member =>
      exists_write (sound.suited p member) (sound.near p member)
    rw [← length_of_writeAll written] at small
    have canonical : ∀ p ∈ placed, p.instruction.Canonical := fun p member =>
      (sound.suited p member).canonical (Nat.lt_of_le_of_lt (size_le_of_chunks all p member) small)
    exact ⟨chunks, all, written, readAll_of_written small ⟨canonical, sound.targets⟩ written
      (settled_of_writeOnto written)⟩
  · intro code placed read
    obtain ⟨wellFormed, out, written, settled⟩ := written_of_readAll read
    exact ⟨expressible_of_written wellFormed written, out, written, settled⟩

/-- Code with short and wide operands, calls with reserved octets, and a switch of either kind. The
octets in `pad` are reserved. -/
def mixedOctets (pad : UInt8) : Bytes :=
  [0xc4, 0x15, 1, 0] ++ [0x84, 9, 0xff] ++ [0xb9, 0, 7, 1, pad] ++ [0xba, 0, 8, pad, pad] ++
    [0xaa, pad, pad, 0xff, 0xff, 0xff, 0xef, 0, 0, 0, 5, 0, 0, 0, 5, 0, 0, 0, 19] ++
    [0xab, pad, pad, pad, 0, 0, 0, 12, 0, 0, 0, 0] ++ [0xa7, 0xff, 0xdc]

/-- What these octets stand for. -/
def mixedCode : List Placed :=
  [⟨0, .localVar 0x15 256 true⟩, ⟨4, .iinc 9 (-1) false⟩, ⟨7, .invokeInterface 7 1⟩,
    ⟨12, .invokeDynamic 8⟩, ⟨17, .tableSwitch 0 5 5 [36]⟩, ⟨36, .lookupSwitch 48 []⟩,
    ⟨48, .branch 0xa7 12⟩]

theorem reader_accepts_written_mixed :
    (Expressible mixedCode ∧ ∃ chunks, List.Forall₂ ChunkOf mixedCode chunks ∧
      writeAll mixedCode = .ok chunks.flatten ∧ readAll chunks.flatten = .ok mixedCode) ∧
    readAll (mixedOctets 9) = .ok mixedCode ∧ writeAll mixedCode = .ok (mixedOctets 0) ∧
    Settled (listingMarks mixedCode) (mixedOctets 9) (mixedOctets 0) := by
  obtain ⟨written, read⟩ := reader_accepts_written
  have accepted : readAll (mixedOctets 9) = .ok mixedCode := by cbv
  have zeros : writeAll mixedCode = .ok (mixedOctets 0) := by decide +kernel
  obtain ⟨sound, out, same, settled⟩ := read _ _ accepted
  obtain rfl := Except.ok.inj (zeros.symm.trans same)
  exact ⟨⟨sound, written mixedCode sound (by decide)⟩, accepted, zeros, settled⟩

end Instruction

end JarGate
