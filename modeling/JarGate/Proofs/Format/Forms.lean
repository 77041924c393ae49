import JarGate.ClassFile.CodeArray
import JarGate.Proofs.Format.Marks
import JarGate.Proofs.Format.Tables

/-!
# Forms of instructions

The first octet of an instruction decides which operands follow, and the reader tells the forms apart
by one test after another. Here the form is a value, so that a form and an instruction can be
compared, and an instruction is canonical when it has the form that its first octet announces.
-/

namespace JarGate

/-- The forms of operands. -/
inductive OperandForm where
  | bipush | sipush | ldc | ldcW | ldc2W | localVar | iinc | wide | constant | invokeInterface
  | invokeDynamic | newArray | multiNewArray | branch | wideBranch | tableSwitch | lookupSwitch
  | none
  deriving DecidableEq, Repr

/-- The form of the operands behind a first octet; nothing where no instruction starts with it. -/
def Opcode.form? (op : UInt8) : Option OperandForm :=
  if op = bipush then some .bipush
  else if op = sipush then some .sipush
  else if op = ldc then some .ldc
  else if op = ldcW then some .ldcW
  else if op = ldc2W then some .ldc2W
  else if hasLocal op then some .localVar
  else if op = iinc then some .iinc
  else if op = wide then some .wide
  else if hasConstant op then some .constant
  else if op = invokeinterface then some .invokeInterface
  else if op = invokedynamic then some .invokeDynamic
  else if op = newarray then some .newArray
  else if op = multianewarray then some .multiNewArray
  else if isBranch op then some .branch
  else if isWideBranch op then some .wideBranch
  else if op = tableswitch then some .tableSwitch
  else if op = lookupswitch then some .lookupSwitch
  else if (stackEffect? op).isSome then some .none
  else Option.none

/-- The only first octet of a form, where there is only one. -/
def OperandForm.opcode? : OperandForm → Option UInt8
  | bipush => some Opcode.bipush
  | sipush => some Opcode.sipush
  | ldc => some Opcode.ldc
  | ldcW => some Opcode.ldcW
  | ldc2W => some Opcode.ldc2W
  | iinc => some Opcode.iinc
  | wide => some Opcode.wide
  | invokeInterface => some Opcode.invokeinterface
  | invokeDynamic => some Opcode.invokedynamic
  | newArray => some Opcode.newarray
  | multiNewArray => some Opcode.multianewarray
  | tableSwitch => some Opcode.tableswitch
  | lookupSwitch => some Opcode.lookupswitch
  | localVar | constant | branch | wideBranch | none => Option.none

namespace Opcode

/-- Whether a first octet is among those of a form. -/
def suits (op : UInt8) (f : OperandForm) : Bool :=
  f.opcode?.all (· == op) && (f != .localVar || hasLocal op)

theorem suits_form : ∀ op, (form? op).all (suits op) := by
  decide +kernel

theorem eq_of_form {op o : UInt8} {f : OperandForm} (h : form? op = some f)
    (only : f.opcode? = some o) : op = o := by
  have suited := suits_form op
  rw [h] at suited
  simp only [Option.all_some, suits, only, Bool.and_eq_true, beq_iff_eq] at suited
  exact suited.1.symm

theorem hasLocal_of_form {op : UInt8} (h : form? op = some .localVar) : hasLocal op := by
  have suited := suits_form op
  rw [h] at suited
  simpa [suits, OperandForm.opcode?] using suited

end Opcode

namespace Instruction

open Decoder

/-- The form of the operands of an instruction. -/
def form : Instruction → OperandForm
  | simple _ => .none
  | bipush _ => .bipush
  | sipush _ => .sipush
  | ldc _ => .ldc
  | ldcW _ => .ldcW
  | ldc2W _ => .ldc2W
  | localVar _ _ wide => if wide then .wide else .localVar
  | iinc _ _ wide => if wide then .wide else .iinc
  | constant _ _ => .constant
  | invokeInterface _ _ => .invokeInterface
  | invokeDynamic _ => .invokeDynamic
  | newArray _ => .newArray
  | multiNewArray _ _ => .multiNewArray
  | branch _ _ => .branch
  | wideBranch _ _ => .wideBranch
  | tableSwitch _ _ _ _ => .tableSwitch
  | lookupSwitch _ _ => .lookupSwitch

/-- Whether an instruction is one of those with a form. -/
def IsOfForm (insn : Instruction) : OperandForm → Prop
  | .none => ∃ op, insn = simple op
  | .bipush => ∃ value, insn = bipush value
  | .sipush => ∃ value, insn = sipush value
  | .ldc => ∃ index, insn = ldc index
  | .ldcW => ∃ index, insn = ldcW index
  | .ldc2W => ∃ index, insn = ldc2W index
  | .localVar => ∃ op index, insn = localVar op index false
  | .iinc => ∃ index delta, insn = iinc index delta false
  | .wide => (∃ op index, insn = localVar op index true) ∨ ∃ index delta, insn = iinc index delta true
  | .constant => ∃ op index, insn = constant op index
  | .invokeInterface => ∃ index count, insn = invokeInterface index count
  | .invokeDynamic => ∃ index, insn = invokeDynamic index
  | .newArray => ∃ kind, insn = newArray kind
  | .multiNewArray => ∃ index dimensions, insn = multiNewArray index dimensions
  | .branch => ∃ op target, insn = branch op target
  | .wideBranch => ∃ op target, insn = wideBranch op target
  | .tableSwitch => ∃ default low high targets, insn = tableSwitch default low high targets
  | .lookupSwitch => ∃ default pairs, insn = lookupSwitch default pairs

/-- The form of an instruction tells which instruction it is. -/
theorem isOfForm_of_form {insn : Instruction} {f : OperandForm} (form : insn.form = f) :
    insn.IsOfForm f := by
  subst form
  cases insn with
  | localVar op index wide =>
      cases wide with
      | true => exact .inl ⟨op, index, rfl⟩
      | false => exact ⟨op, index, rfl⟩
  | iinc index delta wide =>
      cases wide with
      | true => exact .inr ⟨index, delta, rfl⟩
      | false => exact ⟨index, delta, rfl⟩
  | multiNewArray index dimensions => exact ⟨index, dimensions, rfl⟩
  | simple op => exact ⟨op, rfl⟩
  | constant op index => exact ⟨op, index, rfl⟩
  | invokeInterface index count => exact ⟨index, count, rfl⟩
  | branch op target => exact ⟨op, target, rfl⟩
  | wideBranch op target => exact ⟨op, target, rfl⟩
  | tableSwitch default low high targets => exact ⟨default, low, high, targets, rfl⟩
  | lookupSwitch default pairs => exact ⟨default, pairs, rfl⟩
  | _ => exact ⟨_, rfl⟩

/-- The first octet of an instruction. -/
def lead (insn : Instruction) : UInt8 :=
  if insn.form = .wide then Opcode.wide else insn.opcode

/-- Whether the operands are such that they can be read back: the short forms suffice for them, and
a switch has as many targets as its bounds say. -/
def OperandsFit : Instruction → Prop
  | localVar op index wide => Opcode.hasLocal op ∧ (wide = false → index.toNat < 0x100)
  | iinc index delta wide =>
    wide = false → index.toNat < 0x100 ∧ -128 ≤ delta.toInt ∧ delta.toInt < 128
  | tableSwitch _ low high targets =>
    low.toInt ≤ high.toInt ∧ (targets.length : Int) = high.toInt - low.toInt + 1
  | lookupSwitch _ pairs => pairs.length < 0x80000000
  | _ => True

/-- An instruction as it is when it was read. -/
structure Canonical (insn : Instruction) : Prop where
  form : Opcode.form? insn.lead = some insn.form
  operands : insn.OperandsFit

/-- What follows a first octet, by the form of its operands. -/
def readOperands (length pos : Nat) (op : UInt8) : Option OperandForm → Decoder Instruction
  | some .bipush => do return bipush (← i8)
  | some .sipush => do return sipush (← i16)
  | some .ldc => do return ldc (← u8)
  | some .ldcW => do return ldcW (← u16)
  | some .ldc2W => do return ldc2W (← u16)
  | some .localVar => do return localVar op (← u8).toUInt16 false
  | some .iinc => do return iinc (← u8).toUInt16 (← i8).toInt16 false
  | some .wide => readWide pos
  | some .constant => do return constant op (← u16)
  | some .invokeInterface => do
    let index ← u16
    let count ← u8
    let _ ← u8
    return invokeInterface index count
  | some .invokeDynamic => do
    let index ← u16
    let _ ← u16
    return invokeDynamic index
  | some .newArray => do return newArray (← u8)
  | some .multiNewArray => do return multiNewArray (← u16) (← u8)
  | some .branch => do return branch op (← targetAt pos length (← i16).toInt)
  | some .wideBranch => do return wideBranch op (← readTarget pos length)
  | some .tableSwitch => readTableSwitch pos length
  | some .lookupSwitch => readLookupSwitch pos length
  | some .none => pure (simple op)
  | Option.none => fault (.badOpcode op pos)

/-- The reader's tests on the first octet amount to its form. -/
theorem read_eq (length : Nat) : read length = (do
    let pos ← position
    let op ← u8
    readOperands length pos op (Opcode.form? op)) := by
  unfold read
  congr 1
  funext pos
  congr 1
  funext op
  simp only [Opcode.form?, apply_ite (readOperands length pos op)]
  rfl

end Instruction

end JarGate
