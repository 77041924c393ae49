import JarGate.ClassFile.Code.Depth
import JarGate.Proofs.Pool.Lookups

/-!
# Failures of stack effects

The stack effect of an instruction may depend on a descriptor in the pool. Whatever goes wrong when that
is looked up and read, the class file is malformed.
-/

namespace JarGate

variable {α β : Type}

/-- Whether a computation fails for malformed class files only. -/
def FaultsOnly (x : Except ClassError α) : Prop :=
  ∀ e, x = .error e → ∃ why, e = .malformed why

namespace FaultsOnly

theorem ok (a : α) : FaultsOnly (.ok a) := nofun

theorem fault (why : Fault) : FaultsOnly (.error (.malformed why) : Except ClassError α) := by
  intro e failed
  cases failed
  exact ⟨why, rfl⟩

theorem bind {x : Except ClassError α} {f : α → Except ClassError β} (first : FaultsOnly x)
    (rest : ∀ a, FaultsOnly (f a)) : FaultsOnly (x >>= f) := by
  intro e failed
  cases x with
  | error e' =>
      cases failed
      exact first e rfl
  | ok a => exact rest a e failed

end FaultsOnly

namespace ConstantPool

variable (pool : ConstantPool) (index : UInt16)

theorem faultsOnly_get : FaultsOnly (pool.get index) := fun _ => get_error

theorem faultsOnly_utf8 : FaultsOnly (pool.utf8 index) := by
  refine .bind (fun _ => utf8Octets_error) fun octets => ?_
  split
  · exact .ok _
  · exact .fault _

theorem faultsOnly_className : FaultsOnly (pool.className index) := by
  refine .bind (faultsOnly_get pool index) fun c => ?_
  split
  · exact faultsOnly_utf8 pool _
  · exact .fault _

theorem faultsOnly_nameAndType : FaultsOnly (pool.nameAndType index) := by
  refine .bind (faultsOnly_get pool index) fun c => ?_
  split
  · exact .bind (faultsOnly_utf8 pool _) fun _ => .bind (faultsOnly_utf8 pool _) fun _ => .ok _
  · exact .fault _

theorem faultsOnly_memberRef : FaultsOnly (pool.memberRef index) := by
  refine .bind (faultsOnly_get pool index) fun c => ?_
  split
  iterate 3
    exact .bind (faultsOnly_nameAndType pool _) fun _ => .bind (faultsOnly_className pool _) fun _ => .ok _
  exact .fault _

theorem faultsOnly_dynamicDescriptor : FaultsOnly (pool.dynamicDescriptor index) := by
  refine .bind (faultsOnly_get pool index) fun c => ?_
  split
  iterate 2 exact .bind (faultsOnly_nameAndType pool _) fun _ => .ok _
  exact .fault _

end ConstantPool

theorem FieldType.faultsOnly_parse (text : String) : FaultsOnly (FieldType.parse text) := by
  rw [parse]
  split
  · exact .ok _
  · exact .fault _

theorem MethodDescriptor.faultsOnly_parse (text : String) : FaultsOnly (MethodDescriptor.parse text) := by
  rw [parse]
  split
  · exact .ok _
  · exact .fault _

namespace Instruction

variable (pool : ConstantPool) (index : UInt16)

theorem faultsOnly_callEffect (receiver : UInt16) : FaultsOnly (callEffect pool index receiver) :=
  .bind (pool.faultsOnly_memberRef index) fun _ =>
    .bind (MethodDescriptor.faultsOnly_parse _) fun _ => .ok _

theorem faultsOnly_fieldSlots : FaultsOnly (fieldSlots pool index) :=
  .bind (pool.faultsOnly_memberRef index) fun _ => .bind (FieldType.faultsOnly_parse _) fun _ => .ok _

theorem faultsOnly_plainEffect (op : UInt8) : FaultsOnly (plainEffect op) := by
  rw [plainEffect]
  split
  · exact .ok _
  · exact .fault _

/-- Where an instruction has no stack effect in a pool, the class file is malformed. -/
theorem faultsOnly_stackEffect (insn : Instruction) : FaultsOnly (insn.stackEffect pool) := by
  cases insn with
  | constant op index =>
      rw [stackEffect]
      split_ifs
      · exact .bind (faultsOnly_fieldSlots pool index) fun _ => .ok _
      · exact .bind (faultsOnly_fieldSlots pool index) fun _ => .ok _
      · exact .bind (faultsOnly_fieldSlots pool index) fun _ => .ok _
      · exact .bind (faultsOnly_fieldSlots pool index) fun _ => .ok _
      · exact faultsOnly_callEffect pool index 1
      · exact faultsOnly_callEffect pool index 0
      · exact faultsOnly_plainEffect op
  | invokeInterface index _ => exact faultsOnly_callEffect pool index 1
  | invokeDynamic index =>
      exact .bind (pool.faultsOnly_dynamicDescriptor index) fun _ =>
        .bind (MethodDescriptor.faultsOnly_parse _) fun _ => .ok _
  | multiNewArray _ dimensions => exact .ok _
  | _ =>
      simp only [stackEffect]
      exact faultsOnly_plainEffect _

end Instruction

end JarGate
