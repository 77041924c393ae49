import JarGate.ClassFile.Format
import JarGate.Proofs.Pool.Lookups

/-!
# Method bodies in growing pools

The octets of a method depend on the pool: the descriptors of the calls in its body decide how much stack
is declared. A pool that grows keeps every answer that it once gave, so a method that could be written is
still written, with the same octets.
-/

namespace JarGate

variable {α β : Type}

/-- Whether a computation answers whatever another one answers. Where the other one fails, it may do
anything. -/
def Keeps (x y : Except ClassError α) : Prop := ∀ a, x = .ok a → y = .ok a

namespace Keeps

theorem refl (x : Except ClassError α) : Keeps x x := fun _ found => found

theorem bind {x y : Except ClassError α} {f g : α → Except ClassError β} (first : Keeps x y)
    (rest : ∀ a, Keeps (f a) (g a)) : Keeps (x >>= f) (y >>= g) := by
  intro b done
  obtain ⟨a, found, then_⟩ := bind_eq_ok_iff.mp done
  exact bind_eq_ok_iff.mpr ⟨a, first a found, rest a b then_⟩

/-- The same steps behind a first one. -/
theorem bind_left {x y : Except ClassError α} (first : Keeps x y) (f : α → Except ClassError β) :
    Keeps (x >>= f) (y >>= f) :=
  first.bind fun a => .refl (f a)

theorem mapM {f g : α → Except ClassError β} {as : List α} (each : ∀ a ∈ as, Keeps (f a) (g a)) :
    Keeps (as.mapM f) (as.mapM g) := by
  induction as with
  | nil => exact .refl _
  | cons a as ih =>
      obtain ⟨here, behind⟩ := List.forall_mem_cons.mp each
      rw [List.mapM_cons, List.mapM_cons]
      exact here.bind fun b => (ih behind).bind_left _

end Keeps

section

variable {p q : ConstantPool} (grown : p.Extends q)

include grown

namespace Instruction

theorem keeps_callEffect (index receiver : UInt16) :
    Keeps (callEffect p index receiver) (callEffect q index receiver) := by
  have found : Keeps (p.memberRef index) (q.memberRef index) := fun _ => grown.memberRef
  exact found.bind_left _

theorem keeps_fieldSlots (index : UInt16) : Keeps (fieldSlots p index) (fieldSlots q index) := by
  have found : Keeps (p.memberRef index) (q.memberRef index) := fun _ => grown.memberRef
  exact found.bind_left _

theorem keeps_dynamicDescriptor (index : UInt16) :
    Keeps (p.dynamicDescriptor index) (q.dynamicDescriptor index) := by
  have signature (i : UInt16) : Keeps (p.nameAndType i) (q.nameAndType i) := fun _ => grown.nameAndType
  refine .bind (fun _ => grown.get) fun c => ?_
  split
  · exact (signature _).bind_left _
  · exact (signature _).bind_left _
  · exact nofun

theorem keeps_stackEffect (insn : Instruction) : Keeps (insn.stackEffect p) (insn.stackEffect q) := by
  cases insn with
  | constant op index =>
      simp only [stackEffect]
      split_ifs
      · exact (keeps_fieldSlots grown index).bind_left _
      · exact (keeps_fieldSlots grown index).bind_left _
      · exact (keeps_fieldSlots grown index).bind_left _
      · exact (keeps_fieldSlots grown index).bind_left _
      · exact keeps_callEffect grown index 1
      · exact keeps_callEffect grown index 0
      · exact .refl _
  | invokeInterface index _ => exact keeps_callEffect grown index 1
  | invokeDynamic index => exact (keeps_dynamicDescriptor grown index).bind_left _
  | _ => exact .refl _

end Instruction

namespace Code

theorem keeps_visit (positions : Std.HashMap Nat Nat) (index : Nat) (insn : Instruction) (s : Search) :
    Keeps (visit p positions index insn s) (visit q positions index insn s) :=
  (Instruction.keeps_stackEffect grown insn).bind_left _

/-- The search goes the same way, round by round, as long as each instruction has a stack effect. -/
theorem keeps_explore (positions : Std.HashMap Nat Nat) (insns : Array Placed) (rounds : Nat)
    (s : Search) : Keeps (explore p positions insns rounds s) (explore q positions insns rounds s) := by
  induction rounds generalizing s with
  | zero => exact .refl _
  | succ rounds ih =>
      rw [explore, explore]
      cases s.work with
      | nil => exact .refl _
      | cons index work =>
          dsimp only
          cases insns[index]? with
          | none => exact ih _
          | some placed =>
              -- Both searches look at the same instruction, and the grown pool answers what the other did.
              have visited := keeps_visit grown positions index placed.instruction { s with work }
              dsimp only
              cases first : visit p positions index placed.instruction { s with work } with
              | error e => exact nofun
              | ok s' =>
                  rw [visited s' first]
                  exact ih s'

theorem keeps_neededStack (c : Code) : Keeps (c.neededStack p) (c.neededStack q) := by
  rw [neededStack, neededStack]
  split
  · exact .refl _
  · exact .bind (.refl _) fun start => (keeps_explore grown _ _ _ start).bind_left _

theorem keeps_write (c : Code) (descriptor : MethodDescriptor) (isStatic : Bool) :
    Keeps (c.write p descriptor isStatic) (c.write q descriptor isStatic) := by
  have laidOut (c : Code) : Keeps (c.writeLaidOut p descriptor isStatic)
      (c.writeLaidOut q descriptor isStatic) := by
    refine .bind (.refl _) fun code => ?_
    dsimp only
    split
    · exact .refl _
    · exact (keeps_neededStack grown c).bind_left _
  rw [write, write]
  split
  · exact laidOut _
  · exact .refl _

end Code

end

namespace ClassFile

variable {c d : ClassFile} (grown : c.pool.Extends d.pool)

include grown

theorem keeps_writeMethodAttribute (m : MethodInfo) (a : MethodAttribute) :
    Keeps (c.writeMethodAttribute m a) (d.writeMethodAttribute m a) := by
  have described : Keeps (c.methodDescriptor m) (d.methodDescriptor m) := fun _ => grown.utf8
  cases a with
  | code name code =>
      exact described.bind fun text => .bind (.refl _) fun descriptor =>
        (Code.keeps_write grown code descriptor m.isStatic).bind_left _
  | raw r => exact .refl _

/-- A method that could be written is written with the same octets when the pool has grown. -/
theorem keeps_writeMethod (m : MethodInfo) : Keeps (c.writeMethod m) (d.writeMethod m) := by
  refine .bind (.bind (.refl _) fun count => ?_) fun _ => .refl _
  exact (Keeps.mapM fun a _ => keeps_writeMethodAttribute grown m a).bind_left _

end ClassFile

end JarGate
