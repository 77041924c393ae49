import JarGate.Proofs.Injection.Failures
import JarGate.Proofs.Injection.Refusal

/-!
# Which methods are passed over

An injection passes over a method for one of two reasons: the method cannot be left early, which its type
tells, or it calls the gate already. The type never changes, and neither does the first instruction while
other methods are injected into. What may change is what that instruction calls: an index behind the end of
the pool comes to stand for a constant once the pool has grown that far. For all other instructions it makes
no difference what was injected before.
-/

namespace JarGate

open Instruction (simple)

namespace Prologue

variable {options : PrologueOptions} {index i : Nat} {c c' : ClassFile} {m : MethodInfo} {code : Code}
  {descriptor : MethodDescriptor} {p q : ConstantPool}

/-! ### Methods that cannot be left -/

/-- Whether a method would have to be left early that has a result other than a truth value, without leave
to make one up. -/
def Unleavable (options : PrologueOptions) (descriptor : MethodDescriptor) : Prop :=
  options.shape = .earlyReturn ∧ descriptor.result ≠ none ∧ descriptor.result ≠ some .boolean ∧
    options.approximateDefaults = false

theorem exists_exitFor_error_iff :
    (∃ err, exitFor options descriptor = .error err) ↔ Unleavable options descriptor := by
  obtain ⟨shape, approximate⟩ := options
  cases shape with
  | callOnly => simp [exitFor, Unleavable]
  | earlyReturn =>
      simp only [exitFor, Unleavable, true_and]
      unfold exitSequence
      split
      next none => simp [none]
      next boolean => simp [boolean]
      next t other found =>
        have other : t ≠ .boolean := other
        cases approximate with
        | false => simp [found, other]
        | true => simp

/-! ### Methods that call the gate already -/

/-- Whether the first instruction of code that is no `nop` calls a static method through an index that a pool
does not have. -/
def Strays (pool : ConstantPool) (code : Code) (ref : UInt16) : Prop :=
  ∃ nops first rest, code.instructions = nops ++ first :: rest ∧
    (∀ n ∈ nops, n.instruction = simple Opcode.nop) ∧
    first.instruction = .constant Opcode.invokestatic ref ∧ pool.count ≤ ref.toNat

/-- Code comes to start with the call of the gate only if it strays. -/
theorem startsWithCall_grown_iff (sound : p.WellFormed) (grown : p.Extends q) :
    StartsWithCall q code ↔ StartsWithCall p code ∨ ∃ ref, Strays p code ref ∧
      q.memberRef ref = .ok ⟨"jarlock/runtime/LicenseGate", "check", "()Z"⟩ := by
  constructor
  · rintro ⟨nops, first, rest, ref, whole, skipped, call, resolved⟩
    rcases Nat.lt_or_ge ref.toNat p.count with inside | outside
    · exact .inl ⟨nops, first, rest, ref, whole, skipped, call,
        grown.memberRef_of_lt sound inside resolved⟩
    · exact .inr ⟨ref, ⟨nops, first, rest, whole, skipped, call, outside⟩, resolved⟩
  · rintro (starts | ⟨ref, ⟨nops, first, rest, whole, skipped, call, -⟩, resolved⟩)
    · exact starts.extends grown
    · exact ⟨nops, first, rest, ref, whole, skipped, call, resolved⟩

/-! ### Both reasons -/

/-- Whether an injection is passed over. -/
def PassedOver (options : PrologueOptions) (index : Nat) (c : ClassFile) : Prop :=
  ∃ err c', inject index options c = .error err c' ∧ err.isRecoverable = true

/-- A method with a body is passed over just if it calls the gate already or cannot be left. -/
theorem passedOver_iff {text : String} (sound : c.WellFormed) (found : c.methods[index]? = some m)
    (body : m.code? = some code) (read : c.methodDescriptor m = .ok text)
    (parsed : MethodDescriptor.parse text = .ok descriptor) :
    PassedOver options index c ↔ StartsWithCall c.pool code ∨ Unleavable options descriptor := by
  obtain ⟨name, named⟩ := (sound.methods m (List.mem_of_getElem? found)).name
  rw [PassedOver, inject_eq found named read parsed, body, ← callsGateFirst_iff,
    ← exists_exitFor_error_iff]
  dsimp only
  by_cases already : callsGateFirst c.pool code = true
  · rw [if_pos already]
    exact iff_of_true ⟨_, _, rfl, rfl⟩ (.inl already)
  · rw [if_neg already, or_iff_right already]
    cases left : exitFor options descriptor with
    | error err =>
        obtain ⟨type, rfl⟩ := exitFor_error left
        exact iff_of_true ⟨_, _, rfl, rfl⟩ ⟨_, rfl⟩
    | ok exit =>
        refine iff_of_false ?_ nofun
        rintro ⟨err, c', failed, recoverable⟩
        rw [fatal_rewrite _ _ _ _ _ _ _ _ _ _ _ failed] at recoverable
        cases recoverable

/-! ### Behind other injections -/

/-- What injections into other methods leave of a class: a method as it was, and a pool that has grown. -/
theorem kept_of_run {indices : List Nat} (sound : c.Patchable) (others : ∀ k ∈ indices, k ≠ i)
    (run : ClassEdit.run (indices.map fun k => .inject k options) c = some c') :
    c'.Patchable ∧ c.pool.Extends c'.pool ∧ c'.methods[i]? = c.methods[i]? := by
  induction indices generalizing c with
  | nil =>
      cases run
      exact ⟨sound, .refl _, rfl⟩
  | cons k ks ih =>
      obtain ⟨other, others⟩ := List.forall_mem_cons.mp others
      obtain ⟨d, first, rest⟩ := Option.bind_eq_some_iff.mp run
      have touched := touched_inject sound k options
      rw [ClassEdit.apply] at first
      split at first
      next done =>
        cases first
        rw [Edit.final, done] at touched
        obtain ⟨sound', grown, same⟩ := ih touched.patchable others rest
        exact ⟨sound', touched.pool.trans grown, same.trans (touched.others i other.symm)⟩
      next => cases first

/-- Behind injections into other methods, a method is passed over if it was so before, or if it strays to
a reference that these injections made. -/
theorem passedOver_run_iff {indices : List Nat} {text : String} (sound : c.Patchable)
    (found : c.methods[i]? = some m) (body : m.code? = some code)
    (read : c.methodDescriptor m = .ok text) (parsed : MethodDescriptor.parse text = .ok descriptor)
    (others : ∀ k ∈ indices, k ≠ i)
    (run : ClassEdit.run (indices.map fun k => .inject k options) c = some c') :
    PassedOver options i c' ↔ Unleavable options descriptor ∨ StartsWithCall c.pool code ∨
      ∃ ref, Strays c.pool code ref ∧
        c'.pool.memberRef ref = .ok ⟨"jarlock/runtime/LicenseGate", "check", "()Z"⟩ := by
  obtain ⟨sound', grown, same⟩ := kept_of_run sound others run
  rw [passedOver_iff sound'.toWellFormed (same.trans found) body (grown.utf8 read) parsed,
    startsWithCall_grown_iff sound.pool grown, or_comm]

end Prologue

end JarGate
