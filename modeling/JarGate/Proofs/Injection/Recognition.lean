import JarGate.Proofs.Injection.Prologue

/-!
# Recognizing the gate call

A method that the gate call was injected into is recognized by its first instruction that is no `nop`. It
stays recognized when the pool grows, so that a method which does not call the gate has never been
injected into.
-/

namespace JarGate

open Instruction (simple)

namespace Prologue

open ConstantPool (Grown)

variable {pool : ConstantPool} {code : Code} {gateRef : UInt16}

/-! ### The reference to the gate -/

/-- Whether an index is that of the reference to the gate. -/
def IsGate (pool : ConstantPool) (gateRef : UInt16) : Prop :=
  (∃ o n, pool.get gateRef = .ok (.methodRef o n)) ∧
    pool.memberRef gateRef = .ok ⟨gateName.owner, gateName.method, gateName.descriptor⟩

theorem IsGate.extends {p q : ConstantPool} {gateRef : UInt16} (h : IsGate p gateRef)
    (grown : p.Extends q) : IsGate q gateRef := by
  obtain ⟨⟨o, n, found⟩, member⟩ := h
  exact ⟨⟨o, n, grown.get found⟩, grown.memberRef member⟩

theorem grown_addGate {p q : ConstantPool} {gateRef : UInt16} (sound : p.WellFormed)
    (h : addGate p = .ok gateRef q) : Grown p q ∧ IsGate q gateRef := by
  have added := ConstantPool.adds_methodRef ConstantPool.persistent_true gateName.owner gateName.method
    gateName.descriptor
  obtain ⟨grown, found, -⟩ := added.run sound trivial h
  exact ⟨grown, found⟩

/-! ### Recognizing the call -/

/-- Whether the first instruction of code that is no `nop` calls the static method `check()Z` of the class
`jarlock/runtime/LicenseGate`. -/
def StartsWithCall (pool : ConstantPool) (code : Code) : Prop :=
  ∃ nops p rest ref, code.instructions = nops ++ p :: rest ∧
    (∀ q ∈ nops, q.instruction = simple Opcode.nop) ∧
    p.instruction = .constant Opcode.invokestatic ref ∧
    pool.memberRef ref = .ok ⟨"jarlock/runtime/LicenseGate", "check", "()Z"⟩

theorem isGateCall_iff {insn : Instruction} : isGateCall pool insn = true ↔
    ∃ ref, insn = .constant Opcode.invokestatic ref ∧
      pool.memberRef ref = .ok ⟨"jarlock/runtime/LicenseGate", "check", "()Z"⟩ := by
  constructor
  · intro calls
    unfold isGateCall at calls
    split at calls
    next op ref =>
      rw [Bool.and_eq_true, beq_iff_eq] at calls
      obtain ⟨rfl, found⟩ := calls
      refine ⟨ref, rfl, ?_⟩
      split at found
      next r there =>
        obtain ⟨owner, name, descriptor⟩ := r
        simp only [Bool.and_eq_true, beq_iff_eq] at found
        obtain ⟨⟨rfl, rfl⟩, rfl⟩ := found
        exact there
      next => cases found
    next => cases calls
  · rintro ⟨ref, rfl, found⟩
    rw [isGateCall, found]
    rfl

theorem callsGateFirst_iff : callsGateFirst pool code = true ↔ StartsWithCall pool code := by
  rw [callsGateFirst, StartsWithCall]
  constructor
  · intro calls
    split at calls
    next p found =>
      obtain ⟨-, nops, rest, split_, skipped⟩ := List.find?_eq_some_iff_append.mp found
      obtain ⟨ref, call, resolved⟩ := isGateCall_iff.mp calls
      refine ⟨nops, p, rest, ref, split_, ?_, call, resolved⟩
      intro q member
      simpa using skipped q member
    next => cases calls
  · rintro ⟨nops, p, rest, ref, split_, skipped, call, resolved⟩
    have found : code.instructions.find? (fun q => q.instruction != simple Opcode.nop) = some p := by
      refine List.find?_eq_some_iff_append.mpr ⟨?_, nops, rest, split_, ?_⟩
      · rw [call]
        rfl
      · intro q member
        simp [skipped q member]
    rw [found]
    exact isGateCall_iff.mpr ⟨ref, call, resolved⟩

theorem StartsWithCall.extends {p q : ConstantPool} (h : StartsWithCall p code) (grown : p.Extends q) :
    StartsWithCall q code := by
  obtain ⟨nops, first, rest, ref, split_, skipped, call, resolved⟩ := h
  exact ⟨nops, first, rest, ref, split_, skipped, call, grown.memberRef resolved⟩

/-- Code that does not call the gate did not do so before the pool grew. -/
theorem fresh_of_extends {p q : ConstantPool} (grown : p.Extends q)
    (fresh : callsGateFirst q code = false) : callsGateFirst p code = false := by
  by_contra calls
  rw [Bool.not_eq_false, callsGateFirst_iff] at calls
  rw [callsGateFirst_iff.mpr (calls.extends grown)] at fresh
  cases fresh

/-- Every prologue is recognized, whatever code it stands in front of. -/
theorem startsWithCall_prologueFor (gate : IsGate pool gateRef) (shape : PrologueShape)
    (result : Option FieldType) {len : Nat} :
    StartsWithCall pool (code.inFront (prologueFor gateRef shape result) len) := by
  have resolved := gate.2
  cases shape with
  | callOnly => exact ⟨[], _, _, gateRef, rfl, nofun, rfl, resolved⟩
  | earlyReturn =>
      cases result with
      | none =>
          refine ⟨[⟨0, simple Opcode.nop⟩], _, _, gateRef, rfl, ?_, rfl, resolved⟩
          intro q member
          rw [List.mem_singleton.mp member]
      | some t => exact ⟨[], _, _, gateRef, rfl, nofun, rfl, resolved⟩

end Prologue

end JarGate
