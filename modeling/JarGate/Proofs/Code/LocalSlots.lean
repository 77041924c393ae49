import JarGate.Proofs.Code.Relayout
import JarGate.Proofs.Format.Excerpts

/-!
# Local variable slots

A method body that is written declares a number of local variable slots that covers its receiver and its
arguments, and every slot that an instruction touches, as far as the format can count. What needs more slots
than that is not refused, but written with the largest number there is.
-/

namespace JarGate

/-! ### What needs slots -/

/-- The kinds of values in local variables, in the order of the opcodes for them. -/
inductive LocalKind where
  | int | long | float | double | reference
  deriving DecidableEq

namespace LocalKind

/-- The place of a kind in the order of the opcodes. -/
def number : LocalKind → UInt8
  | int => 0
  | long => 1
  | float => 2
  | double => 3
  | reference => 4

/-- How many slots a value takes. -/
def width : LocalKind → Nat
  | long | double => 2
  | int | float | reference => 1

end LocalKind

/-- The slots that an instruction touches, by the first one and their number. There are loads and stores
with an index, and for each of the first four slots one without. -/
inductive Instruction.Touches : Instruction → Nat → Nat → Prop
  | load (kind : LocalKind) (index : UInt16) (wide : Bool) :
      Touches (.localVar (0x15 + kind.number) index wide) index.toNat kind.width
  | store (kind : LocalKind) (index : UInt16) (wide : Bool) :
      Touches (.localVar (0x36 + kind.number) index wide) index.toNat kind.width
  | ret (index : UInt16) (wide : Bool) : Touches (.localVar Opcode.ret index wide) index.toNat 1
  | iinc (index : UInt16) (delta : Int16) (wide : Bool) : Touches (.iinc index delta wide) index.toNat 1
  | loadFrom (kind : LocalKind) (slot : Fin 4) :
      Touches (.simple (0x1a + 4 * kind.number + UInt8.ofNat slot)) slot kind.width
  | storeTo (kind : LocalKind) (slot : Fin 4) :
      Touches (.simple (0x3b + 4 * kind.number + UInt8.ofNat slot)) slot kind.width

/-- How many slots the arguments of a method take. -/
def MethodDescriptor.slotsOfParams (d : MethodDescriptor) : Nat :=
  (d.params.map fun t => t.slots.toNat).sum

/-- A number of local variable slots that a method body needs at least: those of the receiver and of the
arguments, and those up to the last one that an instruction touches. -/
inductive Code.NeedsLocals (c : Code) (d : MethodDescriptor) (isStatic : Bool) : Nat → Prop
  | arguments : NeedsLocals c d isStatic ((if isStatic then 0 else 1) + d.slotsOfParams)
  | touched {p : Placed} {first width : Nat} (member : p ∈ c.instructions)
      (touches : p.instruction.Touches first width) : NeedsLocals c d isStatic (first + width)

/-! ### What is counted -/

namespace Instruction.Touches

variable {insn : Instruction} {first width : Nat}

theorem localsEnd?_eq (h : insn.Touches first width) : insn.localsEnd? = some (first + width) := by
  have explicit (kind : LocalKind) : (Opcode.localWidth (0x15 + kind.number)).toNat = kind.width ∧
      (Opcode.localWidth (0x36 + kind.number)).toNat = kind.width := by
    cases kind <;> decide
  have implicit (kind : LocalKind) : ∀ slot : Fin 4,
      (simple (0x1a + 4 * kind.number + UInt8.ofNat slot)).localsEnd? = some (slot + kind.width) ∧
      (simple (0x3b + 4 * kind.number + UInt8.ofNat slot)).localsEnd? = some (slot + kind.width) := by
    cases kind <;> decide +kernel
  cases h with
  | load kind index wide => rw [localsEnd?, (explicit kind).1]
  | store kind index wide => rw [localsEnd?, (explicit kind).2]
  | ret index wide => rfl
  | iinc index delta wide => rfl
  | loadFrom kind slot => exact (implicit kind slot).1
  | storeTo kind slot => exact (implicit kind slot).2

/-- An instruction that touches a slot has no targets. -/
theorem mapTargets (h : insn.Touches first width) (f : Nat → Nat) :
    (insn.mapTargets f).Touches first width := by
  cases h with
  | load kind index wide => exact .load kind index wide
  | store kind index wide => exact .store kind index wide
  | ret index wide => exact .ret index wide
  | iinc index delta wide => exact .iinc index delta wide
  | loadFrom kind slot => exact .loadFrom kind slot
  | storeTo kind slot => exact .storeTo kind slot

end Instruction.Touches

/-- The arguments are counted with 16 bits. -/
theorem MethodDescriptor.argSlots_toNat (d : MethodDescriptor) :
    d.argSlots.toNat = d.slotsOfParams % 0x10000 := by
  have onto (n : UInt16) (ts : List FieldType) : (ts.foldl (fun n t => n + t.slots) n).toNat =
      (n.toNat + (ts.map fun t => t.slots.toNat).sum) % 0x10000 := by
    induction ts generalizing n with
    | nil => exact (Nat.mod_eq_of_lt n.toNat_lt).symm
    | cons t ts ih =>
        rw [List.foldl_cons, ih, UInt16.toNat_add, List.map_cons, List.sum_cons, Nat.mod_add_mod,
          Nat.add_assoc]
  have none : (0 : UInt16).toNat = 0 := rfl
  rw [argSlots, onto, none, Nat.zero_add, slotsOfParams]

namespace Code

variable {c c' : Code} {d : MethodDescriptor} {isStatic : Bool} {n : Nat}

/-- What is needed is counted, up to the largest number that the format can hold. -/
theorem NeedsLocals.le_neededLocals (needs : c.NeedsLocals d isStatic n) (fits : n ≤ 0xFFFF) :
    n ≤ (c.neededLocals d isStatic).toNat := by
  -- The count is at least where it starts and at least each slot that it meets.
  have least (start : Nat) (ps : List Placed) :
      start ≤ ps.foldl (fun n p => max n ((p.instruction.localsEnd?).getD 0)) start ∧
      ∀ p ∈ ps, (p.instruction.localsEnd?).getD 0 ≤
        ps.foldl (fun n p => max n ((p.instruction.localsEnd?).getD 0)) start := by
    induction ps generalizing start with
    | nil => exact ⟨Nat.le_refl _, List.forall_mem_nil _⟩
    | cons p ps ih =>
        obtain ⟨more, each⟩ := ih (max start ((p.instruction.localsEnd?).getD 0))
        rw [List.foldl_cons, List.forall_mem_cons]
        exact ⟨(Nat.le_max_left ..).trans more, (Nat.le_max_right ..).trans more, each⟩
  have small (m : Nat) : min m 0xFFFF < 0x10000 := Nat.lt_of_le_of_lt (Nat.min_le_right ..) (by decide)
  rw [neededLocals, UInt16.toNat_ofNat_of_lt' (small _)]
  refine Nat.le_min.mpr ⟨?_, fits⟩
  cases needs with
  | arguments =>
      have whole : d.slotsOfParams < 0x10000 := by omega
      refine Nat.le_trans ?_ (least _ _).1
      rw [MethodDescriptor.argSlots_toNat, Nat.mod_eq_of_lt whole, Nat.add_comm]
  | @touched p first width member touches =>
      have counted := (least (d.argSlots.toNat + if isStatic then 0 else 1) c.instructions).2 p member
      rw [touches.localsEnd?_eq] at counted
      exact counted

/-- Closing gaps changes nothing about the slots that are needed. -/
theorem NeedsLocals.relayout (needs : c.NeedsLocals d isStatic n) (closed : c.relayout = .ok () c') :
    c'.NeedsLocals d isStatic n := by
  by_cases laidOut : c.isLaidOut
  · rw [relayout_eq laidOut] at closed
    cases closed
    exact needs
  · obtain ⟨-, rfl⟩ := (relayout_of_stale laidOut).mp closed
    cases needs with
    | arguments => exact .arguments
    | touched member touches => exact .touched (List.mem_map_of_mem member) (touches.mapTargets _)

/-- The sizes stand first in what is written for a body, and the number of local variable slots covers
whatever is needed. -/
theorem locals_of_write {pool : ConstantPool} {body : Bytes}
    (written : c.write pool d isStatic = .ok body) :
    ∃ stack locals rest, body = be16 stack ++ be16 locals ++ rest ∧
      ∀ n, c.NeedsLocals d isStatic n → n ≤ 0xFFFF → n ≤ locals.toNat := by
  rw [write] at written
  split at written
  next _ laidOut closed =>
    obtain ⟨stack, -, sized, -⟩ := writeLaidOut_eq_ok_iff.mp written
    obtain ⟨_, _, _, -, -, -, -, rfl⟩ := writeSized_eq_ok_iff.mp sized
    refine ⟨_, _, _, (List.append_assoc ..).symm, fun n needs fits => ?_⟩
    have enough := (needs.relayout closed).le_neededLocals fits
    rw [UInt16.toNat_max]
    exact enough.trans (Nat.le_max_right ..)
  next => cases written

end Code

namespace ClassFile

variable {c : ClassFile} {out : Bytes} {m : MethodInfo}

/-- In a class that is written, the number of local variable slots that is written for a body is at least
every number of slots that the body needs, if the format can hold that number. -/
theorem locals_of_encode (written : c.encode = .ok out) (member : m ∈ c.methods) {name : UInt16}
    {code : Code} (contains : .code name code ∈ m.attributes) :
    ∃ text d head octets len stack locals rest tail, c.methodDescriptor m = .ok text ∧
      MethodDescriptor.parse text = .ok d ∧ c.writeMethodAttribute m (.code name code) = .ok octets ∧
      out = head ++ octets ++ tail ∧
      octets = be16 name ++ be32 len ++ (be16 stack ++ be16 locals ++ rest) ∧
      ∀ n, code.NeedsLocals d m.isStatic n → n ≤ 0xFFFF → n ≤ locals.toNat := by
  obtain ⟨head, octets, tail, here, rfl, -⟩ := exists_octets_of_encode written member contains
  have opened := here
  simp only [writeMethodAttribute, bind_eq_ok_iff] at opened
  obtain ⟨text, read, d, parsed, body, sized, framed⟩ := opened
  obtain ⟨-, framing⟩ := attributeBytes_eq_ok_iff.mp framed
  obtain ⟨stack, locals, rest, rfl, enough⟩ := Code.locals_of_write sized
  exact ⟨text, d, head, octets, _, stack, locals, rest, tail, read, parsed, here, rfl, framing, enough⟩

/-- The class `A` with a method `m` of some type, whose body consists of some instructions. -/
def withBody (access : UInt16) (descriptor : String) (insns : List Instruction) : ClassFile where
  minor := 0
  major := 52
  pool := ⟨#[.unusable, .utf8 (Text.ModifiedUtf8.encode "A"), .classInfo 1,
    .utf8 (Text.ModifiedUtf8.encode "m"), .utf8 (Text.ModifiedUtf8.encode descriptor),
    .utf8 (Text.ModifiedUtf8.encode "Code")]⟩
  access := Access.isPublic ||| Access.isSuper
  thisClass := 2
  superClass := 0
  interfaces := []
  fields := []
  methods := [⟨access, 3, 4, [.code 5 (Code.ofInstructions insns)]⟩]
  attributes := []

/-- A method with a receiver and an argument of two slots that loads the `double` in the two slots behind. -/
def loadingDouble : ClassFile :=
  withBody Access.isPublic "(J)V" [.simple 0x29, .simple 0x58, .simple Opcode.vreturn]

theorem locals_of_encode_loadingDouble : ∃ out m code, loadingDouble.encode = .ok out ∧
    m ∈ loadingDouble.methods ∧ .code 5 code ∈ m.attributes ∧ ∃ octets len stack locals rest,
      loadingDouble.writeMethodAttribute m (.code 5 code) = .ok octets ∧
      octets = be16 5 ++ be32 len ++ (be16 stack ++ be16 locals ++ rest) ∧ 5 ≤ locals.toNat := by
  have succeeds : loadingDouble.encode.toOption.isSome := by decide +kernel
  obtain ⟨out, finished⟩ := Option.isSome_iff_exists.mp succeeds
  have written := toOption_eq_some_iff.mp finished
  have touches : Instruction.Touches (.simple 0x29) 3 2 := .loadFrom .double 3
  obtain ⟨text, d, head, octets, len, stack, locals, rest, tail, -, -, here, -, framing, enough⟩ :=
    locals_of_encode written (List.mem_singleton_self _) (List.mem_singleton_self _)
  have needs := enough (3 + 2) (.touched (p := ⟨0, .simple 0x29⟩) (by decide +kernel) touches) (by decide)
  exact ⟨out, _, _, written, List.mem_singleton_self _, List.mem_singleton_self _, octets, len, stack,
    locals, rest, here, framing, needs⟩

/-- A static method without arguments that loads the `long` of the last two slots that an index can reach. -/
def reachingFar : ClassFile := withBody (Access.isPublic ||| Access.isStatic) "()V"
  [.localVar Opcode.lload 0xFFFF true, .simple 0x58, .simple Opcode.vreturn]

/-- A need that the format cannot hold is not refused: the body of `reachingFar` needs 65537 slots, and it
is written with 65535. -/
theorem locals_cut_off_reachingFar : ∃ out, reachingFar.encode = .ok out ∧
    ∃ m ∈ reachingFar.methods, ∃ name code d stack rest, .code name code ∈ m.attributes ∧
      (reachingFar.methodDescriptor m >>= MethodDescriptor.parse) = .ok d ∧
      code.write reachingFar.pool d m.isStatic = .ok (be16 stack ++ be16 0xFFFF ++ rest) ∧
      code.NeedsLocals d m.isStatic 65537 := by
  have succeeds : reachingFar.encode.toOption.isSome := by decide +kernel
  have touches : Instruction.Touches (.localVar Opcode.lload 0xFFFF true) 65535 2 :=
    .load .long 0xFFFF true
  obtain ⟨out, finished⟩ := Option.isSome_iff_exists.mp succeeds
  refine ⟨out, toOption_eq_some_iff.mp finished, _, List.mem_singleton_self _, 5, _, ⟨[], none⟩, 2,
    [0, 0, 0, 6, 0xC4, 0x16, 0xFF, 0xFF, 0x58, 0xB1, 0, 0, 0, 0], List.mem_singleton_self _, ?_, ?_, ?_⟩
  · decide +kernel
  · decide +kernel
  · exact .touched (p := ⟨0, .localVar Opcode.lload 0xFFFF true⟩) (by decide +kernel) touches

end ClassFile

end JarGate
