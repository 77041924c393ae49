import JarGate.Proofs.Code.ControlFlow
import JarGate.Proofs.Format.RoundTrip
import JarGate.Proofs.Injection.WellFormed

/-!
# What a patched method does

A patched method starts with its prologue. The prologue asks the gate and either goes on with the body
as it was, on an empty stack and with the local variables untouched, or leaves the method with the zero
value of its result type. The body keeps its control flow.
-/

namespace JarGate

open Machine

/-- The instructions in front of a body are found where they were placed. -/
theorem Code.instructionAt?_front (c : Code) {insns : List Instruction} {len : Nat} :
    ∀ p ∈ Instruction.placeFrom 0 insns,
      (c.inFront insns len).instructionAt? p.offset = some p.instruction := by
  have first (pos : Nat) (is : List Instruction) (ps : List Placed) :
      ∀ p ∈ Instruction.placeFrom pos is,
        (Instruction.placeFrom pos is ++ ps).find? (·.offset == p.offset) = some p := by
    induction is generalizing pos with
    | nil => nofun
    | cons i is ih =>
        rw [Instruction.placeFrom_cons, List.forall_mem_cons]
        refine ⟨by simp, fun p member => ?_⟩
        have positive := Instruction.size_pos pos i
        have behind := (Instruction.bounds_of_mem_placeFrom member).1
        have other : ((⟨pos, i⟩ : Placed).offset == p.offset) = false := by
          rw [beq_eq_false_iff_ne]
          change pos ≠ p.offset
          omega
        rw [List.cons_append, List.find?_cons, other]
        exact ih _ p member
  intro p member
  rw [instructionAt?, inFront, first 0 insns _ p member]
  rfl

namespace Prologue

/-- The method of the gate. -/
def gateMember : MemberRef := ⟨gateName.owner, gateName.method, gateName.descriptor⟩

/-- The zero value of a type. -/
def zeroValue : FieldType → Value
  | .long => .long 0
  | .float => .float 0
  | .double => .double 0
  | .object _ | .array _ => .null
  | .byte | .char | .int | .short | .boolean => .int 0

/-- The opcode that leaves a method with a result type. -/
def leaveOf : Option FieldType → UInt8
  | none => Opcode.vreturn
  | some t => returnOf t

/-- Whether the instructions at some offsets lie in front of a body and touch no local variable. -/
def InFront (code : Code) (len : Nat) (trace : List Nat) : Prop :=
  ∀ o ∈ trace, o < len ∧ ∃ insn, code.instructionAt? o = some insn ∧ insn.localsEnd? = none

/-- What a prologue of some octets does at the front of a method with a result type, whatever the local
variables hold. The number is the answer of the gate, which is zero where the gate refuses. -/
structure Guards (shape : PrologueShape) (result : Option FieldType) (pool : ConstantPool) (code : Code)
    (len : Nat) : Prop where
  passes : ∀ {ω : Type} (host : Host ω) (locals : Nat → Value) (world world' : ω) (n : Int32),
    host.call gateMember [] world = (.returns (some (.int n)), world') →
    shape = .callOnly ∨ n ≠ 0 →
    ∃ trace, Steps host pool code trace ⟨0, [], locals, world⟩ (.runs ⟨len, [], locals, world'⟩) ∧
      InFront code len trace
  refuses : ∀ {ω : Type} (host : Host ω) (locals : Nat → Value) (world world' : ω),
    host.call gateMember [] world = (.returns (some (.int 0)), world') →
    shape = .earlyReturn →
    ∃ trace, Steps host pool code trace ⟨0, [], locals, world⟩
      (.returned (leaveOf result) (result.map zeroValue) world') ∧ InFront code len trace

section

variable {ω : Type} {host : Host ω} {pool : ConstantPool} {gateRef : UInt16} {stack : List Value}
  {world world' : ω}

theorem effect_gateCall {n : Int32} (gate : IsGate pool gateRef)
    (answer : host.call gateMember [] world = (.returns (some (.int n)), world')) :
    effect host pool (gateCall gateRef) stack world = some (.falls (.int n :: stack) world') := by
  have parsed : MethodDescriptor.parse gateMember.descriptor = .ok ⟨[], some .boolean⟩ := by
    decide +kernel
  rw [gateCall, effect, gate.2]
  exact callEffect_of_returns [] parsed rfl rfl answer

theorem effect_ifne {target : Nat} {n : Int32} :
    effect host pool (.branch Opcode.ifne target) (.int n :: stack) world =
      some (if n ≠ 0 then .jumps target stack else .falls stack world) := by
  by_cases zero : n = 0
  · subst zero
    rfl
  · have test : (n != 0) = true := bne_iff_ne.mpr zero
    rw [if_pos zero]
    change some (if (n != 0) = true then _ else _) = _
    rw [if_pos test]

theorem effect_zeroOf (t : FieldType) :
    effect host pool (.simple (zeroOf t)) stack world = some (.falls (zeroValue t :: stack) world) := by
  cases t <;> rfl

theorem effect_returnOf (t : FieldType) :
    effect host pool (.simple (returnOf t)) (zeroValue t :: stack) world =
      some (.returns (returnOf t) (some (zeroValue t))) := by
  cases t <;> rfl

end

/-! ### Runs of the prologue -/

section

variable {pool : ConstantPool} {code : Code} {gateRef : UInt16}

theorem guards_callOnly (gate : IsGate pool gateRef) {result : Option FieldType}
    (front : code.StartsWith (prologueFor gateRef .callOnly result)) :
    Guards .callOnly result pool code 4 := by
  have placed : Instruction.placeFrom 0 (prologueFor gateRef .callOnly result) =
      [⟨0, gateCall gateRef⟩, ⟨3, .simple Opcode.pop⟩] := rfl
  rw [Code.StartsWith, placed, List.forall_mem_cons, List.forall_mem_cons] at front
  obtain ⟨call, drop, -⟩ := front
  refine ⟨fun host locals world world' n answer _ => ⟨[0, 3], ?_, ?_⟩, fun _ _ _ _ _ shape => nomatch shape⟩
  · have asked := step_falls (s := ⟨0, [], locals, world⟩) call (effect_gateCall gate answer)
    have dropped : step host pool code ⟨3, [.int n], locals, world'⟩ = _ := step_falls drop rfl
    exact .cons asked (.last dropped)
  · simp only [InFront, List.forall_mem_cons]
    exact ⟨⟨by decide, _, call, rfl⟩, ⟨by decide, _, drop, by decide⟩, List.forall_mem_nil _⟩

section

variable {ω : Type} {host : Host ω} {locals : Nat → Value} {world world' : ω} {n : Int32} {o : Nat}

/-- The gate is asked and does not refuse. -/
theorem steps_of_pass (gate : IsGate pool gateRef)
    (call : code.instructionAt? o = some (gateCall gateRef))
    (jump : code.instructionAt? (o + 3) = some (.branch Opcode.ifne 8))
    (answer : host.call gateMember [] world = (.returns (some (.int n)), world')) (pass : n ≠ 0) :
    Steps host pool code [o, o + 3] ⟨o, [], locals, world⟩ (.runs ⟨8, [], locals, world'⟩) := by
  have asked := step_falls (s := ⟨o, [], locals, world⟩) call (effect_gateCall gate answer)
  have taken : step host pool code ⟨o + 3, [.int n], locals, world'⟩ = _ := step_jumps jump
    (effect_ifne.trans (by rw [if_pos pass]))
  exact .cons asked (.last taken)

/-- The gate is asked and refuses. -/
theorem steps_of_refusal (gate : IsGate pool gateRef)
    (call : code.instructionAt? o = some (gateCall gateRef))
    (jump : code.instructionAt? (o + 3) = some (.branch Opcode.ifne 8))
    (answer : host.call gateMember [] world = (.returns (some (.int 0)), world')) {trace : List Nat}
    {next : Next ω} (rest : Steps host pool code trace ⟨o + 6, [], locals, world'⟩ next) :
    Steps host pool code (o :: (o + 3) :: trace) ⟨o, [], locals, world⟩ next := by
  have asked := step_falls (s := ⟨o, [], locals, world⟩) call (effect_gateCall gate answer)
  have passed : step host pool code ⟨o + 3, [.int 0], locals, world'⟩ = _ := step_falls jump
    (effect_ifne.trans (by rw [if_neg (not_not.mpr rfl)]))
  exact .cons asked (.cons passed rest)

end

theorem guards_void (gate : IsGate pool gateRef)
    (front : code.StartsWith (prologueFor gateRef .earlyReturn none)) :
    Guards .earlyReturn none pool code 8 := by
  have placed : Instruction.placeFrom 0 (prologueFor gateRef .earlyReturn none) =
      [⟨0, .simple Opcode.nop⟩, ⟨1, gateCall gateRef⟩, ⟨4, .branch Opcode.ifne 8⟩,
        ⟨7, .simple Opcode.vreturn⟩] := rfl
  rw [Code.StartsWith, placed] at front
  simp only [List.forall_mem_cons] at front
  obtain ⟨idle, call, jump, exit, -⟩ := front
  have quiet (locals : Nat → Value) {ω : Type} (host : Host ω) (world : ω) :
      step host pool code ⟨0, [], locals, world⟩ = _ := step_falls idle rfl
  refine ⟨fun host locals world world' n answer pass => ⟨[0, 1, 4], ?_, ?_⟩,
    fun host locals world world' answer _ => ⟨[0, 1, 4, 7], ?_, ?_⟩⟩
  · exact .cons (quiet locals host world)
      (steps_of_pass gate call jump answer (pass.resolve_left nofun))
  · simp only [InFront, List.forall_mem_cons]
    exact ⟨⟨by decide, _, idle, by decide⟩, ⟨by decide, _, call, rfl⟩, ⟨by decide, _, jump, rfl⟩,
      List.forall_mem_nil _⟩
  · have left : step host pool code ⟨7, [], locals, world'⟩ = _ := step_returns exit rfl
    exact .cons (quiet locals host world) (steps_of_refusal gate call jump answer (.last left))
  · simp only [InFront, List.forall_mem_cons]
    exact ⟨⟨by decide, _, idle, by decide⟩, ⟨by decide, _, call, rfl⟩, ⟨by decide, _, jump, rfl⟩,
      ⟨by decide, _, exit, by decide⟩, List.forall_mem_nil _⟩

theorem guards_result (gate : IsGate pool gateRef) (t : FieldType)
    (front : code.StartsWith (prologueFor gateRef .earlyReturn (some t))) :
    Guards .earlyReturn (some t) pool code 8 := by
  have placed : Instruction.placeFrom 0 (prologueFor gateRef .earlyReturn (some t)) =
      [⟨0, gateCall gateRef⟩, ⟨3, .branch Opcode.ifne 8⟩, ⟨6, .simple (zeroOf t)⟩,
        ⟨7, .simple (returnOf t)⟩] := rfl
  rw [Code.StartsWith, placed] at front
  simp only [List.forall_mem_cons] at front
  obtain ⟨call, jump, push, exit, -⟩ := front
  have touchless : ∀ op ∈ plainOpcodes, (Instruction.simple op).localsEnd? = none := by
    decide +kernel
  have pushes := touchless _ (zeroOf_mem t)
  have leaves := touchless _ (returnOf_mem t)
  refine ⟨fun host locals world world' n answer pass => ⟨[0, 3], ?_, ?_⟩,
    fun host locals world world' answer _ => ⟨[0, 3, 6, 7], ?_, ?_⟩⟩
  · exact steps_of_pass gate call jump answer (pass.resolve_left nofun)
  · simp only [InFront, List.forall_mem_cons]
    exact ⟨⟨by decide, _, call, rfl⟩, ⟨by decide, _, jump, rfl⟩, List.forall_mem_nil _⟩
  · have pushed : step host pool code ⟨6, [], locals, world'⟩ = _ := step_falls push (effect_zeroOf t)
    have left : step host pool code ⟨7, [zeroValue t], locals, world'⟩ = _ :=
      step_returns exit (effect_returnOf t)
    exact steps_of_refusal gate call jump answer (.cons pushed (.last left))
  · simp only [InFront, List.forall_mem_cons]
    exact ⟨⟨by decide, _, call, rfl⟩, ⟨by decide, _, jump, rfl⟩, ⟨by decide, _, push, pushes⟩,
      ⟨by decide, _, exit, leaves⟩, List.forall_mem_nil _⟩

end

/-! ### Patched methods -/

section

variable {options : PrologueOptions} {index len : Nat} {c c' : ClassFile} {s : Site}

theorem Injected.instructionAt?_patched (h : Injected options index c s len c') (o : Nat) :
    s.patched.instructionAt? o = (s.moved options.shape).instructionAt? o := by
  cases h.rewritten with
  | plain _ _ same => rw [same]
  | framed _ _ _ _ _ same =>
      rw [same]
      rfl

theorem Injected.startsWith (h : Injected options index c s len c') :
    s.patched.StartsWith (prologueFor s.gateRef options.shape s.descriptor.result) := by
  rw [← h.prologue_eq]
  intro p member
  rw [h.instructionAt?_patched]
  exact s.code.instructionAt?_front p member

theorem noCalls_prologueFor (gateRef : UInt16) (shape : PrologueShape) (result : Option FieldType) :
    ∀ i ∈ prologueFor gateRef shape result, i.isSubroutineCall = false := by
  rcases shape with _ | _ <;> rcases result with _ | t <;>
    simp [prologueFor, gateCall, Instruction.isSubroutineCall, Opcode.ifne, Opcode.jsr]

/-- The body is found, with its control flow, behind the prologue. -/
theorem Injected.behind (h : Injected options index c s len c') : Code.Behind len s.code s.patched := by
  have aligned := h.aligned
  have noCalls := noCalls_prologueFor s.gateRef options.shape s.descriptor.result
  rw [← h.prologue_eq] at noCalls
  rw [h.len] at aligned ⊢
  have moved : Code.Behind (s.length options.shape) s.code (s.moved options.shape) :=
    s.code.behind_inFront aligned noCalls
  cases h.rewritten with
  | plain _ _ same => rwa [same]
  | framed _ _ _ _ _ same =>
      rw [same]
      exact ⟨moved.instruction, moved.successor, moved.handlers, moved.noCalls⟩

end

end Prologue

/-- The tables of a body: its attributes without those that hold frames. -/
def Code.tables (c : Code) : List CodeAttribute :=
  c.attributes.filter fun a => (framesOf? a).isNone

theorem Code.tables_setStackMap (c : Code) (name : UInt16) (frames : List Frame) :
    (c.setStackMap name frames).tables = c.tables := by
  have rest (as : List CodeAttribute) : (withFrames name frames as).filter
      (fun a => (framesOf? a).isNone) = as.filter fun a => (framesOf? a).isNone := by
    induction as with
    | nil => rfl
    | cons a as ih =>
        cases a with
        | stackMap name' frames' => rfl
        | _ => exact congrArg (List.cons _) ih
  exact rest c.attributes

theorem Code.tables_inFront (c : Code) (insns : List Instruction) (len : Nat) :
    (c.inFront insns len).tables = c.tables.map (CodeAttribute.mapOffsets (· + len)) := by
  have kind (a : CodeAttribute) :
      (framesOf? (a.mapOffsets (· + len))).isNone = (framesOf? a).isNone := by
    cases a <;> rfl
  rw [tables, tables, inFront, mapOffsets, List.filter_map]
  congr 2
  funext a
  exact kind a

namespace Prologue

/-- What a patched method has of the body that it had before: every instruction with its targets moved,
the handlers and the tables moved in their order, and exactly the control flow of the body. -/
structure Carried (len : Nat) (code patched : Code) : Prop extends Code.Behind len code patched where
  /-- No handler covers the prologue. -/
  uncovered : ∀ handler ∈ patched.handlers, len ≤ handler.start
  tables : patched.tables = code.tables.map (CodeAttribute.mapOffsets (· + len))
  edges : ∀ a b, patched.Edge (a + len) b ↔ ∃ b', b = b' + len ∧ code.Edge a b'
  reaches : ∀ a b, patched.Reaches (a + len) b ↔ ∃ b', b = b' + len ∧ code.Reaches a b'

theorem Injected.carried {options : PrologueOptions} {index len : Nat} {c c' : ClassFile} {s : Site}
    (h : Injected options index c s len c') : Carried len s.code s.patched where
  toBehind := h.behind
  uncovered := h.behind.uncovered
  tables := by
    rw [h.len]
    cases h.rewritten with
    | plain _ _ same =>
        rw [same]
        exact s.code.tables_inFront _ _
    | framed _ _ _ _ _ same =>
        rw [same, Code.tables_setStackMap]
        exact s.code.tables_inFront _ _
  edges := fun _ _ => h.behind.edge_iff
  reaches := fun _ _ => h.behind.reaches_iff

theorem Injected.guards {options : PrologueOptions} {index len : Nat} {c c' : ClassFile} {s : Site}
    (h : Injected options index c s len c') (sound : c.pool.WellFormed) :
    Guards options.shape s.descriptor.result c'.pool s.patched len := by
  have gate := (h.rewritten.grown sound).2
  have front := h.startsWith
  have length := h.length_eq
  cases shape : options.shape with
  | callOnly =>
      rw [shape] at front length
      subst length
      exact guards_callOnly gate front
  | earlyReturn =>
      rw [shape] at front length
      subst length
      cases result : s.descriptor.result with
      | none =>
          rw [result] at front
          exact guards_void gate front
      | some t =>
          rw [result] at front
          exact guards_result gate t front

/-- An injection into a class that was read preserves the meaning of the method: its length is a
multiple of four, the prologue guards the body, and the body is carried over. -/
theorem inject_preserves_meaning {data : Bytes} {c c' : ClassFile} {index len : Nat}
    {options : PrologueOptions} (read : ClassFile.decode data = .ok c)
    (done : inject index options c = .ok len c') :
    ∃ method text descriptor code patched,
      c.methods[index]? = some method ∧ method.code? = some code ∧
      c.methodDescriptor method = .ok text ∧ MethodDescriptor.parse text = .ok descriptor ∧
      c'.methods[index]? = some (method.setCode patched) ∧
      (method.setCode patched).code? = some patched ∧
      len % 4 = 0 ∧
      Guards options.shape descriptor.result c'.pool patched len ∧
      Carried len code patched := by
  have sound := ClassFile.patchable_of_decode read
  obtain ⟨s, h⟩ := injected_of_inject sound done
  obtain ⟨text, written, parsed⟩ := h.descriptor
  have bound := (List.getElem?_eq_some_iff.mp h.method).1
  refine ⟨s.method, text, s.descriptor, s.code, s.patched, h.method, h.code, written, parsed, ?_,
    MethodInfo.code?_setCode h.code, h.aligned, h.guards sound.pool, h.carried⟩
  rw [h.result]
  exact List.getElem?_set_self bound

theorem inject_preserves_meaning_careless : ∃ c c',
    ClassFile.decode (ClassFile.carelessFile 0 0 9) = .ok c ∧
    inject 0 ⟨.earlyReturn, false⟩ c = .ok 8 c' ∧
    ∃ (method : MethodInfo) (descriptor : MethodDescriptor) (code patched : Code),
      c.methods[0]? = some method ∧ method.code? = some code ∧
      c'.methods[0]? = some (method.setCode patched) ∧
      Guards .earlyReturn descriptor.result c'.pool patched 8 ∧ Carried 8 code patched := by
  have whole : ((ClassFile.decode (ClassFile.carelessFile 0 0 9)).toOption.bind fun c =>
      ((inject 0 ⟨.earlyReturn, false⟩).outcome c).toOption) = some 8 := by
    decide +kernel
  obtain ⟨c, decoded, injected⟩ := Option.bind_eq_some_iff.mp whole
  have read := toOption_eq_some_iff.mp decoded
  obtain ⟨c', done⟩ := Edit.outcome_eq_ok_iff.mp (toOption_eq_some_iff.mp injected)
  obtain ⟨method, _, descriptor, code, patched, found, body, -, -, found', -, -, guards, carried⟩ :=
    inject_preserves_meaning read done
  exact ⟨c, c', read, done, method, descriptor, code, patched, found, body, found', guards, carried⟩

end Prologue

end JarGate
