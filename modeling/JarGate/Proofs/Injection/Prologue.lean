import JarGate.Injection.Prologue
import JarGate.Proofs.Code.Insertion
import JarGate.Proofs.Format.Offsets
import JarGate.Proofs.Pool.Additions

/-!
# What an injection does

A successful injection of the gate call is described once, by `Injected`: what it found in the class,
what it added to the pool, and the body that it left behind. Everything about injections is derived
from this description.
-/

namespace JarGate

/-- The body of a method is held by one of its attributes. -/
theorem MethodInfo.exists_mem_of_code? {m : MethodInfo} {code : Code} (found : m.code? = some code) :
    ∃ name, .code name code ∈ m.attributes := by
  obtain ⟨a, member, holds⟩ := List.exists_of_findSome?_eq_some found
  cases a with
  | code name body =>
      cases holds
      exact ⟨name, member⟩
  | raw r => cases holds

theorem MethodInfo.code?_setCode {m : MethodInfo} {code new : Code} (h : m.code? = some code) :
    (m.setCode new).code? = some new := by
  have first (as : List MethodAttribute) (found : as.findSome? codeOf? = some code) :
      (withCode new as).findSome? codeOf? = some new := by
    induction as with
    | nil => cases found
    | cons a as ih =>
        cases a with
        | code name old => rfl
        | raw r => exact ih found
  exact first m.attributes h

/-- The body of a well-formed method is well formed. -/
theorem MethodInfo.WellFormed.code? {m : MethodInfo} {p : ConstantPool} {code : Code}
    (sound : m.WellFormed p) (found : m.code? = some code) : code.WellFormed p := by
  obtain ⟨name, member⟩ := exists_mem_of_code? found
  exact (sound.attributes _ member).2

/-- Whether a class is as it is found while it is patched: it is well formed, and a method that does not
call the gate yet is as it was read, so that there is room in front of it. -/
structure ClassFile.Patchable (c : ClassFile) : Prop extends c.WellFormed where
  compact : ∀ m ∈ c.methods, ∀ code, m.code? = some code →
    Prologue.callsGateFirst c.pool code = false → code.Compact

theorem ClassFile.patchable_of_decode {data : Bytes} {c : ClassFile} (read : decode data = .ok c) :
    c.Patchable where
  toWellFormed := wellFormed_of_decode read
  compact := fun m method code body _ => by
    obtain ⟨name, member⟩ := MethodInfo.exists_mem_of_code? body
    exact compact_of_decode read method member

namespace Prologue

open Instruction (endFrom simple)

/-- What an injection finds and makes: the method with its type and its body, the name of the class,
the instructions that leave the method, the reference to the gate, and the body afterwards. -/
structure Site where
  method : MethodInfo
  name : String
  descriptor : MethodDescriptor
  className : String
  code : Code
  exit : List Instruction
  gateRef : UInt16
  patched : Code

namespace Site

/-- The instructions that are put in front. -/
def prologue (s : Site) (shape : PrologueShape) : List Instruction :=
  build s.gateRef shape s.exit

/-- How many octets they take. -/
def length (s : Site) (shape : PrologueShape) : Nat := endFrom 0 (s.prologue shape)

/-- The body with the instructions in front and with its old frames. -/
def moved (s : Site) (shape : PrologueShape) : Code :=
  s.code.inFront (s.prologue shape) (s.length shape)

end Site

/-- Whether an injection into a body has to write frames. -/
def needsFrames (c : ClassFile) (shape : PrologueShape) (code : Code) : Bool :=
  c.requiresStackMap && (code.stackMap?.isSome || shape == .earlyReturn)

/-- The instructions that leave a method, for a shape that has any. -/
def exitFor (options : PrologueOptions) (descriptor : MethodDescriptor) :
    Except InjectError (List Instruction) :=
  match options.shape with
  | .earlyReturn => exitSequence descriptor.result options.approximateDefaults
  | .callOnly => .ok []

/-- The state at the end of the prologue, where the prologue branches to it. -/
def live (shape : PrologueShape) (initial : List VerificationType) : Option FrameState :=
  match shape with
  | .earlyReturn => some (.entry initial)
  | .callOnly => none

/-- The addition of the reference to the gate. -/
def addGate : ConstantPool.Addition UInt16 :=
  ConstantPool.addMethodRef gateName.owner gateName.method gateName.descriptor

/-- What an injection makes of a pool and of a body, and leaves in `pool` and in the site. -/
inductive Rewritten (c : ClassFile) (shape : PrologueShape) (s : Site) (pool : ConstantPool) : Prop
  | plain (frameless : needsFrames c shape s.code = false)
      (gate : addGate c.pool = .ok s.gateRef pool) (body : s.patched = s.moved shape)
  | framed {p q : ConstantPool} {initial : List VerificationType} {tableName : UInt16}
      {frames : List Frame} (framed : needsFrames c shape s.code = true)
      (gate : addGate c.pool = .ok s.gateRef p)
      (entry : Frame.initialLocals s.className s.method.isStatic s.name s.descriptor p = .ok initial q)
      (named : ConstantPool.addUtf8 "StackMapTable" q = .ok tableName pool)
      (spliced : Frame.splice (s.code.stackMap?.getD []) initial 0 (s.length shape)
        (live shape initial) = .ok frames)
      (body : s.patched = (s.moved shape).setStackMap tableName frames)

/-- What a successful injection into the method at a position found and did. -/
structure Injected (options : PrologueOptions) (index : Nat) (c : ClassFile) (s : Site) (len : Nat)
    (c' : ClassFile) : Prop where
  method : c.methods[index]? = some s.method
  name : c.methodName s.method = .ok s.name
  descriptor : ∃ text, c.methodDescriptor s.method = .ok text ∧
    MethodDescriptor.parse text = .ok s.descriptor
  code : s.method.code? = some s.code
  fresh : callsGateFirst c.pool s.code = false
  compact : s.code.Compact
  exit : exitFor options s.descriptor = .ok s.exit
  className : c.name = .ok s.className
  len : len = s.length options.shape
  rewritten : Rewritten c options.shape s c'.pool
  result : c' = { c with
    pool := c'.pool, methods := c.methods.set index (s.method.setCode s.patched) }

/-! ### The instructions in front -/

/-- The opcode that pushes the zero value of a type. -/
def zeroOf : FieldType → UInt8
  | .long => Opcode.lconst0
  | .float => Opcode.fconst0
  | .double => Opcode.dconst0
  | .object _ | .array _ => Opcode.aconstNull
  | .byte | .char | .int | .short | .boolean => Opcode.iconst0

/-- The opcode that returns a value of a type. -/
def returnOf : FieldType → UInt8
  | .long => Opcode.lreturn
  | .float => Opcode.freturn
  | .double => Opcode.dreturn
  | .object _ | .array _ => Opcode.areturn
  | .byte | .char | .int | .short | .boolean => Opcode.ireturn

/-- The instructions that leave a method with the zero value of its result type. -/
def leave : Option FieldType → List Instruction
  | none => [simple Opcode.vreturn]
  | some t => [simple (zeroOf t), simple (returnOf t)]

theorem exitSequence_eq {result : Option FieldType} {approximate : Bool} {exit : List Instruction}
    (h : exitSequence result approximate = .ok exit) : exit = leave result := by
  rcases result with _ | t
  · exact (Except.ok.inj h).symm
  · cases t with
    | boolean => exact (Except.ok.inj h).symm
    | _ =>
        simp only [exitSequence] at h
        split at h
        next => exact (Except.ok.inj h).symm
        next => cases h

/-- The prologue of a shape for a method with a result type, octet for octet. -/
def prologueFor (gateRef : UInt16) (shape : PrologueShape) (result : Option FieldType) :
    List Instruction :=
  match shape, result with
  | .callOnly, _ => [gateCall gateRef, simple Opcode.pop]
  | .earlyReturn, none =>
    [simple Opcode.nop, gateCall gateRef, .branch Opcode.ifne 8, simple Opcode.vreturn]
  | .earlyReturn, some t =>
    [gateCall gateRef, .branch Opcode.ifne 8, simple (zeroOf t), simple (returnOf t)]

theorem build_callOnly (gateRef : UInt16) (exit : List Instruction) (result : Option FieldType) :
    build gateRef .callOnly exit = prologueFor gateRef .callOnly result := by
  simp [build, sizeOf, padding, gateCall, prologueFor, Instruction.size]

theorem build_earlyReturn (gateRef : UInt16) (result : Option FieldType) :
    build gateRef .earlyReturn (leave result) = prologueFor gateRef .earlyReturn result := by
  cases result <;>
    simp [build, sizeOf, padding, gateCall, leave, prologueFor, Instruction.size]

theorem build_eq {options : PrologueOptions} {descriptor : MethodDescriptor} {exit : List Instruction}
    (gateRef : UInt16)
    (left : exitFor options descriptor = .ok exit) :
    build gateRef options.shape exit = prologueFor gateRef options.shape descriptor.result := by
  rw [exitFor] at left
  cases shape : options.shape with
  | callOnly => exact build_callOnly _ _ _
  | earlyReturn =>
      rw [shape] at left
      rw [exitSequence_eq left]
      exact build_earlyReturn _ _

/-- How many octets the prologue of a shape takes. -/
def lengthOf : PrologueShape → Nat
  | .callOnly => 4
  | .earlyReturn => 8

theorem lengthOf_le (shape : PrologueShape) : lengthOf shape ≤ 8 := by
  cases shape <;> decide

theorem endFrom_build {options : PrologueOptions} {descriptor : MethodDescriptor} {exit : List Instruction}
    (gateRef : UInt16) (left : exitFor options descriptor = .ok exit) :
    endFrom 0 (build gateRef options.shape exit) = lengthOf options.shape := by
  rw [build_eq gateRef left]
  cases options.shape with
  | callOnly => rfl
  | earlyReturn => cases descriptor.result <;> rfl

/-! ### Room for the instructions -/

/-- No offset of a compact body wraps around when a prologue is put in front of it. -/
theorem insertAt_build {pool : ConstantPool} {code : Code} {options : PrologueOptions}
    {descriptor : MethodDescriptor} {exit : List Instruction} (sound : code.WellFormed pool)
    (compact : code.Compact) (gateRef : UInt16) (left : exitFor options descriptor = .ok exit) :
    code.insertAt 0 (build gateRef options.shape exit) =
      (code.inFront (build gateRef options.shape exit) (endFrom 0 (build gateRef options.shape exit)),
        endFrom 0 (build gateRef options.shape exit)) := by
  have short := compact.short
  have few : endFrom 0 (build gateRef options.shape exit) ≤ 8 :=
    (endFrom_build gateRef left).trans_le (lengthOf_le _)
  have fits : ∀ o ∈ code.named, o + endFrom 0 (build gateRef options.shape exit) < 0x100000000 := by
    intro o names
    have inside := sound.named_le (by omega) o names
    omega
  rw [Code.insertAt_zero (by omega), Code.withRoom_zero fits]

/-! ### The steps of an injection -/

section

variable {α β : Type} {c c' : ClassFile} {b : β}

theorem ofLookup_bind_eq_ok {x : Except ClassError α} {f : α → Injection β} :
    (ofLookup x >>= f) c = .ok b c' ↔ ∃ a, x = .ok a ∧ f a c = .ok b c' := by
  rw [Edit.bind_eq_ok]
  simp only [ofLookup, ofChange, Edit.mapError_eq_ok, Edit.lift_eq_ok]
  constructor
  · rintro ⟨a, _, ⟨found, rfl⟩, h⟩
    exact ⟨a, found, h⟩
  · rintro ⟨a, found, h⟩
    exact ⟨a, c, ⟨found, rfl⟩, h⟩

theorem ofLookup_ok_bind (a : α) (f : α → Injection β) : (ofLookup (.ok a) >>= f) c = f a c := rfl

theorem inPool_bind_eq_ok {e : ConstantPool.Addition α} {f : α → Injection β} :
    (ofChange (ClassFile.inPool e) >>= f) c = .ok b c' ↔
      ∃ a pool, e c.pool = .ok a pool ∧ f a { c with pool } = .ok b c' := by
  rw [Edit.bind_eq_ok]
  simp only [ofChange, Edit.mapError_eq_ok, ClassFile.inPool, Edit.within_eq_ok]
  constructor
  · rintro ⟨a, _, ⟨pool, added, rfl⟩, h⟩
    exact ⟨a, pool, added, h⟩
  · rintro ⟨a, pool, added, h⟩
    exact ⟨a, _, ⟨pool, added, rfl⟩, h⟩

theorem setCode_bind {index : Nat} {method : MethodInfo} {code : Code} {f : Unit → Injection β} :
    (setCode index method code >>= f) c = f () (c.setMethod index (method.setCode code)) := rfl

end

@[simp] theorem stackMap?_inFront (c : Code) (insns : List Instruction) (len : Nat) :
    (c.inFront insns len).stackMap? = c.stackMap? :=
  Code.stackMap?_mapOffsets (· + len) c

/-- The steps of an injection into a body behind its checks. -/
def rewrite (index : Nat) (shape : PrologueShape) (c : ClassFile) (method : MethodInfo) (name : String)
    (descriptor : MethodDescriptor) (code : Code) (exit : List Instruction) : Injection Nat := do
  let className ← ofLookup c.name
  let gateRef ← ofChange (ClassFile.inPool addGate)
  let (moved, len) := code.insertAt 0 (build gateRef shape exit)
  if needsFrames c shape code then
    let initial ← ofChange <| ClassFile.inPool <|
      Frame.initialLocals className method.isStatic name descriptor
    let tableName ← ofChange (ClassFile.inPool (ConstantPool.addUtf8 "StackMapTable"))
    setCode index method moved
    let frames ← ofLookup (Frame.splice (moved.stackMap?.getD []) initial 0 len (live shape initial))
    setCode index method (moved.setStackMap tableName frames)
    return len
  else
    setCode index method moved
    return len

/-- What the steps behind the checks do to the class, and the site that they leave behind. -/
theorem rewritten_of_rewrite {index : Nat} {options : PrologueOptions} {c c' : ClassFile}
    {method : MethodInfo} {name : String} {descriptor : MethodDescriptor} {code : Code}
    {exit : List Instruction} {len : Nat} (sound : code.WellFormed c.pool) (compact : code.Compact)
    (left : exitFor options descriptor = .ok exit)
    (h : rewrite index options.shape c method name descriptor code exit c = .ok len c') :
    ∃ className gateRef patched, c.name = .ok className ∧
      let s : Site := ⟨method, name, descriptor, className, code, exit, gateRef, patched⟩
      len = s.length options.shape ∧ Rewritten c options.shape s c'.pool ∧
        c' = { c with pool := c'.pool, methods := c.methods.set index (method.setCode patched) } := by
  rw [rewrite, ofLookup_bind_eq_ok] at h
  obtain ⟨className, named, h⟩ := h
  rw [inPool_bind_eq_ok] at h
  obtain ⟨gateRef, p, gate, h⟩ := h
  rw [insertAt_build sound compact gateRef left] at h
  by_cases framed : needsFrames c options.shape code
  · simp only [if_pos framed] at h
    rw [inPool_bind_eq_ok] at h
    obtain ⟨initial, q, entry, h⟩ := h
    rw [inPool_bind_eq_ok] at h
    obtain ⟨tableName, r, table, h⟩ := h
    rw [setCode_bind, ofLookup_bind_eq_ok, stackMap?_inFront] at h
    obtain ⟨frames, spliced, h⟩ := h
    rw [setCode_bind, Edit.pure_eq_ok] at h
    obtain ⟨rfl, rfl⟩ := h
    refine ⟨className, gateRef, (code.inFront (build gateRef options.shape exit)
      (endFrom 0 (build gateRef options.shape exit))).setStackMap tableName frames, named, rfl,
      .framed framed gate entry table spliced rfl, ?_⟩
    simp only [ClassFile.setMethod, List.set_set]
  · simp only [if_neg framed] at h
    rw [setCode_bind, Edit.pure_eq_ok] at h
    obtain ⟨rfl, rfl⟩ := h
    exact ⟨className, gateRef, _, named, rfl, .plain (by simpa using framed) gate rfl, rfl⟩

/-- Whether the method at an index calls the gate before anything else. -/
def CallsGate (index : Nat) (c : ClassFile) : Prop :=
  ∃ m code, c.methods[index]? = some m ∧ m.code? = some code ∧ callsGateFirst c.pool code = true

/-- What the checks of an injection make of its result: they fail and leave the class as it was, or what
they found is handed to the steps behind them. -/
inductive Checked (index : Nat) (options : PrologueOptions) (c : ClassFile)
    (result : EStateM.Result InjectError ClassFile Nat) : Prop
  | failed {err : InjectError} (stopped : result = .error err c)
      (known : err = .alreadyInjected → CallsGate index c)
  | passed {method : MethodInfo} {name text : String} {descriptor : MethodDescriptor} {code : Code}
      {exit : List Instruction} (found : c.methods[index]? = some method)
      (named : c.methodName method = .ok name) (read : c.methodDescriptor method = .ok text)
      (parsed : MethodDescriptor.parse text = .ok descriptor) (body : method.code? = some code)
      (fresh : callsGateFirst c.pool code = false) (left : exitFor options descriptor = .ok exit)
      (goes : result = rewrite index options.shape c method name descriptor code exit c)

theorem exitFor_error {options : PrologueOptions} {descriptor : MethodDescriptor} {err : InjectError}
    (left : exitFor options descriptor = .error err) : ∃ type, err = .unsupportedReturn type := by
  rw [exitFor] at left
  split at left
  next =>
    unfold exitSequence at left
    split at left
    · cases left
    · cases left
    · split at left
      · cases left
      · cases left
        exact ⟨_, rfl⟩
  next => cases left

/-- What the checks of an injection do in a method whose name and type are found. -/
theorem inject_eq {index : Nat} {options : PrologueOptions} {c : ClassFile} {method : MethodInfo}
    {name text : String} {descriptor : MethodDescriptor} (found : c.methods[index]? = some method)
    (named : c.methodName method = .ok name) (read : c.methodDescriptor method = .ok text)
    (parsed : MethodDescriptor.parse text = .ok descriptor) :
    inject index options c =
      match method.code? with
      | none => .error .noCode c
      | some code =>
        if callsGateFirst c.pool code then .error .alreadyInjected c
        else
          match exitFor options descriptor with
          | .error err => .error err c
          | .ok exit => rewrite index options.shape c method name descriptor code exit c := by
  have typed : (do MethodDescriptor.parse (← c.methodDescriptor method)) = .ok descriptor :=
    bind_eq_ok_iff.mpr ⟨text, read, parsed⟩
  unfold inject
  rw [Edit.get_bind, found]
  dsimp only
  rw [named, ofLookup_ok_bind, typed, ofLookup_ok_bind]
  cases method.code? with
  | none => rfl
  | some code =>
      dsimp only
      by_cases already : callsGateFirst c.pool code = true
      · rw [if_pos already, if_pos already]
        rfl
      · rw [if_neg already, if_neg already, exitFor]
        cases options.shape with
        | callOnly => rfl
        | earlyReturn =>
            dsimp only
            cases exitSequence descriptor.result options.approximateDefaults with
            | error why => rfl
            | ok exit => rfl

/-- What the checks make of the result where the name and the type of the method are found. -/
theorem checked_of_found {index : Nat} {options : PrologueOptions} {c : ClassFile} {method : MethodInfo}
    {name text : String} {descriptor : MethodDescriptor} (found : c.methods[index]? = some method)
    (named : c.methodName method = .ok name) (read : c.methodDescriptor method = .ok text)
    (parsed : MethodDescriptor.parse text = .ok descriptor) :
    Checked index options c (inject index options c) := by
  rw [inject_eq found named read parsed]
  cases body : method.code? with
  | none => exact .failed rfl nofun
  | some code =>
      dsimp only
      cases already : callsGateFirst c.pool code with
      | true =>
          rw [if_pos rfl]
          exact .failed rfl fun _ => ⟨method, code, found, body, already⟩
      | false =>
          rw [if_neg Bool.false_ne_true]
          cases left : exitFor options descriptor with
          | error err =>
              refine .failed rfl fun known => ?_
              obtain ⟨type, rfl⟩ := exitFor_error left
              cases known
          | ok exit => exact .passed found named read parsed body already left rfl

theorem checked_inject (index : Nat) (options : PrologueOptions) (c : ClassFile) :
    Checked index options c (inject index options c) := by
  cases found : c.methods[index]? with
  | none =>
      unfold inject
      rw [Edit.get_bind, found]
      exact .failed rfl nofun
  | some method =>
      cases named : c.methodName method with
      | error why =>
          unfold inject
          rw [Edit.get_bind, found]
          dsimp only
          rw [named]
          exact .failed rfl nofun
      | ok name =>
          cases typed : (do MethodDescriptor.parse (← c.methodDescriptor method)) with
          | error why =>
              unfold inject
              rw [Edit.get_bind, found]
              dsimp only
              rw [named, typed]
              exact .failed rfl nofun
          | ok descriptor =>
              obtain ⟨text, read, parsed⟩ := bind_eq_ok_iff.mp typed
              exact checked_of_found found named read parsed

/-- Everything that a successful injection does. -/
theorem injected_of_inject {index : Nat} {options : PrologueOptions} {c c' : ClassFile} {len : Nat}
    (sound : c.Patchable) (h : inject index options c = .ok len c') : ∃ s, Injected options index c s len c' := by
  cases checked_inject index options c with
  | failed stopped _ => cases h.symm.trans stopped
  | @passed method name text descriptor code exit found named read parsed body fresh left goes =>
      have member := List.mem_of_getElem? found
      have compact := sound.compact method member code body fresh
      obtain ⟨className, gateRef, patched, owner, length, rewritten, result⟩ :=
        rewritten_of_rewrite ((sound.methods method member).code? body) compact left
          (goes.symm.trans h)
      exact ⟨⟨method, name, descriptor, className, code, exit, gateRef, patched⟩, found, named,
        ⟨text, read, parsed⟩, body, fresh, compact, left, owner, length, rewritten, result⟩

section

variable {options : PrologueOptions} {index len : Nat} {c c' : ClassFile} {s : Site}

theorem Injected.prologue_eq (h : Injected options index c s len c') :
    s.prologue options.shape = prologueFor s.gateRef options.shape s.descriptor.result :=
  build_eq s.gateRef h.exit

theorem Injected.length_eq (h : Injected options index c s len c') : len = lengthOf options.shape := by
  rw [h.len, Site.length, Site.prologue, endFrom_build s.gateRef h.exit]

/-- The length of a prologue is a multiple of four. -/
theorem Injected.aligned (h : Injected options index c s len c') : len % 4 = 0 := by
  rw [h.length_eq]
  cases options.shape <;> rfl

end

end Prologue

end JarGate
