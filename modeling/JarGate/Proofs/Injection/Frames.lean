import JarGate.Proofs.Code.FrontFrames
import JarGate.Proofs.Injection.Execution
import JarGate.Proofs.Pool.Repetition

/-!
# The frames of a patched method

Frames are stored as distances and as differences to the frame in front. What an injection does to them
is therefore stated about the states that they stand for: all of them are moved by the length of the
prologue, and one is added where the prologue branches to the body.
-/

namespace JarGate

namespace Prologue

/-- The state that an injection adds at the end of its prologue. There is none where the prologue does
not branch, and none where the body had a state at its first octet. -/
def entryState (shape : PrologueShape) (len : Nat) (initial : List VerificationType)
    (states : List (Nat × FrameState)) : List (Nat × FrameState) :=
  match shape with
  | .callOnly => []
  | .earlyReturn => if states.any (·.1 = 0) then [] else [(len, .entry initial)]

/-- What becomes of a table of frames when a prologue of some octets is put in front of the body:
`states` is what the table stood for, and `moved` is what has become of these states. -/
structure Reframed (shape : PrologueShape) (len : Nat) (initial : List VerificationType)
    (before after : List Frame) (states moved : List (Nat × FrameState)) : Prop where
  stood : Frame.expand before initial = .ok states
  each : List.Forall₂ (Frame.MovesTo (· + len)) states moved
  stand : Frame.expand after initial = .ok (entryState shape len initial states ++ moved)

namespace Reframed

variable {shape : PrologueShape} {len : Nat} {initial : List VerificationType}
  {before after : List Frame} {states moved : List (Nat × FrameState)}

/-- Without frames there is nothing to move. -/
theorem nil : Reframed .callOnly len initial [] [] [] [] := ⟨rfl, .nil, rfl⟩

/-- No offset of a table that a file can hold wraps around behind a short prologue, and the new table has
its frames in their order. -/
theorem of_splice (few : before.length ≤ 0xFFFF) (small : len ≤ 0xFFFF)
    (h : Frame.splice before initial 0 len (live shape initial) = .ok after) :
    ∃ states moved, Reframed shape len initial before after states moved ∧
      ((entryState shape len initial states ++ moved).map (·.1)).Pairwise (· < ·) := by
  obtain ⟨states, moved, hints, expanded, each, compressed⟩ := Frame.compress_of_splice h
  have stand := Frame.expand_of_compress (Frame.words_of_splice expanded each) compressed
  have increasing := (Frame.exists_compress_iff.mp ⟨after, compressed⟩).1
  have room := Frame.roomBehind_of_few few (small.trans (Nat.le_succ _))
  replace each := Frame.movesTo_add (small.trans (Nat.le_succ _))
    (room.lt (Frame.expand_eq_ok_iff.mp expanded)) each
  have placed : Frame.withState ((live shape initial).map (wrapped (0 + len), ·)) moved =
      entryState shape len initial states ++ moved := by
    rw [Nat.zero_add, wrapped_of_lt (small.trans_lt (by decide))]
    cases shape with
    | callOnly => rfl
    | earlyReturn => exact Frame.withState_of_movesTo each _
  rw [placed] at stand increasing
  exact ⟨states, moved, ⟨expanded, each, stand⟩, increasing⟩

/-- There is a frame at the end of a prologue that branches there. -/
theorem landing (h : Reframed .earlyReturn len initial before after states moved) :
    ∃ state, (len, state) ∈ entryState .earlyReturn len initial states ++ moved := by
  rw [entryState]
  split
  next entered =>
    rw [← Frame.any_of_movesTo h.each] at entered
    obtain ⟨⟨o, state⟩, member, same⟩ := List.any_eq_true.mp entered
    obtain rfl : o = len := of_decide_eq_true same
    exact ⟨state, member⟩
  next => exact ⟨_, List.mem_cons_self ..⟩

end Reframed

section

variable {options : PrologueOptions} {index len : Nat} {c c' : ClassFile} {s : Site}

theorem needsFrames_eq {shape : PrologueShape} {code : Code} (versioned : 50 ≤ c.major) :
    needsFrames c shape code = (code.stackMap?.isSome || shape == .earlyReturn) := by
  have required : c.requiresStackMap = true := decide_eq_true versioned
  rw [needsFrames, required, Bool.true_and]

/-- The prologue that leaves a method branches to the body. -/
theorem Injected.branches (h : Injected options index c s len c') (shape : options.shape = .earlyReturn) :
    ∃ o < len, s.patched.instructionAt? o = some (.branch Opcode.ifne len) := by
  have length := h.length_eq
  have front := h.startsWith
  rw [shape] at length front
  subst length
  cases result : s.descriptor.result with
  | none =>
      rw [result] at front
      have placed : ⟨4, .branch Opcode.ifne 8⟩ ∈
          Instruction.placeFrom 0 (prologueFor s.gateRef .earlyReturn none) := .tail _ (.tail _ (.head _))
      exact ⟨4, by decide, front _ placed⟩
  | some t =>
      rw [result] at front
      have placed : ⟨3, .branch Opcode.ifne 8⟩ ∈
          Instruction.placeFrom 0 (prologueFor s.gateRef .earlyReturn (some t)) := .tail _ (.head _)
      exact ⟨3, by decide, front _ placed⟩

/-- Where an injection writes no frames, there are none before and none after. -/
theorem Injected.frameless (h : Injected options index c s len c') (versioned : 50 ≤ c.major)
    (unneeded : needsFrames c options.shape s.code = false) :
    options.shape = .callOnly ∧ s.code.stackMap? = none ∧ s.patched.stackMap? = none := by
  obtain ⟨absent, called⟩ : s.code.stackMap? = none ∧ options.shape = .callOnly := by
    rw [needsFrames_eq versioned, Bool.or_eq_false_iff] at unneeded
    refine ⟨by simpa using unneeded.1, ?_⟩
    cases shape : options.shape with
    | callOnly => rfl
    | earlyReturn =>
        rw [shape] at unneeded
        exact absurd unneeded.2 (by decide)
  refine ⟨called, absent, ?_⟩
  cases h.rewritten with
  | plain _ _ same => rw [same, Site.moved, stackMap?_inFront, absent]
  | framed needed _ _ _ _ _ =>
      rw [unneeded] at needed
      cases needed

/-- Where an injection writes frames, the locals at the entry are found in the pool that it leaves
behind, and the frames that it writes are those before with their states moved. -/
theorem Injected.framed (h : Injected options index c s len c') (sound : c.pool.WellFormed)
    (needed : needsFrames c options.shape s.code = true) :
    ∃ initial frames states moved, s.patched.stackMap? = some frames ∧
      Frame.initialLocals s.className s.method.isStatic s.name s.descriptor c'.pool =
        .ok initial c'.pool ∧
      Reframed options.shape len initial (s.code.stackMap?.getD []) frames states moved ∧
      ((entryState options.shape len initial states ++ moved).map (·.1)).Pairwise (· < ·) := by
  cases h.rewritten with
  | plain unneeded _ _ =>
      rw [needed] at unneeded
      cases unneeded
  | framed _ gate entry named spliced same =>
      have grown := (grown_addGate sound gate).1
      have found := (ConstantPool.repeats_initialLocals _ _ _ _ _ _ _ grown.wellFormed.reserved entry).2
      have pool := (ConstantPool.adds_initialLocals ConstantPool.persistent_true _ _ _ _).run
        grown.wellFormed trivial entry
      have later := (ConstantPool.adds_utf8 ConstantPool.persistent_true _).run
        pool.1.wellFormed trivial named
      have small : len ≤ 0xFFFF := h.length_eq.trans_le ((lengthOf_le _).trans (by decide))
      rw [← h.len] at spliced
      obtain ⟨states, moved, reframed⟩ := Reframed.of_splice h.compact.few small spliced
      refine ⟨_, _, states, moved, ?_, found _ later.1.extends_, reframed⟩
      rw [same, Code.stackMap?_setStackMap]

/-- An injection that succeeds in a class whose version asks for frames leaves frames that describe the
moved code. The locals at the entry of the method are those that the pool of the patched class gives,
and where frames are written they are in that pool already. In these locals, the table after the
injection stands for the states of the table before, moved by the length of the prologue, behind the
state at the end of a prologue that branches there. -/
theorem frames_of_inject {data : Bytes} (read : ClassFile.decode data = .ok c)
    (versioned : 50 ≤ c.major) (done : inject index options c = .ok len c') :
    ∃ method name text descriptor className code patched,
      c.methods[index]? = some method ∧ method.code? = some code ∧
      c.methodName method = .ok name ∧ c.name = .ok className ∧
      c.methodDescriptor method = .ok text ∧ MethodDescriptor.parse text = .ok descriptor ∧
      c'.methods[index]? = some (method.setCode patched) ∧
      (method.setCode patched).code? = some patched ∧
      (patched.stackMap? = none ↔ options.shape = .callOnly ∧ code.stackMap? = none) ∧
      (options.shape = .earlyReturn →
        ∃ o < len, patched.instructionAt? o = some (.branch Opcode.ifne len)) ∧
      (patched.stackMap? ≠ none → ∃ initial,
        Frame.initialLocals className method.isStatic name descriptor c'.pool = .ok initial c'.pool) ∧
      ∀ initial pool,
        Frame.initialLocals className method.isStatic name descriptor c'.pool = .ok initial pool →
        ∃ states moved,
          Reframed options.shape len initial (code.stackMap?.getD []) (patched.stackMap?.getD [])
            states moved ∧
          ((entryState options.shape len initial states ++ moved).map (·.1)).Pairwise (· < ·) ∧
          (options.shape = .earlyReturn →
            ∃ state, (len, state) ∈ entryState options.shape len initial states ++ moved) := by
  have sound := ClassFile.patchable_of_decode read
  obtain ⟨s, h⟩ := injected_of_inject sound done
  obtain ⟨text, written, parsed⟩ := h.descriptor
  have found : c'.methods[index]? = some (s.method.setCode s.patched) := by
    rw [h.result]
    exact List.getElem?_set_self (List.getElem?_eq_some_iff.mp h.method).1
  refine ⟨s.method, s.name, text, s.descriptor, s.className, s.code, s.patched, h.method, h.code, h.name,
    h.className, written, parsed, found, MethodInfo.code?_setCode h.code, ?_⟩
  cases needed : needsFrames c options.shape s.code with
  | false =>
      obtain ⟨called, absent, absent'⟩ := h.frameless versioned needed
      rw [called, absent, absent']
      refine ⟨⟨fun _ => ⟨rfl, rfl⟩, fun _ => rfl⟩, nofun, fun table => absurd rfl table, ?_⟩
      exact fun initial _ _ => ⟨[], [], .nil, .nil, nofun⟩
  | true =>
      obtain ⟨initial, frames, states, moved, table, entry, reframed, increasing⟩ :=
        h.framed sound.pool needed
      rw [table]
      refine ⟨⟨nofun, ?_⟩, h.branches, fun _ => ⟨initial, entry⟩, ?_⟩
      · rintro ⟨called, absent⟩
        rw [needsFrames_eq versioned, called, absent] at needed
        cases needed
      · intro initial' pool again
        obtain ⟨rfl, rfl⟩ := EStateM.Result.ok.inj (entry.symm.trans again)
        refine ⟨states, moved, reframed, increasing, fun shape => ?_⟩
        rw [shape] at reframed ⊢
        exact reframed.landing

end

/-- The file of a class `A` whose only method makes an object and drops it again. A frame between the
two instructions says that the object on the stack comes from offset zero. -/
def objectFile : Bytes :=
  [0xCA, 0xFE, 0xBA, 0xBE, 0, 0, 0, 52, 0, 7] ++
  [1, 0, 1, 65] ++ [7, 0, 1] ++ [1, 0, 1, 109] ++ [1, 0, 3, 40, 41, 86] ++
  [1, 0, 4, 67, 111, 100, 101] ++
  [1, 0, 13, 83, 116, 97, 99, 107, 77, 97, 112, 84, 97, 98, 108, 101] ++
  [0, 0, 0, 2, 0, 0, 0, 0, 0, 0, 0, 1, 0, 0, 0, 3, 0, 4, 0, 1] ++
  [0, 5, 0, 0, 0, 29, 0, 1, 0, 1, 0, 0, 0, 5] ++ [0xBB, 0, 2, 0x57, 0xB1] ++ [0, 0, 0, 1] ++
  [0, 6, 0, 0, 0, 6, 0, 1, 67, 8, 0, 0] ++ [0, 0]

theorem frames_of_inject_object : ∃ c c', ClassFile.decode objectFile = .ok c ∧ 50 ≤ c.major ∧
    inject 0 ⟨.earlyReturn, false⟩ c = .ok 8 c' ∧
    ∃ (method : MethodInfo) (code patched : Code), c.methods[0]? = some method ∧
      method.code? = some code ∧ code.stackMap? = some [.oneStack 3 (.uninitialized 0)] ∧
      c'.methods[0]? = some (method.setCode patched) ∧
      patched.stackMap? = some [.same 8, .oneStack 2 (.uninitialized 8)] ∧
      ∃ initial states moved, Reframed .earlyReturn 8 initial [.oneStack 3 (.uninitialized 0)]
        [.same 8, .oneStack 2 (.uninitialized 8)] states moved := by
  let frames (c : ClassFile) : Option (List Frame) :=
    (c.methods[0]?.bind MethodInfo.code?).bind Code.stackMap?
  have whole : ((ClassFile.decode objectFile).toOption.bind fun c =>
      (Edit.finished? (inject 0 ⟨.earlyReturn, false⟩) c).map fun done =>
        (decide (50 ≤ c.major), done.1, frames c, frames done.2)) =
      some (true, 8, some [.oneStack 3 (.uninitialized 0)],
        some [.same 8, .oneStack 2 (.uninitialized 8)]) := by
    decide +kernel
  obtain ⟨c, decoded, injected⟩ := Option.bind_eq_some_iff.mp whole
  obtain ⟨⟨len, c'⟩, finished, seen⟩ := Option.map_eq_some_iff.mp injected
  have read := toOption_eq_some_iff.mp decoded
  have done := Edit.finished?_eq_some_iff.mp finished
  simp only [Prod.mk.injEq, decide_eq_true_eq] at seen
  obtain ⟨versioned, rfl, before, after⟩ := seen
  obtain ⟨method, name, text, descriptor, className, code, patched, found, body, -, -, -, -, found',
    body', -, -, present, reframed⟩ := frames_of_inject read versioned done
  replace before : code.stackMap? = some [.oneStack 3 (.uninitialized 0)] := by
    simpa [frames, found, body] using before
  replace after : patched.stackMap? = some [.same 8, .oneStack 2 (.uninitialized 8)] := by
    simpa [frames, found', body'] using after
  obtain ⟨initial, entry⟩ := present (by rw [after]; exact Option.some_ne_none _)
  obtain ⟨states, moved, described, -⟩ := reframed initial _ entry
  rw [before, after] at described
  exact ⟨c, c', read, versioned, done, method, code, patched, found, body, before, found', after,
    initial, states, moved, described⟩

end Prologue

end JarGate
