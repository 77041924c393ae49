import JarGate.Proofs.Code.FrontFrames
import JarGate.Proofs.Injection.WellFormed
import JarGate.Proofs.Pool.InitialLocals

/-!
# How an injection fails

In a class that was read, an injection into a method with a body is either refused by its checks, which
leaves the class as it was, or stopped behind them: by a pool that is full, or by frames that leave no room
for the prologue.
-/

namespace JarGate

namespace Prologue

open Instruction (endFrom)

variable {options : PrologueOptions} {index : Nat} {c c' : ClassFile} {code : Code}
  {method : MethodInfo} {name : String} {descriptor : MethodDescriptor} {exit : List Instruction}
  {shape : PrologueShape} {err : InjectError}

/-! ### Behind the checks -/

section

variable {α β : Type}

theorem ofLookup_bind_eq_error {x : Except ClassError α} {f : α → Injection β} :
    (ofLookup x >>= f) c = .error err c' ↔
      (∃ why, x = .error why ∧ err = .classError why ∧ c' = c) ∨
        ∃ a, x = .ok a ∧ f a c = .error err c' := by
  cases x with
  | ok a => simp [ofLookup_ok_bind]
  | error why =>
      constructor
      · intro failed
        cases failed
        exact .inl ⟨why, rfl, rfl, rfl⟩
      · rintro (⟨_, same, rfl, rfl⟩ | ⟨_, same, _⟩)
        · cases same
          rfl
        · cases same

theorem inPool_bind_eq_error {e : ConstantPool.Addition α} {f : α → Injection β} :
    (ofChange (ClassFile.inPool e) >>= f) c = .error err c' ↔
      (∃ why pool, e c.pool = .error why pool ∧ err = .classError why ∧ c' = { c with pool }) ∨
        ∃ a pool, e c.pool = .ok a pool ∧ f a { c with pool } = .error err c' := by
  rw [Edit.bind_run, ofChange, Edit.mapError, ClassFile.inPool, Edit.within]
  cases e c.pool with
  | ok a pool => simp
  | error why pool => simp [eq_comm]

end

/-- What stops an injection behind its checks, and the class that it leaves behind. Either the pool is full,
and one of the entries that are needed is not in it; or the class has a version whose verifier asks for
frames, and there is no room for the prologue in those of the method. The locals at the entry are then
found in the pool. -/
inductive Blocked (options : PrologueOptions) (c : ClassFile) (method : MethodInfo) (code : Code)
    (c' : ClassFile) : ClassError → Prop
  | full (grown : c.pool.Extends c'.pool) (full : c'.pool.count = 65535) :
      Blocked options c method code c' (.overflow .poolFull)
  | noRoom {why : ClassError} {className name text : String} {descriptor : MethodDescriptor}
      {initial : List VerificationType} (versioned : 50 ≤ c.major) (owner : c.name = .ok className)
      (named : c.methodName method = .ok name) (read : c.methodDescriptor method = .ok text)
      (parsed : MethodDescriptor.parse text = .ok descriptor)
      (entry : Frame.initialLocals className method.isStatic name descriptor c'.pool =
        .ok initial c'.pool)
      (noRoom : Frame.NoRoom (code.stackMap?.getD []) initial (lengthOf options.shape)
        (live options.shape initial)) : Blocked options c method code c' why

/-- An addition that fails leaves a full pool behind. -/
theorem full_of_failed {α : Type} {Q : ConstantPool → α → Prop} {e : ConstantPool.Addition α}
    (adds : ConstantPool.Adds (fun _ => True) e Q) (fails : ConstantPool.FailsFull e)
    {p q : ConstantPool} {why : ClassError} (sound : p.WellFormed) (failed : e p = .error why q) :
    why = .overflow .poolFull ∧ p.Extends q ∧ q.count = 65535 := by
  have left := adds.final sound
  rw [Edit.final, failed] at left
  obtain ⟨full, many⟩ := fails p q why failed
  exact ⟨full, left.extends_, Nat.le_antisymm (Nat.le_of_lt_succ left.wellFormed.small) many⟩

/-- What begins with an addition to the pool fails for a full pool, or behind the pool that has grown. -/
theorem full_or_grown {α β : Type} {Q : ConstantPool → α → Prop} {e : ConstantPool.Addition α}
    {f : α → Injection β} (adds : ConstantPool.Adds (fun _ => True) e Q)
    (fails : ConstantPool.FailsFull e) (sound : c.pool.WellFormed)
    (failed : (ofChange (ClassFile.inPool e) >>= f) c = .error err c') :
    (err = .classError (.overflow .poolFull) ∧ c.pool.Extends c'.pool ∧ c'.pool.count = 65535) ∨
      ∃ a pool, e c.pool = .ok a pool ∧ ConstantPool.Grown c.pool pool ∧
        f a { c with pool } = .error err c' := by
  obtain ⟨why, pool, stopped, rfl, rfl⟩ | ⟨a, pool, added, failed⟩ := inPool_bind_eq_error.mp failed
  · obtain ⟨rfl, grown, full⟩ := full_of_failed adds fails sound stopped
    exact .inl ⟨rfl, grown, full⟩
  · exact .inr ⟨a, pool, added, (adds.run sound trivial added).1, failed⟩

theorem blocked_of_rewrite {text : String} (sound : c.WellFormed) (body : code.WellFormed c.pool)
    (compact : code.Compact)
    (named : c.methodName method = .ok name) (read : c.methodDescriptor method = .ok text)
    (parsed : MethodDescriptor.parse text = .ok descriptor)
    (left : exitFor options descriptor = .ok exit)
    (failed : rewrite index options.shape c method name descriptor code exit c = .error err c') :
    ∃ why, err = .classError why ∧ Blocked options c method code c' why := by
  rw [rewrite, ofLookup_bind_eq_error] at failed
  obtain ⟨why, lost, -⟩ | ⟨className, owner, failed⟩ := failed
  · obtain ⟨s, found⟩ := sound.thisClass
    cases found.symm.trans lost
  -- Each addition to the pool is the one that fails, or leaves a pool that has grown for the next one.
  have gate := ConstantPool.adds_methodRef ConstantPool.persistent_true gateName.owner gateName.method
    gateName.descriptor
  obtain ⟨rfl, grown, full⟩ | ⟨gateRef, p, -, first, failed⟩ :=
    full_or_grown gate (ConstantPool.Request.methodRef ..).failsFull sound.pool failed
  · exact ⟨_, rfl, .full grown full⟩
  rw [insertAt_build body compact gateRef left] at failed
  dsimp only at failed
  by_cases framed : needsFrames c options.shape code
  · simp only [if_pos framed] at failed
    have versioned : 50 ≤ c.major := by
      rw [needsFrames, Bool.and_eq_true] at framed
      exact of_decide_eq_true framed.1
    have locals := ConstantPool.adds_initialLocals ConstantPool.persistent_true className method.isStatic
      name descriptor
    have asks : ConstantPool.Asks (fun _ => True)
        (Frame.initialLocals className method.isStatic name descriptor) :=
      ConstantPool.asks_initialLocals trivial (fun _ _ _ _ => trivial) _ _
    obtain ⟨rfl, grown, full⟩ | ⟨initial, q, entry, second, failed⟩ :=
      full_or_grown locals asks.failsFull first.wellFormed failed
    · exact ⟨_, rfl, .full (first.extends_.trans grown) full⟩
    have tabled := ConstantPool.adds_utf8 ConstantPool.persistent_true "StackMapTable"
    obtain ⟨rfl, grown, full⟩ | ⟨tableName, r, -, third, failed⟩ :=
      full_or_grown tabled (.addUtf8 _) second.wellFormed failed
    · exact ⟨_, rfl, .full ((first.trans second).extends_.trans grown) full⟩
    rw [setCode_bind, ofLookup_bind_eq_error, stackMap?_inFront] at failed
    obtain ⟨why, unspliced, rfl, rfl⟩ | ⟨frames, -, failed⟩ := failed
    · have again := (ConstantPool.repeats_initialLocals _ _ _ _ _ _ _ first.wellFormed.reserved entry).2
      rw [endFrom_build gateRef left] at unspliced
      have small : lengthOf options.shape ≤ 0xFFFF := (lengthOf_le _).trans (by decide)
      exact ⟨why, rfl, .noRoom versioned owner named read parsed (again _ third.extends_)
        (Frame.noRoom_of_splice compact.few small unspliced)⟩
    · cases failed
  · simp only [if_neg framed] at failed
    cases failed

/-- How an injection fails in a class that was read. If the method has no body, calls the gate already, or
cannot be left with a default, then the class is as it was. Otherwise something stops the injection behind
its checks. -/
theorem failed_inject (sound : c.Patchable) (failed : inject index options c = .error err c') :
    (c' = c ∧ (err = .noCode ∧ c.methods[index]?.bind MethodInfo.code? = none ∨ err = .alreadyInjected ∨
        ∃ type, err = .unsupportedReturn type)) ∨
      ∃ method code why, c.methods[index]? = some method ∧ method.code? = some code ∧
        err = .classError why ∧ Blocked options c method code c' why := by
  cases found : c.methods[index]? with
  | none =>
      unfold inject at failed
      rw [Edit.get_bind, found] at failed
      cases failed
      exact .inl ⟨rfl, .inl ⟨rfl, rfl⟩⟩
  | some method =>
      have formed := sound.methods method (List.mem_of_getElem? found)
      obtain ⟨name, named⟩ := formed.name
      obtain ⟨text, descriptor, read, parsed⟩ := formed.descriptor
      rw [inject_eq found named read parsed] at failed
      cases body : method.code? with
      | none =>
          rw [body] at failed
          cases failed
          exact .inl ⟨rfl, .inl ⟨rfl, body⟩⟩
      | some code =>
          simp only [body] at failed
          split at failed
          next =>
            cases failed
            exact .inl ⟨rfl, .inr (.inl rfl)⟩
          next fresh =>
            split at failed
            next refused =>
              cases failed
              exact .inl ⟨rfl, .inr (.inr (exitFor_error refused))⟩
            next left =>
              have compact := sound.compact method (List.mem_of_getElem? found) code body
                (Bool.eq_false_of_not_eq_true fresh)
              obtain ⟨why, rfl, blocked⟩ := blocked_of_rewrite sound.toWellFormed (formed.code? body)
                compact named read parsed left failed
              exact .inr ⟨method, code, why, rfl, body, rfl, blocked⟩

end Prologue

end JarGate
