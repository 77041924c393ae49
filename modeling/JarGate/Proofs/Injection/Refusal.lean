import JarGate.Proofs.Format.ReadBack
import JarGate.Proofs.Injection.Execution
import JarGate.Proofs.Injection.Targets

/-!
# One injection for each method

A method that the gate call was injected into is recognized by its first instruction that is no `nop`. It
stays recognized whatever is injected into the other methods, whether that succeeds or not, and however
often the class is written and read back in between. So the next injection into it is refused, and a
refusal is never a mistake: the method calls the gate first.
-/

namespace JarGate

open Instruction (simple)

/-- The body of a method with raised sizes. -/
theorem ClassFile.code?_raisedMethod (c : ClassFile) (m : MethodInfo) :
    (c.raisedMethod m).code? = m.code?.map (c.raisedBody m) := by
  have each (as : List MethodAttribute) (f : Code → Code) :
      (as.map (MethodAttribute.mapCode f)).findSome? MethodInfo.codeOf? =
        (as.findSome? MethodInfo.codeOf?).map f := by
    induction as with
    | nil => rfl
    | cons a as ih =>
        cases a with
        | code name body => rfl
        | raw r => exact ih
  exact each m.attributes _

namespace Prologue

variable {options : PrologueOptions} {index i len : Nat} {c c' d : ClassFile} {s : Site}
  {pool : ConstantPool} {code : Code} {gateRef : UInt16}

theorem Injected.callsGate (h : Injected options index c s len c') (sound : c.pool.WellFormed) :
    CallsGate index c' := by
  have gate := (h.rewritten.grown sound).2
  have starts : StartsWithCall c'.pool s.patched := by
    have moved : StartsWithCall c'.pool (s.moved options.shape) := by
      rw [Site.moved, h.prologue_eq]
      exact startsWithCall_prologueFor gate _ _
    cases h.rewritten with
    | plain _ _ same => rwa [same]
    | framed _ _ _ _ _ same => rwa [same]
  have bound := (List.getElem?_eq_some_iff.mp h.method).1
  refine ⟨s.method.setCode s.patched, s.patched, ?_, MethodInfo.code?_setCode h.code,
    callsGateFirst_iff.mpr starts⟩
  rw [h.result]
  exact List.getElem?_set_self bound

/-! ### Refusals -/

/-- A method that calls the gate first is left as it is. -/
theorem CallsGate.refused (h : CallsGate index c) (sound : c.WellFormed) (options : PrologueOptions) :
    inject index options c = .error .alreadyInjected c := by
  obtain ⟨m, code, found, body, calls⟩ := h
  have formed := sound.methods m (List.mem_of_getElem? found)
  obtain ⟨name, named⟩ := formed.name
  obtain ⟨text, descriptor, written, parsed⟩ := formed.descriptor
  have named' : c.methodName m = .ok name := named
  have typed : (do MethodDescriptor.parse (← c.methodDescriptor m)) = .ok descriptor :=
    bind_eq_ok_iff.mpr ⟨text, written, parsed⟩
  unfold inject
  rw [Edit.get_bind, found]
  dsimp only
  rw [named', typed, ofLookup_ok_bind, ofLookup_ok_bind, body]
  dsimp only
  rw [if_pos calls]
  rfl

/-- A method is refused only if it calls the gate first. -/
theorem callsGate_of_refused (h : inject index options c = .error .alreadyInjected c') :
    CallsGate index c := by
  cases checked_inject index options c with
  | failed stopped known =>
      cases h.symm.trans stopped
      exact known rfl
  | passed _ _ _ _ _ _ _ goes => cases fatal_rewrite _ _ _ _ _ _ _ _ _ _ _ (goes.symm.trans h)

/-! ### Injections into a class that lives on -/

/-- What may happen to a class: an injection into any method, whether it succeeds or not, or that it is
written and read back. -/
inductive Step : ClassFile → ClassFile → Prop
  | inject (c : ClassFile) (i : Nat) (options : PrologueOptions) :
    Step c ((Prologue.inject i options).final c)
  | reread {c d : ClassFile} {out : Bytes} : c.encode = .ok out → out.length < Decoder.positionLimit →
    ClassFile.decode out = .ok d → Step c d

/-- What may become of a class in any number of steps. -/
abbrev Later : ClassFile → ClassFile → Prop := Relation.ReflTransGen Step

theorem CallsGate.raised (h : CallsGate index c) : CallsGate index c.raised := by
  obtain ⟨m, code, found, body, calls⟩ := h
  refine ⟨c.raisedMethod m, c.raisedBody m code, ?_, ?_, ?_⟩
  · rw [ClassFile.raised, List.getElem?_map, found]
    rfl
  · rw [ClassFile.code?_raisedMethod, body]
    rfl
  · have same : (c.raisedBody m code).instructions = code.instructions := by
      rw [ClassFile.raisedBody]
      split
      · rfl
      · rfl
    rw [callsGateFirst, same]
    exact calls

theorem CallsGate.touched (h : CallsGate i c) (other : i ≠ index) (touched : Touched index c d) :
    CallsGate i d := by
  obtain ⟨m, code, found, body, calls⟩ := h
  have starts := (callsGateFirst_iff.mp calls).extends touched.pool
  exact ⟨m, code, (touched.others i other).trans found, body, callsGateFirst_iff.mpr starts⟩

/-- A step leaves a class that can be patched, and the methods that call the gate first go on doing so. -/
theorem Step.keeps (h : Step c d) (sound : c.Patchable) :
    d.Patchable ∧ ∀ index, CallsGate index c → CallsGate index d := by
  cases h with
  | inject i options =>
      have touched := touched_inject sound i options
      refine ⟨touched.patchable, ?_⟩
      intro index calls
      by_cases same : index = i
      · subst same
        rwa [Edit.final, calls.refused sound.toWellFormed options]
      · exact calls.touched same touched
  | reread written fits read =>
      have back := (ClassFile.decode_of_encode sound.toWellFormed written fits).1
      obtain rfl := Except.ok.inj (read.symm.trans back)
      exact ⟨ClassFile.patchable_of_decode read, fun _ => CallsGate.raised⟩

theorem Later.keeps (h : Later c d) (sound : c.Patchable) :
    d.Patchable ∧ ∀ index, CallsGate index c → CallsGate index d := by
  induction h with
  | refl => exact ⟨sound, fun _ => id⟩
  | tail _ step ih =>
      obtain ⟨sound', before⟩ := ih
      obtain ⟨sound'', next⟩ := step.keeps sound'
      exact ⟨sound'', fun index calls => next index (before index calls)⟩

/-- Whether the gate call is in a method, so that it is not injected there again. -/
structure Closed (index : Nat) (c : ClassFile) : Prop where
  calls : CallsGate index c
  refuses : ∀ options, inject index options c = .error .alreadyInjected c

theorem CallsGate.closed (h : CallsGate index c) (sound : c.WellFormed) : Closed index c :=
  ⟨h, h.refused sound⟩

/-- A method of a class that was read is injected into once: from then on it is closed, whatever else
happens to the class. Only a method that starts with the call is refused, and a refusal changes
nothing. -/
theorem closed_of_inject :
    (∀ {data : Bytes} {c₀ b c d : ClassFile} {index len : Nat} {options : PrologueOptions},
      ClassFile.decode data = .ok c₀ → Later c₀ b → inject index options b = .ok len c → Later c d →
      Closed index d ∧ ∀ out, d.encode = .ok out → out.length < Decoder.positionLimit →
        ∃ e, ClassFile.decode out = .ok e ∧ Closed index e) ∧
    ∀ {c c' : ClassFile} {index : Nat} {options : PrologueOptions},
      inject index options c = .error .alreadyInjected c' → c' = c ∧
        ∃ m code, c.methods[index]? = some m ∧ m.code? = some code ∧ StartsWithCall c.pool code := by
  constructor
  · intro data c₀ b c d index len options read before injected later
    have sound := (before.keeps (ClassFile.patchable_of_decode read)).1
    obtain ⟨s, done⟩ := injected_of_inject sound injected
    obtain ⟨sound', kept⟩ := later.keeps (sound.inject injected)
    have calls := kept index (done.callsGate sound.pool)
    refine ⟨calls.closed sound'.toWellFormed, ?_⟩
    intro out written fits
    have back := (ClassFile.decode_of_encode sound'.toWellFormed written fits).1
    exact ⟨d.raised, back, calls.raised.closed (ClassFile.wellFormed_of_decode back)⟩
  · intro c c' index options refused
    obtain ⟨m, code, found, body, calls⟩ := callsGate_of_refused refused
    exact ⟨eq_of_inject_recoverable refused rfl, m, code, found, body, callsGateFirst_iff.mp calls⟩

theorem closed_of_inject_careless : ∃ c₀ c d out e,
    ClassFile.decode (ClassFile.carelessFile 0 0 9) = .ok c₀ ∧
      inject 0 ⟨.callOnly, false⟩ c₀ = .ok 4 c ∧ d = (inject 1 ⟨.earlyReturn, true⟩).final c ∧
      d.encode = .ok out ∧ out.length < Decoder.positionLimit ∧ ClassFile.decode out = .ok e ∧
      Closed 0 d ∧ Closed 0 e ∧ ∃ m code, e.methods[0]? = some m ∧ m.code? = some code ∧
        StartsWithCall e.pool code := by
  have whole : (((ClassFile.decode (ClassFile.carelessFile 0 0 9)).toOption.bind
      (inject 0 ⟨.callOnly, false⟩).finished?).bind fun done =>
        ((inject 1 ⟨.earlyReturn, true⟩).final done.2).encode.toOption.map (done.1, ·.length)) =
      some (4, 152) := by
    decide +kernel
  obtain ⟨⟨len, c⟩, first, written⟩ := Option.bind_eq_some_iff.mp whole
  obtain ⟨c₀, decoded, finished⟩ := Option.bind_eq_some_iff.mp first
  obtain ⟨out, encoded, sizes⟩ := Option.map_eq_some_iff.mp written
  obtain ⟨rfl, size⟩ := Prod.mk.inj sizes
  have read := toOption_eq_some_iff.mp decoded
  have injected := Edit.finished?_eq_some_iff.mp finished
  have written := toOption_eq_some_iff.mp encoded
  have fits : out.length < Decoder.positionLimit := by
    rw [size]
    decide
  obtain ⟨here, again⟩ := closed_of_inject.1 read .refl injected (.single (.inject c 1 _))
  obtain ⟨e, back, there⟩ := again out written fits
  have refused := there.refuses ⟨.earlyReturn, false⟩
  exact ⟨c₀, c, _, out, e, read, injected, rfl, written, fits, back, here, there,
    (closed_of_inject.2 refused).2⟩

end Prologue

end JarGate
