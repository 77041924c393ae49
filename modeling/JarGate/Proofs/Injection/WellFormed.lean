import JarGate.Proofs.Code.Splicing
import JarGate.Proofs.Injection.Recognition

/-!
# Edits of a class that was read

Whatever a patch does to a class keeps it well formed: additions to its pool, new fields, and
injections of the gate call. So does any sequence of such edits.
-/

namespace JarGate

/-! ### Growing pools -/

section

variable {p q : ConstantPool}

theorem ConstantPool.Resolves.extends {index : UInt16} (h : p.Resolves index) (grown : p.Extends q) :
    q.Resolves index :=
  h.imp fun _ => grown.utf8

theorem ConstantPool.IsText.extends {index : UInt16} (h : p.IsText index) (grown : p.Extends q) :
    q.IsText index :=
  h.imp fun _ => grown.get

theorem FieldInfo.WellFormed.extends {f : FieldInfo} (h : f.WellFormed p) (grown : p.Extends q) :
    f.WellFormed q where
  name := h.name.extends grown
  descriptor := h.descriptor.extends grown
  attributes := fun a member => (h.attributes a member).extends grown

theorem MethodAttribute.WellFormed.extends {a : MethodAttribute} (h : a.WellFormed p)
    (grown : p.Extends q) : a.WellFormed q := by
  cases a with
  | code name c => exact ⟨grown.utf8 h.1, h.2.extends grown⟩
  | raw r =>
      obtain ⟨s, found, other⟩ := h
      exact ⟨s, grown.utf8 found, other⟩

theorem MethodInfo.WellFormed.extends {m : MethodInfo} (h : m.WellFormed p) (grown : p.Extends q) :
    m.WellFormed q where
  name := h.name.extends grown
  descriptor := by
    obtain ⟨s, d, found, parsed⟩ := h.descriptor
    exact ⟨s, d, grown.utf8 found, parsed⟩
  attributes := fun a member => (h.attributes a member).extends grown

theorem ClassFile.Patchable.withPool {c : ClassFile} (h : c.Patchable)
    (grown : ConstantPool.Grown c.pool q) : ({ c with pool := q } : ClassFile).Patchable where
  major := h.major
  pool := grown.wellFormed
  thisClass := h.thisClass.imp fun _ => grown.extends_.className
  superClass := h.superClass.imp_right (Exists.imp fun _ => grown.extends_.className)
  interfaces := fun i member => (h.interfaces i member).imp fun _ => grown.extends_.className
  fields := fun f member => (h.fields f member).extends grown.extends_
  methods := fun m member => (h.methods m member).extends grown.extends_
  attributes := fun a member => (h.attributes a member).extends grown.extends_
  compact := fun m member code body fresh =>
    h.compact m member code body (Prologue.fresh_of_extends grown.extends_ fresh)

end

/-! ### Additions -/

section

open ConstantPool (Adds)

variable {α : Type}

namespace ClassFile

theorem final_inPool (e : ConstantPool.Addition α) (c : ClassFile) :
    (inPool e).final c = { c with pool := e.final c.pool } := by
  simp only [Edit.final, inPool, Edit.within]
  cases e c.pool <;> rfl

theorem Patchable.addition {Q : ConstantPool → α → Prop} {e : ConstantPool.Addition α}
    {c : ClassFile} (sound : c.Patchable) (h : Adds (fun _ => True) e Q) :
    ((inPool e).final c).Patchable := by
  rw [final_inPool]
  exact sound.withPool (h.final sound.pool)

/-- A failed addition of a field may leave its name and its type behind in the pool. -/
theorem Patchable.addField {c : ClassFile} (sound : c.Patchable) (access : UInt16)
    (name descriptor : String) : ((addField access name descriptor).final c).Patchable := by
  have named := ConstantPool.adds_utf8 ConstantPool.persistent_true name
  have typed (i : UInt16) := ConstantPool.adds_utf8 (S := fun q => q.utf8 i = .ok name)
    (fun found grown => grown.utf8 found) descriptor
  have first := named c.pool sound.pool trivial
  rw [Edit.final, ClassFile.addField, Edit.bind_run, inPool, Edit.within]
  cases run : ConstantPool.addUtf8 name c.pool with
  | error e p =>
      rw [run] at first
      exact sound.withPool first
  | ok i p =>
      rw [run] at first
      obtain ⟨grown, ⟨found, -⟩, -⟩ := first
      have second := typed i p grown.wellFormed found
      dsimp only
      rw [Edit.bind_run, inPool, Edit.within]
      dsimp only
      cases run' : ConstantPool.addUtf8 descriptor p with
      | error e q =>
          rw [run'] at second
          exact sound.withPool (grown.trans second)
      | ok j q =>
          rw [run'] at second
          obtain ⟨grown', ⟨found', -⟩, kept⟩ := second
          have before := sound.withPool (grown.trans grown')
          refine { before with fields := fun f member => ?_ }
          rcases List.mem_append.mp member with old | new
          · exact before.fields f old
          · rw [List.mem_singleton.mp new]
            exact ⟨⟨_, kept⟩, ⟨_, found'⟩, List.forall_mem_nil _⟩

end ClassFile

end

/-! ### Injections -/

namespace Prologue

open ConstantPool (Grown)

variable {options : PrologueOptions} {index len : Nat} {c c' : ClassFile} {s : Site}
  {shape : PrologueShape} {pool : ConstantPool} {code : Code}

/-- The pool behind an injection has grown, and it holds the reference to the gate. -/
theorem Rewritten.grown (h : Rewritten c shape s pool) (sound : c.pool.WellFormed) :
    Grown c.pool pool ∧ IsGate pool s.gateRef := by
  cases h with
  | plain _ gate _ => exact grown_addGate sound gate
  | framed _ gate entry named _ _ =>
      obtain ⟨grown, found⟩ := grown_addGate sound gate
      obtain ⟨grown', -⟩ := (ConstantPool.adds_initialLocals ConstantPool.persistent_true _ _ _ _).run
        grown.wellFormed trivial entry
      obtain ⟨grown'', -⟩ := (ConstantPool.adds_utf8 ConstantPool.persistent_true _).run
        grown'.wellFormed trivial named
      have later := grown'.trans grown''
      exact ⟨grown.trans later, found.extends later.extends_⟩

theorem formed_stackMap? {c : Code} {p : ConstantPool} (sound : c.WellFormed p) :
    ∀ f ∈ c.stackMap?.getD [], f.Formed := by
  cases found : c.stackMap? with
  | none => nofun
  | some frames =>
      obtain ⟨name, member⟩ := Code.exists_mem_of_framesOf? found
      exact (sound.attributes _ member).inPlace

/-- The opcodes of the prologues that stand for themselves. -/
def plainOpcodes : List UInt8 :=
  [Opcode.nop, Opcode.pop, Opcode.vreturn, Opcode.iconst0, Opcode.ireturn, Opcode.lconst0,
    Opcode.lreturn, Opcode.fconst0, Opcode.freturn, Opcode.dconst0, Opcode.dreturn,
    Opcode.aconstNull, Opcode.areturn]

theorem canonical_simple {op : UInt8} (member : op ∈ plainOpcodes) :
    (Instruction.simple op).Canonical := by
  have forms : ∀ op ∈ plainOpcodes, Opcode.form? op = some .none := by decide +kernel
  exact ⟨forms op member, trivial⟩

theorem zeroOf_mem (t : FieldType) : zeroOf t ∈ plainOpcodes := by
  cases t <;> simp [zeroOf, plainOpcodes]

theorem returnOf_mem (t : FieldType) : returnOf t ∈ plainOpcodes := by
  cases t <;> simp [returnOf, plainOpcodes]

theorem canonical_prologueFor (gateRef : UInt16) (shape : PrologueShape) (result : Option FieldType) :
    ∀ i ∈ prologueFor gateRef shape result, i.Canonical := by
  have isConstant : Opcode.form? Opcode.invokestatic = some .constant := by decide +kernel
  have isBranch : Opcode.form? Opcode.ifne = some .branch := by decide +kernel
  have call : (gateCall gateRef).Canonical := ⟨isConstant, trivial⟩
  have jump : (Instruction.branch Opcode.ifne 8).Canonical := ⟨isBranch, trivial⟩
  cases shape with
  | callOnly =>
      simp only [prologueFor, List.forall_mem_cons]
      exact ⟨call, canonical_simple (by decide), List.forall_mem_nil _⟩
  | earlyReturn =>
      cases result with
      | none =>
          simp only [prologueFor, List.forall_mem_cons]
          exact ⟨canonical_simple (by decide), call, jump, canonical_simple (by decide),
            List.forall_mem_nil _⟩
      | some t =>
          simp only [prologueFor, List.forall_mem_cons]
          exact ⟨call, jump, canonical_simple (zeroOf_mem t), canonical_simple (returnOf_mem t),
            List.forall_mem_nil _⟩

/-- The only target of a prologue is its end. -/
theorem targets_prologueFor (gateRef : UInt16) (shape : PrologueShape) (result : Option FieldType) :
    ∀ i ∈ prologueFor gateRef shape result, ∀ t ∈ i.targets,
      t = Instruction.endFrom 0 (prologueFor gateRef shape result) := by
  rcases shape with _ | _ <;> rcases result with _ | t <;>
    simp [prologueFor, gateCall, Instruction.targets, Instruction.endFrom, Instruction.size]

/-- A body with the prologue of its method in front of it is well formed in every pool that it grew
into. -/
theorem wellFormed_inFront_build {p q : ConstantPool} {gateRef : UInt16} {descriptor : MethodDescriptor}
    {exit : List Instruction} (body : code.WellFormed p) (compact : code.Compact) (grown : p.Extends q)
    (left : exitFor options descriptor = .ok exit) :
    (code.inFront (build gateRef options.shape exit)
      (Instruction.endFrom 0 (build gateRef options.shape exit))).WellFormed q := by
  have short := compact.short
  have few := (endFrom_build gateRef left).trans_le (lengthOf_le _)
  have aligned (shape : PrologueShape) (result : Option FieldType) :
      Instruction.endFrom 0 (prologueFor gateRef shape result) % 4 = 0 := by
    cases shape <;> cases result <;>
      simp [prologueFor, gateCall, Instruction.endFrom, Instruction.size]
  rw [build_eq gateRef left] at few ⊢
  exact (body.extends grown).inFront (canonical_prologueFor _ _ _) (targets_prologueFor _ _ _)
    (aligned _ _) (by omega)

end Prologue

theorem MethodInfo.mem_withCode {code : Code} {as : List MethodAttribute} {a : MethodAttribute}
    (member : a ∈ withCode code as) :
    a ∈ as ∨ ∃ name old, .code name old ∈ as ∧ a = .code name code := by
  induction as with
  | nil => cases member
  | cons b bs ih =>
      cases b with
      | code name old =>
          rcases List.mem_cons.mp member with rfl | later
          · exact .inr ⟨name, old, List.mem_cons_self .., rfl⟩
          · exact .inl (List.mem_cons_of_mem _ later)
      | raw r =>
          rcases List.mem_cons.mp member with rfl | later
          · exact .inl (List.mem_cons_self ..)
          · refine (ih later).imp (List.mem_cons_of_mem _) ?_
            exact fun ⟨name, old, found, same⟩ => ⟨name, old, List.mem_cons_of_mem _ found, same⟩

theorem MethodInfo.WellFormed.setCode {m : MethodInfo} {p : ConstantPool} {code : Code}
    (sound : m.WellFormed p) (body : code.WellFormed p) : (m.setCode code).WellFormed p := by
  refine { sound with attributes := fun a member => ?_ }
  rcases mem_withCode member with old | ⟨name, old, found, rfl⟩
  · exact sound.attributes a old
  · exact ⟨(sound.attributes _ found).1, body⟩

namespace Prologue

variable {options : PrologueOptions} {index : Nat} {c d : ClassFile} {code : Code}

/-- What an injection into the method at an index makes of a class, whether it succeeds or not: a class
that can be patched further, whose pool has grown, and whose other methods are as they were. -/
structure Touched (index : Nat) (c d : ClassFile) : Prop where
  patchable : d.Patchable
  pool : c.pool.Extends d.pool
  others : ∀ i, i ≠ index → d.methods[i]? = c.methods[i]?

namespace Touched

variable {α β : Type}

theorem refl (sound : c.Patchable) : Touched index c c := ⟨sound, .refl _, fun _ _ => rfl⟩

theorem lookup {x : Except ClassError α} {f : α → Injection β} (h : Touched index c d)
    (next : ∀ a, x = .ok a → Touched index c ((f a).final d)) :
    Touched index c ((ofLookup x >>= f).final d) := by
  cases x with
  | ok a => exact next a rfl
  | error why => exact h

theorem addition {Q : ConstantPool → α → Prop} {e : ConstantPool.Addition α} {f : α → Injection β}
    (h : Touched index c d) (adds : ConstantPool.Adds (fun _ => True) e Q)
    (next : ∀ a pool, d.pool.Extends pool → Touched index c { d with pool } → Q pool a →
      Touched index c ((f a).final { d with pool })) :
    Touched index c ((ofChange (ClassFile.inPool e) >>= f).final d) := by
  have run := adds d.pool h.patchable.pool trivial
  have grow {pool : ConstantPool} (grown : d.pool.Grown pool) : Touched index c { d with pool } :=
    ⟨h.patchable.withPool grown, h.pool.trans grown.extends_, h.others⟩
  rw [Edit.final, Edit.bind_run, ofChange, Edit.mapError, ClassFile.inPool, Edit.within]
  cases result : e d.pool with
  | ok a pool =>
      rw [result] at run
      exact next a pool run.1.extends_ (grow run.1) run.2
  | error why pool =>
      rw [result] at run
      exact grow run

theorem setMethod {m : MethodInfo} (h : Touched index c d) (sound : m.WellFormed d.pool)
    (calls : ∀ new, m.code? = some new → callsGateFirst d.pool new = true) :
    Touched index c (d.setMethod index m) where
  patchable := by
    refine { h.patchable with methods := ?_, compact := ?_ }
    · intro m' member
      rcases List.mem_or_eq_of_mem_set member with old | rfl
      · exact h.patchable.methods m' old
      · exact sound
    · intro m' member new body fresh
      rcases List.mem_or_eq_of_mem_set member with old | rfl
      · exact h.patchable.compact m' old new body fresh
      · cases (calls new body).symm.trans fresh
  pool := h.pool
  others i other := (List.getElem?_set_ne other.symm).trans (h.others i other)

end Touched

/-- What is left behind by the steps of an injection behind its checks. -/
theorem touched_rewrite {method : MethodInfo} {name : String} {descriptor : MethodDescriptor}
    {exit : List Instruction} (sound : c.Patchable) (found : c.methods[index]? = some method)
    (body : method.code? = some code) (compact : code.Compact)
    (left : exitFor options descriptor = .ok exit) :
    Touched index c
      ((rewrite index options.shape c method name descriptor code exit).final c) := by
  have formed := sound.methods method (List.mem_of_getElem? found)
  -- a body that calls the gate may take the place of the old one
  have whole {new : Code} {d : ClassFile} (h : Touched index c d) (sound' : new.WellFormed d.pool)
      (calls : callsGateFirst d.pool new = true) :
      Touched index c (d.setMethod index (method.setCode new)) := by
    refine h.setMethod ((formed.extends h.pool).setCode sound') fun new' body' => ?_
    obtain rfl := Option.some.inj ((MethodInfo.code?_setCode body).symm.trans body')
    exact calls
  have moved {d : ClassFile} (gateRef : UInt16) (h : Touched index c d) :
      (code.inFront (build gateRef options.shape exit)
        (Instruction.endFrom 0 (build gateRef options.shape exit))).WellFormed d.pool :=
    wellFormed_inFront_build (formed.code? body) compact h.pool left
  have calls {pool : ConstantPool} {gateRef : UInt16} (gate : IsGate pool gateRef) :
      callsGateFirst pool (code.inFront (build gateRef options.shape exit)
        (Instruction.endFrom 0 (build gateRef options.shape exit))) = true := by
    rw [build_eq gateRef left]
    exact callsGateFirst_iff.mpr (startsWithCall_prologueFor gate _ _)
  apply Touched.lookup (.refl sound)
  intro className _
  apply Touched.addition (.refl sound)
    (ConstantPool.adds_methodRef ConstantPool.persistent_true _ _ _)
  intro gateRef p _ touched ⟨found, _⟩
  have gate : IsGate p gateRef := found
  rw [insertAt_build (formed.code? body) compact gateRef left]
  dsimp only
  split
  · apply touched.addition (ConstantPool.adds_initialLocals ConstantPool.persistent_true _ _ _ _)
    intro initial q grown touched _
    apply touched.addition (ConstantPool.adds_utf8 ConstantPool.persistent_true _)
    intro tableName r grown' touched named
    have called := calls (gate.extends (grown.trans grown'))
    -- where the frames cannot be spliced, the body stays behind with its old ones
    apply Touched.lookup (whole touched (moved gateRef touched) called)
    intro frames spliced
    rw [stackMap?_inFront] at spliced
    have framed := (moved gateRef touched).setStackMap named.1.1
      (Frame.formed_of_splice (formed_stackMap? (formed.code? body)) spliced)
    exact whole (whole touched (moved gateRef touched) called) framed called
  · exact whole touched (moved gateRef touched) (calls gate)

theorem touched_inject (sound : c.Patchable) (index : Nat) (options : PrologueOptions) :
    Touched index c ((inject index options).final c) := by
  rw [Edit.final]
  cases checked_inject index options c with
  | failed stopped _ =>
      rw [stopped]
      exact .refl sound
  | passed found _ _ _ body fresh left goes =>
      have compact := sound.compact _ (List.mem_of_getElem? found) _ body fresh
      rw [goes]
      exact touched_rewrite sound found body compact left

end Prologue

/-- An injection leaves a class behind that can be patched further. -/
theorem ClassFile.Patchable.inject {options : PrologueOptions} {index len : Nat} {c c' : ClassFile}
    (sound : c.Patchable) (h : Prologue.inject index options c = .ok len c') : c'.Patchable := by
  have touched := Prologue.touched_inject sound index options
  rw [Edit.final, h] at touched
  exact touched.patchable

/-! ### Sequences of edits -/

/-- An edit of a class in the course of a patch. -/
inductive ClassEdit where
  | addUtf8 (text : String)
  | addClass (name : String)
  | addString (value : String)
  | addNameAndType (name descriptor : String)
  | addFieldRef (owner name descriptor : String)
  | addMethodRef (owner name descriptor : String)
  | addField (access : UInt16) (name descriptor : String)
  | inject (index : Nat) (options : PrologueOptions)

namespace ClassEdit

open ClassFile (inPool)

/-- What an edit makes of a class. An addition that fails keeps what it added before; an injection
that fails is no edit. -/
def apply (c : ClassFile) : ClassEdit → Option ClassFile
  | addUtf8 text => some ((inPool (ConstantPool.addUtf8 text)).final c)
  | addClass name => some ((inPool (ConstantPool.addClass name)).final c)
  | addString value => some ((inPool (ConstantPool.addString value)).final c)
  | addNameAndType name descriptor =>
    some ((inPool (ConstantPool.addNameAndType name descriptor)).final c)
  | addFieldRef owner name descriptor =>
    some ((inPool (ConstantPool.addFieldRef owner name descriptor)).final c)
  | addMethodRef owner name descriptor =>
    some ((inPool (ConstantPool.addMethodRef owner name descriptor)).final c)
  | addField access name descriptor => some ((ClassFile.addField access name descriptor).final c)
  | inject index options =>
    match Prologue.inject index options c with
    | .ok _ c => some c
    | .error _ _ => none

/-- What edits make of a class, one after another. -/
def run (edits : List ClassEdit) (c : ClassFile) : Option ClassFile := edits.foldlM apply c

theorem patchable_apply {c c' : ClassFile} {e : ClassEdit} (sound : c.Patchable)
    (h : apply c e = some c') : c'.Patchable := by
  cases e with
  | addUtf8 text =>
      cases h
      exact sound.addition (ConstantPool.adds_utf8 ConstantPool.persistent_true text)
  | addClass name =>
      cases h
      exact sound.addition (ConstantPool.adds_class ConstantPool.persistent_true name)
  | addString value =>
      cases h
      exact sound.addition (ConstantPool.adds_string ConstantPool.persistent_true value)
  | addNameAndType name descriptor =>
      cases h
      exact sound.addition
        (ConstantPool.adds_nameAndType ConstantPool.persistent_true name descriptor)
  | addFieldRef owner name descriptor =>
      cases h
      exact sound.addition
        (ConstantPool.adds_fieldRef ConstantPool.persistent_true owner name descriptor)
  | addMethodRef owner name descriptor =>
      cases h
      exact sound.addition
        (ConstantPool.adds_methodRef ConstantPool.persistent_true owner name descriptor)
  | addField access name descriptor =>
      cases h
      exact sound.addField access name descriptor
  | inject index options =>
      simp only [apply] at h
      split at h
      next done =>
        cases h
        exact sound.inject done
      next => cases h

/-- Edits leave a class behind that can be edited further. -/
theorem patchable_run {edits : List ClassEdit} {c c' : ClassFile} (sound : c.Patchable)
    (h : run edits c = some c') : c'.Patchable := by
  induction edits generalizing c with
  | nil =>
      cases h
      exact sound
  | cons e es ih =>
      obtain ⟨d, first, rest⟩ := Option.bind_eq_some_iff.mp h
      exact ih (patchable_apply sound first) rest

end ClassEdit

end JarGate
