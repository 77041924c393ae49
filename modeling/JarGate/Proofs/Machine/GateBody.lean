import JarGate.Proofs.Machine.GateWorld

/-!
# Runs of the gate's body

The body of `check` has three parts: it makes a client where there is none, it asks the client, and it
answers. The first two are the same in all modes but for the place of the second. What they do is what
the surroundings decide; the third part is one of two.
-/

namespace JarGate.GateClass

open Machine

variable {τ σ : Type}

/-! ### Bodies -/

/-- Making a client where there is none, in front of the place where there is one. -/
def loadInsns (r : Refs) (ready : Nat) : List Instruction := [
  .constant Opcode.getstatic r.client,
  .branch Opcode.ifnonnull ready,
  pushConstant r.resource,
  .constant Opcode.invokestatic r.fromResource,
  .constant Opcode.putstatic r.client,
  .branch Opcode.goto ready,
  .simple Opcode.pop]

/-- Asking the client. -/
def askInsns (r : Refs) : List Instruction :=
  [.constant Opcode.getstatic r.client, .constant Opcode.invokevirtual r.validate]

/-- The body in the modes that enforce the verdict. -/
def enforcingInsns (r : Refs) : List Instruction :=
  loadInsns r 20 ++ [.simple Opcode.iconst0, .simple Opcode.ireturn] ++ askInsns r ++
    [.simple Opcode.ireturn]

/-- The body in limited mode. -/
def limitedInsns (r : Refs) : List Instruction :=
  loadInsns r 24 ++ [
    .simple Opcode.iconst1,
    .constant Opcode.putstatic r.limited,
    .simple Opcode.iconst1,
    .simple Opcode.ireturn] ++
  askInsns r ++ [
    .branch Opcode.ifne 37,
    .simple Opcode.iconst1,
    .branch Opcode.goto 38,
    .simple Opcode.iconst0,
    .constant Opcode.putstatic r.limited,
    .simple Opcode.iconst1,
    .simple Opcode.ireturn]

/-- The first two parts of a body are found where they belong. -/
structure Asks (r : Refs) (ready : Nat) (code : Code) : Prop where
  first : code.instructionAt? 0 = some (.constant Opcode.getstatic r.client)
  test : code.instructionAt? 3 = some (.branch Opcode.ifnonnull ready)
  path : code.instructionAt? 6 = some (pushConstant r.resource)
  load : code.instructionAt? 8 = some (.constant Opcode.invokestatic r.fromResource)
  keep : code.instructionAt? 11 = some (.constant Opcode.putstatic r.client)
  skip : code.instructionAt? 14 = some (.branch Opcode.goto ready)
  drop : code.instructionAt? 17 = some (.simple Opcode.pop)
  again : code.instructionAt? ready = some (.constant Opcode.getstatic r.client)
  ask : code.instructionAt? (ready + 3) = some (.constant Opcode.invokevirtual r.validate)
  /-- The path has a short form. -/
  short : (pushConstant r.resource).size 6 = 2
  /-- What a client throws while it is made is caught. -/
  handlers : code.handlers = [⟨6, 14, 17, r.throwable⟩]

/-- The body of a mode that enforces the verdict. -/
structure Enforces (r : Refs) (code : Code) : Prop extends Asks r 20 code where
  refuse : code.instructionAt? 18 = some (.simple Opcode.iconst0)
  leave : code.instructionAt? 19 = some (.simple Opcode.ireturn)
  answer : code.instructionAt? 26 = some (.simple Opcode.ireturn)

/-- The body of limited mode. -/
structure Records (r : Refs) (code : Code) : Prop extends Asks r 24 code where
  flag : code.instructionAt? 18 = some (.simple Opcode.iconst1)
  set : code.instructionAt? 19 = some (.constant Opcode.putstatic r.limited)
  pass : code.instructionAt? 22 = some (.simple Opcode.iconst1)
  leave : code.instructionAt? 23 = some (.simple Opcode.ireturn)
  verdict : code.instructionAt? 30 = some (.branch Opcode.ifne 37)
  bad : code.instructionAt? 33 = some (.simple Opcode.iconst1)
  join : code.instructionAt? 34 = some (.branch Opcode.goto 38)
  good : code.instructionAt? 37 = some (.simple Opcode.iconst0)
  store : code.instructionAt? 38 = some (.constant Opcode.putstatic r.limited)
  go : code.instructionAt? 41 = some (.simple Opcode.iconst1)
  answer : code.instructionAt? 42 = some (.simple Opcode.ireturn)

/-- The state of the machine when the surroundings have decided. -/
def decided (ready : Nat) (locals : Nat → Value) (w : World τ σ) : Option Bool → Machine.State (World τ σ)
  | some valid => ⟨ready + 6, [.ofBool valid], locals, w⟩
  | none => ⟨18, [], locals, w⟩

section

variable {env : Surroundings τ σ} {load : ClientLoader τ σ} {pool : ConstantPool} {code : Code} {r : Refs}
  {ready : Nat} {locals : Nat → Value} {w : World τ σ}

/-- A body that finds a client goes where there is one. -/
theorem leads_of_kept (sound : r.Sound pool) (body : Asks r ready code) {id : Nat}
    (kept : w.client = .object id) :
    Leads (host env load) pool code ⟨0, [], locals, w⟩ (.runs ⟨ready, [], locals, w⟩) := by
  refine .falls body.first (effect_getClient sound) ?_
  rw [kept]
  exact .last (step_jumps (s := ⟨3, [.object id], locals, w⟩) body.test rfl)

/-- A body that finds no client is about to make one. -/
theorem leads_to_load (sound : r.Sound pool) (body : Asks r ready code) (none : w.client = .null)
    {n : Next (World τ σ)}
    (rest : Leads (host env load) pool code
      ⟨8, [.text LicensePolicy.propertiesPath], locals, w⟩ n) :
    Leads (host env load) pool code ⟨0, [], locals, w⟩ n := by
  have pushing : Leads (host env load) pool code ⟨6, [], locals, w⟩ n := by
    refine .falls body.path (effect_pushPath sound) ?_
    rw [body.short]
    exact rest
  refine .falls body.first (effect_getClient sound) ?_
  rw [none]
  exact .falls (o := 3) body.test rfl pushing

/-- A client that is made is kept. -/
theorem leads_of_loaded (sound : r.Sound pool) (body : Asks r ready code) (none : w.client = .null)
    {c : LicenseClient τ} {s : σ} (loaded : load w.outside = (.ok c, s)) :
    Leads (host env load) pool code ⟨0, [], locals, w⟩
      (.runs ⟨ready, [], locals, { w.making (.client c) s with client := w.next }⟩) := by
  refine leads_to_load sound body none ?_
  refine .falls body.load (effect_load_of_loaded sound loaded) ?_
  refine .falls body.keep (effect_putClient sound) ?_
  exact .last (step_jumps (s := ⟨14, [], locals, _⟩) body.skip rfl)

/-- A body that cannot make a client goes on behind its handler. -/
theorem leads_of_failed (sound : r.Sound pool) (body : Asks r ready code) (none : w.client = .null)
    {e : ClientError} {s : σ} (failed : load w.outside = (.error e, s)) :
    Leads (host env load) pool code ⟨0, [], locals, w⟩
      (.runs ⟨18, [], locals, w.making (.exception e) s⟩) := by
  have caught : code.handlers.find? (catches (host env load) pool 8 w.next) =
      some ⟨6, 14, 17, r.throwable⟩ := by
    have named : (pool.className r.throwable).toOption.any ((host env load).isInstance w.next) := by
      rw [sound.throwable]
      rfl
    rw [body.handlers, List.find?_cons, catches, named, Bool.or_true]
    rfl
  refine leads_to_load sound body none ?_
  refine .caught body.load (effect_load_of_failed sound failed) caught ?_
  exact .last (step_falls (s := ⟨17, [w.next], locals, _⟩) body.drop rfl)

/-- A client that is there is asked. -/
theorem leads_of_asked (sound : r.Sound pool) (body : Asks r ready code) {id : Nat} {c : LicenseClient τ}
    (kept : w.client = .object id) (known : w.things[id]? = some (.client c)) :
    Leads (host env load) pool code ⟨ready, [], locals, w⟩
      (.runs ⟨ready + 6, [.ofBool (c.validate env w.outside).1], locals,
        w.updating id (c.validate env w.outside).2.1 (c.validate env w.outside).2.2⟩) := by
  refine .falls body.again (effect_getClient sound) ?_
  rw [kept]
  exact .last (step_falls (s := ⟨ready + 3, [.object id], locals, w⟩) body.ask
    (effect_validate sound known))

theorem leads_of_verdict (env : Surroundings τ σ) (load : ClientLoader τ σ)
    (sound : r.Sound pool) (body : Asks r ready code) {c : LicenseClient τ}
    {limited : Bool} {s : σ} (shown : w.Shows (some c) limited s) :
    ∃ w' : World τ σ,
      (∀ locals, Leads (host env load) pool code ⟨ready, [], locals, w⟩
        (.runs (decided ready locals w' (LicenseGate.verdictOf env c s).1))) ∧
      w'.Shows (LicenseGate.verdictOf env c s).2.1 limited (LicenseGate.verdictOf env c s).2.2 := by
  obtain ⟨⟨id, kept, known⟩, flag, rfl⟩ := shown
  exact ⟨_, fun _ => leads_of_asked sound body kept known, World.keeps_updated kept known _ _, flag, rfl⟩

/-- The first two parts of a body do what the surroundings decide. -/
theorem leads_of_decision (env : Surroundings τ σ) (load : ClientLoader τ σ)
    (sound : r.Sound pool) (body : Asks r ready code)
    {client : Option (LicenseClient τ)} {limited : Bool} {s : σ} (shown : w.Shows client limited s) :
    ∃ w' : World τ σ,
      (∀ locals, Leads (host env load) pool code ⟨0, [], locals, w⟩
        (.runs (decided ready locals w' (LicenseGate.decide? env load client s).1))) ∧
      w'.Shows (LicenseGate.decide? env load client s).2.1 limited
        (LicenseGate.decide? env load client s).2.2 := by
  cases client with
  | some c =>
      obtain ⟨id, kept, -⟩ := shown.keeps
      obtain ⟨w', asked, after⟩ := leads_of_verdict env load sound body shown
      exact ⟨w', fun locals => (leads_of_kept sound body kept).trans (asked locals), after⟩
  | none =>
      obtain ⟨none, flag, rfl⟩ := shown
      cases loading : load w.outside with
      | mk outcome s' =>
          cases outcome with
          | ok c =>
              rw [LicenseGate.decide?_of_loaded loading]
              obtain ⟨w', asked, after⟩ := leads_of_verdict env load sound body
                (w := { w.making (.client c) s' with client := w.next })
                ⟨World.keeps_made w c s', flag, rfl⟩
              exact ⟨w', fun locals => (leads_of_loaded sound body none loading).trans (asked locals), after⟩
          | error e =>
              rw [LicenseGate.decide?_of_failed loading]
              exact ⟨_, fun _ => leads_of_failed sound body none loading, none, flag, rfl⟩

/-! ### Answers -/

theorem leads_of_enforced (body : Enforces r code) (decision : Option Bool) :
    Leads (host env load) pool code (decided 20 locals w decision)
      (.returned Opcode.ireturn (some (.ofBool (decision.getD false))) w) := by
  cases decision with
  | none => exact .falls body.refuse rfl (.returns (o := 19) body.leave rfl)
  | some valid => exact .returns (o := 26) body.answer rfl

/-- Limited mode stores a flag and lets the caller pass. -/
theorem leads_of_stored (sound : r.Sound pool) (body : Records r code) (limited : Bool) :
    Leads (host env load) pool code ⟨38, [.ofBool limited], locals, w⟩
      (.returned Opcode.ireturn (some (.ofBool true)) { w with limited := .ofBool limited }) := by
  refine .falls body.store (effect_putLimited sound) ?_
  exact .falls (o := 41) body.go rfl (.returns (o := 42) body.answer rfl)

theorem leads_of_recorded (sound : r.Sound pool) (body : Records r code) (decision : Option Bool) :
    Leads (host env load) pool code (decided 24 locals w decision)
      (.returned Opcode.ireturn (some (.ofBool true))
        { w with limited := .ofBool (!decision.getD false) }) := by
  cases decision with
  | none =>
      refine .falls (o := 18) body.flag rfl ?_
      refine .falls (o := 19) body.set (effect_putLimited sound) ?_
      exact .falls (o := 22) body.pass rfl (.returns (o := 23) body.leave rfl)
  | some valid =>
      cases valid with
      | true =>
          refine .jumps (o := 30) body.verdict rfl ?_
          exact .falls (o := 37) body.good rfl (leads_of_stored sound body false)
      | false =>
          refine .falls (o := 30) body.verdict rfl ?_
          refine .falls (o := 33) body.bad rfl ?_
          exact .jumps (o := 34) body.join rfl (leads_of_stored sound body true)

end

end JarGate.GateClass
