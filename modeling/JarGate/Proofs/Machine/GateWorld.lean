import Mathlib
import JarGate.Injection.GateClass
import JarGate.Proofs.License.History
import JarGate.Proofs.Machine.Step

/-!
# The world of the gate class

What the body of `check` finds around it: its two static fields, and the class of the license client,
whose methods are those of the clients that the gate library has. Clients and exceptions are objects
that are made one after another.
-/

namespace JarGate

open Machine

/-- A truth value on the operand stack. -/
def Machine.Value.ofBool (b : Bool) : Value := .int (if b then 1 else 0)

theorem Machine.Value.ofBool_inj {a b : Bool} : ofBool a = ofBool b ↔ a = b := by
  cases a <;> cases b <;> decide

namespace GateClass

variable {τ σ : Type}

/-- The field that keeps the client. -/
def clientMember : MemberRef := ⟨gateName.owner, clientField, clientType⟩

/-- The field for the flag of limited mode. -/
def limitedMember : MemberRef := ⟨gateName.owner, limitedField, "Z"⟩

/-- The method that makes a client. -/
def loadMember : MemberRef :=
  ⟨clientClass, "fromResource", "(Ljava/lang/String;)" ++ clientType⟩

/-- The method that asks a client. -/
def validateMember : MemberRef := ⟨clientClass, "validate", "()Z"⟩

/-- An object that was made. -/
inductive Thing (τ : Type) where
  | client (c : LicenseClient τ)
  | exception (e : ClientError)
  deriving DecidableEq, Repr

/-- A state of the world of the gate class. -/
structure World (τ σ : Type) where
  client : Value
  limited : Value
  /-- The objects that were made, by their numbers. -/
  things : List (Thing τ)
  outside : σ

namespace World

/-- The world before the gate is first asked. -/
def cold (s : σ) : World τ σ := ⟨.null, .ofBool false, [], s⟩

/-- The reference to the object that is made next. -/
def next (w : World τ σ) : Value := .object w.things.length

/-- The world with one more object. -/
def making (w : World τ σ) (thing : Thing τ) (s : σ) : World τ σ :=
  { w with things := w.things ++ [thing], outside := s }

/-- The world with another state of a client. -/
def updating (w : World τ σ) (id : Nat) (c : LicenseClient τ) (s : σ) : World τ σ :=
  { w with things := w.things.set id (.client c), outside := s }

/-- The static fields of the gate class keep a client, or none. -/
def Keeps (w : World τ σ) : Option (LicenseClient τ) → Prop
  | none => w.client = .null
  | some c => ∃ id, w.client = .object id ∧ w.things[id]? = some (.client c)

/-- What a world shows of a gate: its client, its flag, and the surroundings. -/
structure Shows (w : World τ σ) (client : Option (LicenseClient τ)) (limited : Bool) (s : σ) : Prop where
  keeps : w.Keeps client
  limited : w.limited = .ofBool limited
  outside : w.outside = s

theorem shows_cold (s : σ) : (cold s : World τ σ).Shows none false s := ⟨rfl, rfl, rfl⟩

variable {w : World τ σ} {c : LicenseClient τ}

theorem keeps_made (w : World τ σ) (c : LicenseClient τ) (s : σ) :
    ({ w.making (.client c) s with client := w.next } : World τ σ).Keeps (some c) :=
  ⟨_, rfl, List.getElem?_concat_length⟩

theorem keeps_updated {id : Nat} (kept : w.client = .object id) (known : w.things[id]? = some (.client c))
    (c' : LicenseClient τ) (s : σ) : (w.updating id c' s).Keeps (some c') :=
  ⟨id, kept, List.getElem?_set_self (List.getElem?_eq_some_iff.mp known).1⟩

end World

section

variable (env : Surroundings τ σ) (load : ClientLoader τ σ)

/-- Makes a client from the property file. -/
def callLoad (w : World τ σ) : CallOutcome × World τ σ :=
  match load w.outside with
  | (.ok c, s) => (.returns (some w.next), w.making (.client c) s)
  | (.error e, s) => (.throws w.next, w.making (.exception e) s)

/-- Asks the client with a number. -/
def callValidate (id : Nat) (w : World τ σ) : CallOutcome × World τ σ :=
  match w.things[id]? with
  | some (.client c) =>
    let (valid, c, s) := c.validate env w.outside
    (.returns (some (.ofBool valid)), w.updating id c s)
  | _ => (.throws .null, w)

/-- What the gate class finds around it. Calls that it does not make fail; all that is thrown is a
`Throwable`. -/
def host : Host (World τ σ) where
  getStatic ref w :=
    if ref = clientMember then w.client else if ref = limitedMember then w.limited else .null
  putStatic ref v w :=
    if ref = clientMember then { w with client := v }
    else if ref = limitedMember then { w with limited := v }
    else w
  call ref args w :=
    match args with
    | [.text path] =>
      if ref = loadMember ∧ path = LicensePolicy.propertiesPath then callLoad load w
      else (.throws .null, w)
    | [.object id] => if ref = validateMember then callValidate env id w else (.throws .null, w)
    | _ => (.throws .null, w)
  isInstance _ name := name == "java/lang/Throwable"

end

/-! ### Effects -/

/-- The references of `check` mean what they are made for. -/
structure Refs.Sound (r : Refs) (pool : ConstantPool) : Prop where
  client : pool.memberRef r.client = .ok clientMember
  limited : pool.memberRef r.limited = .ok limitedMember
  resource : text? pool r.resource = some LicensePolicy.propertiesPath
  fromResource : pool.memberRef r.fromResource = .ok loadMember
  validate : pool.memberRef r.validate = .ok validateMember
  throwable : pool.className r.throwable = .ok "java/lang/Throwable"

instance (r : Refs) (pool : ConstantPool) : Decidable (r.Sound pool) :=
  decidable_of_iff
    (pool.memberRef r.client = .ok clientMember ∧ pool.memberRef r.limited = .ok limitedMember ∧
      text? pool r.resource = some LicensePolicy.propertiesPath ∧
      pool.memberRef r.fromResource = .ok loadMember ∧ pool.memberRef r.validate = .ok validateMember ∧
      pool.className r.throwable = .ok "java/lang/Throwable")
    ⟨fun ⟨client, limited, resource, fromResource, validate, throwable⟩ =>
        ⟨client, limited, resource, fromResource, validate, throwable⟩,
      fun h => ⟨h.client, h.limited, h.resource, h.fromResource, h.validate, h.throwable⟩⟩

section

variable {env : Surroundings τ σ} {load : ClientLoader τ σ} {pool : ConstantPool} {r : Refs}
  {stack : List Value} {w : World τ σ}

theorem effect_getClient (sound : r.Sound pool) :
    effect (host env load) pool (.constant Opcode.getstatic r.client) stack w =
      some (.falls (w.client :: stack) w) := by
  rw [effect, sound.client]
  rfl

theorem effect_putClient (sound : r.Sound pool) {v : Value} :
    effect (host env load) pool (.constant Opcode.putstatic r.client) (v :: stack) w =
      some (.falls stack { w with client := v }) := by
  rw [effect, sound.client]
  rfl

theorem effect_putLimited (sound : r.Sound pool) {v : Value} :
    effect (host env load) pool (.constant Opcode.putstatic r.limited) (v :: stack) w =
      some (.falls stack { w with limited := v }) := by
  rw [effect, sound.limited]
  rfl

theorem effect_pushPath (sound : r.Sound pool) :
    effect (host env load) pool (pushConstant r.resource) stack w =
      some (.falls (.text LicensePolicy.propertiesPath :: stack) w) := by
  have loads : loadEffect pool r.resource stack w =
      some (.falls (.text LicensePolicy.propertiesPath :: stack) w) := by
    rw [loadEffect, sound.resource]
    rfl
  by_cases short : r.resource.toNat < 0x100
  · have same : (UInt8.ofNat r.resource.toNat).toUInt16 = r.resource := by
      rw [← UInt16.toNat_inj]
      simp [Nat.mod_eq_of_lt short]
    rw [pushConstant, if_pos short, effect, same]
    exact loads
  · rw [pushConstant, if_neg short]
    exact loads

theorem parse_load : MethodDescriptor.parse loadMember.descriptor =
    .ok ⟨[.object "java/lang/String"], some (.object clientClass)⟩ := by
  decide +kernel

theorem parse_validate : MethodDescriptor.parse validateMember.descriptor = .ok ⟨[], some .boolean⟩ := by
  decide +kernel

theorem call_load (w : World τ σ) :
    (host env load).call loadMember [.text LicensePolicy.propertiesPath] w = callLoad load w := by
  change (if loadMember = loadMember ∧ LicensePolicy.propertiesPath = LicensePolicy.propertiesPath then
    callLoad load w else (.throws .null, w)) = _
  exact if_pos ⟨rfl, rfl⟩

theorem effect_load_of_loaded (sound : r.Sound pool) {c : LicenseClient τ} {s : σ}
    (loaded : load w.outside = (.ok c, s)) :
    effect (host env load) pool (.constant Opcode.invokestatic r.fromResource)
        (.text LicensePolicy.propertiesPath :: stack) w =
      some (.falls (w.next :: stack) (w.making (.client c) s)) := by
  have call : (host env load).call loadMember [.text LicensePolicy.propertiesPath] w =
      (.returns (some w.next), w.making (.client c) s) := by
    rw [call_load, callLoad, loaded]
  rw [effect, sound.fromResource]
  exact callEffect_of_returns [.text _] parse_load rfl rfl call

theorem effect_load_of_failed (sound : r.Sound pool) {e : ClientError} {s : σ}
    (failed : load w.outside = (.error e, s)) :
    effect (host env load) pool (.constant Opcode.invokestatic r.fromResource)
        (.text LicensePolicy.propertiesPath :: stack) w =
      some (.throws w.next (w.making (.exception e) s)) := by
  have call : (host env load).call loadMember [.text LicensePolicy.propertiesPath] w =
      (.throws w.next, w.making (.exception e) s) := by
    rw [call_load, callLoad, failed]
  rw [effect, sound.fromResource]
  exact callEffect_of_throws [.text _] parse_load rfl call

theorem effect_validate (sound : r.Sound pool) {id : Nat} {c : LicenseClient τ}
    (known : w.things[id]? = some (.client c)) :
    effect (host env load) pool (.constant Opcode.invokevirtual r.validate) (.object id :: stack) w =
      some (.falls (.ofBool (c.validate env w.outside).1 :: stack)
        (w.updating id (c.validate env w.outside).2.1 (c.validate env w.outside).2.2)) := by
  have call : (host env load).call validateMember [.object id] w =
      (.returns (some (.ofBool (c.validate env w.outside).1)),
        w.updating id (c.validate env w.outside).2.1 (c.validate env w.outside).2.2) := by
    change (if validateMember = validateMember then callValidate env id w else (.throws .null, w)) = _
    rw [if_pos rfl, callValidate, known]
  rw [effect, sound.validate]
  exact callEffect_of_returns [.object id] parse_validate rfl rfl call

end

end GateClass

end JarGate
