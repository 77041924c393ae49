import JarGate.License.Client

/-!
# License gates

The gate that guarded methods ask. It sets up its client when it is first asked, and tries again as
long as that fails. In limited mode the gate never refuses; it records that the license is invalid
instead.
-/

namespace JarGate

/-- A gate. -/
structure LicenseGate (τ : Type) where
  client : Option (LicenseClient τ)
  /-- Whether the license was last found to be invalid, in limited mode. -/
  limited : Bool
  /-- The mode of the gate, if it does not follow that of its client. -/
  mode : Option FailureMode
  deriving DecidableEq, Repr

namespace LicenseGate

variable {τ σ : Type}

/-- A gate that was not asked yet. -/
def new (mode : Option FailureMode) : LicenseGate τ :=
  ⟨none, false, mode⟩

/-- The answer of a gate without a client. -/
def withoutClient (g : LicenseGate τ) : Bool × LicenseGate τ :=
  if g.mode = some .limitedMode then (true, { g with limited := true }) else (false, g)

/-- The answer of a gate through its client. -/
def askClient (env : Surroundings τ σ) (g : LicenseGate τ) (client : LicenseClient τ) (s : σ) :
    Bool × LicenseGate τ × σ :=
  let (valid, client, s) := client.validate env s
  let g := { g with client := some client }
  if g.mode.getD client.policy.mode = .limitedMode then (true, { g with limited := !valid }, s)
  else (valid, g, s)

/-- Whether a guarded method may run. -/
def check (env : Surroundings τ σ) (load : σ → Except ClientError (LicenseClient τ) × σ)
    (g : LicenseGate τ) (s : σ) : Bool × LicenseGate τ × σ :=
  match g.client with
  | some client => g.askClient env client s
  | none =>
    match load s with
    | (.ok client, s) => g.askClient env client s
    | (.error _, s) =>
      let (run, g) := g.withoutClient
      (run, g, s)

/-- Whether the last answer to the client allows a feature at a time of the wall clock. -/
def allows (g : LicenseGate τ) (feature : String) (now : Int) : Bool :=
  g.client.any (·.allows feature now)

end LicenseGate

end JarGate
