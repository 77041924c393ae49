import JarGate.License.Host
import JarGate.License.Server

/-!
# License clients

A client asks whether its license is valid, keeps the verdict for a while, and remembers the last
answer it got. A request without an answer yields the verdict of the failure mode, which is kept like
any other, and leaves the last answer as it is.

How requests travel is up to the caller: a client holds a handle of some type `τ`, and its
surroundings, in some state `σ`, say what a request through a handle yields and what time it is.
-/

namespace JarGate

/-- Failures of setting up a client. -/
inductive ClientError where
  | resource (path reason : String)
  | policy (error : PolicyError)
  | http (reason : String)
  deriving DecidableEq, Repr

/-- The full text of an error. -/
def ClientError.message : ClientError → String
  | .resource path reason =>
    "license configuration " ++ Text.Quoted.quote path ++ " not readable: " ++ reason
  | .policy error => error.message
  | .http reason => "HTTP client setup failed: " ++ reason

/-- What clients in a state `σ` of their surroundings can observe. -/
structure Surroundings (τ σ : Type) where
  /-- Milliseconds since the start of 1970. -/
  wallClock : σ → Int
  /-- The time since some fixed moment. -/
  steadyClock : σ → Duration
  /-- What a request through a handle yields. -/
  send : τ → ValidationRequest → σ → Except TransportError ValidationResponse × σ

/-- A verdict, and when the request for it was complete. -/
structure CachedVerdict where
  verdict : Bool
  since : Duration
  deriving DecidableEq, Repr

/-- A client that sends its requests through a handle. -/
structure LicenseClient (τ : Type) where
  policy : LicensePolicy
  transport : τ
  identity : Identity
  cache : Option CachedVerdict
  /-- The last answer. -/
  status : Option ValidationResult
  deriving DecidableEq, Repr

namespace LicenseClient

variable {τ σ : Type}

/-- A client that has not asked yet. -/
def new (policy : LicensePolicy) (transport : τ) (identity : Identity) : LicenseClient τ :=
  ⟨policy, transport, identity, none, none⟩

/-- The client for a property file; `connect` gives the handle for its server. -/
def ofProperties (connect : LicenseServer → τ) (identity : Identity) (text : String) :
    Except ClientError (LicenseClient τ) :=
  match LicensePolicy.ofProperties text with
  | .error e => .error (.policy e)
  | .ok policy =>
    let server := LicenseServer.new policy.serverUrl policy.connectTimeout policy.readTimeout
    .ok (new policy (connect server) identity)

/-- The client for the property file at a path, if there is one. -/
def ofResource (connect : LicenseServer → τ) (identity : Identity) (path : String) :
    Option String → Except ClientError (LicenseClient τ)
  | some text => ofProperties connect identity text
  | none => .error (.resource path "no such file")

/-- What a client asks. -/
def request (c : LicenseClient τ) : ValidationRequest where
  productId := c.policy.productId
  licenseKey := c.policy.licenseKey
  hwid := c.identity.hwid
  ip := c.identity.ip

/-- The verdict that still holds at a time of the steady clock. -/
def cached? (c : LicenseClient τ) (now : Duration) : Option Bool :=
  match c.cache with
  | none => none
  | some kept =>
    if now.nanoseconds - kept.since.nanoseconds < c.policy.cacheDuration.nanoseconds then
      some kept.verdict
    else none

/-- The verdict on what a request yielded, at a time of the wall clock. -/
def verdictOn (c : LicenseClient τ) (now : Int) :
    Except TransportError ValidationResponse → Bool
  | .ok response => (ValidationResult.ofResponse response).isValidAt now
  | .error _ => c.policy.mode.onError

/-- The client after a request. -/
def receive (c : LicenseClient τ) (outcome : Except TransportError ValidationResponse)
    (verdict : Bool) (since : Duration) : LicenseClient τ :=
  { c with
    cache := some ⟨verdict, since⟩
    status := match outcome with
      | .ok response => some (.ofResponse response)
      | .error _ => c.status }

/-- Whether the license is valid. The verdict that still holds is given again; otherwise a request
is sent. -/
def validate (env : Surroundings τ σ) (c : LicenseClient τ) (s : σ) :
    Bool × LicenseClient τ × σ :=
  match c.cached? (env.steadyClock s) with
  | some verdict => (verdict, c, s)
  | none =>
    let (outcome, s) := env.send c.transport c.request s
    let verdict := c.verdictOn (env.wallClock s) outcome
    (verdict, c.receive outcome verdict (env.steadyClock s), s)

/-- Whether the last answer allows a feature at a time of the wall clock. -/
def allows (c : LicenseClient τ) (feature : String) (now : Int) : Bool :=
  c.status.any (·.allows feature now)

/-- Forgets the verdict. -/
def clearCache (c : LicenseClient τ) : LicenseClient τ :=
  { c with cache := none }

end LicenseClient

end JarGate
