import JarGate.License.Policy
import JarGate.License.Validation

/-!
# License servers

Where a server is asked, and what comes of an exchange with it.
-/

namespace JarGate

/-- Why a request got no answer. -/
inductive TransportError where
  | timeout
  | connect (reason : String)
  | status (code : Nat)
  | decode (reason : String)
  deriving DecidableEq, Repr

/-- The full text of an error. -/
def TransportError.message : TransportError → String
  | .timeout => "request timed out"
  | .connect reason => "connection failed: " ++ reason
  | .status code => "server answered HTTP " ++ toString code
  | .decode reason => "unreadable response: " ++ reason

/-- A license server, and how long it is waited for. -/
structure LicenseServer where
  /-- The address that requests are posted to. -/
  endpoint : String
  connectTimeout : Duration
  readTimeout : Duration
  deriving DecidableEq, Repr

/-- What happened on the wire. -/
inductive Exchange where
  | timedOut
  /-- The request was not sent, or the answer did not arrive. -/
  | failed (reason : String)
  | answered (status : Nat) (body : String)
  deriving DecidableEq, Repr

namespace LicenseServer

/-- The address for requests to a server, whose own address may end in slashes. -/
def endpointOf (url : String) : String :=
  String.ofList (url.toList.reverse.dropWhile (· == '/')).reverse ++ "/validate"

/-- The server at an address. -/
def new (url : String) (connectTimeout readTimeout : Duration) : LicenseServer :=
  ⟨endpointOf url, connectTimeout, readTimeout⟩

/-- What comes of an exchange. Only an answer with a status from 200 to 299 is read. -/
def outcome : Exchange → Except TransportError ValidationResponse
  | .timedOut => .error .timeout
  | .failed reason => .error (.connect reason)
  | .answered status body =>
    if 200 ≤ status ∧ status ≤ 299 then
      match ValidationResponse.parse? body with
      | some response => .ok response
      | none => .error (.decode "not a validation response")
    else .error (.status status)

end LicenseServer

end JarGate
