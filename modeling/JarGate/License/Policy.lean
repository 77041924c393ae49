import JarGate.Json.Encodable
import JarGate.Json.Record
import JarGate.License.Mode
import JarGate.License.Properties
import JarGate.Text.Decimal

/-!
# License policies

What a licensed program has to know to check its license. The policy travels as a property file
(`toProperties`, `ofProperties`) and as JSON.
-/

namespace JarGate

/-- A span of time, in nanoseconds. -/
structure Duration where
  nanoseconds : Nat
  deriving DecidableEq, Repr

namespace Duration

def ofMilliseconds (n : Nat) : Duration := ⟨n * 1000000⟩

def ofSeconds (n : Nat) : Duration := ⟨n * 1000000000⟩

/-- The whole milliseconds of a span. -/
def milliseconds (d : Duration) : Nat := d.nanoseconds / 1000000

end Duration

/-- How a program checks its license. -/
structure LicensePolicy where
  mode : FailureMode
  serverUrl : String
  productId : String
  /-- Empty until the owner of the license fills it in. -/
  licenseKey : String
  /-- How long a verdict holds; zero asks every time. -/
  cacheDuration : Duration
  connectTimeout : Duration
  readTimeout : Duration
  /-- Whether a method may be left early with a zero value its callers may not expect. This concerns
  the injection alone and is not part of the property file. -/
  approximateDefaults : Bool
  deriving DecidableEq, Repr

namespace LicensePolicy

def defaultCache : Duration := .ofMilliseconds 3600000

def defaultConnectTimeout : Duration := .ofMilliseconds 5000

def defaultReadTimeout : Duration := .ofMilliseconds 10000

/-- The policy for a server and a product, with the default for everything else. -/
def new (serverUrl productId : String) : LicensePolicy where
  mode := .disableOnly
  serverUrl := serverUrl
  productId := productId
  licenseKey := ""
  cacheDuration := defaultCache
  connectTimeout := defaultConnectTimeout
  readTimeout := defaultReadTimeout
  approximateDefaults := false

/-! ### As a property file -/

/-- The entry of a package that holds the policy. -/
def propertiesPath : String := "license.properties"

/-- The entries of the property file, in their order. -/
def properties (p : LicensePolicy) : List (String × String) := [
  ("server.url", p.serverUrl),
  ("product.id", p.productId),
  ("license.key", p.licenseKey),
  ("failure.mode", p.mode.propertyName),
  ("cache.duration", toString p.cacheDuration.milliseconds),
  ("connection.timeout", toString p.connectTimeout.milliseconds),
  ("read.timeout", toString p.readTimeout.milliseconds)]

/-- The property file of a policy. -/
def toProperties (p : LicensePolicy) : String :=
  "#License Configuration\n" ++ Properties.render p.properties

/-- A property that has to be given and must not be empty. -/
def required (entries : List (String × String)) (key : String) : Except PolicyError String :=
  match Properties.value? entries key with
  | some value => if value.isEmpty then .error (.missingKey key) else .ok value
  | none => .error (.missingKey key)

/-- A number of milliseconds, or a default where the property is missing. -/
def milliseconds (entries : List (String × String)) (key : String) (default : Duration) :
    Except PolicyError Duration :=
  match Properties.value? entries key with
  | none => .ok default
  | some value =>
    match Text.Decimal.below? UInt64.size (Text.trim value).toList with
    | some n => .ok (.ofMilliseconds n)
    | none => .error (.invalidValue key value)

/-- The policy of a property file. Without a failure mode, a license that cannot be checked counts as
invalid. -/
def ofProperties (text : String) : Except PolicyError LicensePolicy := do
  let entries := Properties.parse text
  let serverUrl ← required entries "server.url"
  let productId ← required entries "product.id"
  let mode ← match Properties.value? entries "failure.mode" with
    | some value => FailureMode.parse value
    | none => .ok .denyOnError
  return {
    mode, serverUrl, productId
    licenseKey := (Properties.value? entries "license.key").getD ""
    cacheDuration := ← milliseconds entries "cache.duration" defaultCache
    connectTimeout := ← milliseconds entries "connection.timeout" defaultConnectTimeout
    readTimeout := ← milliseconds entries "read.timeout" defaultReadTimeout
    approximateDefaults := false }

/-! ### As JSON -/

/-- A span as its whole seconds and the nanoseconds that are left. -/
def durationJson (d : Duration) : Json :=
  .ofMembers [
    ("secs", .integer (d.nanoseconds / 1000000000 : Nat)),
    ("nanos", .integer (d.nanoseconds % 1000000000 : Nat))]

/-- The span that a record of seconds and nanoseconds stands for. The seconds have to fit 64 bits
after whole seconds of nanoseconds were carried over. -/
def duration? (j : Json) : Option Duration := do
  let r ← Json.Record.of? ["secs", "nanos"] true j
  let secs ← r.need "secs" Json.u64?
  let nanos ← r.need "nanos" Json.u32?
  let total := secs.toNat * 1000000000 + nanos.toNat
  if total / 1000000000 < UInt64.size then some ⟨total⟩ else none

/-- A mode by its property name, which may also be the name of a single member without a value. -/
def mode? : Json → Option FailureMode
  | .string name => FailureMode.ofPropertyName? name
  | .object [(some name, .null)] => FailureMode.ofPropertyName? name
  | _ => none

/-- The names of the fields in JSON. -/
def jsonFields : List String :=
  ["mode", "server_url", "product_id", "license_key", "cache_duration", "connect_timeout",
    "read_timeout", "approximate_defaults"]

/-- A policy in JSON. -/
def toJson (p : LicensePolicy) : Json :=
  .ofMembers [
    ("mode", p.mode.propertyName),
    ("server_url", p.serverUrl),
    ("product_id", p.productId),
    ("license_key", p.licenseKey),
    ("cache_duration", durationJson p.cacheDuration),
    ("connect_timeout", durationJson p.connectTimeout),
    ("read_timeout", durationJson p.readTimeout),
    ("approximate_defaults", p.approximateDefaults)]

/-- The policy that a JSON value stands for. -/
def ofJson? (j : Json) : Option LicensePolicy := do
  let r ← Json.Record.of? jsonFields false j
  return {
    mode := ← r.need "mode" mode?
    serverUrl := ← r.need "server_url" Json.text?
    productId := ← r.need "product_id" Json.text?
    licenseKey := ← r.need "license_key" Json.text?
    cacheDuration := ← r.need "cache_duration" duration?
    connectTimeout := ← r.need "connect_timeout" duration?
    readTimeout := ← r.need "read_timeout" duration?
    approximateDefaults := ← r.orElse "approximate_defaults" false Json.bool? }

end LicensePolicy

end JarGate
