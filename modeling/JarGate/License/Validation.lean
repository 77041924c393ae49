import JarGate.Json.Encodable
import JarGate.Json.Reader
import JarGate.Json.Record

/-!
# Asking whether a license is valid

The request, the answer of an authority, and what a client keeps of that answer. All three are JSON
records. Times are milliseconds since the start of 1970, and an expiry of zero stands for none.
-/

namespace JarGate

/-- The question whether a license is valid. -/
structure ValidationRequest where
  productId : String
  licenseKey : String
  hwid : String
  ip : String
  deriving DecidableEq, Repr

namespace ValidationRequest

/-- A request in JSON. -/
def toJson (r : ValidationRequest) : Json :=
  .ofMembers [
    ("productId", r.productId),
    ("licenseKey", r.licenseKey),
    ("hwid", r.hwid),
    ("ip", r.ip)]

/-- The request that a JSON value stands for. -/
def ofJson? (j : Json) : Option ValidationRequest := do
  let r ← Json.Record.of? ["productId", "licenseKey", "hwid", "ip"] false j
  return {
    productId := ← r.need "productId" Json.text?
    licenseKey := ← r.need "licenseKey" Json.text?
    hwid := ← r.need "hwid" Json.text?
    ip := ← r.need "ip" Json.text? }

end ValidationRequest

/-- Why an authority rejects a request. -/
inductive Rejection where
  | unknownKey | wrongProduct | deactivated | expired | otherHardware
  deriving DecidableEq, Repr

/-- The message of a rejection. -/
def Rejection.message : Rejection → String
  | .unknownKey => "Invalid license key"
  | .wrongProduct => "License not valid for this product"
  | .deactivated => "License has been deactivated"
  | .expired => "License has expired"
  | .otherHardware => "License bound to different hardware"

/-- The answer of an authority. -/
structure ValidationResponse where
  valid : Bool
  message : String
  /-- The name of the tier. -/
  tier : Option String
  expiryTime : Option Int
  allowedFeatures : Option (List String)
  deriving DecidableEq, Repr

namespace ValidationResponse

/-- The message of an answer that does not reject. -/
def validMessage : String := "License validated successfully"

/-- The answer that rejects a request. -/
def rejected (why : Rejection) : ValidationResponse where
  valid := false
  message := why.message
  tier := none
  expiryTime := none
  allowedFeatures := none

/-- A member for a field that is left out where it has no value. -/
def optional {α : Type} [Json.Encodable α] (name : String) (value : Option α) :
    List (String × Json) :=
  match value with
  | some a => [(name, a)]
  | none => []

/-- An answer in JSON. -/
def toJson (r : ValidationResponse) : Json :=
  .ofMembers (("valid", r.valid) :: ("message", r.message) ::
    (optional "tier" r.tier ++
      optional "expiryTime" r.expiryTime ++
      optional "allowedFeatures" r.allowedFeatures))

/-- The answer that a JSON value stands for. -/
def ofJson? (j : Json) : Option ValidationResponse := do
  let r ← Json.Record.of? ["valid", "message", "tier", "expiryTime", "allowedFeatures"] false j
  return {
    valid := ← r.need "valid" Json.bool?
    message := ← r.need "message" Json.text?
    tier := ← r.orElse "tier" none (Json.nullable? Json.text?)
    expiryTime := (← r.orElse "expiryTime" none (Json.nullable? Json.i64?)).map Int64.toInt
    allowedFeatures := ← r.orElse "allowedFeatures" none
      (Json.nullable? (Json.list? Json.text?)) }

/-- The answer that a text stands for. -/
def parse? (text : String) : Option ValidationResponse :=
  (Json.parse? text).bind ofJson?

end ValidationResponse

/-- What a client keeps of an answer. -/
structure ValidationResult where
  valid : Bool
  message : String
  tier : Option String
  features : List String
  /-- When the license expires, if it does. -/
  expiry : Option Int
  deriving DecidableEq, Repr

namespace ValidationResult

/-- What is kept of an answer. -/
def ofResponse (r : ValidationResponse) : ValidationResult where
  valid := r.valid
  message := r.message
  tier := r.tier
  features := r.allowedFeatures.getD []
  expiry := r.expiryTime.filter (0 < ·)

/-- Whether the license is valid at a time. It is no longer at the time of its expiry. -/
def isValidAt (r : ValidationResult) (now : Int) : Bool :=
  r.valid && r.expiry.all (now < ·)

/-- Whether the license allows a feature at a time. Without a tier it allows none. -/
def allows (r : ValidationResult) (feature : String) (now : Int) : Bool :=
  r.isValidAt now && r.tier.isSome && r.features.contains feature

/-- A result in JSON. -/
def toJson (r : ValidationResult) : Json :=
  .ofMembers [
    ("valid", r.valid),
    ("message", r.message),
    ("tier", r.tier),
    ("features", r.features),
    ("expiry", r.expiry)]

end ValidationResult

end JarGate
