import JarGate.License.Records
import JarGate.License.Validation
import JarGate.Text.Blank
import JarGate.Text.Hex
import JarGate.Text.Parts
import JarGate.Text.Quoted

/-!
# Authorities

An authority keeps products, tiers and licenses, answers requests, and logs every answer. The first
request that succeeds binds a license to the machine that sent it, until the binding is reset.

Names of new records come from a number that the caller draws: the first name from that number on
that no record has yet.
-/

namespace JarGate

/-- Failures of keeping records. -/
inductive AuthorityError where
  | unknownProduct (id : String)
  | unknownTier (id : String)
  | tierOfOtherProduct (tier product : String)
  | unknownLicense (key : String)
  | emptyField (field : String)
  deriving DecidableEq, Repr

/-- The full text of an error. -/
def AuthorityError.message : AuthorityError → String
  | .unknownProduct id => "unknown product " ++ Text.Quoted.quote id
  | .unknownTier id => "unknown tier " ++ Text.Quoted.quote id
  | .tierOfOtherProduct tier product =>
    "tier " ++ Text.Quoted.quote tier ++ " does not belong to product " ++
      Text.Quoted.quote product
  | .unknownLicense key => "unknown license " ++ Text.Quoted.quote key
  | .emptyField field => field ++ " must not be empty"

/-- The records of an authority, in the order in which they were made. -/
structure Authority where
  products : List Product
  tiers : List Tier
  licenses : List License
  log : List LogEntry
  deriving DecidableEq, Repr

/-! ### New names -/

/-- The first of `fuel` spellings that is not taken, counted from a number on. -/
def firstFree (spell : Nat → String) (taken : List String) : Nat → Nat → String
  | 0, n => spell n
  | fuel + 1, n => if taken.contains (spell n) then firstFree spell taken fuel (n + 1) else spell n

/-- A name for a record that is not taken. -/
def freshName (spell : Nat → String) (taken : List String) (draw : Nat) : String :=
  firstFree spell taken taken.length draw

/-- The name of a product or a tier: 32 hexadecimal digits. -/
def recordId (n : Nat) : String :=
  Text.Hex.padded 32 (n % 0x100000000000000000000000000000000)

/-- The key of a license: sixteen hexadecimal digits, in capital letters. -/
def licenseKey (n : Nat) : String :=
  String.ofList ((Text.Hex.padded 16 (n % UInt64.size)).toList.map Char.toUpper)

/-- Whether a text has the form of a key. -/
def isLicenseKey (text : String) : Bool :=
  text.length == 16 && text.toList.all fun c => c.isDigit || ('A' ≤ c && c ≤ 'F')

/-! ### Licenses under validation -/

namespace License

/-- Whether a license has expired at a time. It has not yet at the time of its expiry. -/
def isExpired (l : License) (now : Int) : Bool :=
  l.expiryTime.any fun expiry => 0 < expiry && expiry < now

/-- The machine that a license is bound to. -/
def boundTo? (l : License) : Option String :=
  l.hwid.filter (!·.isEmpty)

/-- Why a license that was found for a request does not grant it. -/
def rejection? (l : License) (r : ValidationRequest) (now : Int) : Option Rejection :=
  if l.productId ≠ r.productId then some .wrongProduct
  else if !l.active then some .deactivated
  else if l.isExpired now then some .expired
  else if l.boundTo?.any (· != r.hwid) then some .otherHardware
  else none

/-- The license after it granted a request. -/
def granted (l : License) (r : ValidationRequest) (now : Int) : License :=
  let l := { l with lastValidated := some now }
  if l.boundTo?.isSome then l else { l with hwid := some r.hwid, ip := some r.ip }

end License

namespace Authority

/-- An authority without records. -/
def empty : Authority := ⟨[], [], [], []⟩

/-! ### Products and tiers -/

/-- The product of a name. -/
def product? (a : Authority) (id : String) : Option Product :=
  a.products.find? (·.id == id)

/-- The tier of a name. -/
def tier? (a : Authority) (id : String) : Option Tier :=
  a.tiers.find? (·.id == id)

/-- The license of a key. -/
def license? (a : Authority) (key : String) : Option License :=
  a.licenses.find? (·.key == key)

/-- The tiers of a product. -/
def tiersOf (a : Authority) (productId : String) : List Tier :=
  a.tiers.filter (·.productId == productId)

/-- Whether a name is blank. -/
def isBlankName (name : String) : Bool :=
  (Text.trim name).isEmpty

/-- Makes a product. -/
def createProduct (a : Authority) (draw : Nat) (now : Int) (name description : String) :
    Except AuthorityError (Product × Authority) :=
  if isBlankName name then .error (.emptyField "product name")
  else
    let id := freshName recordId (a.products.map (·.id)) draw
    let product : Product := ⟨id, name, description, now⟩
    .ok (product, { a with products := a.products ++ [product] })

/-- The features that a text lists between commas. -/
def splitFeatures (features : String) : List String :=
  ((Text.parts ',' features).map Text.trim).filter (!·.isEmpty)

/-- Makes a tier of a product. -/
def createTier (a : Authority) (draw : Nat) (productId name features : String)
    (maxUsers : UInt32) : Except AuthorityError (Tier × Authority) :=
  if isBlankName name then .error (.emptyField "tier name")
  else if (a.product? productId).isNone then .error (.unknownProduct productId)
  else
    let id := freshName recordId (a.tiers.map (·.id)) draw
    let tier : Tier := ⟨id, productId, name, splitFeatures features, maxUsers⟩
    .ok (tier, { a with tiers := a.tiers ++ [tier] })

/-! ### Licenses -/

/-- Checks that a tier, where one is named, belongs to a product. -/
def checkTier (a : Authority) (productId : String) : Option String → Except AuthorityError Unit
  | none => .ok ()
  | some id =>
    match a.tier? id with
    | none => .error (.unknownTier id)
    | some tier =>
      if tier.productId = productId then .ok () else .error (.tierOfOtherProduct id productId)

/-- Makes a license for a product. -/
def createLicense (a : Authority) (draw : Nat) (now : Int) (productId : String)
    (tierId : Option String) (expiryTime : Option Int) :
    Except AuthorityError (License × Authority) :=
  if (a.product? productId).isNone then .error (.unknownProduct productId)
  else do
    a.checkTier productId tierId
    let license : License := {
      key := freshName licenseKey (a.licenses.map (·.key)) draw
      productId, tierId
      hwid := none
      ip := none
      expiryTime
      createdAt := now
      lastValidated := none
      active := true }
    return (license, { a with licenses := a.licenses ++ [license] })

/-- Changes the license of a key. -/
def modifyLicense (a : Authority) (key : String) (f : License → License) : Authority :=
  { a with licenses := a.licenses.map fun l => if l.key == key then f l else l }

/-- Changes the license of a key, which has to be there. -/
def updateLicense (a : Authority) (key : String) (f : License → License) :
    Except AuthorityError Authority :=
  if (a.license? key).isSome then .ok (a.modifyLicense key f)
  else .error (.unknownLicense key)

/-- Switches a license on or off. -/
def setActive (a : Authority) (key : String) (active : Bool) : Except AuthorityError Authority :=
  a.updateLicense key fun l => { l with active }

/-- Forgets the machine that a license is bound to. The next request that succeeds binds it
again. -/
def resetBinding (a : Authority) (key : String) : Except AuthorityError Authority :=
  a.updateLicense key fun l => { l with hwid := none, ip := none }

/-! ### Requests -/

/-- The license that grants a request. -/
def decide (a : Authority) (r : ValidationRequest) (now : Int) : Except Rejection License :=
  match a.license? r.licenseKey with
  | none => .error .unknownKey
  | some l =>
    match l.rejection? r now with
    | some why => .error why
    | none => .ok l

/-- The answer to a request that a license grants. -/
def granting (a : Authority) (l : License) : ValidationResponse :=
  let tier := l.tierId.bind a.tier?
  { valid := true
    message := ValidationResponse.validMessage
    tier := tier.map (·.name)
    expiryTime := some (l.expiryTime.getD 0)
    allowedFeatures := (tier.map (·.features)).filter (!·.isEmpty) }

/-- The answer to a request, and the records after it, except for the log. -/
def answer (a : Authority) (r : ValidationRequest) (now : Int) : ValidationResponse × Authority :=
  match a.decide r now with
  | .error why => (.rejected why, a)
  | .ok l => (a.granting l, a.modifyLicense r.licenseKey fun l => l.granted r now)

/-- Answers a request and logs it. -/
def validate (a : Authority) (r : ValidationRequest) (now : Int) :
    ValidationResponse × Authority :=
  let (response, a) := a.answer r now
  let entry : LogEntry := {
    id := UInt64.ofNat (a.log.length + 1)
    licenseKey := r.licenseKey
    hwid := r.hwid
    ip := r.ip
    timestamp := now
    success := response.valid }
  (response, { a with log := a.log ++ [entry] })

end Authority

end JarGate
