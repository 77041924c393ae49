import JarGate.Json.Encodable
import JarGate.Json.Record

/-!
# The records of an authority

Products, the tiers they are sold in, licenses, and the log of requests. All are JSON records.
-/

namespace JarGate

/-- A time in milliseconds. -/
def Json.time? (j : Json) : Option Int :=
  j.i64?.map Int64.toInt

/-- Something that licenses are sold for. -/
structure Product where
  id : String
  name : String
  description : String
  createdAt : Int
  deriving DecidableEq, Repr

namespace Product

def toJson (p : Product) : Json :=
  .ofMembers [
    ("id", p.id),
    ("name", p.name),
    ("description", p.description),
    ("createdAt", p.createdAt)]

def ofJson? (j : Json) : Option Product := do
  let r ← Json.Record.of? ["id", "name", "description", "createdAt"] false j
  return {
    id := ← r.need "id" Json.text?
    name := ← r.need "name" Json.text?
    description := ← r.need "description" Json.text?
    createdAt := ← r.need "createdAt" Json.time? }

end Product

/-- A selection of the features of a product. -/
structure Tier where
  id : String
  productId : String
  name : String
  features : List String
  /-- Zero stands for any number. -/
  maxUsers : UInt32
  deriving DecidableEq, Repr

namespace Tier

def toJson (t : Tier) : Json :=
  .ofMembers [
    ("id", t.id),
    ("productId", t.productId),
    ("name", t.name),
    ("features", t.features),
    ("maxUsers", t.maxUsers)]

def ofJson? (j : Json) : Option Tier := do
  let r ← Json.Record.of? ["id", "productId", "name", "features", "maxUsers"] false j
  return {
    id := ← r.need "id" Json.text?
    productId := ← r.need "productId" Json.text?
    name := ← r.need "name" Json.text?
    features := ← r.need "features" (Json.list? Json.text?)
    maxUsers := ← r.need "maxUsers" Json.u32? }

end Tier

/-- A license for a product. -/
structure License where
  key : String
  productId : String
  tierId : Option String
  /-- The machine that the license is bound to; none is bound to no machine, and so is the empty
  name. -/
  hwid : Option String
  /-- The address from which the license was bound. -/
  ip : Option String
  /-- None and zero stand for no expiry. -/
  expiryTime : Option Int
  createdAt : Int
  lastValidated : Option Int
  active : Bool
  deriving DecidableEq, Repr

namespace License

def toJson (l : License) : Json :=
  .ofMembers [
    ("key", l.key),
    ("productId", l.productId),
    ("tierId", l.tierId),
    ("hwid", l.hwid),
    ("ip", l.ip),
    ("expiryTime", l.expiryTime),
    ("createdAt", l.createdAt),
    ("lastValidated", l.lastValidated),
    ("active", l.active)]

/-- The names of the fields in JSON. -/
def jsonFields : List String :=
  ["key", "productId", "tierId", "hwid", "ip", "expiryTime", "createdAt", "lastValidated",
    "active"]

def ofJson? (j : Json) : Option License := do
  let r ← Json.Record.of? jsonFields false j
  return {
    key := ← r.need "key" Json.text?
    productId := ← r.need "productId" Json.text?
    tierId := ← r.allow "tierId" Json.text?
    hwid := ← r.allow "hwid" Json.text?
    ip := ← r.allow "ip" Json.text?
    expiryTime := ← r.allow "expiryTime" Json.time?
    createdAt := ← r.need "createdAt" Json.time?
    lastValidated := ← r.allow "lastValidated" Json.time?
    active := ← r.need "active" Json.bool? }

end License

/-- A request that was answered. -/
structure LogEntry where
  /-- The requests are counted from one. -/
  id : UInt64
  licenseKey : String
  hwid : String
  ip : String
  timestamp : Int
  success : Bool
  deriving DecidableEq, Repr

namespace LogEntry

def toJson (e : LogEntry) : Json :=
  .ofMembers [
    ("id", e.id),
    ("licenseKey", e.licenseKey),
    ("hwid", e.hwid),
    ("ip", e.ip),
    ("timestamp", e.timestamp),
    ("success", e.success)]

def ofJson? (j : Json) : Option LogEntry := do
  let r ← Json.Record.of? ["id", "licenseKey", "hwid", "ip", "timestamp", "success"] false j
  return {
    id := ← r.need "id" Json.u64?
    licenseKey := ← r.need "licenseKey" Json.text?
    hwid := ← r.need "hwid" Json.text?
    ip := ← r.need "ip" Json.text?
    timestamp := ← r.need "timestamp" Json.time?
    success := ← r.need "success" Json.bool? }

end LogEntry

end JarGate
