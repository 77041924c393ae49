import JarGate.Json.Value

/-!
# Records in JSON

A record is an object with a member for each field, or an array with the fields in order. Members
with other names are passed over; a field that is given twice makes the record unreadable.
-/

namespace JarGate

namespace Json

/-- The text of a string. -/
def text? : Json → Option String
  | string text => some text
  | _ => none

/-- A truth value. -/
def bool? : Json → Option Bool
  | bool b => some b
  | _ => none

/-- A whole number between two bounds, both included. -/
def integerIn? (low high : Int) : Json → Option Int
  | integer n => if low ≤ n ∧ n ≤ high then some n else none
  | _ => none

/-- An unsigned number of 64 bits. -/
def u64? (j : Json) : Option UInt64 :=
  (j.integerIn? 0 0xFFFFFFFFFFFFFFFF).map fun n => UInt64.ofNat n.toNat

/-- An unsigned number of 32 bits. -/
def u32? (j : Json) : Option UInt32 :=
  (j.integerIn? 0 0xFFFFFFFF).map fun n => UInt32.ofNat n.toNat

/-- A signed number of 64 bits. -/
def i64? (j : Json) : Option Int64 :=
  (j.integerIn? (-0x8000000000000000) 0x7FFFFFFFFFFFFFFF).map Int64.ofInt

/-- Something or `null`. -/
def nullable? {α : Type} (read : Json → Option α) : Json → Option (Option α)
  | null => some none
  | j => (read j).map some

/-- An array whose elements are all of one kind. -/
def list? {α : Type} (read : Json → Option α) : Json → Option (List α)
  | array elements => elements.mapM read
  | _ => none

/-- The fields of a record that were given. -/
structure Record where
  fields : List (String × Json)
  /-- Whether the record was written as an array. -/
  positional : Bool

namespace Record

/-- The member of an object as a field, behind the fields that were found before. -/
def addMember (names : List String) (strict : Bool) (found : List (String × Json)) :
    Option String × Json → Option (List (String × Json))
  | (none, _) => none
  | (some name, value) =>
    if names.contains name then
      if found.any (·.1 == name) then none else some (found ++ [(name, value)])
    else if strict then none
    else some found

/-- The record with given field names that a value stands for. A strict record has no members but
its fields. -/
def of? (names : List String) (strict : Bool) : Json → Option Record
  | object members => (members.foldlM (addMember names strict) []).map (⟨·, false⟩)
  | array elements =>
    if elements.length ≤ names.length then some ⟨names.zip elements, true⟩ else none
  | _ => none

/-- The value of a field, if it was given. -/
def get? (r : Record) (name : String) : Option Json :=
  r.fields.lookup name

/-- A field that has to be given. -/
def need {α : Type} (r : Record) (name : String) (read : Json → Option α) : Option α := do
  read (← r.get? name)

/-- A field that may be `null`, and in an object may be missing. -/
def allow {α : Type} (r : Record) (name : String) (read : Json → Option α) : Option (Option α) :=
  match r.get? name with
  | some j => nullable? read j
  | none => if r.positional then none else some none

/-- A field that takes a default where it is missing. -/
def orElse {α : Type} (r : Record) (name : String) (default : α) (read : Json → Option α) :
    Option α :=
  match r.get? name with
  | some j => read j
  | none => some default

end Record

end Json

end JarGate
