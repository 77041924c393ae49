import JarGate.Json.Value

/-!
# Values that have a JSON form

A value of a type with an `Encodable` instance may stand wherever a JSON value is expected.
-/

namespace JarGate.Json

/-- Types whose values have a JSON form. -/
class Encodable (α : Type) where
  encode : α → Json

export Encodable (encode)

instance {α : Type} [Encodable α] : CoeHead α Json := ⟨encode⟩

instance : Encodable Json := ⟨id⟩

instance : Encodable String := ⟨string⟩

instance : Encodable Bool := ⟨bool⟩

instance : Encodable Int := ⟨integer⟩

instance : Encodable Nat := ⟨fun n => integer n⟩

instance : Encodable UInt8 := ⟨fun n => integer n.toNat⟩

instance : Encodable UInt16 := ⟨fun n => integer n.toNat⟩

instance : Encodable UInt32 := ⟨fun n => integer n.toNat⟩

instance : Encodable UInt64 := ⟨fun n => integer n.toNat⟩

instance {α : Type} [Encodable α] : Encodable (List α) := ⟨fun xs => array (xs.map encode)⟩

instance {α : Type} [Encodable α] : Encodable (Option α) := ⟨fun x => (x.map encode).getD null⟩

instance {α β : Type} [Encodable α] [Encodable β] : Encodable (α × β) :=
  ⟨fun (a, b) => array [a, b]⟩

end JarGate.Json
