import Mathlib
import JarGate.Text.Utf8

/-!
# Texts as octets

The octets of a text tell the text.
-/

namespace JarGate.Text.Utf8

/-- The octets of an array, collected from a position on. -/
theorem toList_loop (bytes : ByteArray) (i : Nat) (done : List UInt8) :
    ByteArray.toList.loop bytes i done = done.reverse ++ bytes.data.toList.drop i := by
  induction i, done using ByteArray.toList.loop.induct bytes with
  | case1 i done inside ih =>
      have inside' : i < bytes.data.toList.length := inside
      have here : bytes.get! i = bytes.data.toList[i] := getElem!_pos bytes.data i inside
      rw [ByteArray.toList.loop, if_pos inside, ih, List.drop_eq_getElem_cons inside', here,
        List.reverse_cons, List.append_assoc, List.singleton_append]
  | case2 i done behind =>
      have behind' : bytes.data.toList.length ≤ i := Nat.le_of_not_lt behind
      rw [ByteArray.toList.loop, if_neg behind, List.drop_eq_nil_of_le behind', List.append_nil]

theorem encode_injective : Function.Injective encode := by
  intro s t same
  rw [encode, encode, ByteArray.toList, ByteArray.toList, toList_loop, toList_loop] at same
  exact String.toByteArray_inj.mp (ByteArray.ext (Array.toList_inj.mp same))

end JarGate.Text.Utf8
