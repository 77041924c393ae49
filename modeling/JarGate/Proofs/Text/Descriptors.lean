import JarGate.Proofs.Text.DescriptorGrammar
import JarGate.Proofs.Text.ModifiedUtf8

/-!
# Names inside of texts

A text that was read from octets takes no more octets when it is written again, and the name of a class that
a descriptor mentions takes no more than the descriptor.
-/

namespace JarGate

namespace Text

/-! ### Texts that are written again -/

namespace ModifiedUtf8

theorem length_ofUnit_le (u : UInt16) : (ofUnit u).length ≤ 3 := by
  rw [ofUnit]
  split_ifs <;> simp

/-- A unit that is no short one takes three octets. -/
theorem length_ofUnit_of_le {u : UInt16} (large : 0x800 ≤ u.toNat) : (ofUnit u).length = 3 := by
  rw [ofUnit]
  rw [if_neg (by omega), if_neg (by omega)]
  rfl

/-- No unit can be written shorter than `ofUnit` writes it. -/
theorem Spells.length_ofUnit_le {chunk : List UInt8} {u : UInt16} (spells : Spells chunk u) :
    (ofUnit u).length ≤ chunk.length := by
  cases spells with
  | one positive small =>
      rw [ofUnit, Utf16.toNat_ofNat (Nat.lt_trans small (by decide)), if_pos ⟨positive, small⟩]
  | @two high low top tail =>
      have short : high * 0x40 + low < 0x800 := by omega
      rw [ofUnit, Utf16.toNat_ofNat (by omega), if_pos short]
      split_ifs <;> simp
  | three => exact ModifiedUtf8.length_ofUnit_le _

theorem length_flatMap_ofUnit_le {chunks : List (List UInt8)} {us : List UInt16}
    (spelled : List.Forall₂ Spells chunks us) : (us.flatMap ofUnit).length ≤ chunks.flatten.length := by
  induction spelled with
  | nil => exact Nat.le_refl _
  | cons spells _ ih =>
      rw [List.flatMap_cons, List.flatten_cons, List.length_append, List.length_append]
      exact Nat.add_le_add spells.length_ofUnit_le ih

theorem length_ofChar_le (c : Char) : ((Utf16.ofChar c).flatMap ofUnit).length ≤ 6 := by
  rw [Utf16.ofChar]
  split_ifs with small
  · simpa using (length_ofUnit_le (UInt16.ofNat c.toNat)).trans (by decide)
  · have high := length_ofUnit_le (UInt16.ofNat (0xD800 + (c.toNat - 0x10000) / 0x400))
    have low := length_ofUnit_le (UInt16.ofNat (0xDC00 + (c.toNat - 0x10000) % 0x400))
    simp only [List.flatMap_cons, List.flatMap_nil, List.length_append, List.append_nil]
    omega

/-- A unit on its own is written again with at most as many octets, also where it is no character. -/
theorem length_ofChar_single_le (u : UInt16) :
    ((Utf16.ofChar (if Utf16.isSurrogate u then Utf16.replacement else Char.ofNat u.toNat)).flatMap
      ofUnit).length ≤ (ofUnit u).length := by
  split
  next surrogate =>
    have large : 0x800 ≤ u.toNat := by
      rw [Utf16.isSurrogate, Bool.or_eq_true, Utf16.isHigh_iff, Utf16.isLow_iff] at surrogate
      omega
    rw [length_ofUnit_of_le large]
    decide
  next single =>
    rw [Utf16.ofChar_single (Bool.eq_false_iff.mpr single)]
    simp

theorem length_decodeOnto_le (done : List Char) (us : List UInt16) :
    (((Utf16.decodeOnto done us).flatMap Utf16.ofChar).flatMap ofUnit).length ≤
      ((done.flatMap Utf16.ofChar).flatMap ofUnit).length + (us.flatMap ofUnit).length := by
  have written (c : Char) (cs : List Char) : (((c :: cs).flatMap Utf16.ofChar).flatMap ofUnit).length =
      ((Utf16.ofChar c).flatMap ofUnit).length + ((cs.flatMap Utf16.ofChar).flatMap ofUnit).length := by
    rw [List.flatMap_cons, List.flatMap_append, List.length_append]
  have reversed (cs : List Char) : ((cs.reverse.flatMap Utf16.ofChar).flatMap ofUnit).length =
      ((cs.flatMap Utf16.ofChar).flatMap ofUnit).length := by
    rw [List.flatMap_assoc, List.flatMap_assoc]
    simp [List.length_flatMap]
  induction done, us using Utf16.decodeOnto.induct with
  | case1 done =>
      rw [Utf16.decodeOnto, reversed]
      exact Nat.le_add_right _ _
  | case2 done u =>
      have single := length_ofChar_single_le u
      rw [Utf16.decodeOnto, reversed, written, List.flatMap_cons, List.flatMap_nil, List.append_nil]
      omega
  | case3 done u v rest paired ih =>
      have pair := length_ofChar_le (Utf16.ofPair u v)
      rw [Bool.and_eq_true, Utf16.isHigh_iff, Utf16.isLow_iff] at paired
      have high := length_ofUnit_of_le (u := u) (by omega)
      have low := length_ofUnit_of_le (u := v) (by omega)
      rw [Utf16.decodeOnto, if_pos (by rw [Bool.and_eq_true, Utf16.isHigh_iff, Utf16.isLow_iff]; exact paired)]
      rw [written] at ih
      simp only [List.flatMap_cons, List.length_append]
      omega
  | case4 done u v rest alone ih =>
      have single := length_ofChar_single_le u
      rw [Utf16.decodeOnto, if_neg alone]
      rw [written] at ih
      rw [List.flatMap_cons, List.length_append]
      omega

/-- A text that was read takes at most as many octets when it is written again. -/
theorem length_encode_le {bytes : List UInt8} {s : String} (read : decode bytes = .ok s) :
    (encode s).length ≤ bytes.length := by
  obtain ⟨chunks, us, spelled, rfl, rfl⟩ := decode_eq_ok_iff.mp read
  have units := length_flatMap_ofUnit_le spelled
  have chars := length_decodeOnto_le [] us
  rw [encode, Utf16.encode, Utf16.decodeLossy, String.toList_ofList]
  simp only [List.flatMap_nil, List.length_nil, Nat.zero_add] at chars
  exact chars.trans units

/-- A part of a text takes at most as many octets as the text. -/
theorem length_encode_le_of_infix {s t : String} (inside : s.toList <:+: t.toList) :
    (encode s).length ≤ (encode t).length := by
  obtain ⟨front, back, whole⟩ := inside
  rw [encode, encode, Utf16.encode, Utf16.encode, ← whole]
  simp only [List.flatMap_append, List.length_append]
  omega

end ModifiedUtf8

end Text

/-! ### Names in descriptors -/

/-- The name under which a type is known to a pool is a part of its written form. -/
theorem FieldType.infix_of_className? {t : FieldType} {name : String} (h : t.className? = some name) :
    name.toList <:+: t.print.toList := by
  cases t with
  | object own =>
      cases h
      rw [print, String.toList_append, String.toList_append]
      exact List.infix_append ..
  | array element =>
      cases h
      exact List.infix_refl _
  | _ => cases h

/-- The class names that the parameters of a method mention are parts of the text of its type. -/
theorem MethodDescriptor.infix_of_parse {text : String} {d : MethodDescriptor}
    (parsed : parse text = .ok d) :
    ∀ t ∈ d.params, ∀ name, t.className? = some name → name.toList <:+: text.toList := by
  obtain ⟨-, rfl⟩ := parse_eq_ok_iff.mp parsed
  intro t member name named
  refine (FieldType.infix_of_className? named).trans ?_
  obtain ⟨before, after, same⟩ := List.append_of_mem member
  rw [toList_print, same]
  refine ⟨'(' :: printAll before, printAll after ++ ')' :: (printResult d.result).toList, ?_⟩
  simp [printAll]

end JarGate
