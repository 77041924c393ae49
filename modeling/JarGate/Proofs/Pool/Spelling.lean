import JarGate.Proofs.Pool.Requests
import JarGate.Proofs.Text.Descriptors

/-!
# Spellings of texts

A text is read back from its octets, so only equal texts are written alike, and only they can share a
constant. There are other octets that are read as the same text. Which octets a text is written with again
can be told from their units: each of them has to be spelled as short as it can be, and no half of a
surrogate pair may stand without the other one.
-/

namespace JarGate

namespace Text

namespace Utf16

variable {u v : UInt16} {us : List UInt16}

/-! ### Surrogate pairs -/

/-- Whether next to each half of a surrogate pair there is the other half. -/
def AllPaired (us : List UInt16) : Prop :=
  ∀ i u, us[i]? = some u →
    (isHigh u → ∃ v, us[i + 1]? = some v ∧ isLow v) ∧
      (isLow u → ∃ j v, i = j + 1 ∧ us[j]? = some v ∧ isHigh v)

theorem isLow_eq_false_of_isHigh (high : isHigh u) : isLow u = false := by
  rw [isHigh_iff] at high
  rw [Bool.eq_false_iff, Ne, isLow_iff]
  omega

/-- A unit that is no half of a pair says nothing about the others. -/
theorem allPaired_cons (single : isSurrogate u = false) : AllPaired (u :: us) ↔ AllPaired us := by
  obtain ⟨high, low⟩ := Bool.or_eq_false_iff.mp single
  constructor
  · intro paired i w found
    obtain ⟨before, behind⟩ := paired (i + 1) w found
    refine ⟨before, fun half => ?_⟩
    obtain ⟨j, v, place, found', other⟩ := behind half
    cases j with
    | zero =>
        cases found'
        exact absurd other (Bool.eq_false_iff.mp high)
    | succ j => exact ⟨j, v, Nat.succ.inj place, found', other⟩
  · intro paired i w found
    cases i with
    | zero =>
        cases found
        exact ⟨fun half => absurd half (Bool.eq_false_iff.mp high),
          fun half => absurd half (Bool.eq_false_iff.mp low)⟩
    | succ i =>
        obtain ⟨before, behind⟩ := paired i w found
        refine ⟨before, fun half => ?_⟩
        obtain ⟨j, v, rfl, found', other⟩ := behind half
        exact ⟨j + 1, v, rfl, found', other⟩

/-- Behind a pair the units are for themselves. -/
theorem allPaired_pair (high : isHigh u) (low : isLow v) : AllPaired (u :: v :: us) ↔ AllPaired us := by
  constructor
  · intro paired i w found
    obtain ⟨before, behind⟩ := paired (i + 2) w found
    refine ⟨before, fun half => ?_⟩
    obtain ⟨j, w', place, found', other⟩ := behind half
    obtain rfl : j = i + 1 := (Nat.succ.inj place).symm
    cases i with
    | zero =>
        cases found'
        rw [isLow_eq_false_of_isHigh other] at low
        cases low
    | succ i => exact ⟨i, w', rfl, found', other⟩
  · intro paired i w found
    match i, found with
    | 0, found =>
        cases found
        refine ⟨fun _ => ⟨v, rfl, low⟩, fun half => ?_⟩
        rw [isLow_eq_false_of_isHigh high] at half
        cases half
    | 1, found =>
        cases found
        refine ⟨fun half => ?_, fun _ => ⟨0, u, rfl, rfl, high⟩⟩
        rw [isLow_eq_false_of_isHigh half] at low
        cases low
    | i + 2, found =>
        obtain ⟨before, behind⟩ := paired i w found
        refine ⟨before, fun half => ?_⟩
        obtain ⟨j, w', rfl, found', other⟩ := behind half
        exact ⟨j + 2, w', rfl, found', other⟩

/-- A half of a pair is not alone, so `paired` does not go past it. -/
theorem not_allPaired_of_surrogate (surrogate : isSurrogate u)
    (apart : ∀ v ∈ us.head?, ¬ (isHigh u ∧ isLow v)) : ¬ AllPaired (u :: us) := by
  intro paired
  obtain ⟨before, behind⟩ := paired 0 u rfl
  rcases (Bool.or_eq_true _ _).mp surrogate with high | low
  · obtain ⟨v, found, low⟩ := before high
    have next : us.head? = some v := by rwa [List.head?_eq_getElem?]
    exact apart v next ⟨high, low⟩
  · obtain ⟨j, v, place, -⟩ := behind low
    cases place

theorem paired_iff_allPaired : paired us ↔ AllPaired us := by
  induction us using paired.induct with
  | case1 => exact ⟨fun _ => nofun, fun _ => rfl⟩
  | case2 u =>
      rw [paired, Bool.not_eq_true']
      cases surrogate : isSurrogate u with
      | false => exact iff_of_true rfl ((allPaired_cons surrogate).mpr nofun)
      | true => exact iff_of_false nofun (not_allPaired_of_surrogate surrogate nofun)
  | case3 u v rest pair ih =>
      obtain ⟨high, low⟩ := (Bool.and_eq_true _ _).mp pair
      rw [paired, if_pos pair, ih, allPaired_pair high low]
  | case4 u v rest apart ih =>
      rw [paired, if_neg apart, Bool.and_eq_true, Bool.not_eq_true', ih]
      cases surrogate : isSurrogate u with
      | false => rw [allPaired_cons surrogate, and_iff_right rfl]
      | true =>
          refine iff_of_false nofun (not_allPaired_of_surrogate surrogate ?_)
          rintro w ⟨⟩ pair
          exact apart ((Bool.and_eq_true _ _).mpr pair)

/-! ### Units that a text has again -/

theorem paired_cons (single : isSurrogate u = false) : paired (u :: us) = paired us := by
  rw [Bool.eq_iff_iff, paired_iff_allPaired, paired_iff_allPaired, allPaired_cons single]

theorem paired_flatMap_ofChar (cs : List Char) : paired (cs.flatMap ofChar) := by
  induction cs with
  | nil => rfl
  | cons c cs ih =>
      have valid := toNat_valid c
      rw [List.flatMap_cons, ofChar]
      split
      next small =>
        have unit := toNat_ofNat small
        have single : isSurrogate (UInt16.ofNat c.toNat) = false := by
          rw [isSurrogate, Bool.or_eq_false_iff, Bool.eq_false_iff, Bool.eq_false_iff, Ne, Ne,
            isHigh_iff, isLow_iff, unit]
          omega
        rwa [List.singleton_append, paired_cons single]
      next large =>
        have high := toNat_ofNat (n := 0xD800 + (c.toNat - 0x10000) / 0x400) (by omega)
        have low := toNat_ofNat (n := 0xDC00 + (c.toNat - 0x10000) % 0x400) (by omega)
        rw [List.cons_append, List.singleton_append, paired, if_pos]
        · exact ih
        · rw [Bool.and_eq_true, isHigh_iff, isLow_iff, high, low]
          omega

theorem ofChar_ofPair (high : isHigh u) (low : isLow v) : ofChar (ofPair u v) = [u, v] := by
  rw [isHigh_iff] at high
  rw [isLow_iff] at low
  have valid : (0x10000 + (u.toNat - 0xD800) * 0x400 + (v.toNat - 0xDC00)).isValidChar := by
    rw [Nat.isValidChar]
    omega
  have value : (ofPair u v).toNat = 0x10000 + (u.toNat - 0xD800) * 0x400 + (v.toNat - 0xDC00) := by
    rw [ofPair, Char.toNat_ofNat, if_pos valid]
  have first : 0xD800 + ((ofPair u v).toNat - 0x10000) / 0x400 = u.toNat := by omega
  have second : 0xDC00 + ((ofPair u v).toNat - 0x10000) % 0x400 = v.toNat := by omega
  rw [ofChar, if_neg (by omega), first, second, UInt16.ofNat_toNat, UInt16.ofNat_toNat]

/-- Units in pairs are those of the text that is read from them. -/
theorem flatMap_ofChar_decodeOnto (done : List Char) (pairs : paired us) :
    (decodeOnto done us).flatMap ofChar = done.reverse.flatMap ofChar ++ us := by
  induction done, us using decodeOnto.induct with
  | case1 done => rw [decodeOnto, List.append_nil]
  | case2 done u =>
      have single : isSurrogate u = false := by
        rwa [paired, Bool.not_eq_true'] at pairs
      rw [decodeOnto, if_neg (Bool.eq_false_iff.mp single), List.reverse_cons, List.flatMap_append,
        List.flatMap_singleton, ofChar_single single]
  | case3 done u v rest pair ih =>
      obtain ⟨high, low⟩ := (Bool.and_eq_true _ _).mp pair
      rw [paired, if_pos pair] at pairs
      rw [decodeOnto, if_pos pair, ih pairs, List.reverse_cons, List.flatMap_append,
        List.flatMap_singleton, ofChar_ofPair high low, List.append_assoc]
      rfl
  | case4 done u v rest apart ih =>
      rw [paired, if_neg apart, Bool.and_eq_true, Bool.not_eq_true'] at pairs
      obtain ⟨single, behind⟩ := pairs
      rw [if_neg (Bool.eq_false_iff.mp single)] at ih
      rw [decodeOnto, if_neg apart, if_neg (Bool.eq_false_iff.mp single), ih behind, List.reverse_cons,
        List.flatMap_append, List.flatMap_singleton, ofChar_single single, List.append_assoc]
      rfl

/-- The units of the text that is read from some units are these units only if all are in pairs. -/
theorem encode_decodeLossy_iff : encode (decodeLossy us) = us ↔ paired us := by
  constructor
  · intro same
    rw [← same]
    exact paired_flatMap_ofChar _
  · intro pairs
    rw [encode, decodeLossy, String.toList_ofList, flatMap_ofChar_decodeOnto [] pairs]
    rfl

end Utf16

namespace ModifiedUtf8

variable {chunk : List UInt8} {chunks chunks' : List (List UInt8)} {u : UInt16} {us us' : List UInt16}

/-! ### Shortest forms -/

/-- Whether octets are a form of a unit, and no form of it is shorter. -/
def Shortest (chunk : List UInt8) (u : UInt16) : Prop :=
  Spells chunk u ∧ ∀ other, Spells other u → chunk.length ≤ other.length

/-- A form as short as the one that is written is that one. -/
theorem Spells.eq_ofUnit (spells : Spells chunk u) (short : chunk.length ≤ (ofUnit u).length) :
    chunk = ofUnit u := by
  cases spells with
  | one positive small =>
      rw [ofUnit, Utf16.toNat_ofNat (Nat.lt_trans small (by decide)), if_pos ⟨positive, small⟩]
  | @two high low top tail =>
      have value := Utf16.toNat_ofNat (n := high * 0x40 + low) (by omega)
      have quotient : (high * 0x40 + low) / 0x40 = high := by omega
      have remainder : (high * 0x40 + low) % 0x40 = low := by omega
      rw [ofUnit, value, quotient, remainder] at short ⊢
      rw [if_pos (by omega : high * 0x40 + low < 0x800)] at short ⊢
      split_ifs at short ⊢ with single
      · simp at short
      · rfl
  | @three high middle low top tail tail' =>
      have value := Utf16.toNat_ofNat (n := high * 0x1000 + middle * 0x40 + low) (by omega)
      have first : (high * 0x1000 + middle * 0x40 + low) / 0x1000 = high := by omega
      have second : (high * 0x1000 + middle * 0x40 + low) / 0x40 % 0x40 = middle := by omega
      have third : (high * 0x1000 + middle * 0x40 + low) % 0x40 = low := by omega
      rw [ofUnit, value, first, second, third] at short ⊢
      split_ifs at short ⊢ with single double
      · simp at short
      · simp at short
      · rfl

theorem shortest_iff : Shortest chunk u ↔ chunk = ofUnit u := by
  constructor
  · rintro ⟨spells, least⟩
    exact spells.eq_ofUnit (least _ (spells_ofUnit u))
  · rintro rfl
    exact ⟨spells_ofUnit u, fun _ other => other.length_ofUnit_le⟩

theorem forall₂_shortest_iff : List.Forall₂ Shortest chunks us ↔ chunks = us.map ofUnit := by
  have same : Shortest = fun chunk u => chunk = ofUnit u := by
    funext chunk u
    exact propext shortest_iff
  rw [same, ← List.forall₂_map_right_iff, List.forall₂_eq_eq_eq]

/-! ### Octets that are written again -/

/-- Octets can be taken apart into forms of units in one way only. -/
theorem eq_of_spells (spelled : List.Forall₂ Spells chunks us) (spelled' : List.Forall₂ Spells chunks' us')
    (same : chunks.flatten = chunks'.flatten) : chunks = chunks' ∧ us = us' := by
  induction spelled generalizing chunks' us' with
  | nil =>
      cases spelled' with
      | nil => exact ⟨rfl, rfl⟩
      | cons spells' _ => exact absurd same.symm spells'.append_ne_nil
  | @cons chunk u chunks us spells _ ih =>
      cases spelled' with
      | nil => exact absurd same spells.append_ne_nil
      | @cons chunk' u' chunks' us' spells' spelled' =>
          rw [List.flatten_cons, List.flatten_cons] at same
          have read := spells.unit?_append chunks.flatten
          rw [same, spells'.unit?_append] at read
          obtain ⟨rfl, -, rest⟩ : u' = u ∧ chunk'.length = chunk.length ∧
              chunks'.flatten = chunks.flatten := by
            simpa using read
          obtain ⟨rfl, rfl⟩ := ih spelled' rest.symm
          exact ⟨by rw [List.append_cancel_right same], rfl⟩

/-- A text is written with the octets that it was read from exactly if each unit had its shortest form,
and all surrogates were in pairs. -/
theorem encode_eq_iff (spelled : List.Forall₂ Spells chunks us) :
    encode (Utf16.decodeLossy us) = chunks.flatten ↔
      List.Forall₂ Shortest chunks us ∧ Utf16.AllPaired us := by
  rw [forall₂_shortest_iff, ← Utf16.paired_iff_allPaired, encode, List.flatMap_def]
  constructor
  · intro same
    obtain ⟨rfl, units⟩ := eq_of_spells (spells_map_ofUnit _) spelled same
    exact ⟨congrArg _ units, Utf16.encode_decodeLossy_iff.mp units⟩
  · rintro ⟨rfl, pairs⟩
    rw [Utf16.encode_decodeLossy_iff.mpr pairs]

theorem Spells.bounded (spells : Spells chunk u) : ∀ b ∈ chunk, b ≠ 0 ∧ b.toNat < 0xF0 := by
  have octet {n : Nat} (positive : 0 < n) (small : n < 0xF0) :
      UInt8.ofNat n ≠ 0 ∧ (UInt8.ofNat n).toNat < 0xF0 := by
    have value := toNat_ofNat (n := n) (by omega)
    refine ⟨fun zero => ?_, by omega⟩
    rw [zero] at value
    exact absurd value (Nat.ne_of_lt positive)
  cases spells with
  | one positive small => exact List.forall_mem_singleton.mpr (octet positive (by omega))
  | @two high low top tail =>
      have lead := octet (n := 0xC0 + high) (by omega) (by omega)
      have last := octet (n := 0x80 + low) (by omega) (by omega)
      exact List.forall_mem_cons.mpr ⟨lead, List.forall_mem_singleton.mpr last⟩
  | @three high middle low top tail tail' =>
      have lead := octet (n := 0xE0 + high) (by omega) (by omega)
      have next := octet (n := 0x80 + middle) (by omega) (by omega)
      have last := octet (n := 0x80 + low) (by omega) (by omega)
      exact List.forall_mem_cons.mpr ⟨lead, List.forall_mem_cons.mpr ⟨next,
        List.forall_mem_singleton.mpr last⟩⟩

theorem encode_injective : Function.Injective encode := by
  intro s t same
  have read := decode_encode s
  rw [same, decode_encode t] at read
  exact (Except.ok.inj read).symm

end ModifiedUtf8

end Text

namespace ConstantPool

variable {p p' q q' : ConstantPool} {index : UInt16} {s t : String}

/-- An index that was answered for a text is answered for no other text, also behind other requests. -/
theorem eq_of_addUtf8 (sound : p.WellFormed) (first : addUtf8 s p = .ok index p') (later : List Request)
    (second : addUtf8 t (Request.run later p') = .ok index q) : s = t := by
  obtain ⟨step, ⟨found, -⟩, -⟩ := (adds_utf8 persistent_true s).run sound trivial first
  have between := Request.grown_run later step.wellFormed
  obtain ⟨step', ⟨found', -⟩, -⟩ := (adds_utf8 persistent_true t).run between.wellFormed trivial second
  have kept := step'.extends_.utf8 (between.extends_.utf8 found)
  exact Except.ok.inj (kept.symm.trans found')

end ConstantPool

open Text Text.ModifiedUtf8

/-- Modified UTF-8 loses nothing. A text is read back from its octets, none of which is zero or at least
0xF0, so only equal texts are written alike, and only equal texts are answered with the same index of a
pool. Octets that are read consist of forms of units, which they can be taken apart into in one way; the
text that was read is written with the same octets exactly if each unit had its shortest form, which for
the unit zero is 0xC0 0x80, and each half of a surrogate pair stood next to the other half. -/
theorem modifiedUtf8_lossless :
    (∀ s, decode (encode s) = .ok s ∧ ∀ b ∈ encode s, b ≠ 0 ∧ b.toNat < 0xF0) ∧
    Function.Injective encode ∧
    (∀ (pool p' q : ConstantPool) (earlier later : List ConstantPool.Request) (index : UInt16)
      (s t : String), pool.Original →
      ConstantPool.addUtf8 s (ConstantPool.Request.run earlier pool) = .ok index p' →
      ConstantPool.addUtf8 t (ConstantPool.Request.run later p') = .ok index q → s = t) ∧
    (∀ chunk, Shortest chunk 0 ↔ chunk = [0xC0, 0x80]) ∧
    ∀ bytes s, decode bytes = .ok s →
      (∃ chunks us, List.Forall₂ Spells chunks us ∧ bytes = chunks.flatten) ∧
      ∀ chunks us, List.Forall₂ Spells chunks us → bytes = chunks.flatten →
        s = Utf16.decodeLossy us ∧
          (encode s = bytes ↔ List.Forall₂ Shortest chunks us ∧ Utf16.AllPaired us) := by
  refine ⟨fun s => ⟨decode_encode s, ?_⟩, encode_injective, ?_, fun _ => shortest_iff, ?_⟩
  · intro b member
    obtain ⟨u, -, here⟩ := List.mem_flatMap.mp member
    exact (spells_ofUnit u).bounded b here
  · intro pool p' q earlier later index s t original first second
    have reached := ConstantPool.Request.grown_run earlier original.wellFormed
    exact ConstantPool.eq_of_addUtf8 reached.wellFormed first later second
  · intro bytes s read
    obtain ⟨chunks, us, spelled, rfl, rfl⟩ := decode_eq_ok_iff.mp read
    refine ⟨⟨chunks, us, spelled, rfl⟩, ?_⟩
    intro chunks' us' spelled' same
    obtain ⟨rfl, rfl⟩ := eq_of_spells spelled spelled' same
    exact ⟨rfl, encode_eq_iff spelled⟩

/-- Zero and a character of two units, which are written again as they were read; a letter that had a longer
form than its shortest one and half of a pair, which are not. -/
theorem modifiedUtf8_lossless_foreign :
    (decode [0xC0, 0x80, 0xED, 0xA0, 0xBD, 0xED, 0xB8, 0x80] = .ok "\u0000😀" ∧
      encode "\u0000😀" = [0xC0, 0x80, 0xED, 0xA0, 0xBD, 0xED, 0xB8, 0x80]) ∧
    (decode [0xC1, 0x81] = .ok "A" ∧ encode "A" ≠ [0xC1, 0x81]) ∧
    (decode [0xED, 0xA0, 0xBD] = .ok "\uFFFD" ∧ encode "\uFFFD" ≠ [0xED, 0xA0, 0xBD]) ∧
    ∃ p, ConstantPool.addUtf8 "A" .empty = .ok 1 p ∧
      ∀ t q, ConstantPool.addUtf8 t (ConstantPool.Request.run [.classInfo "B"] p) = .ok 1 q →
        "A" = t := by
  obtain ⟨-, -, shared, -, again⟩ := modifiedUtf8_lossless
  have first : ConstantPool.addUtf8 "A" .empty = .ok 1 ⟨#[.unusable, .utf8 [0x41]]⟩ := by cbv
  refine ⟨?_, ?_, ?_, _, first, fun t q => shared .empty _ q [] [.classInfo "B"] 1 "A" t .empty first⟩
  · have read : decode [0xC0, 0x80, 0xED, 0xA0, 0xBD, 0xED, 0xB8, 0x80] = .ok "\u0000😀" := by cbv
    have forms := spells_map_ofUnit [0, 0xD83D, 0xDE00]
    obtain ⟨-, written⟩ := (again _ _ read).2 _ _ forms rfl
    refine ⟨read, written.mpr ⟨forall₂_shortest_iff.mpr rfl, ?_⟩⟩
    rw [← Utf16.paired_iff_allPaired]
    rfl
  · have read : decode [0xC1, 0x81] = .ok "A" := by cbv
    have long : Spells [0xC1, 0x81] 0x41 := @Spells.two 1 1 (by decide) (by decide)
    have forms : List.Forall₂ Spells [[0xC1, 0x81]] [0x41] := .cons long .nil
    obtain ⟨-, written⟩ := (again _ _ read).2 _ _ forms rfl
    refine ⟨read, fun same => ?_⟩
    cases (written.mp same).1 with
    | cons short _ =>
        have single : Spells [0x41] 0x41 := Spells.one (n := 0x41) (by decide) (by decide)
        exact absurd (short.2 _ single) (by decide)
  · have read : decode [0xED, 0xA0, 0xBD] = .ok "\uFFFD" := by cbv
    have forms := spells_map_ofUnit [0xD83D]
    obtain ⟨-, written⟩ := (again _ _ read).2 _ _ forms rfl
    refine ⟨read, fun same => ?_⟩
    obtain ⟨v, found, -⟩ := ((written.mp same).2 0 0xD83D rfl).1 rfl
    cases found

end JarGate
