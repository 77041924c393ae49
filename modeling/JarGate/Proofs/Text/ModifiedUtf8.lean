import JarGate.Proofs.Success
import JarGate.Text.ModifiedUtf8

/-!
# Texts in modified UTF-8

Every text is read back from the octets that it is written as. Only this direction holds: a unit may
be written longer than it has to be, and half of a surrogate pair is read as something else.
-/

namespace JarGate.Text

namespace Utf16

theorem isHigh_iff {u : UInt16} : isHigh u ↔ 0xD800 ≤ u.toNat ∧ u.toNat < 0xDC00 := by
  simp [isHigh]

theorem isLow_iff {u : UInt16} : isLow u ↔ 0xDC00 ≤ u.toNat ∧ u.toNat < 0xE000 := by
  simp [isLow]

/-- A character is no half of a surrogate pair. -/
theorem toNat_valid (c : Char) : c.toNat < 0xD800 ∨ 0xDFFF < c.toNat ∧ c.toNat < 0x110000 :=
  c.valid

theorem toNat_ofNat {n : Nat} (small : n < 0x10000) : (UInt16.ofNat n).toNat = n := by
  rw [UInt16.toNat_ofNat', Nat.mod_eq_of_lt small]

/-- A unit that is no half of a pair is that of a character. -/
theorem ofChar_single {u : UInt16} (single : isSurrogate u = false) :
    ofChar (Char.ofNat u.toNat) = [u] := by
  have valid : u.toNat.isValidChar := by
    rw [isSurrogate, Bool.or_eq_false_iff, Bool.eq_false_iff, Bool.eq_false_iff, Ne, Ne,
      isHigh_iff, isLow_iff] at single
    have bound := u.toNat_lt
    rw [Nat.isValidChar]
    omega
  have same : (Char.ofNat u.toNat).toNat = u.toNat := by
    rw [Char.toNat_ofNat, if_pos valid]
  rw [ofChar, same, if_pos u.toNat_lt, UInt16.ofNat_toNat]

/-- A character of a single unit is read from it, whatever follows. -/
theorem decodeOnto_single {c : Char} (small : c.toNat < 0x10000) (done : List Char)
    (rest : List UInt16) :
    decodeOnto done (UInt16.ofNat c.toNat :: rest) = decodeOnto (c :: done) rest := by
  have unit := toNat_ofNat small
  have valid := toNat_valid c
  have high : isHigh (UInt16.ofNat c.toNat) = false := by
    rw [Bool.eq_false_iff, Ne, isHigh_iff, unit]
    omega
  have low : isLow (UInt16.ofNat c.toNat) = false := by
    rw [Bool.eq_false_iff, Ne, isLow_iff, unit]
    omega
  cases rest with
  | nil => simp [decodeOnto, isSurrogate, high, low, unit, Char.ofNat_toNat]
  | cons v rest => simp [decodeOnto, isSurrogate, high, low, unit, Char.ofNat_toNat]

/-- A character of two units is read from them. -/
theorem decodeOnto_pair {c : Char} (large : 0x10000 ≤ c.toNat) (done : List Char)
    (rest : List UInt16) : decodeOnto done (ofChar c ++ rest) = decodeOnto (c :: done) rest := by
  have valid := toNat_valid c
  have high := toNat_ofNat (n := 0xD800 + (c.toNat - 0x10000) / 0x400) (by omega)
  have low := toNat_ofNat (n := 0xDC00 + (c.toNat - 0x10000) % 0x400) (by omega)
  have isHigh : isHigh (UInt16.ofNat (0xD800 + (c.toNat - 0x10000) / 0x400)) := by
    rw [isHigh_iff, high]
    omega
  have isLow : isLow (UInt16.ofNat (0xDC00 + (c.toNat - 0x10000) % 0x400)) := by
    rw [isLow_iff, low]
    omega
  have whole : 0x10000 + (0xD800 + (c.toNat - 0x10000) / 0x400 - 0xD800) * 0x400 +
      (0xDC00 + (c.toNat - 0x10000) % 0x400 - 0xDC00) = c.toNat := by
    omega
  rw [ofChar, if_neg (by omega)]
  simp only [List.cons_append, List.nil_append, decodeOnto, isHigh, isLow, Bool.and_self, if_true,
    ofPair, high, low, whole, Char.ofNat_toNat]

theorem decodeOnto_flatMap (done cs : List Char) :
    decodeOnto done (cs.flatMap ofChar) = done.reverse ++ cs := by
  induction cs generalizing done with
  | nil => simp [decodeOnto]
  | cons c cs ih =>
      have step : decodeOnto done (ofChar c ++ cs.flatMap ofChar) =
          decodeOnto (c :: done) (cs.flatMap ofChar) := by
        by_cases small : c.toNat < 0x10000
        · rw [ofChar, if_pos small]
          exact decodeOnto_single small done _
        · exact decodeOnto_pair (Nat.le_of_not_lt small) done _
      rw [List.flatMap_cons, step, ih, List.reverse_cons, List.append_assoc]
      rfl

theorem decodeLossy_encode (s : String) : decodeLossy (encode s) = s := by
  rw [decodeLossy, encode, decodeOnto_flatMap]
  simp

end Utf16

namespace ModifiedUtf8

theorem toNat_ofNat {n : Nat} (small : n < 0x100) : (UInt8.ofNat n).toNat = n := by
  rw [UInt8.toNat_ofNat', Nat.mod_eq_of_lt small]

theorem isTail_iff {b : UInt8} : isTail b ↔ 0x80 ≤ b.toNat ∧ b.toNat < 0xC0 := by
  simp [isTail]

theorem tail_of_lt {n : Nat} (small : n < 0x40) :
    isTail (UInt8.ofNat (0x80 + n)) ∧ tailBits (UInt8.ofNat (0x80 + n)) = n := by
  have octet := toNat_ofNat (n := 0x80 + n) (by omega)
  rw [isTail_iff, tailBits, octet]
  omega

theorem ofNat_add_eq {b : UInt8} {base n : Nat} (value : b.toNat = base + n) :
    UInt8.ofNat (base + n) = b := by
  rw [← value, UInt8.ofNat_toNat]

theorem tailBits_lt (b : UInt8) : tailBits b < 0x40 :=
  Nat.mod_lt _ (by decide)

/-- A continuation octet is the one with its own bits. -/
theorem ofNat_tailBits {b : UInt8} (tail : isTail b) : UInt8.ofNat (0x80 + tailBits b) = b := by
  rw [isTail_iff] at tail
  exact ofNat_add_eq (by rw [tailBits]; omega)

/-- The forms of one to three octets that a unit can be written in. Zero has none of one octet. -/
inductive Spells : List UInt8 → UInt16 → Prop
  | one {n : Nat} (positive : 0 < n) (small : n < 0x80) : Spells [UInt8.ofNat n] (UInt16.ofNat n)
  | two {high low : Nat} (top : high < 0x20) (tail : low < 0x40) :
      Spells [UInt8.ofNat (0xC0 + high), UInt8.ofNat (0x80 + low)] (UInt16.ofNat (high * 0x40 + low))
  | three {high middle low : Nat} (top : high < 0x10) (tail : middle < 0x40) (tail' : low < 0x40) :
      Spells [UInt8.ofNat (0xE0 + high), UInt8.ofNat (0x80 + middle), UInt8.ofNat (0x80 + low)]
        (UInt16.ofNat (high * 0x1000 + middle * 0x40 + low))

/-- A unit is read from any form of it, whatever follows. -/
theorem Spells.unit?_append {chunk : List UInt8} {u : UInt16} (spells : Spells chunk u)
    (rest : List UInt8) : unit? (chunk ++ rest) = some (u, chunk.length, rest) := by
  cases spells with
  | one positive small =>
      simp only [List.cons_append, List.nil_append, unit?, toNat_ofNat (Nat.lt_trans small (by decide))]
      rw [if_neg (by omega), if_pos small]
      rfl
  | @two high low top tail =>
      have octet := toNat_ofNat (n := 0xC0 + high) (by omega)
      obtain ⟨follows, bits⟩ := tail_of_lt tail
      have payload : (0xC0 + high) % 0x20 = high := by omega
      simp only [List.cons_append, List.nil_append, unit?, octet, follows, bits, payload]
      rw [if_neg (by omega), if_neg (by omega), if_pos (by omega)]
      rfl
  | @three high middle low top tail tail' =>
      have octet := toNat_ofNat (n := 0xE0 + high) (by omega)
      obtain ⟨follows, bits⟩ := tail_of_lt tail
      obtain ⟨follows', bits'⟩ := tail_of_lt tail'
      have payload : (0xE0 + high) % 0x10 = high := by omega
      simp only [List.cons_append, List.nil_append, unit?, octet, follows, bits, follows', bits', payload]
      rw [if_neg (by omega), if_neg (by omega), if_neg (by omega), if_pos (by omega)]
      rfl

/-- The octets that a unit is written with are a form of it. -/
theorem spells_ofUnit (u : UInt16) : Spells (ofUnit u) u := by
  have bound := u.toNat_lt
  have unit : UInt16.ofNat u.toNat = u := UInt16.ofNat_toNat
  simp only [ofUnit]
  split
  next short =>
    have form := Spells.one short.1 short.2
    rwa [unit] at form
  next =>
  split
  next =>
    have form := @Spells.two (u.toNat / 0x40) (u.toNat % 0x40) (by omega) (by omega)
    rwa [Nat.div_add_mod', unit] at form
  next =>
    have form := @Spells.three (u.toNat / 0x1000) (u.toNat / 0x40 % 0x40) (u.toNat % 0x40)
      (by omega) (by omega) (by omega)
    have whole : u.toNat / 0x1000 * 0x1000 + u.toNat / 0x40 % 0x40 * 0x40 + u.toNat % 0x40 =
        u.toNat := by
      omega
    rwa [whole, unit] at form

/-- Where a unit is read, the octets begin with a form of it. -/
theorem spells_of_unit? {bytes rest : List UInt8} {u : UInt16} {n : Nat}
    (read : unit? bytes = some (u, n, rest)) :
    ∃ chunk, Spells chunk u ∧ bytes = chunk ++ rest ∧ n = chunk.length := by
  unfold unit? at read
  split at read
  next => cases read
  next b rest' =>
    split at read
    next => cases read
    next nonzero =>
    split at read
    next small =>
      cases read
      refine ⟨[b], ?_, rfl, rfl⟩
      have form := Spells.one (Nat.pos_of_ne_zero nonzero) small
      rwa [UInt8.ofNat_toNat] at form
    next =>
    split at read
    next range =>
      split at read
      next b2 rest'' =>
        split at read
        next tail =>
          cases read
          refine ⟨[b, b2], ?_, rfl, rfl⟩
          have form := Spells.two (Nat.mod_lt b.toNat (by decide : 0 < 0x20)) (tailBits_lt b2)
          rwa [ofNat_add_eq (b := b) (by omega), ofNat_tailBits tail] at form
        next => cases read
      next => cases read
    next =>
    split at read
    next range =>
      split at read
      next b2 b3 rest'' =>
        split at read
        next tails =>
          cases read
          obtain ⟨tail, tail'⟩ := (Bool.and_eq_true _ _).mp tails
          refine ⟨[b, b2, b3], ?_, rfl, rfl⟩
          have form := Spells.three (Nat.mod_lt b.toNat (by decide : 0 < 0x10)) (tailBits_lt b2)
            (tailBits_lt b3)
          rwa [ofNat_add_eq (b := b) (by omega), ofNat_tailBits tail, ofNat_tailBits tail'] at form
        next => cases read
      next => cases read
    next => cases read

theorem Spells.append_ne_nil {chunk rest : List UInt8} {u : UInt16} (spells : Spells chunk u) :
    chunk ++ rest ≠ [] := by
  intro empty
  have read := spells.unit?_append rest
  rw [empty] at read
  cases read

/-- The units of octets are read from any forms of them. -/
theorem unitsOnto_of_spells {chunks : List (List UInt8)} {us : List UInt16}
    (spelled : List.Forall₂ Spells chunks us) (done : List UInt16) (pos : Nat) :
    unitsOnto done pos chunks.flatten = .ok (done.reverse ++ us) := by
  induction spelled generalizing done pos with
  | nil => simp [unitsOnto]
  | @cons chunk u chunks us spells _ ih =>
      have more : (chunk ++ chunks.flatten).isEmpty = false :=
        List.isEmpty_eq_false_iff.mpr spells.append_ne_nil
      have here := spells.unit?_append chunks.flatten
      rw [List.flatten_cons, unitsOnto, if_neg (Bool.eq_false_iff.mp more)]
      split
      next none => cases here.symm.trans none
      next found =>
        cases here.symm.trans found
        rw [ih, List.reverse_cons, List.append_assoc]
        rfl

theorem exists_spells_of_unitsOnto {done us : List UInt16} {pos : Nat} {bytes : List UInt8}
    (read : unitsOnto done pos bytes = .ok us) :
    ∃ chunks more, List.Forall₂ Spells chunks more ∧ bytes = chunks.flatten ∧
      us = done.reverse ++ more := by
  induction done, pos, bytes using unitsOnto.induct with
  | case1 done pos bytes empty =>
      rw [unitsOnto, if_pos empty] at read
      cases read
      exact ⟨[], [], .nil, List.isEmpty_iff.mp empty, (List.append_nil _).symm⟩
  | case2 done pos bytes more none =>
      rw [unitsOnto, if_neg more] at read
      split at read
      next => cases read
      next found => cases none.symm.trans found
  | case3 done pos bytes more u n rest found shorter ih =>
      rw [unitsOnto, if_neg more] at read
      split at read
      next none => cases found.symm.trans none
      next found' =>
        cases found.symm.trans found'
        obtain ⟨chunk, spells, rfl, -⟩ := spells_of_unit? found
        obtain ⟨chunks, us', spelled, rfl, rfl⟩ := ih read
        refine ⟨chunk :: chunks, u :: us', .cons spells spelled, List.flatten_cons.symm, ?_⟩
        rw [List.reverse_cons, List.append_assoc]
        rfl

/-- Octets are read exactly if they consist of forms of units. -/
theorem decode_eq_ok_iff {bytes : List UInt8} {s : String} : decode bytes = .ok s ↔
    ∃ chunks us, List.Forall₂ Spells chunks us ∧ bytes = chunks.flatten ∧ Utf16.decodeLossy us = s := by
  rw [decode, map_eq_ok_iff]
  constructor
  · rintro ⟨us, read, text⟩
    obtain ⟨chunks, _, spelled, same, rfl⟩ := exists_spells_of_unitsOnto read
    exact ⟨chunks, _, spelled, same, text⟩
  · rintro ⟨chunks, us, spelled, rfl, text⟩
    exact ⟨us, unitsOnto_of_spells spelled [] 0, text⟩

theorem spells_map_ofUnit (us : List UInt16) : List.Forall₂ Spells (us.map ofUnit) us :=
  List.forall₂_map_left_iff.mpr (List.forall₂_same.mpr fun u _ => spells_ofUnit u)

/-- Every text is read back from the octets that it is written as. -/
theorem decode_encode (s : String) : decode (encode s) = .ok s := by
  refine decode_eq_ok_iff.mpr ⟨_, _, spells_map_ofUnit (Utf16.encode s), ?_, Utf16.decodeLossy_encode s⟩
  rw [encode, List.flatMap_def]

end ModifiedUtf8

end JarGate.Text
