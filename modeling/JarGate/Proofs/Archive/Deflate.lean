import Mathlib
import JarGate.Archive.Deflate
import JarGate.Archive.Inflate

/-!
# Deflated octets are read back

Deflating makes stored blocks, and inflating reads them block by block. The length of a block is read bit
by bit, so the octets of a number are taken apart first.
-/

namespace JarGate.Archive

open Deflate Inflate

/-! ### Numbers -/

/-- What follows a step of reading that succeeds. -/
theorem BitReader.bind_of_ok {α β : Type} {x : BitReader α} {f : α → BitReader β} {s t : BitStream} {a : α}
    (h : x s = .ok (a, t)) : (x >>= f) s = f a t := by
  change (x s >>= fun r => f r.1 r.2) = _
  rw [h]
  rfl

/-- An octet is read as its number. -/
theorem number_octet (b : UInt8) (rest : Bytes) :
    number 8 ⟨[], b :: rest⟩ = .ok (b.toNat, ⟨[], rest⟩) := by
  have value : ∀ n < 256, (n.testBit 0).toNat + 2 * ((n.testBit 1).toNat + 2 * ((n.testBit 2).toNat +
      2 * ((n.testBit 3).toNat + 2 * ((n.testBit 4).toNat + 2 * ((n.testBit 5).toNat +
      2 * ((n.testBit 6).toNat + 2 * ((n.testBit 7).toNat + 2 * 0))))))) = n := by
    decide +kernel
  have whole : number 8 ⟨[], b :: rest⟩ = .ok (_, ⟨[], rest⟩) := rfl
  rw [whole]
  exact congrArg (fun n => Except.ok (n, (⟨[], rest⟩ : BitStream))) (value b.toNat b.toNat_lt)

/-- The bits of a number are read in two parts. -/
theorem number_add (m n : Nat) : number (m + n) = (do
    let low ← number m
    let high ← number n
    return low + 2 ^ m * high) := by
  induction m with
  | zero =>
      have none_ : (HAdd.hAdd 0 : Nat → Nat) = id := by
        funext n
        exact Nat.zero_add n
      simp [number, none_]
  | succ m ih =>
      rw [Nat.add_right_comm, number, ih, number]
      simp only [bind_assoc, pure_bind]
      refine bind_congr fun low => bind_congr fun middle => bind_congr fun high => ?_
      congr 1
      ring

/-- Two octets are read as the number that they were written for. -/
theorem number_word {n : Nat} (small : n < 0x10000) (rest : Bytes) :
    number 16 ⟨[], Bytes.littleEndian 2 n ++ rest⟩ = .ok (n, ⟨[], rest⟩) := by
  have parts : number 16 = (do
      let low ← number 8
      let high ← number 8
      return low + 2 ^ 8 * high) := number_add 8 8
  have value : n % 256 + 2 ^ 8 * (n / 256 % 256) = n := by omega
  have octets : Bytes.littleEndian 2 n ++ rest = UInt8.ofNat n :: UInt8.ofNat (n / 256) :: rest := rfl
  have run : number 16 ⟨[], UInt8.ofNat n :: UInt8.ofNat (n / 256) :: rest⟩ =
      .ok ((UInt8.ofNat n).toNat + 2 ^ 8 * (UInt8.ofNat (n / 256)).toNat, ⟨[], rest⟩) := by
    rw [parts, BitReader.bind_of_ok (number_octet _ _), BitReader.bind_of_ok (number_octet _ _)]
    rfl
  rw [octets, run, UInt8.toNat_ofNat', UInt8.toNat_ofNat', value]

/-! ### Blocks -/

/-- What is read of a stored block, behind its first three bits. -/
theorem stored_block {octets : Bytes} (short : octets.length ≤ maxBlock) (bits : List Bool) (rest : Bytes)
    (out : Array UInt8) :
    stored ⟨bits,
        Bytes.ofFields [(2, octets.length), (2, maxBlock - octets.length)] ++ octets ++ rest⟩ out =
      .complete ⟨[], rest⟩ (out ++ octets.toArray) := by
  have limit : maxBlock = 0xFFFF := rfl
  have whole : octets.length + (maxBlock - octets.length) = 0xFFFF := by omega
  have fields : Bytes.ofFields [(2, octets.length), (2, maxBlock - octets.length)] ++ octets ++ rest =
      Bytes.littleEndian 2 octets.length ++
        (Bytes.littleEndian 2 (maxBlock - octets.length) ++ (octets ++ rest)) := by
    simp [Bytes.ofFields]
  have length : storedLength ⟨bits, Bytes.littleEndian 2 octets.length ++
      (Bytes.littleEndian 2 (maxBlock - octets.length) ++ (octets ++ rest))⟩ =
      .ok (octets.length, ⟨[], octets ++ rest⟩) := by
    have aligned (rest : Bytes) : align ⟨bits, rest⟩ = .ok ((), ⟨[], rest⟩) := rfl
    have first := number_word (n := octets.length) (by omega)
    have second := number_word (n := maxBlock - octets.length) (by omega)
    rw [storedLength, BitReader.bind_of_ok (aligned _), BitReader.bind_of_ok (first _),
      BitReader.bind_of_ok (second _), if_pos whole]
    rfl
  rw [fields, stored, length]
  simp

/-- The first three bits of a stored block. -/
theorem head_storedBlock (last : Bool) (octets rest : Bytes) : ∃ bits,
    head ⟨[], storedBlock last octets ++ rest⟩ = .ok ((last, .stored), ⟨bits,
      Bytes.ofFields [(2, octets.length), (2, maxBlock - octets.length)] ++ octets ++ rest⟩) := by
  cases last <;> exact ⟨_, rfl⟩

theorem blocks_storedBlock {octets : Bytes} (short : octets.length ≤ maxBlock) (last : Bool)
    (rest : Bytes) (out : Array UInt8) (fuel : Nat) :
    blocks (fuel + 1) ⟨[], storedBlock last octets ++ rest⟩ out =
      if last then some (out ++ octets.toArray) else blocks fuel ⟨[], rest⟩ (out ++ octets.toArray) := by
  obtain ⟨bits, first⟩ := head_storedBlock last octets rest
  rw [blocks, first]
  dsimp only
  rw [stored_block short]

/-- What a stream of stored blocks holds, with a round for each octet and one more. -/
theorem blocks_deflate (octets : Bytes) (out : Array UInt8) (fuel : Nat) (enough : octets.length < fuel) :
    blocks fuel ⟨[], deflate octets⟩ out = some (out ++ octets.toArray) := by
  induction octets using deflate.induct generalizing out fuel with
  | case1 octets short =>
      obtain ⟨fuel, rfl⟩ := Nat.exists_eq_add_one_of_ne_zero (Nat.ne_zero_of_lt enough)
      rw [deflate, if_pos short, ← List.append_nil (storedBlock true octets), blocks_storedBlock short]
      rfl
  | case2 octets long ih =>
      have positive : 0 < maxBlock := by decide
      have shorter : (octets.take maxBlock).length ≤ maxBlock := List.length_take_le ..
      obtain ⟨fuel, rfl⟩ := Nat.exists_eq_add_one_of_ne_zero (Nat.ne_zero_of_lt enough)
      have left : (octets.drop maxBlock).length < fuel := by
        rw [List.length_drop]
        omega
      rw [deflate, if_neg long, blocks_storedBlock shorter, if_neg (by decide), ih _ _ left]
      congr 1
      apply Array.toList_inj.mp
      simp

theorem length_storedBlock (last : Bool) (octets : Bytes) :
    (storedBlock last octets).length = octets.length + 5 := by
  simp only [storedBlock, Bytes.ofFields, List.flatMap_cons, List.flatMap_nil, List.append_nil,
    List.cons_append, List.append_assoc, List.length_cons, List.length_append, Bytes.length_littleEndian]
  omega

theorem length_lt_length_deflate (octets : Bytes) : octets.length < (deflate octets).length := by
  induction octets using deflate.induct with
  | case1 octets short =>
      rw [deflate, if_pos short, length_storedBlock]
      omega
  | case2 octets long ih =>
      rw [List.length_drop] at ih
      rw [deflate, if_neg long, List.length_append, length_storedBlock, List.length_take]
      omega

/-- Octets that were deflated are inflated again. -/
theorem inflate?_deflate (octets : Bytes) : inflate? (deflate octets) = some octets := by
  have rounds := length_lt_length_deflate octets
  rw [inflate?, blocks_deflate octets #[] _ (by omega)]
  simp

end JarGate.Archive
