import JarGate.ClassFile.Code.Format
import JarGate.Proofs.Format.Decoder

/-!
# Tables and attributes in octets

A table is a number of entries and the entries, an attribute a name, the length of its body and the
body. Both numbers have a width, and writing fails where they do not fit; a table or an attribute that
was read always fits.
-/

namespace JarGate

open Decoder

variable {α : Type}

theorem entryCount_eq_ok_iff {what : String} {count : Nat} {n : UInt16} :
    entryCount what count = .ok n ↔ count < 0x10000 ∧ n = UInt16.ofNat count := by
  simp only [entryCount]
  split
  next small => simp [small, eq_comm]
  next large => simp [large]

theorem octetCount_eq_ok_iff {what : String} {length : Nat} {n : UInt32} :
    octetCount what length = .ok n ↔ length < 0x100000000 ∧ n = UInt32.ofNat length := by
  simp only [octetCount]
  split
  next small => simp [small, eq_comm]
  next large => simp [large]

theorem attributeBytes_eq_ok_iff {name : UInt16} {body bs : Bytes} :
    attributeBytes name body = .ok bs ↔ body.length < 0x100000000 ∧
      bs = be16 name ++ be32 (UInt32.ofNat body.length) ++ body := by
  simp only [attributeBytes, bind_eq_ok_iff, pure_eq_ok_iff, octetCount_eq_ok_iff]
  constructor
  · rintro ⟨n, ⟨small, rfl⟩, rfl⟩
    exact ⟨small, rfl⟩
  · rintro ⟨small, rfl⟩
    exact ⟨_, ⟨small, rfl⟩, rfl⟩

/-- The body of an attribute has few enough octets to be read. -/
theorem length_lt_of_attributeBytes {name : UInt16} {body bs : Bytes}
    (framed : attributeBytes name body = .ok bs) : body.length < positionLimit :=
  (attributeBytes_eq_ok_iff.mp framed).1.trans (by decide)

/-- A number of entries in 16 bits, and the octets of each. -/
def Counted (R : α → Bytes → Prop) (as : List α) (bs : Bytes) : Prop :=
  as.length < 0x10000 ∧
    ∃ chunks, List.Forall₂ R as chunks ∧ bs = be16 (UInt16.ofNat as.length) ++ chunks.flatten

theorem Counted.imp {R S : α → Bytes → Prop} {as : List α} {bs : Bytes} (h : Counted R as bs)
    (each : ∀ a bs, R a bs → S a bs) : Counted S as bs := by
  obtain ⟨small, chunks, all, rfl⟩ := h
  exact ⟨small, chunks, all.imp each, rfl⟩

theorem accepts_counted {d : Decoder α} {R : α → Bytes → Prop}
    (h : Accepts d (fun _ bs a => R a bs)) :
    Accepts (do many (← u16).toNat d) (fun _ bs as => Counted R as bs) := by
  refine (accepts_u16.bind fun n => h.many n.toNat).congr fun pos bs as => ⟨?_, ?_⟩
  · rintro ⟨n, _, ys, rfl, rfl, len, run⟩
    obtain ⟨chunks, each, rfl⟩ := Grammar.many_iff.mp run
    refine ⟨len ▸ n.toNat_lt, chunks, each, ?_⟩
    rw [len, UInt16.ofNat_toNat]
  · rintro ⟨small, chunks, each, rfl⟩
    refine ⟨UInt16.ofNat as.length, _, _, rfl, rfl, ?_, Grammar.many_iff.mpr ⟨chunks, each, rfl⟩⟩
    rw [UInt16.toNat_ofNat', Nat.mod_eq_of_lt small]

/-- A table of entries that are described and have a property. -/
theorem counted_and_iff {R : α → Bytes → Prop} {P : α → Prop} {as : List α} {bs : Bytes} :
    Counted (fun a bs => R a bs ∧ P a) as bs ↔ Counted R as bs ∧ ∀ a ∈ as, P a := by
  constructor
  · intro h
    refine ⟨h.imp fun _ _ => And.left, ?_⟩
    obtain ⟨-, chunks, each, -⟩ := h
    intro a member
    obtain ⟨i, bound, rfl⟩ := List.getElem_of_mem member
    exact (each.get bound (each.length_eq ▸ bound)).2
  · rintro ⟨⟨small, chunks, each, rfl⟩, all⟩
    refine ⟨small, chunks, ?_, rfl⟩
    clear small
    induction each with
    | nil => exact .nil
    | cons head _ ih =>
        exact .cons ⟨head, all _ (by simp)⟩ (ih fun b member => all b (by simp [member]))

namespace Code

theorem writeTable_eq_ok_iff {what : String} {write : α → Except ClassError Bytes} {as : List α}
    {bs : Bytes} :
    writeTable what write as = .ok bs ↔ Counted (fun a bs => write a = .ok bs) as bs := by
  simp only [writeTable, bind_eq_ok_iff, pure_eq_ok_iff, entryCount_eq_ok_iff, mapM_eq_ok_iff,
    Counted]
  constructor
  · rintro ⟨n, ⟨small, rfl⟩, chunks, each, rfl⟩
    exact ⟨small, chunks, each, rfl⟩
  · rintro ⟨small, chunks, each, rfl⟩
    exact ⟨_, ⟨small, rfl⟩, chunks, each, rfl⟩

/-- A table is read from exactly the octets that it is written as. -/
theorem accepts_table {d : Decoder α} {write : α → Except ClassError Bytes} {P : α → Prop}
    (what : String) (h : Accepts d (fun _ bs a => write a = .ok bs ∧ P a)) :
    Accepts (do many (← u16).toNat d)
      (fun _ bs as => writeTable what write as = .ok bs ∧ ∀ a ∈ as, P a) :=
  (accepts_counted h).congr fun _ _ _ => by rw [writeTable_eq_ok_iff, counted_and_iff]

end Code

/-! ### Attributes -/

/-- Octets behind their number. -/
theorem accepts_sized : Accepts (do take (← u32).toNat)
    (fun _ bs body => body.length < 0x100000000 ∧ bs = be32 (UInt32.ofNat body.length) ++ body) := by
  refine Accepts.congr (accepts_u32.bind fun n => accepts_take n.toNat) fun pos bs body => ⟨?_, ?_⟩
  · rintro ⟨n, _, _, rfl, rfl, rfl, len⟩
    exact ⟨len ▸ n.toNat_lt, by rw [len, UInt32.ofNat_toNat]⟩
  · rintro ⟨small, rfl⟩
    refine ⟨UInt32.ofNat body.length, _, _, rfl, rfl, rfl, ?_⟩
    rw [UInt32.toNat_ofNat', Nat.mod_eq_of_lt small]

/-- A name, the length of a body, and a body. -/
theorem accepts_attribute {d : UInt16 → Bytes → Decoder α} {G : UInt16 → Bytes → α → Prop}
    (h : ∀ name body, Accepts (d name body) (fun _ bs a => bs = [] ∧ G name body a)) :
    Accepts (do
        let name ← u16
        let body ← take (← u32).toNat
        d name body)
      (fun _ bs a => ∃ name body, attributeBytes name body = .ok bs ∧ G name body a) := by
  refine Accepts.congr (accepts_u16.bind fun name => .bind_assoc accepts_sized fun body =>
    h name body) fun pos bs a => ⟨?_, ?_⟩
  · rintro ⟨name, _, _, rfl, rfl, body, _, _, rfl, ⟨small, rfl⟩, rfl, described⟩
    refine ⟨name, _, attributeBytes_eq_ok_iff.mpr ⟨small, ?_⟩, described⟩
    rw [List.append_nil, List.append_assoc]
  · rintro ⟨name, body, written, described⟩
    obtain ⟨small, rfl⟩ := attributeBytes_eq_ok_iff.mp written
    exact ⟨name, _, _, List.append_assoc _ _ _, rfl, body, _, [], (List.append_nil _).symm,
      ⟨small, rfl⟩, rfl, described⟩

end JarGate
