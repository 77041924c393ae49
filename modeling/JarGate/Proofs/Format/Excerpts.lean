import JarGate.Proofs.Format.RoundTrip

/-!
# Excerpts of what is written

Where the octets of one entry stand in those of its table, and the octets of an attribute of a method in
the file of its class.
-/

namespace JarGate

namespace Code

variable {α : Type} {what : String} {write : α → Except ClassError Bytes} {xs ys : List α} {a : α}
  {bs : Bytes}

/-- Each entry of a table that is written can be written. -/
theorem exists_write_of_writeTable (written : writeTable what write xs = .ok bs) :
    ∀ x ∈ xs, ∃ out, write x = .ok out := by
  obtain ⟨-, chunks, each, -⟩ := writeTable_eq_ok_iff.mp written
  intro x member
  obtain ⟨out, -, here⟩ := exists_of_forall₂ each x member
  exact ⟨out, here⟩

/-- The octets of a table around one of its entries. -/
theorem writeTable_around_eq_ok_iff : writeTable what write (xs ++ a :: ys) = .ok bs ↔
    xs.length + (ys.length + 1) < 0x10000 ∧ ∃ front out behind, xs.mapM write = .ok front ∧
      write a = .ok out ∧ ys.mapM write = .ok behind ∧
      bs = be16 (UInt16.ofNat (xs.length + (ys.length + 1))) ++ front.flatten ++ out ++
        behind.flatten := by
  simp only [writeTable, bind_eq_ok_iff, pure_eq_ok_iff, entryCount_eq_ok_iff, List.mapM_append,
    List.mapM_cons, List.length_append, List.length_cons]
  constructor
  · rintro ⟨n, ⟨small, rfl⟩, _, ⟨front, before, _, ⟨out, here, back, behind, rfl⟩, rfl⟩, rfl⟩
    refine ⟨small, front, out, back, before, here, behind, ?_⟩
    simp only [List.flatten_append, List.flatten_cons, List.append_assoc]
  · rintro ⟨small, front, out, back, before, here, behind, rfl⟩
    refine ⟨_, ⟨small, rfl⟩, _, ⟨front, before, _, ⟨out, here, back, behind, rfl⟩, rfl⟩, ?_⟩
    simp only [List.flatten_append, List.flatten_cons, List.append_assoc]

end Code

namespace ClassFile

variable {c : ClassFile} {out : Bytes} {m : MethodInfo}

theorem encode_eq_ok_iff : c.encode = .ok out ↔
    ∃ pool interfaces fields methods attributes, c.Written pool interfaces fields attributes ∧
      Code.writeTable "methods" c.writeMethod c.methods = .ok methods ∧
      out = c.front pool interfaces fields ++ (methods ++ attributes) := by
  rw [encode_eq, writeWith_eq_ok_iff, writeMethod_eq]

/-- The octets of an attribute of a method stand in the file of its class, behind its fixed parts. -/
theorem exists_octets_of_encode (written : c.encode = .ok out) (member : m ∈ c.methods)
    {a : MethodAttribute} (contains : a ∈ m.attributes) :
    ∃ head octets tail, c.writeMethodAttribute m a = .ok octets ∧ out = head ++ octets ++ tail ∧
      14 ≤ head.length := by
  obtain ⟨methods₁, methods₂, split⟩ := List.append_of_mem member
  obtain ⟨attributes₁, attributes₂, split'⟩ := List.append_of_mem contains
  obtain ⟨pool, is, fs, table, as, -, tabled, rfl⟩ := encode_eq_ok_iff.mp written
  rw [split] at tabled
  obtain ⟨-, front, octets, behind, -, here, -, rfl⟩ := Code.writeTable_around_eq_ok_iff.mp tabled
  simp only [writeMethod, bind_eq_ok_iff, pure_eq_ok_iff] at here
  obtain ⟨inner, tabled', rfl⟩ := here
  rw [split'] at tabled'
  obtain ⟨-, front', octets', behind', -, here', -, rfl⟩ := Code.writeTable_around_eq_ok_iff.mp tabled'
  refine ⟨c.front pool is fs ++ be16 (UInt16.ofNat (methods₁.length + (methods₂.length + 1))) ++
    front.flatten ++ be16 m.access ++ be16 m.name ++ be16 m.descriptor ++
    be16 (UInt16.ofNat (attributes₁.length + (attributes₂.length + 1))) ++ front'.flatten, octets',
    behind'.flatten ++ behind.flatten ++ as, here', ?_, ?_⟩
  · simp only [List.append_assoc]
  · simp only [ClassFile.front, List.length_append, be16_length, be32_length]
    omega

end ClassFile

end JarGate
