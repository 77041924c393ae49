import JarGate.Proofs.Code.Representability

/-!
# How writing fails

A structure that cannot be written is too large for a field of its own, or holds a part that cannot be
written. What is left of a table whose other entries can be written is its size and the one entry.
-/

namespace JarGate

section

variable {ε α β : Type} {e : ε}

/-- A list fails with an element of it. -/
theorem exists_of_mapM_eq_error {f : α → Except ε β} {as : List α} (failed : as.mapM f = .error e) :
    ∃ a ∈ as, f a = .error e := by
  induction as with
  | nil => cases failed
  | cons a as ih =>
      rw [List.mapM_cons, bind_eq_error_iff] at failed
      obtain here | ⟨b, -, failed⟩ := failed
      · exact ⟨a, List.mem_cons_self .., here⟩
      · obtain behind | ⟨bs, -, failed⟩ := bind_eq_error_iff.mp failed
        · obtain ⟨a', member, there⟩ := ih behind
          exact ⟨a', List.mem_cons_of_mem _ member, there⟩
        · cases failed

end

variable {what : String} {n : Nat} {why : ClassError}

theorem entryCount_eq_error_iff :
    entryCount what n = .error why ↔ 0xFFFF < n ∧ why = .overflow (.entries what n) := by
  rw [entryCount]
  split
  next small =>
    have inside : ¬ 0xFFFF < n := by omega
    simp [inside]
  next large =>
    have outside : 0xFFFF < n := by omega
    simp [outside, eq_comm]

theorem octetCount_eq_error_iff :
    octetCount what n = .error why ↔ 0xFFFFFFFF < n ∧ why = .overflow (.octets what n) := by
  rw [octetCount]
  split
  next small =>
    have inside : ¬ 0xFFFFFFFF < n := by omega
    simp [inside]
  next large =>
    have outside : 0xFFFFFFFF < n := by omega
    simp [outside, eq_comm]

theorem attributeBytes_eq_error {name : UInt16} {body : Bytes}
    (failed : attributeBytes name body = .error why) :
    0xFFFFFFFF < body.length ∧ why = .overflow (.octets "attribute" body.length) := by
  obtain large | ⟨len, -, done⟩ := bind_eq_error_iff.mp failed
  · exact octetCount_eq_error_iff.mp large
  · cases done

/-- A table has too many entries, or one that cannot be written. -/
theorem Code.writeTable_eq_error {α : Type} {write : α → Except ClassError Bytes} {as : List α}
    (failed : writeTable what write as = .error why) :
    (0xFFFF < as.length ∧ why = .overflow (.entries what as.length)) ∨
      ∃ a ∈ as, write a = .error why := by
  obtain many | ⟨count, -, failed⟩ := bind_eq_error_iff.mp failed
  · exact .inl (entryCount_eq_error_iff.mp many)
  · obtain entry | ⟨chunks, -, done⟩ := bind_eq_error_iff.mp failed
    · exact .inr (exists_of_mapM_eq_error entry)
    · cases done

/-- Of representable frames there can only be too many. -/
theorem Frame.writeTable_eq_error {frames : List Frame} (fits : ∀ f ∈ frames, f.Representable)
    (failed : writeTable frames = .error why) :
    0xFFFF < frames.length ∧ why = .overflow (.entries "StackMapTable" frames.length) := by
  have tabled : Code.writeTable "StackMapTable" write frames = .error why := failed
  refine (Code.writeTable_eq_error tabled).resolve_right ?_
  rintro ⟨f, member, stuck⟩
  obtain ⟨bs, written, -⟩ := (fits f member).exists_write
  cases written.symm.trans stuck

end JarGate
