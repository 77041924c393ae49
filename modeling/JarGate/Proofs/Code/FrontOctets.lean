import JarGate.Proofs.Code.FrontFrames
import JarGate.Proofs.Code.Relayout
import JarGate.Proofs.Format.Language

/-!
# The octets of a body behind code in front

Distances do not change when a whole body is moved, and its tables are written with as many octets as
before. As long as the code in front and the body together are not too long for a code array, all their
offsets fit into 16 bits, so only new frames can make a difference.
-/

namespace JarGate

namespace Code

open Instruction (endFrom placeFrom)

/-! ### Tables with moved entries -/

section

variable {α : Type} {what : String} {write : α → Except ClassError Bytes} {f : α → α} {as : List α}
  {out : Bytes}

/-- A table is written with as many octets if that holds for each of its entries. -/
theorem exists_writeTable_map
    (each : ∀ a ∈ as, ∀ bs, write a = .ok bs → ∃ bs', write (f a) = .ok bs' ∧ bs'.length = bs.length)
    (written : writeTable what write as = .ok out) :
    ∃ out', writeTable what write (as.map f) = .ok out' ∧ out'.length = out.length := by
  obtain ⟨few, chunks, all, rfl⟩ := writeTable_eq_ok_iff.mp written
  have moved : ∃ chunks', List.Forall₂ (fun a bs => write a = .ok bs) (as.map f) chunks' ∧
      chunks'.flatten.length = chunks.flatten.length := by
    clear few written
    induction all with
    | nil => exact ⟨[], .nil, rfl⟩
    | cons head _ ih =>
        obtain ⟨here, behind⟩ := List.forall_mem_cons.mp each
        obtain ⟨bs', written, same⟩ := here _ head
        obtain ⟨chunks', all', total⟩ := ih behind
        refine ⟨bs' :: chunks', .cons written all', ?_⟩
        rw [List.flatten_cons, List.flatten_cons, List.length_append, List.length_append, same, total]
  obtain ⟨chunks', all', total⟩ := moved
  have few' : (as.map f).length < 0x10000 := by rwa [List.length_map]
  refine ⟨_, writeTable_eq_ok_iff.mpr ⟨few', chunks', all', rfl⟩, ?_⟩
  rw [List.length_append, List.length_append, be16_length, be16_length, total]

end

theorem offsetBytes_of_le {o : Nat} (small : o ≤ 0xFFFF) :
    offsetBytes o = .ok (be16 (UInt16.ofNat o)) :=
  offsetBytes_eq_ok_iff.mpr ⟨Nat.lt_succ_of_le small, rfl⟩

variable {c : Code} {insns : List Instruction} {p q : ConstantPool} {len : Nat} {bs out : Bytes}

/-- Where nothing moves behind the last offset of 16 bits, a handler is written with as many octets. -/
theorem exists_writeHandler_moved {h : Handler} (small : ∀ o ∈ h.named, o + len ≤ 0xFFFF)
    (written : writeHandler h = .ok bs) :
    ∃ bs', writeHandler (h.mapOffsets (· + len)) = .ok bs' ∧ bs'.length = bs.length := by
  simp only [Handler.named, List.forall_mem_cons] at small
  obtain ⟨start, stop, handler, -⟩ := small
  simp only [writeHandler, bind_eq_ok_iff, pure_eq_ok_iff, offsetBytes_eq_ok_iff] at written
  obtain ⟨_, ⟨-, rfl⟩, _, ⟨-, rfl⟩, _, ⟨-, rfl⟩, rfl⟩ := written
  simp only [writeHandler, Handler.mapOffsets, offsetBytes_of_le start, offsetBytes_of_le stop,
    offsetBytes_of_le handler]
  exact ⟨_, rfl, by simp only [List.length_append, be16_length]⟩

theorem exists_writeLine_moved {e : LineNumber} (small : e.start + len ≤ 0xFFFF)
    (written : writeLine e = .ok bs) :
    ∃ bs', writeLine (e.mapOffsets (· + len)) = .ok bs' ∧ bs'.length = bs.length := by
  simp only [writeLine, bind_eq_ok_iff, pure_eq_ok_iff, offsetBytes_eq_ok_iff] at written
  obtain ⟨_, ⟨-, rfl⟩, rfl⟩ := written
  simp only [writeLine, LineNumber.mapOffsets, offsetBytes_of_le small]
  exact ⟨_, rfl, by simp only [List.length_append, be16_length]⟩

/-- The range of a variable keeps its length. -/
theorem exists_writeVariable_moved {e : LocalVariable} (small : e.start + len ≤ 0xFFFF)
    (written : writeVariable e = .ok bs) :
    ∃ bs', writeVariable (e.mapOffsets (· + len)) = .ok bs' ∧ bs'.length = bs.length := by
  simp only [writeVariable, bind_eq_ok_iff, pure_eq_ok_iff, offsetBytes_eq_ok_iff] at written
  obtain ⟨_, ⟨-, rfl⟩, _, ⟨short, rfl⟩, rfl⟩ := written
  have kept : (e.mapOffsets (· + len)).length = e.length := by
    have moved : (e.mapOffsets (· + len)).start + (e.mapOffsets (· + len)).length =
        e.start + e.length + len := LocalVariable.add_mapOffsets (by omega) (by omega) (by omega)
    have start : (e.mapOffsets (· + len)).start = e.start + len := rfl
    omega
  rw [writeVariable, kept]
  simp only [LocalVariable.mapOffsets, offsetBytes_of_le small, offsetBytes_of_le (Nat.le_of_lt_succ short)]
  exact ⟨_, rfl, by simp only [List.length_append, be16_length]⟩

/-- An attribute that is a table is written with as many octets if that holds for each of its entries. -/
theorem exists_writeTabled_map {α : Type} {what : String} {write : α → Except ClassError Bytes} {f : α → α}
    {as : List α} {name : UInt16}
    (each : ∀ a ∈ as, ∀ bs, write a = .ok bs → ∃ bs', write (f a) = .ok bs' ∧ bs'.length = bs.length)
    (written : (do attributeBytes name (← writeTable what write as)) = .ok bs) :
    ∃ bs', (do attributeBytes name (← writeTable what write (as.map f))) = .ok bs' ∧
      bs'.length = bs.length := by
  obtain ⟨body, tabled, framed⟩ := bind_eq_ok_iff.mp written
  obtain ⟨body', tabled', same⟩ := exists_writeTable_map each tabled
  obtain ⟨fits, rfl⟩ := attributeBytes_eq_ok_iff.mp framed
  refine ⟨_, bind_eq_ok_iff.mpr ⟨body', tabled', attributeBytes_eq_ok_iff.mpr ⟨same ▸ fits, rfl⟩⟩, ?_⟩
  simp only [List.length_append, be16_length, be32_length, same]

/-- An attribute of a body is written with as many octets behind code in front. -/
theorem exists_writeAttribute_moved {a : CodeAttribute}
    (small : ∀ o, (∃ e ∈ a.lines, e.start = o) ∨ (∃ e ∈ a.locals, e.start = o) → o + len ≤ 0xFFFF)
    (written : writeAttribute a = .ok bs) :
    ∃ bs', writeAttribute (a.mapOffsets (· + len)) = .ok bs' ∧ bs'.length = bs.length := by
  rcases a with ⟨name, frames⟩ | ⟨name, entries⟩ | ⟨generic, name, entries⟩ | raw
  · exact ⟨bs, written, rfl⟩
  · have each : ∀ e ∈ entries, ∀ bs, writeLine e = .ok bs →
        ∃ bs', writeLine (e.mapOffsets (· + len)) = .ok bs' ∧ bs'.length = bs.length :=
      fun e member bs => exists_writeLine_moved (small _ (.inl ⟨e, member, rfl⟩))
    exact exists_writeTabled_map each written
  · have each : ∀ e ∈ entries, ∀ bs, writeVariable e = .ok bs →
        ∃ bs', writeVariable (e.mapOffsets (· + len)) = .ok bs' ∧ bs'.length = bs.length :=
      fun e member bs => exists_writeVariable_moved (small _ (.inr ⟨e, member, rfl⟩))
    exact exists_writeTabled_map each written
  · exact ⟨bs, written, rfl⟩

/-! ### The parts of a body -/

section

variable (sound : c.WellFormed p) (short : Instruction.endOf c.instructions + len ≤ 0xFFFF)

include sound short

theorem WellFormed.add_le {o : Nat} (ends : Ends c.instructions c.length o) : o + len ≤ 0xFFFF := by
  have fits : Instruction.endOf c.instructions < 0x100000000 := by omega
  exact (Nat.add_le_add_right (le_endOf_of_ends sound.laidOut fits ends) len).trans short

/-- The handlers of a body are written with as many octets behind code in front. -/
theorem exists_handlers_inFront (insns : List Instruction)
    (written : writeTable "exception table" writeHandler c.handlers = .ok out) :
    ∃ out', writeTable "exception table" writeHandler (c.inFront insns len).handlers = .ok out' ∧
      out'.length = out.length := by
  refine exists_writeTable_map (fun h member bs => exists_writeHandler_moved ?_) written
  have handler := sound.handlers h member
  simp only [Handler.named, List.forall_mem_cons]
  exact ⟨sound.add_le short (.inr handler.start), sound.add_le short handler.stop,
    sound.add_le short (.inr handler.handler), List.forall_mem_nil _⟩

/-- The attributes of a body are written with as many octets behind code in front. -/
theorem exists_attributes_inFront (insns : List Instruction)
    (written : writeTable "Code attributes" writeAttribute c.attributes = .ok out) :
    ∃ out', writeTable "Code attributes" writeAttribute (c.inFront insns len).attributes = .ok out' ∧
      out'.length = out.length := by
  refine exists_writeTable_map (fun a member bs => exists_writeAttribute_moved ?_) written
  have place := (sound.attributes a member).inPlace
  rintro o (⟨e, listed, rfl⟩ | ⟨e, listed, rfl⟩)
  · rcases a with ⟨name, frames⟩ | ⟨name, entries⟩ | ⟨generic, name, entries⟩ | raw
    · cases listed
    · exact sound.add_le short (.inr (place e listed))
    · cases listed
    · cases listed
  · rcases a with ⟨name, frames⟩ | ⟨name, entries⟩ | ⟨generic, name, entries⟩ | raw
    · cases listed
    · cases listed
    · exact sound.add_le short (.inr (place e listed).1)
    · cases listed

end

/-- A well-formed body with short code in front of it can be written as a code array if it could be written
without. -/
theorem exists_writeAll_inFront {code : Bytes} (sound : c.WellFormed p)
    (sound' : (c.inFront insns (endFrom 0 insns)).WellFormed q)
    (targets : ∀ insn ∈ insns, ∀ t ∈ insn.targets, t = endFrom 0 insns) (small : endFrom 0 insns < 0x8000)
    (aligned : endFrom 0 insns % 4 = 0) (written : Instruction.writeAll c.instructions = .ok code) :
    ∃ code', Instruction.writeAll (c.inFront insns (endFrom 0 insns)).instructions = .ok code' ∧
      code'.length = Instruction.endOf c.instructions + endFrom 0 insns := by
  have near := (Instruction.expressible_of_written sound.instructions written).near
  have each : ∀ r ∈ (c.inFront insns (endFrom 0 insns)).instructions,
      ∃ chunk, r.instruction.write r.offset = .ok chunk := by
    intro r member
    refine Instruction.exists_write (sound'.instructions.canonical r member).suited ?_
    rcases List.mem_append.mp member with front | behind
    · intro op t same
      have bounds := Instruction.bounds_of_mem_placeFrom front
      have ends : t = endFrom 0 insns := by
        refine targets _ (Instruction.mem_placeFrom front) t ?_
        rw [same]
        exact List.mem_singleton_self t
      omega
    · obtain ⟨s, old, rfl⟩ := List.mem_map.mp behind
      intro op t same
      cases branch : s.instruction with
      | branch op' u =>
          rw [Placed.mapOffsets, branch, Instruction.mapTargets] at same
          cases same
          have distance := near s old op u branch
          simp only [Placed.mapOffsets]
          push_cast
          omega
      | _ => simp [Placed.mapOffsets, branch, Instruction.mapTargets] at same
  obtain ⟨chunks, -, done⟩ := Instruction.exists_chunks sound'.laidOut each
  refine ⟨_, done, ?_⟩
  rw [Instruction.length_of_writeAll done, endOf_inFront sound.nonempty aligned]

end Code

end JarGate
