import JarGate.Proofs.Code.FrontFlow
import JarGate.Proofs.Code.FrontOctets
import JarGate.Proofs.Format.Excerpts
import JarGate.Proofs.Format.Overflows

/-!
# The limits of a body behind code in front

A body that could be written is written behind code in front of it as well, unless the two exceed a limit
of the format together: the code array gets too long, the operand stack too deep, or the frames that come
with the code are too many.
-/

namespace JarGate

namespace Code

open Instruction (endFrom)

variable {c patched : Code} {p q : ConstantPool} {insns : List Instruction} {as : List CodeAttribute}
  {name : UInt16} {frames : List Frame} {out out' : Bytes} {why : ClassError}

/-! ### New frames -/

/-- New frames take the place of others, or stand behind all attributes. -/
theorem withFrames_cases (name : UInt16) (frames : List Frame) (as : List CodeAttribute) :
    (∃ before old fs after, as = before ++ .stackMap old fs :: after ∧ as.findSome? framesOf? = some fs ∧
        withFrames name frames as = before ++ .stackMap old frames :: after) ∨
      as.findSome? framesOf? = none ∧ withFrames name frames as = as ++ [.stackMap name frames] := by
  induction as with
  | nil => exact .inr ⟨rfl, rfl⟩
  | cons a as ih =>
      cases a with
      | stackMap old fs => exact .inl ⟨[], old, fs, as, rfl, rfl, rfl⟩
      | _ =>
          obtain ⟨before, old, fs, after, same, found, put⟩ | ⟨frameless, put⟩ := ih
          · refine .inl ⟨_ :: before, old, fs, after, congrArg _ same, found, congrArg _ put⟩
          · exact .inr ⟨frameless, congrArg _ put⟩

/-- Frames that are well formed and that can be written are representable. -/
theorem representable_of_writeTable (formed : ∀ f ∈ frames, f.Formed)
    (written : Frame.writeTable frames = .ok out) : ∀ f ∈ frames, f.Representable := by
  intro f member
  obtain ⟨bs, here⟩ := exists_write_of_writeTable written f member
  exact (Frame.formed_iff_of_write here).mp (formed f member)

theorem length_of_writeFrames (fits : ∀ f ∈ frames, f.Representable)
    (written : Frame.writeTable frames = .ok out) : out.length = 2 + (frames.map Frame.size).sum := by
  obtain ⟨few, -⟩ := writeTable_eq_ok_iff.mp written
  obtain ⟨out', written', total⟩ := Frame.RepresentableTable.exists_writeTable ⟨Nat.le_of_lt_succ few, fits⟩
  obtain rfl := Except.ok.inj (written.symm.trans written')
  exact total

theorem length_of_writeAttribute (fits : ∀ f ∈ frames, f.Representable)
    (written : writeAttribute (.stackMap name frames) = .ok out) :
    out.length = 8 + (frames.map Frame.size).sum := by
  obtain ⟨body, tabled, framed⟩ := bind_eq_ok_iff.mp written
  rw [attributeBytes_length framed, length_of_writeFrames fits tabled]
  omega

/-- The frames of a body that was read and that can be written are representable. -/
theorem WellFormed.representable (sound : c.WellFormed p)
    (written : writeTable "Code attributes" writeAttribute c.attributes = .ok out) :
    ∀ f ∈ c.stackMap?.getD [], f.Representable := by
  cases found : c.stackMap? with
  | none => exact nofun
  | some frames =>
      obtain ⟨name, member⟩ := exists_mem_of_framesOf? found
      obtain ⟨bs, here⟩ := exists_write_of_writeTable written _ member
      obtain ⟨body, tabled, -⟩ := bind_eq_ok_iff.mp here
      exact representable_of_writeTable (sound.attributes _ member).inPlace tabled

/-- Frames for a table of attributes: representable ones that take at most three octets more than the
frames of the table, if it has any. -/
structure Frames (as : List CodeAttribute) (frames : List Frame) : Prop where
  before : ∀ f ∈ (as.findSome? framesOf?).getD [], f.Representable
  fits : ∀ f ∈ frames, f.Representable
  size : (frames.map Frame.size).sum ≤ (((as.findSome? framesOf?).getD []).map Frame.size).sum + 3

/-- With new frames a table of attributes takes at most eleven octets more. -/
theorem Frames.length_le (h : Frames as frames)
    (written : writeTable "Code attributes" writeAttribute as = .ok out)
    (written' : writeTable "Code attributes" writeAttribute (withFrames name frames as) = .ok out') :
    out'.length ≤ out.length + 11 := by
  have grown := h.size
  obtain ⟨before, old, fs, after, rfl, found, put⟩ | ⟨frameless, put⟩ := withFrames_cases name frames as
  · rw [put] at written'
    obtain ⟨-, front, mid, back, first, here, last, rfl⟩ := writeTable_around_eq_ok_iff.mp written
    obtain ⟨-, front', mid', back', first', here', last', rfl⟩ := writeTable_around_eq_ok_iff.mp written'
    obtain rfl := Except.ok.inj (first.symm.trans first')
    obtain rfl := Except.ok.inj (last.symm.trans last')
    have fits := h.before
    rw [found, Option.getD_some] at grown fits
    have length := length_of_writeAttribute fits here
    have length' := length_of_writeAttribute h.fits here'
    simp only [List.length_append, be16_length]
    omega
  · rw [put] at written'
    obtain ⟨-, front, mid, back, first, here, last, rfl⟩ := writeTable_around_eq_ok_iff.mp written'
    obtain ⟨count, -, written⟩ := bind_eq_ok_iff.mp written
    obtain ⟨chunks, all, same⟩ := bind_eq_ok_iff.mp written
    obtain rfl := Except.ok.inj (first.symm.trans all)
    cases same
    obtain rfl : [] = back := Except.ok.inj last
    rw [frameless, Option.getD_none, List.map_nil, List.sum_nil] at grown
    have length := length_of_writeAttribute h.fits here
    simp only [List.length_append, be16_length, List.flatten_nil, List.length_nil]
    omega

/-- The octets of the frames of a table of attributes stand in those of the table. -/
theorem Frames.sum_size_le (h : Frames as frames)
    (written : writeTable "Code attributes" writeAttribute as = .ok out) :
    (((as.findSome? framesOf?).getD []).map Frame.size).sum + 2 ≤ out.length := by
  have fits := h.before
  cases found : as.findSome? framesOf? with
  | none =>
      obtain ⟨-, chunks, -, rfl⟩ := writeTable_eq_ok_iff.mp written
      simp [be16_length]
  | some fs =>
      rw [found, Option.getD_some] at fits
      obtain ⟨name, member⟩ := exists_mem_of_framesOf? found
      obtain ⟨before, after, rfl⟩ := List.append_of_mem member
      obtain ⟨-, front, mid, back, -, here, -, rfl⟩ := writeTable_around_eq_ok_iff.mp written
      have length := length_of_writeAttribute fits here
      simp only [Option.getD_some, List.length_append, be16_length]
      omega

/-- New frames can make a table of attributes that could be written too large in three ways. -/
theorem Frames.writeTable_eq_error (h : Frames as frames)
    (written : writeTable "Code attributes" writeAttribute as = .ok out)
    (failed : writeTable "Code attributes" writeAttribute (withFrames name frames as) = .error why) :
    (0xFFFF < (withFrames name frames as).length ∧
        why = .overflow (.entries "Code attributes" (withFrames name frames as).length)) ∨
      (0xFFFF < frames.length ∧ why = .overflow (.entries "StackMapTable" frames.length)) ∨
      ∃ n, 0xFFFFFFFF < n ∧ n ≤ out.length + 3 ∧ why = .overflow (.octets "attribute" n) := by
  obtain many | ⟨a, member, stuck⟩ := Code.writeTable_eq_error failed
  · exact .inl many
  right
  -- The other attributes could be written, so it is the one with the new frames.
  have runs (a : CodeAttribute) (old : a ∈ as) : writeAttribute a ≠ .error why := by
    obtain ⟨bs, here⟩ := exists_write_of_writeTable written a old
    rw [here]
    exact nofun
  have new : ∃ name, a = .stackMap name frames := by
    rcases mem_withFrames member with old | rfl | ⟨name', fs, -, rfl⟩
    · exact absurd stuck (runs a old)
    · exact ⟨_, rfl⟩
    · exact ⟨_, rfl⟩
  obtain ⟨name', rfl⟩ := new
  obtain stuck | ⟨body, tabled, framed⟩ := bind_eq_error_iff.mp stuck
  · exact .inl (Frame.writeTable_eq_error h.fits stuck)
  · obtain ⟨large, rfl⟩ := attributeBytes_eq_error framed
    have total := length_of_writeFrames h.fits tabled
    have grown := h.size
    have inside := h.sum_size_le written
    exact .inr ⟨_, large, by omega, rfl⟩

/-! ### Bodies -/

/-- How writing a body without gaps fails. -/
theorem writeLaidOut_eq_error {descriptor : MethodDescriptor} {isStatic : Bool}
    (failed : c.writeLaidOut p descriptor isStatic = .error why) :
    Instruction.writeAll c.instructions = .error why ∨
      ∃ code, Instruction.writeAll c.instructions = .ok code ∧
        (0xFFFF < code.length ∧ why = .overflow (.codeSize code.length) ∨
          code.length ≤ 0xFFFF ∧ (c.neededStack p = .error why ∨
            writeTable "exception table" writeHandler c.handlers = .error why ∨
            writeTable "Code attributes" writeAttribute c.attributes = .error why ∨
            ∃ hs as, writeTable "exception table" writeHandler c.handlers = .ok hs ∧
              writeTable "Code attributes" writeAttribute c.attributes = .ok as ∧
              0xFFFFFFFF < 8 + code.length + hs.length + as.length ∧
              why = .overflow (.octets "Code attribute" (8 + code.length + hs.length + as.length)))) := by
  obtain unwritten | ⟨code, written, failed⟩ := bind_eq_error_iff.mp failed
  · exact .inl unwritten
  refine .inr ⟨code, written, ?_⟩
  dsimp only at failed
  split at failed
  next large =>
    cases failed
    exact .inl ⟨large, rfl⟩
  next short =>
    refine .inr ⟨Nat.le_of_not_lt short, ?_⟩
    obtain deep | ⟨stack, -, failed⟩ := bind_eq_error_iff.mp failed
    · exact .inl deep
    obtain uncaught | ⟨hs, caught, failed⟩ := bind_eq_error_iff.mp failed
    · exact .inr (.inl uncaught)
    obtain undescribed | ⟨as, described, failed⟩ := bind_eq_error_iff.mp failed
    · exact .inr (.inr (.inl undescribed))
    obtain large | ⟨n, -, done⟩ := bind_eq_error_iff.mp failed
    · have total : (be16 (max c.maxStack stack) ++ be16 (max c.maxLocals (c.neededLocals descriptor
          isStatic)) ++ be32 (UInt32.ofNat code.length) ++ code ++ hs ++ as).length =
          8 + code.length + hs.length + as.length := by
        simp only [List.length_append, be16_length, be32_length]
      rw [total, octetCount_eq_error_iff] at large
      exact .inr (.inr (.inr ⟨hs, as, caught, described, large⟩))
    · cases done

/-- Code that can be put in front of a body: it only branches to the body, it has known effects on the
operand stack, and it keeps the padding of switches. -/
structure Preface (pool : ConstantPool) (insns : List Instruction) : Prop where
  nonempty : insns ≠ []
  canonical : ∀ i ∈ insns, i.Canonical
  targets : ∀ i ∈ insns, ∀ t ∈ i.targets, t = endFrom 0 insns
  effects : ∀ i ∈ insns, ∃ e, i.stackEffect pool = .ok e
  aligned : endFrom 0 insns % 4 = 0
  short : endFrom 0 insns ≤ 8

theorem Preface.wellFormed (preface : Preface q insns) (sound : c.WellFormed p) (grown : p.Extends q)
    (short : Instruction.endOf c.instructions ≤ 0xFFFF) :
    (c.inFront insns (endFrom 0 insns)).WellFormed q := by
  have few := preface.short
  exact (sound.extends grown).inFront preface.canonical preface.targets preface.aligned (by omega)

/-- A body with code in front of it, and with the frames that it had or with new ones. -/
inductive Prefaced (c : Code) (insns : List Instruction) : Code → Prop
  | moved : Prefaced c insns (c.inFront insns (endFrom 0 insns))
  | framed {name : UInt16} {frames : List Frame}
      (new : Frames (c.inFront insns (endFrom 0 insns)).attributes frames) :
      Prefaced c insns ((c.inFront insns (endFrom 0 insns)).setStackMap name frames)

/-- The limits that a body can exceed by code of some octets in front of it, and the errors that tell of
them: the length of the code array, the number of frames, the number of attributes, and the depth of the
operand stack. The lengths of attributes are held by 32 bits, which is enough in a file that is not of
that size itself. -/
inductive TooLarge (c : Code) (len : Nat) (patched : Code) (pool : ConstantPool) (total : Nat) :
    ClassError → Prop
  | code (large : 0xFFFF < c.length + len) : TooLarge c len patched pool total
      (.overflow (.codeSize (c.length + len)))
  | frames {frames : List Frame} (found : patched.stackMap? = some frames)
      (many : 0xFFFF < frames.length) : TooLarge c len patched pool total
      (.overflow (.entries "StackMapTable" frames.length))
  | attributes (many : 0xFFFF < patched.attributes.length) : TooLarge c len patched pool total
      (.overflow (.entries "Code attributes" patched.attributes.length))
  | depth {m : Nat} (needed : patched.neededStack pool = .error (.overflow (.maxStack m)))
      (deep : 0xFFFF < m) : TooLarge c len patched pool total (.overflow (.maxStack m))
  | octets {what : String} {n : Nat} (large : 0xFFFFFFFF < n) (huge : 0xFFFFFFFF < total) :
      TooLarge c len patched pool total (.overflow (.octets what n))

namespace Prefaced

variable (h : Prefaced c insns patched)

include h

theorem instructions : patched.instructions = (c.inFront insns (endFrom 0 insns)).instructions := by
  cases h <;> rfl

theorem laidOut (sound : c.WellFormed p) (grown : p.Extends q) (preface : Preface q insns)
    (short : Instruction.endOf c.instructions ≤ 0xFFFF) : patched.isLaidOut := by
  rw [isLaidOut, h.instructions]
  exact (preface.wellFormed sound grown short).laidOut

theorem handlers : patched.handlers = (c.inFront insns (endFrom 0 insns)).handlers := by
  cases h <;> rfl

/-- Frames have nothing to do with the depth of the operand stack. -/
theorem neededStack : patched.neededStack q = (c.inFront insns (endFrom 0 insns)).neededStack q := by
  cases h <;> rfl

section

variable (sound : c.WellFormed p) (short : Instruction.endOf c.instructions + endFrom 0 insns ≤ 0xFFFF)
  (written : writeTable "Code attributes" writeAttribute c.attributes = .ok out)

include sound short written

theorem length_attributes_le
    (written' : writeTable "Code attributes" writeAttribute patched.attributes = .ok out') :
    out'.length ≤ out.length + 11 := by
  obtain ⟨between, moved, same⟩ := exists_attributes_inFront sound short insns written
  rw [← same]
  cases h with
  | moved =>
      obtain rfl := Except.ok.inj (moved.symm.trans written')
      exact Nat.le_add_right ..
  | framed new => exact new.length_le moved written'

theorem writeAttributes_eq_error {total : Nat} (room : out.length + 3 ≤ total)
    (failed : writeTable "Code attributes" writeAttribute patched.attributes = .error why) :
    TooLarge c (endFrom 0 insns) patched q total why := by
  obtain ⟨between, moved, same⟩ := exists_attributes_inFront sound short insns written
  cases h with
  | moved => cases moved.symm.trans failed
  | framed new =>
      obtain ⟨many, rfl⟩ | ⟨many, rfl⟩ | ⟨n, large, inside, rfl⟩ := new.writeTable_eq_error moved failed
      · exact .attributes many
      · exact .frames (stackMap?_setStackMap ..) many
      · exact .octets large (by omega)

end

/-- Writing a body behind code in front of it fails only where the two exceed a limit of the format. -/
theorem tooLarge_of_write (sound : c.WellFormed p) (grown : p.Extends q) (preface : Preface q insns)
    {descriptor : MethodDescriptor} {isStatic : Bool} {body : Bytes} {total : Nat}
    (written : c.writeLaidOut p descriptor isStatic = .ok body) (room : body.length + 19 ≤ total)
    (failed : patched.writeLaidOut q descriptor isStatic = .error why) :
    TooLarge c (endFrom 0 insns) patched q total why := by
  obtain ⟨stack, needed, sized, -⟩ := writeLaidOut_eq_ok_iff.mp written
  obtain ⟨code, hs, as, listed, small, caught, described, rfl⟩ := writeSized_eq_ok_iff.mp sized
  have ends := Instruction.length_of_writeAll listed
  have length := length_of_written listed small
  have sound' := preface.wellFormed sound grown (ends ▸ small)
  have near : endFrom 0 insns < 0x8000 := preface.short.trans_lt (by decide)
  obtain ⟨code', listed', long⟩ :=
    exists_writeAll_inFront sound sound' preface.targets near preface.aligned listed
  have few := preface.short
  simp only [List.length_append, be16_length, be32_length] at room
  obtain stuck | ⟨code'', listed'', failed⟩ := writeLaidOut_eq_error failed
  · rw [h.instructions] at stuck
    cases listed'.symm.trans stuck
  rw [h.instructions] at listed''
  obtain rfl := Except.ok.inj (listed'.symm.trans listed'')
  rw [long, ← ends, ← length] at failed
  obtain ⟨large, rfl⟩ | ⟨short, failed⟩ := failed
  · exact .code large
  -- From here on the code array is short, so all offsets fit into 16 bits.
  rw [length, ends] at short
  obtain ⟨hs', caught', same⟩ := exists_handlers_inFront sound short insns caught
  obtain deep | uncaught | undescribed | ⟨_, as', caught'', described', large, rfl⟩ := failed
  · obtain ⟨m, rfl, large⟩ := neededStack_inFront_eq_error sound grown (joined_of_wellFormed sound')
      preface.nonempty preface.targets preface.effects needed (h.neededStack.symm.trans deep)
    exact .depth deep large
  · rw [h.handlers] at uncaught
    cases caught'.symm.trans uncaught
  · exact h.writeAttributes_eq_error sound short described (by omega) undescribed
  · rw [h.handlers] at caught''
    obtain rfl := Except.ok.inj (caught'.symm.trans caught'')
    have more := h.length_attributes_le sound short described described'
    exact .octets large (by omega)

end Prefaced

end Code

end JarGate
