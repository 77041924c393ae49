import JarGate.Proofs.Format.Excerpts

/-!
# The offsets of a class that was read

Whatever octets a class is read from, its method bodies are coherent: the instructions lie end to end
and fill the declared length of the code, and every offset that is recorded elsewhere is the start of an
instruction, or where a range may end there, the end of the code. Nothing about the octets is assumed,
so the later stages, which move these offsets, need no checks of their own.

A body is found among the octets of its class by going down the tables that hold it: methods, their
attributes, and the body of the one that is named `Code`.
-/

namespace JarGate

open Decoder Mark

/-! ### Instructions that lie end to end -/

namespace Instruction

variable {placed : List Placed} {pos : Nat}

theorem head?_of_tiles (tiles : tilesFrom pos placed) :
    ∀ p ∈ placed.head?, p.offset = pos := by
  cases placed with
  | nil => nofun
  | cons p ps =>
      rw [tilesFrom, Bool.and_eq_true, beq_iff_eq] at tiles
      rintro _ ⟨⟩
      exact tiles.1

theorem isChain_of_tiles (tiles : tilesFrom pos placed) :
    placed.IsChain fun p q => q.offset = p.offset + p.instruction.size p.offset := by
  induction placed generalizing pos with
  | nil => exact .nil
  | cons p ps ih =>
      rw [tilesFrom, Bool.and_eq_true, beq_iff_eq] at tiles
      obtain ⟨rfl, tiles⟩ := tiles
      exact List.isChain_cons.mpr ⟨head?_of_tiles tiles, ih tiles⟩

theorem getLast?_of_endOf : ∀ p ∈ placed.getLast?,
    p.offset + p.instruction.size p.offset = endOf placed := by
  intro p last
  rw [Option.mem_def] at last
  rw [endOf, last]

end Instruction

/-! ### Coherent bodies -/

/-- Whether a method body with code of a declared length is coherent. -/
structure Code.Coherent (pool : ConstantPool) (length : Nat) (c : Code) : Prop where
  sized : 1 ≤ length ∧ length ≤ 65535
  /-- The instructions start at offset zero, each where the one before it ends, and end with the
  code. -/
  first : ∃ p, c.instructions.head? = some p ∧ p.offset = 0
  next : c.instructions.IsChain fun p q => q.offset = p.offset + p.instruction.size p.offset
  last : ∃ p, c.instructions.getLast? = some p ∧
    p.offset + p.instruction.size p.offset = length
  /-- Closing gaps changes nothing. -/
  relayout : c.relayout = .ok () c
  targets : ∀ p ∈ c.instructions, ∀ t ∈ p.instruction.targets, Code.Starts c.instructions t
  handlers : ∀ h ∈ c.handlers, Code.Starts c.instructions h.start ∧
    Code.Ends c.instructions length h.stop ∧ h.start < h.stop ∧
    Code.Starts c.instructions h.handler ∧ (h.catchType = 0 ∨ pool.IsClass h.catchType)
  lines : ∀ name entries, .lineNumbers name entries ∈ c.attributes →
    ∀ e ∈ entries, Code.Starts c.instructions e.start
  locals : ∀ generic name entries, .variables generic name entries ∈ c.attributes →
    ∀ e ∈ entries, Code.Starts c.instructions e.start ∧
      Code.Ends c.instructions length (e.start + e.length)

namespace Code

variable {pool : ConstantPool} {c : Code}

/-- A well-formed body is coherent, once its length is small enough to be declared. -/
theorem coherent_of_wellFormed (sound : c.WellFormed pool)
    (small : Instruction.endOf c.instructions ≤ maxCodeLength) : c.Coherent pool c.length := by
  have total := length_eq (small.trans_lt (by decide))
  obtain ⟨p, ps, cons⟩ := List.exists_cons_of_ne_nil sound.nonempty
  have first : c.instructions.head? = some p := by rw [cons, List.head?_cons]
  have last := List.getLast?_eq_some_getLast sound.nonempty
  have fills := (Instruction.getLast?_of_endOf _ last).trans total.symm
  refine ⟨⟨?_, total ▸ small⟩, ⟨p, first, Instruction.head?_of_tiles sound.laidOut p first⟩,
    Instruction.isChain_of_tiles sound.laidOut, ⟨_, last, fills⟩, relayout_eq sound.laidOut,
    sound.instructions.targets, fun h member => ?_, fun name entries member => ?_,
    fun generic name entries member => ?_⟩
  · have positive := Instruction.size_pos (c.instructions.getLast sound.nonempty).offset
      (c.instructions.getLast sound.nonempty).instruction
    rw [← fills]
    omega
  · have right := sound.handlers h member
    exact ⟨right.start, right.stop, right.ordered, right.handler, right.catchType⟩
  · exact (sound.attributes _ member).inPlace
  · exact (sound.attributes _ member).inPlace

end Code

/-- Whether what a body counts fits sixteen bits: the octets of its code, and its frames. -/
structure Code.Compact (c : Code) : Prop where
  short : Instruction.endOf c.instructions ≤ 0xFFFF
  few : (c.stackMap?.getD []).length ≤ 0xFFFF

/-- A body whose parts were written is compact. -/
theorem Code.compact_of_written {c : Code} {out : Bytes} (written : c.writeDeclared = .ok out) :
    c.Compact := by
  obtain ⟨code, hs, as, listed, small, -, described, -⟩ := writeSized_eq_ok_iff.mp written
  refine ⟨Instruction.length_of_writeAll listed ▸ small, ?_⟩
  cases found : c.stackMap? with
  | none => exact Nat.zero_le _
  | some frames =>
      obtain ⟨name, member⟩ := exists_mem_of_framesOf? found
      obtain ⟨bs, here⟩ := exists_write_of_writeTable described _ member
      obtain ⟨table, tabled, -⟩ := bind_eq_ok_iff.mp here
      exact Nat.le_of_lt_succ (writeTable_eq_ok_iff.mp tabled).1

/-! ### Where bodies are found -/

section

variable {α : Type} {write : α → Except ClassError Bytes} {marks : α → List Mark}

/-- The entries of a table are carried over from parts of its octets. -/
theorem exists_part_of_table {what : String} {as : List α} {bs : Bytes}
    (plain : ∀ a, ∀ m ∈ marks a, m.isPlain)
    (len : ∀ {a out}, write a = .ok out → out.length = (marks a).length)
    (carried : CarriedOver (Code.writeTable what write) (fun as => keep 2 ++ as.flatMap marks) as bs) :
    ∀ a ∈ as, ∃ part, part <:+: bs ∧ CarriedOver write marks a part := by
  obtain ⟨-, chunks, each, rfl⟩ := (counted_carriedOver_iff plain len).mpr carried
  intro a member
  obtain ⟨part, inside, here⟩ := exists_of_forall₂ each a member
  exact ⟨part, (List.infix_of_mem_flatten inside).trans (List.suffix_append _ _).isInfix, here⟩

end

theorem MethodAttribute.exists_body {name : UInt16} {c : Code} {bs : Bytes}
    (carried : CarriedOver (writeWith Code.writeDeclared) (marks Code.declaredMarks) (.code name c) bs) :
    ∃ body, body <:+: bs ∧ CarriedOver Code.writeDeclared Code.declaredMarks c body := by
  obtain ⟨body, framed, here⟩ := carriedOver_code_iff.mp carried
  obtain ⟨-, rfl⟩ := attributeBytes_eq_ok_iff.mp framed
  exact ⟨body, (List.suffix_append _ _).isInfix, here⟩

theorem MethodInfo.exists_attribute {m : MethodInfo} {bs : Bytes}
    (carried : CarriedOver (writeWith Code.writeDeclared) (marks Code.declaredMarks) m bs) :
    ∀ a ∈ m.attributes, ∃ part, part <:+: bs ∧
      CarriedOver (MethodAttribute.writeWith Code.writeDeclared)
        (MethodAttribute.marks Code.declaredMarks) a part := by
  obtain ⟨out, written, settled⟩ := carried
  simp only [writeWith, bind_eq_ok_iff, pure_eq_ok_iff] at written
  obtain ⟨table, tabled, rfl⟩ := written
  obtain ⟨octets, rfl, rest⟩ := (Settled.append_kept_iff
    (be16 m.access ++ be16 m.name ++ be16 m.descriptor) rfl).mp settled
  intro a member
  obtain ⟨part, inside, here⟩ := exists_part_of_table (fun _ => MethodAttribute.isPlain_marks)
    MethodAttribute.length_write ⟨table, tabled, rest⟩ a member
  exact ⟨part, inside.trans (List.suffix_append _ _).isInfix, here⟩

namespace ClassFile

theorem exists_method {c : ClassFile} {bs : Bytes}
    (carried : CarriedOver (writeWith fun _ => Code.writeDeclared)
      (marksWith fun _ => Code.declaredMarks) c bs) :
    ∀ m ∈ c.methods, ∃ part, part <:+: bs ∧
      CarriedOver (MethodInfo.writeWith Code.writeDeclared)
        (MethodInfo.marks Code.declaredMarks) m part := by
  obtain ⟨out, written, settled⟩ := carried
  obtain ⟨ps, is, fs, ms, as, parts, tabled, rfl⟩ := writeWith_eq_ok_iff.mp written
  rw [marksWith_eq parts] at settled
  obtain ⟨_, rfl, rest⟩ := (Settled.append_kept_iff (c.front ps is fs) rfl).mp settled
  obtain ⟨table, behind, rfl, methods, -⟩ := (Settled.append_written_iff isPlain_methods
    (length_of_writeTable MethodInfo.length_write tabled)).mp rest
  intro m member
  obtain ⟨part, inside, here⟩ := exists_part_of_table (fun _ => MethodInfo.isPlain_marks)
    MethodInfo.length_write ⟨ms, tabled, methods⟩ m member
  have within : table <:+: c.front ps is fs ++ (table ++ behind) :=
    (List.prefix_append _ _).isInfix.trans (List.suffix_append _ _).isInfix
  exact ⟨part, inside.trans within, here⟩

/-- The body of a method of a class that was read lies among the octets of the class. -/
theorem exists_body {data : Bytes} {c : ClassFile} (read : decode data = .ok c) {m : MethodInfo}
    (method : m ∈ c.methods) {name : UInt16} {code : Code} (member : .code name code ∈ m.attributes) :
    code.WellFormed c.pool ∧
      ∃ body, body <:+: data ∧ CarriedOver Code.writeDeclared Code.declaredMarks code body := by
  obtain ⟨carried, sound⟩ := accepts_readParts.onAll_sound read
  obtain ⟨part, inData, methodCarried⟩ := exists_method carried m method
  obtain ⟨part', inMethod, attributeCarried⟩ := MethodInfo.exists_attribute methodCarried _ member
  obtain ⟨body, inAttribute, here⟩ := MethodAttribute.exists_body attributeCarried
  exact ⟨((sound.methods m method).attributes _ member).2, body,
    (inAttribute.trans inMethod).trans inData, here⟩

/-- The bodies of a class that was read are compact. -/
theorem compact_of_decode {data : Bytes} {c : ClassFile} (read : decode data = .ok c) {m : MethodInfo}
    (method : m ∈ c.methods) {name : UInt16} {code : Code} (member : .code name code ∈ m.attributes) :
    code.Compact := by
  obtain ⟨-, body, -, out, written, -⟩ := exists_body read method member
  exact Code.compact_of_written written

/-- A class that was read is coherent, whatever octets it was read from. Each method body is one that
the octets declare: they hold its sizes, the length of its code, and that many octets from which its
instructions are read. It is coherent for that length. Every link between the constants is right. -/
theorem coherent_of_decode {data : Bytes} {c : ClassFile} (read : decode data = .ok c) :
    (∀ m ∈ c.methods, ∀ name code, .code name code ∈ m.attributes →
      ∃ (length : UInt32) (octets tables : Bytes),
        be16 code.maxStack ++ (be16 code.maxLocals ++ (be32 length ++ (octets ++ tables))) <:+: data ∧
        octets.length = length.toNat ∧ Instruction.readAll octets = .ok code.instructions ∧
        code.Coherent c.pool length.toNat) ∧
    ∀ constant ∈ c.pool.entries.toList, c.pool.Linked constant := by
  constructor
  · intro m method name code member
    obtain ⟨sound, body, inside, carried⟩ := exists_body read method member
    obtain ⟨out, sized, settled⟩ := carried
    obtain ⟨octets, hs, as, parts, fills⟩ := Code.exists_parts sound sized settled
    have declared : (UInt32.ofNat octets.length).toNat = octets.length :=
      UInt32.toNat_ofNat_of_lt' (Nat.lt_of_le_of_lt parts.small (by decide))
    rw [parts.split] at inside
    refine ⟨_, octets, hs ++ as, inside, declared.symm, parts.read, ?_⟩
    rw [declared, ← fills]
    exact Code.coherent_of_wellFormed sound (Code.compact_of_written sized).short
  · have sound := wellFormed_of_decode read
    exact ConstantPool.check?_eq_none_iff.mp sound.pool.links

/-- The body of the method of `carelessFile`. -/
def carelessCode : Code where
  maxStack := 0
  maxLocals := 0
  instructions := [⟨0, .simple 0x2A⟩, ⟨1, .invokeInterface 7 1⟩, ⟨6, .simple 0xB1⟩]
  handlers := []
  attributes := []

theorem coherent_of_decode_careless : ∃ c, decode (carelessFile 0 0 9) = .ok c ∧
    ∃ m ∈ c.methods, .code 5 carelessCode ∈ m.attributes ∧ carelessCode.Coherent c.pool 7 := by
  have run : ∃ c ∈ (decode (carelessFile 0 0 9)).toOption,
      ∃ m ∈ c.methods, .code 5 carelessCode ∈ m.attributes := by
    decide +kernel
  obtain ⟨c, found, m, method, member⟩ := run
  have read := toOption_eq_some_iff.mp found
  obtain ⟨length, octets, tables, -, -, -, coherent⟩ :=
    (coherent_of_decode read).1 m method 5 carelessCode member
  obtain ⟨p, last, fills⟩ := coherent.last
  cases last
  have seven : 7 = length.toNat := fills
  exact ⟨c, read, m, method, member, seven ▸ coherent⟩

end ClassFile

end JarGate
