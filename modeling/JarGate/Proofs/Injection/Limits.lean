import JarGate.Proofs.Code.FrontLimits
import JarGate.Proofs.Injection.Execution
import JarGate.Proofs.Injection.Untouched
import JarGate.Proofs.Pool.Serialization
import JarGate.Proofs.Text.Descriptors

/-!
# The limits of an injection

In a class that was read and that can be written, an injection into a method with a body is refused by its
checks, or stopped by a full pool or by frames without room. Where it succeeds, the class can be written as
before, unless the body and the prologue together exceed a limit of the format.
-/

namespace JarGate

/-! ### Pools that can be written -/

namespace ConstantPool

variable {pool : ConstantPool} {index : UInt16} {s : String}

/-- Whether a text is short enough for a `Utf8` constant. -/
def Short (octets : Bytes) : Prop := octets.length ≤ 0xFFFF

instance (octets : Bytes) : Decidable (Short octets) := Nat.decLe _ _

/-- A text that was read from a constant is short enough to be written again. -/
theorem Texts.short_of_utf8 (short : pool.Texts Short) (found : pool.utf8 index = .ok s) :
    Short (Text.ModifiedUtf8.encode s) := by
  obtain ⟨octets, found, read⟩ := utf8_eq_ok_iff.mp found
  have member : Constant.utf8 octets ∈ pool.entries.toList :=
    Array.mem_toList_iff.mpr (Array.mem_of_getElem? (get_eq_ok_iff.mp found).1)
  exact (Text.ModifiedUtf8.length_encode_le read).trans (short octets member)

theorem Texts.short_of_className (short : pool.Texts Short) (found : pool.className index = .ok s) :
    Short (Text.ModifiedUtf8.encode s) := by
  obtain ⟨name, -, found⟩ := className_eq_ok_iff.mp found
  exact short.short_of_utf8 found

end ConstantPool

variable {options : PrologueOptions} {index len : Nat} {c c' : ClassFile} {s : Prologue.Site}
  {out : Bytes} {why : ClassError}

namespace Prologue

open ConstantPool (Short Texts)

theorem keepsTexts_addGate : ConstantPool.KeepsTexts Short addGate :=
  .addMethodRef (by decide +kernel) (by decide +kernel) (by decide +kernel)

/-- All texts that an injection adds are short, or are parts of texts that were there. -/
theorem Injected.texts (h : Injected options index c s len c') (short : c.pool.Texts Short) :
    c'.pool.Texts Short := by
  obtain ⟨text, read, parsed⟩ := h.descriptor
  have typed := short.short_of_utf8 read
  -- Of the texts that depend on the class, the reference to the gate needs none.
  cases h.rewritten with
  | plain _ gate _ => exact keepsTexts_addGate _ _ _ gate short
  | framed _ gate entry named _ _ =>
      have asks : ConstantPool.Asks (fun name => Short (Text.ModifiedUtf8.encode name))
          (Frame.initialLocals s.className s.method.isStatic s.name s.descriptor) := by
        refine ConstantPool.asks_initialLocals (short.short_of_className h.className) ?_ _ _
        intro t member name own
        have inside := MethodDescriptor.infix_of_parse parsed t member name own
        exact (Text.ModifiedUtf8.length_encode_le_of_infix inside).trans typed
      have tabled : ConstantPool.KeepsTexts Short (ConstantPool.addUtf8 "StackMapTable") :=
        .addUtf8 (by decide +kernel)
      refine tabled _ _ _ named ?_
      exact (asks.keepsTexts fun _ => id) _ _ _ entry (keepsTexts_addGate _ _ _ gate short)

theorem Injected.exists_write_pool (h : Injected options index c s len c') (sound : c.pool.WellFormed)
    {pool : Bytes} (written : c.pool.write = .ok pool) : ∃ pool', c'.pool.write = .ok pool' := by
  have short : c.pool.Texts Short := sound.exists_write_iff.mp ⟨pool, written⟩
  exact (h.rewritten.grown sound).1.wellFormed.exists_write_iff.mpr (h.texts short)

/-! ### The prologue and the body -/

theorem exists_effect_simple (pool : ConstantPool) {op : UInt8} (member : op ∈ plainOpcodes) :
    ∃ e, (Instruction.simple op).stackEffect pool = .ok e := by
  have effects : ∀ op ∈ plainOpcodes, (Opcode.stackEffect? op).isSome := by decide +kernel
  obtain ⟨e, effect⟩ := Option.isSome_iff_exists.mp (effects op member)
  refine ⟨e, ?_⟩
  change Instruction.plainEffect op = _
  rw [Instruction.plainEffect, effect]

theorem exists_effect_gateCall {pool : ConstantPool} {gateRef : UInt16} (gate : IsGate pool gateRef) :
    ∃ e, (gateCall gateRef).stackEffect pool = .ok e := by
  have called : (gateCall gateRef).stackEffect pool = Instruction.callEffect pool gateRef 0 := rfl
  have parsed : MethodDescriptor.parse gateName.descriptor = .ok ⟨[], some .boolean⟩ := by decide +kernel
  rw [called, Instruction.callEffect, gate.2]
  exact ⟨_, bind_eq_ok_iff.mpr ⟨_, rfl, bind_eq_ok_iff.mpr ⟨_, parsed, rfl⟩⟩⟩

theorem exists_effect_prologueFor {pool : ConstantPool} {gateRef : UInt16} (gate : IsGate pool gateRef)
    (shape : PrologueShape) (result : Option FieldType) :
    ∀ i ∈ prologueFor gateRef shape result, ∃ e, i.stackEffect pool = .ok e := by
  have call := exists_effect_gateCall gate
  have tested : Instruction.plainEffect Opcode.ifne = .ok ⟨1, 0⟩ := by decide +kernel
  have jump : ∃ e, (Instruction.branch Opcode.ifne 8).stackEffect pool = .ok e := ⟨_, tested⟩
  cases shape with
  | callOnly =>
      simp only [prologueFor, List.forall_mem_cons]
      exact ⟨call, exists_effect_simple pool (by decide), List.forall_mem_nil _⟩
  | earlyReturn =>
      cases result with
      | none =>
          simp only [prologueFor, List.forall_mem_cons]
          exact ⟨exists_effect_simple pool (by decide), call, jump, exists_effect_simple pool (by decide),
            List.forall_mem_nil _⟩
      | some t =>
          simp only [prologueFor, List.forall_mem_cons]
          exact ⟨call, jump, exists_effect_simple pool (zeroOf_mem t),
            exists_effect_simple pool (returnOf_mem t), List.forall_mem_nil _⟩

/-- A prologue can be put in front of every body. -/
theorem Injected.preface (h : Injected options index c s len c') (sound : c.pool.WellFormed) :
    Code.Preface c'.pool (s.prologue options.shape) where
  nonempty := by
    rw [h.prologue_eq]
    cases options.shape with
    | callOnly => exact nofun
    | earlyReturn => cases s.descriptor.result <;> exact nofun
  canonical := by
    rw [h.prologue_eq]
    exact canonical_prologueFor _ _ _
  targets := by
    rw [h.prologue_eq]
    exact targets_prologueFor _ _ _
  effects := by
    rw [h.prologue_eq]
    exact exists_effect_prologueFor (h.rewritten.grown sound).2 _ _
  aligned := by
    have aligned := h.aligned
    rwa [h.len] at aligned
  short := by
    have few := lengthOf_le options.shape
    rwa [← h.length_eq, h.len] at few

/-- What an injection leaves behind is the body behind the prologue. -/
theorem Injected.prefaced (h : Injected options index c s len c') (sound : c.WellFormed)
    (written : Code.writeTable "Code attributes" Code.writeAttribute s.code.attributes = .ok out) :
    Code.Prefaced s.code (s.prologue options.shape) s.patched := by
  have formed := sound.methods s.method (List.mem_of_getElem? h.method)
  have before := (formed.code? h.code).representable written
  cases h.rewritten with
  | plain _ _ body =>
      rw [body]
      exact .moved
  | @framed p q initial tableName frames _ _ entry _ spliced body =>
      have settled := ConstantPool.answers_initialLocals _ _ _ _ _ _ _ entry
      have entered : ∀ state ∈ live options.shape initial, state = .entry initial := by
        cases options.shape with
        | callOnly => exact nofun
        | earlyReturn =>
            intro state same
            cases same
            rfl
      have small : s.length options.shape ≤ 0x10000 :=
        (h.len.symm.trans h.length_eq).trans_le ((lengthOf_le _).trans (by decide))
      obtain ⟨fits, size⟩ :=
        Frame.splice_front_le before h.compact.few small settled entered spliced
      have same : (s.moved options.shape).attributes.findSome? Code.framesOf? = s.code.stackMap? :=
        stackMap?_inFront s.code _ _
      rw [body]
      refine .framed ⟨?_, fits, ?_⟩
      · change ∀ f ∈ ((s.moved options.shape).attributes.findSome? Code.framesOf?).getD [], _
        rwa [same]
      · change _ ≤ (((s.moved options.shape).attributes.findSome? Code.framesOf?).getD [] |>.map _).sum + 3
        rwa [same]

end Prologue

/-! ### Classes -/

/-- Where one entry of a table is replaced and the others are written as before, only the new entry can keep
the table from being written. -/
theorem Code.writeTable_replaced_eq_error {α : Type} {what : String}
    {write write' : α → Except ClassError Bytes} {xs ys : List α} {a a' : α}
    (before : ∀ x ∈ xs, Keeps (write x) (write' x)) (behind : ∀ y ∈ ys, Keeps (write y) (write' y))
    (written : writeTable what write (xs ++ a :: ys) = .ok out)
    (failed : writeTable what write' (xs ++ a' :: ys) = .error why) : write' a' = .error why := by
  obtain ⟨few, front, octets, back, first, -, last, -⟩ := writeTable_around_eq_ok_iff.mp written
  have runs {zs : List α} {done : List Bytes} (each : ∀ z ∈ zs, Keeps (write z) (write' z))
      (all : zs.mapM write = .ok done) : ∀ z ∈ zs, write' z ≠ .error why := by
    intro z member stuck
    obtain ⟨bs, -, here⟩ := exists_of_forall₂ (mapM_eq_ok_iff.mp all) z member
    cases (each z member bs here).symm.trans stuck
  obtain ⟨many, -⟩ | ⟨x, member, stuck⟩ := writeTable_eq_error failed
  · simp only [List.length_append, List.length_cons] at many
    omega
  · rcases List.mem_append.mp member with inFront | rest
    · exact absurd stuck (runs before first x inFront)
    · rcases List.mem_cons.mp rest with rfl | inBack
      · exact stuck
      · exact absurd stuck (runs behind last x inBack)

namespace ClassFile.BodyReplaced

variable {m : MethodInfo} {before after : List MethodAttribute} {name : UInt16} {code patched : Code}
  {pool' : Bytes} (h : c.BodyReplaced c' index m before name code patched after)
  (encoded : c.encode = .ok out) (pooled : c'.pool.write = .ok pool') (failed : c'.encode = .error why)

include h encoded pooled failed

/-- All parts of a class around its methods are written as before. -/
theorem writeMethods_eq_error : Code.writeTable "methods" c'.writeMethod c'.methods = .error why := by
  obtain ⟨pool, is, fs, ms, as, parts, -⟩ := encode_eq_ok_iff.mp encoded
  have interfaces : c'.interfaces = c.interfaces := by rw [h.result]
  have fields : c'.fields = c.fields := by rw [h.result]
  have attributes : c'.attributes = c.attributes := by rw [h.result]
  rw [encode, interfaces, fields, attributes] at failed
  replace failed := error_of_bind pooled failed
  replace failed := error_of_bind parts.interfaces failed
  replace failed := error_of_bind parts.fields failed
  obtain stuck | ⟨ms', -, failed⟩ := bind_eq_error_iff.mp failed
  · exact stuck
  · replace failed := error_of_bind parts.attributes failed
    cases failed

/-- Where a class with a replaced body cannot be written, it is because of the body. -/
theorem writeMethodAttribute_eq_error : c'.writeMethodAttribute m (.code name patched) = .error why := by
  have stuck := h.writeMethods_eq_error encoded pooled failed
  obtain ⟨_, _, _, methods, _, -, tabled, -⟩ := encode_eq_ok_iff.mp encoded
  obtain ⟨front, back, same, replaced⟩ := h.methods_eq
  rw [same] at tabled
  rw [replaced] at stuck
  replace stuck := Code.writeTable_replaced_eq_error (fun x _ => keeps_writeMethod h.grown x)
    (fun y _ => keeps_writeMethod h.grown y) tabled stuck
  obtain ⟨-, _, _, _, -, here, -⟩ := Code.writeTable_around_eq_ok_iff.mp tabled
  obtain ⟨inner, tabled, -⟩ := bind_eq_ok_iff.mp here
  rw [h.attributes] at tabled
  obtain stuck | ⟨inner', -, done⟩ := bind_eq_error_iff.mp stuck
  · rw [writeMethodAttribute_attributes] at stuck
    exact Code.writeTable_replaced_eq_error (fun x _ => keeps_writeMethodAttribute h.grown m x)
      (fun y _ => keeps_writeMethodAttribute h.grown m y) tabled stuck
  · cases done

end ClassFile.BodyReplaced

namespace Prologue

/-- Where the class behind an injection cannot be written, its body and the prologue are too large. -/
theorem Injected.tooLarge_of_encode (h : Injected options index c s len c') (sound : c.WellFormed)
    (encoded : c.encode = .ok out) (failed : c'.encode = .error why) :
    s.code.TooLarge len s.patched c'.pool out.length why := by
  obtain ⟨before, name, after, replaced⟩ := h.bodyReplaced sound.pool
  obtain ⟨_, _, _, _, _, parts, -⟩ := ClassFile.encode_eq_ok_iff.mp encoded
  obtain ⟨pool', pooled⟩ := h.exists_write_pool sound.pool parts.pool
  have stuck := replaced.writeMethodAttribute_eq_error encoded pooled failed
  have placed := List.mem_of_getElem? h.method
  have contains : .code name s.code ∈ s.method.attributes := by
    rw [replaced.attributes]
    exact List.mem_append_right _ (List.mem_cons_self ..)
  have body := ((sound.methods _ placed).attributes _ contains).2
  obtain ⟨head, octets, tail, here, rfl, long⟩ := ClassFile.exists_octets_of_encode encoded placed contains
  simp only [ClassFile.writeMethodAttribute, bind_eq_ok_iff] at here
  obtain ⟨text, read, descriptor, parsed, written, sized, framed⟩ := here
  rw [Code.write_eq body.laidOut] at sized
  obtain ⟨_, _, whole, -⟩ := Code.writeLaidOut_eq_ok_iff.mp sized
  obtain ⟨_, _, as, _, _, _, described, -⟩ := Code.writeSized_eq_ok_iff.mp whole
  have preface := h.preface sound.pool
  have prefaced := h.prefaced sound described
  replace stuck := error_of_bind (replaced.grown.utf8 read) stuck
  replace stuck := error_of_bind parsed stuck
  rw [Code.write_eq (prefaced.laidOut body replaced.grown preface h.compact.short)] at stuck
  -- The fixed parts of the file are longer than what the prologue and its frame add to the body.
  have room : written.length + 19 ≤ (head ++ octets ++ tail).length := by
    have length := attributeBytes_length framed
    simp only [List.length_append]
    omega
  rw [h.len]
  obtain stuck | ⟨written', sized', framed'⟩ := bind_eq_error_iff.mp stuck
  · exact prefaced.tooLarge_of_write body replaced.grown preface sized room stuck
  · obtain ⟨large, -⟩ := attributeBytes_eq_error framed'
    obtain ⟨_, _, _, fits⟩ := Code.writeLaidOut_eq_ok_iff.mp sized'
    omega

/-- An injection into a method with a body fails only at limits, in a class that was read and that can be
written. If it fails, then the method cannot be left with a default, or calls the gate already, or the
pool is full, or the class has frames without room for the prologue. If it succeeds and the class cannot
be written any more, then the code array, the frames, the attributes of the body or the depth of its
operand stack have got too large. Only a file of 4 GiB can have an attribute that gets too long. -/
theorem limits_of_inject {data : Bytes} {m : MethodInfo} {code : Code}
    (read : ClassFile.decode data = .ok c) (encoded : c.encode = .ok out)
    (found : c.methods[index]? = some m) (body : m.code? = some code) (options : PrologueOptions) :
    (∀ err c', inject index options c = .error err c' →
      (∃ type, err = .unsupportedReturn type) ∨ err = .alreadyInjected ∨
        ∃ why, err = .classError why ∧ Blocked options c m code c' why) ∧
    ∀ len c', inject index options c = .ok len c' →
      ∃ m' patched, c'.methods[index]? = some m' ∧ m'.code? = some patched ∧
        ∀ why, c'.encode = .error why → code.TooLarge len patched c'.pool data.length why := by
  have sound := ClassFile.patchable_of_decode read
  refine ⟨fun err c' failed => ?_, fun len c' done => ?_⟩
  · obtain ⟨-, checked⟩ | ⟨m', code', why, found', body', rfl, blocked⟩ := failed_inject sound failed
    · obtain ⟨-, none⟩ | known | refused := checked
      · rw [found, Option.bind_some, body] at none
        cases none
      · exact .inr (.inl known)
      · exact .inl refused
    · obtain rfl := Option.some.inj (found.symm.trans found')
      obtain rfl := Option.some.inj (body.symm.trans body')
      exact .inr (.inr ⟨why, rfl, blocked⟩)
  · obtain ⟨s, injected⟩ := injected_of_inject sound done
    obtain rfl := Option.some.inj (found.symm.trans injected.method)
    obtain rfl := Option.some.inj (body.symm.trans injected.code)
    refine ⟨s.method.setCode s.patched, s.patched, ?_, MethodInfo.code?_setCode injected.code, ?_⟩
    · have inside := (List.getElem?_eq_some_iff.mp found).1
      rw [injected.result]
      exact List.getElem?_set_self inside
    · intro why failed
      rw [← (ClassFile.encode_decode read encoded).1]
      exact injected.tooLarge_of_encode sound.toWellFormed encoded failed

/-- The class of `ClassFile.carelessFile` with a frame that takes away three locals, of which there is one. -/
def strayFile : Bytes :=
  [0xCA, 0xFE, 0xBA, 0xBE, 0, 0, 0, 52, 0, 9] ++
  [1, 0, 1, 65] ++ [7, 0, 1] ++ [1, 0, 1, 109] ++ [1, 0, 3, 40, 41, 86] ++
  [1, 0, 4, 67, 111, 100, 101] ++ [12, 0, 3, 0, 4] ++ [11, 0, 2, 0, 6] ++
  [1, 0, 13, 83, 116, 97, 99, 107, 77, 97, 112, 84, 97, 98, 108, 101] ++
  [0, 0, 0, 2, 0, 0, 0, 0, 0, 0, 0, 1, 0, 0, 0, 3, 0, 4, 0, 1] ++
  [0, 5, 0, 0, 0, 30, 0, 1, 0, 1, 0, 0, 0, 7, 0x2A, 0xB9, 0, 7, 1, 0, 0xB1] ++
  [0, 0, 0, 1, 0, 8, 0, 0, 0, 5, 0, 1, 248, 0, 0, 0, 0]

/-- An injection that is stopped by the frame of `strayFile`, and one that succeeds. -/
theorem limits_of_inject_stray :
    (∃ c out m code c', ClassFile.decode strayFile = .ok c ∧ c.encode = .ok out ∧
      c.methods[0]? = some m ∧ m.code? = some code ∧
      inject 0 ⟨.callOnly, false⟩ c = .error (.classError (.malformed (.chop 3 1))) c' ∧
      Blocked ⟨.callOnly, false⟩ c m code c' (.malformed (.chop 3 1))) ∧
    ∃ c out m code c' m' patched, ClassFile.decode (ClassFile.carelessFile 1 1 0) = .ok c ∧
      c.encode = .ok out ∧ c.methods[0]? = some m ∧ m.code? = some code ∧
      inject 0 ⟨.callOnly, false⟩ c = .ok 4 c' ∧ c'.methods[0]? = some m' ∧ m'.code? = some patched ∧
      ∀ why, c'.encode = .error why → code.TooLarge 4 patched c'.pool
        (ClassFile.carelessFile 1 1 0).length why := by
  constructor
  · have whole : ((ClassFile.decode strayFile).toOption.bind fun c =>
        (c.encode.toOption.bind fun _ => c.methods[0]?.bind MethodInfo.code?).bind fun _ =>
          (Edit.stopped? (inject 0 ⟨.callOnly, false⟩) c).map Prod.fst) =
            some (.classError (.malformed (.chop 3 1))) := by
      decide +kernel
    obtain ⟨c, decoded, found⟩ := Option.bind_eq_some_iff.mp whole
    obtain ⟨code, found, failed⟩ := Option.bind_eq_some_iff.mp found
    obtain ⟨out, encoded, found⟩ := Option.bind_eq_some_iff.mp found
    obtain ⟨m, found, body⟩ := Option.bind_eq_some_iff.mp found
    obtain ⟨⟨err, c'⟩, failed, same⟩ := Option.map_eq_some_iff.mp failed
    obtain rfl : err = .classError (.malformed (.chop 3 1)) := same
    have read := toOption_eq_some_iff.mp decoded
    have written := toOption_eq_some_iff.mp encoded
    have stopped := Edit.stopped?_eq_some_iff.mp failed
    refine ⟨c, out, m, code, c', read, written, found, body, stopped, ?_⟩
    obtain ⟨fails, -⟩ := limits_of_inject read written found body ⟨.callOnly, false⟩
    obtain ⟨_, refused⟩ | refused | ⟨why, same, blocked⟩ := fails _ c' stopped
    · cases refused
    · cases refused
    · cases same
      exact blocked
  · have whole : ((ClassFile.decode (ClassFile.carelessFile 1 1 0)).toOption.bind fun c =>
        (c.encode.toOption.bind fun _ => c.methods[0]?.bind MethodInfo.code?).bind fun _ =>
          (Edit.finished? (inject 0 ⟨.callOnly, false⟩) c).map Prod.fst) = some 4 := by
      decide +kernel
    obtain ⟨c, decoded, found⟩ := Option.bind_eq_some_iff.mp whole
    obtain ⟨code, found, finished⟩ := Option.bind_eq_some_iff.mp found
    obtain ⟨out, encoded, found⟩ := Option.bind_eq_some_iff.mp found
    obtain ⟨m, found, body⟩ := Option.bind_eq_some_iff.mp found
    obtain ⟨⟨len, c'⟩, finished, rfl⟩ := Option.map_eq_some_iff.mp finished
    have read := toOption_eq_some_iff.mp decoded
    have written := toOption_eq_some_iff.mp encoded
    have done := Edit.finished?_eq_some_iff.mp finished
    obtain ⟨-, succeeds⟩ := limits_of_inject read written found body ⟨.callOnly, false⟩
    obtain ⟨m', patched, found', body', limited⟩ := succeeds _ c' done
    exact ⟨c, out, m, code, c', m', patched, read, written, found, body, done, found', body', limited⟩

end Prologue

end JarGate
