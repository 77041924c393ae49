import JarGate.Proofs.Code.PoolGrowth
import JarGate.Proofs.Format.Excerpts
import JarGate.Proofs.Format.RoundTrip
import JarGate.Proofs.Injection.Failures

/-!
# What an injection leaves as it is

An injection replaces the first body of one method and lengthens the pool. Whatever else the class holds is
the same value behind it, and the same octets where the class is written before and after. An injection
that is refused by its checks leaves the whole class as it was.
-/

namespace JarGate

/-! ### Tables in which one entry is replaced -/

namespace Code

variable {α : Type} {what : String} {write write' : α → Except ClassError Bytes} {xs ys : List α}
  {a a' : α} {bs bs' : Bytes}

/-- Two tables that differ in one entry are written with the same octets around it. -/
theorem writeTable_replaced (before : ∀ x ∈ xs, Keeps (write x) (write' x))
    (behind : ∀ y ∈ ys, Keeps (write y) (write' y))
    (written : writeTable what write (xs ++ a :: ys) = .ok bs)
    (written' : writeTable what write' (xs ++ a' :: ys) = .ok bs') :
    ∃ front out out' back, write a = .ok out ∧ write' a' = .ok out' ∧ bs = front ++ out ++ back ∧
      bs' = front ++ out' ++ back := by
  obtain ⟨-, front, out, back, first, here, last, rfl⟩ := writeTable_around_eq_ok_iff.mp written
  obtain ⟨-, front', out', back', first', here', last', rfl⟩ := writeTable_around_eq_ok_iff.mp written'
  cases (Keeps.mapM before _ first).symm.trans first'
  cases (Keeps.mapM behind _ last).symm.trans last'
  exact ⟨_, out, out', _, here, here', rfl, rfl⟩

end Code

/-! ### The place of a body -/

namespace MethodInfo

/-- The first body of a method, between its other attributes. -/
theorem exists_body {m : MethodInfo} {code : Code} (found : m.code? = some code) :
    ∃ before name after, m.attributes = before ++ .code name code :: after ∧
      (∀ a ∈ before, codeOf? a = none) ∧
      ∀ patched, withCode patched m.attributes = before ++ .code name patched :: after := by
  rw [code?] at found
  generalize m.attributes = as at found ⊢
  induction as with
  | nil => cases found
  | cons a as ih =>
      cases a with
      | code name body =>
          cases found
          exact ⟨[], name, as, rfl, List.forall_mem_nil _, fun _ => rfl⟩
      | raw r =>
          obtain ⟨before, name, after, rfl, first, put⟩ := ih found
          refine ⟨.raw r :: before, name, after, rfl, List.forall_mem_cons.mpr ⟨rfl, first⟩, ?_⟩
          intro patched
          exact congrArg _ (put patched)

end MethodInfo

namespace ClassFile

/-- A class with one method replaced. -/
theorem methods_around {c : ClassFile} {index : Nat} {m : MethodInfo} (found : c.methods[index]? = some m) :
    ∃ before after, before.length = index ∧ c.methods = before ++ m :: after ∧
      ∀ m', c.methods.set index m' = before ++ m' :: after := by
  obtain ⟨inside, rfl⟩ := List.getElem?_eq_some_iff.mp found
  refine ⟨c.methods.take index, c.methods.drop (index + 1), List.length_take_of_le inside.le, ?_, ?_⟩
  · rw [List.getElem_cons_drop, List.take_append_drop]
  · intro m'
    rw [List.set_eq_take_append_cons_drop, if_pos inside]

/-- What is written for an attribute of a method does not depend on its others. -/
theorem writeMethodAttribute_attributes (c : ClassFile) (m : MethodInfo) (as : List MethodAttribute) :
    c.writeMethodAttribute { m with attributes := as } = c.writeMethodAttribute m := by
  funext a
  cases a <;> rfl

/-- A class `c'` that is a class `c` with another body in the first attribute of the method at an index that
holds one, and with a pool that has grown. -/
structure BodyReplaced (c c' : ClassFile) (index : Nat) (m : MethodInfo) (before : List MethodAttribute)
    (name : UInt16) (code patched : Code) (after : List MethodAttribute) : Prop where
  method : c.methods[index]? = some m
  attributes : m.attributes = before ++ .code name code :: after
  first : ∀ a ∈ before, MethodInfo.codeOf? a = none
  grown : c.pool.Extends c'.pool
  result : c' = { c with
    pool := c'.pool
    methods := c.methods.set index { m with attributes := before ++ .code name patched :: after } }

namespace BodyReplaced

variable {c c' : ClassFile} {index : Nat} {m : MethodInfo} {before after : List MethodAttribute}
  {name : UInt16} {code patched : Code} (h : c.BodyReplaced c' index m before name code patched after)

include h

/-- The methods of both classes, around the one with the body. -/
theorem methods_eq : ∃ front back, c.methods = front ++ m :: back ∧
    c'.methods = front ++ { m with attributes := before ++ .code name patched :: after } :: back := by
  obtain ⟨front, back, -, same, replaced⟩ := methods_around h.method
  refine ⟨front, back, same, ?_⟩
  rw [h.result]
  exact replaced _

/-- In a class that is written before and after, the octets of every other method are the same. -/
theorem writeMethod_eq {out : Bytes} (written : c.encode = .ok out) {i : Nat} (other : i ≠ index)
    {m' : MethodInfo} (found : c.methods[i]? = some m') :
    c'.methods[i]? = some m' ∧ ∃ octets, c.writeMethod m' = .ok octets ∧ c'.writeMethod m' = .ok octets := by
  refine ⟨?_, ?_⟩
  · rw [h.result]
    exact (List.getElem?_set_ne other.symm).trans found
  · obtain ⟨_, _, _, methods, _, -, table, -⟩ := encode_eq_ok_iff.mp written
    obtain ⟨octets, here⟩ := Code.exists_write_of_writeTable table m' (List.mem_of_getElem? found)
    exact ⟨octets, here, keeps_writeMethod h.grown m' octets here⟩

/-- The files of both classes have the same octets but for the pool and the attribute with the body. -/
theorem octets {out out' : Bytes} (written : c.encode = .ok out) (written' : c'.encode = .ok out') :
    ∃ pool pool' middle body body' back, c.pool.write = .ok pool ∧ c'.pool.write = .ok pool' ∧
      c.writeMethodAttribute m (.code name code) = .ok body ∧
      c'.writeMethodAttribute m (.code name patched) = .ok body' ∧
      out = be32 magic ++ be16 c.minor ++ be16 c.major ++ pool ++ middle ++ body ++ back ∧
      out' = be32 magic ++ be16 c.minor ++ be16 c.major ++ pool' ++ middle ++ body' ++ back := by
  obtain ⟨pool, is, fs, methods, as, parts, table, rfl⟩ := encode_eq_ok_iff.mp written
  obtain ⟨pool', is', fs', methods', as', parts', table', rfl⟩ := encode_eq_ok_iff.mp written'
  obtain ⟨front, back, same, replaced⟩ := h.methods_eq
  rw [same] at table
  rw [replaced] at table'
  obtain ⟨head, out, out', tail, here, here', rfl, rfl⟩ := Code.writeTable_replaced
    (fun x _ => keeps_writeMethod h.grown x) (fun y _ => keeps_writeMethod h.grown y) table table'
  simp only [writeMethod, bind_eq_ok_iff, pure_eq_ok_iff] at here here'
  obtain ⟨inner, tabled, rfl⟩ := here
  obtain ⟨inner', tabled', rfl⟩ := here'
  rw [h.attributes] at tabled
  rw [writeMethodAttribute_attributes] at tabled'
  obtain ⟨head', body, body', tail', inner, inner', rfl, rfl⟩ := Code.writeTable_replaced
    (fun x _ => keeps_writeMethodAttribute h.grown m x)
    (fun y _ => keeps_writeMethodAttribute h.grown m y) tabled tabled'
  have fields : is' = is ∧ fs' = fs ∧ as' = as := by
    have interfaced := parts'.interfaces
    have fielded := parts'.fields
    have attributed := parts'.attributes
    rw [h.result] at interfaced fielded attributed
    exact ⟨Except.ok.inj (interfaced.symm.trans parts.interfaces),
      Except.ok.inj (fielded.symm.trans parts.fields),
      Except.ok.inj (attributed.symm.trans parts.attributes)⟩
  obtain ⟨rfl, rfl, rfl⟩ := fields
  refine ⟨pool, pool', be16 c.access ++ be16 c.thisClass ++ be16 c.superClass ++ is' ++ fs' ++ head ++
    be16 m.access ++ be16 m.name ++ be16 m.descriptor ++ head', body, body', tail' ++ tail ++ as',
    parts.pool, parts'.pool, inner, inner', ?_, ?_⟩
  · simp only [ClassFile.front, List.append_assoc]
  · rw [h.result]
    simp only [ClassFile.front, List.append_assoc]

end BodyReplaced

end ClassFile

namespace Prologue

open ClassFile (BodyReplaced)

variable {options : PrologueOptions} {index len : Nat} {c c' : ClassFile} {s : Site}

theorem Injected.bodyReplaced (sound : c.pool.WellFormed) (h : Injected options index c s len c') :
    ∃ before name after, c.BodyReplaced c' index s.method before name s.code s.patched after := by
  obtain ⟨before, name, after, attributes, first, put⟩ := MethodInfo.exists_body h.code
  refine ⟨before, name, after, h.method, attributes, first, (h.rewritten.grown sound).1.extends_, ?_⟩
  rw [← put]
  exact h.result

/-- An injection into a class that was read touches nothing but its target. If it succeeds, then the class
is the same but for the first body of the method at the index and for a longer pool, and if both classes are
written, then the octets of every other method and all octets around the pool and the attribute with the
body are the same. If it is refused by its checks, then the whole class is as it was. -/
theorem untouched_of_inject {data : Bytes} (read : ClassFile.decode data = .ok c) (index : Nat)
    (options : PrologueOptions) :
    (∀ len c', inject index options c = .ok len c' → ∃ m before name code patched after,
      c.BodyReplaced c' index m before name code patched after ∧
      ∀ out out', c.encode = .ok out → c'.encode = .ok out' →
        (∀ i other, i ≠ index → c.methods[i]? = some other → ∃ octets,
          c.writeMethod other = .ok octets ∧ c'.writeMethod other = .ok octets) ∧
        ∃ pool pool' middle body body' back, c.pool.write = .ok pool ∧ c'.pool.write = .ok pool' ∧
          c.writeMethodAttribute m (.code name code) = .ok body ∧
          c'.writeMethodAttribute m (.code name patched) = .ok body' ∧
          out = be32 ClassFile.magic ++ be16 c.minor ++ be16 c.major ++ pool ++ middle ++ body ++ back ∧
          out' = be32 ClassFile.magic ++ be16 c.minor ++ be16 c.major ++ pool' ++ middle ++ body' ++
            back) ∧
      ∀ err c', inject index options c = .error err c' →
        (err = .noCode ∨ err = .alreadyInjected ∨ ∃ type, err = .unsupportedReturn type) → c' = c := by
  have sound := ClassFile.patchable_of_decode read
  refine ⟨fun len c' done => ?_, fun err c' failed checked => ?_⟩
  · obtain ⟨s, injected⟩ := injected_of_inject sound done
    obtain ⟨before, name, after, replaced⟩ := injected.bodyReplaced sound.pool
    refine ⟨_, before, name, _, _, after, replaced, fun out out' written written' => ⟨?_, ?_⟩⟩
    · intro i other different found
      exact (replaced.writeMethod_eq written different found).2
    · exact replaced.octets written written'
  · obtain ⟨same, -⟩ | ⟨method, code, why, -, -, rfl, -⟩ := failed_inject sound failed
    · exact same
    · obtain refused | refused | ⟨type, refused⟩ := checked <;> cases refused

/-- The file of a class `A` with a field and three methods: `m` without a result, `n` with a number, and
`o` without a body. -/
def severalFile : Bytes :=
  [0xCA, 0xFE, 0xBA, 0xBE, 0, 0, 0, 52, 0, 11] ++
  [1, 0, 1, 65] ++ [7, 0, 1] ++ [1, 0, 1, 109] ++ [1, 0, 3, 40, 41, 86] ++
  [1, 0, 4, 67, 111, 100, 101] ++ [1, 0, 1, 110] ++ [1, 0, 3, 40, 41, 73] ++ [1, 0, 1, 102] ++
  [1, 0, 1, 73] ++ [1, 0, 1, 111] ++
  [0, 0, 0, 2, 0, 0, 0, 0] ++ [0, 1, 0, 0, 0, 8, 0, 9, 0, 0] ++ [0, 3] ++
  [0, 0, 0, 3, 0, 4, 0, 1, 0, 5, 0, 0, 0, 13, 0, 0, 0, 1, 0, 0, 0, 1, 0xB1, 0, 0, 0, 0] ++
  [0, 0, 0, 6, 0, 7, 0, 1, 0, 5, 0, 0, 0, 14, 0, 1, 0, 1, 0, 0, 0, 2, 3, 0xAC, 0, 0, 0, 0] ++
  [4, 0, 0, 10, 0, 4, 0, 0] ++ [0, 0]

/-- The first method is injected into, which leaves the second one as it was; the second one cannot be left
early, and the third one has no body. -/
theorem untouched_of_inject_several : ∃ c c' out out' n,
    ClassFile.decode severalFile = .ok c ∧ c.fields.length = 1 ∧ c.methods[1]? = some n ∧
    inject 0 ⟨.callOnly, false⟩ c = .ok 4 c' ∧ c.encode = .ok out ∧ c'.encode = .ok out' ∧
    (∃ octets, c.writeMethod n = .ok octets ∧ c'.writeMethod n = .ok octets) ∧
    (∃ pool pool' middle body body' back,
      out = be32 ClassFile.magic ++ be16 c.minor ++ be16 c.major ++ pool ++ middle ++ body ++ back ∧
      out' = be32 ClassFile.magic ++ be16 c.minor ++ be16 c.major ++ pool' ++ middle ++ body' ++ back) ∧
    inject 1 ⟨.earlyReturn, false⟩ c = .error (.unsupportedReturn "I") c ∧
    inject 2 ⟨.callOnly, false⟩ c = .error .noCode c := by
  have whole : ((ClassFile.decode severalFile).toOption.bind fun c =>
      (Edit.finished? (inject 0 ⟨.callOnly, false⟩) c).map fun done =>
        (done.1, c.encode.toOption.isSome && done.2.encode.toOption.isSome,
          c.methods[1]?.isSome && c.fields.length == 1,
          [(Edit.stopped? (inject 1 ⟨.earlyReturn, false⟩) c).map (·.1),
            (Edit.stopped? (inject 2 ⟨.callOnly, false⟩) c).map (·.1)])) =
        some (4, true, true, [some (.unsupportedReturn "I"), some .noCode]) := by
    decide +kernel
  obtain ⟨c, decoded, injected⟩ := Option.bind_eq_some_iff.mp whole
  obtain ⟨⟨len, c'⟩, finished, seen⟩ := Option.map_eq_some_iff.mp injected
  have read := toOption_eq_some_iff.mp decoded
  have done := Edit.finished?_eq_some_iff.mp finished
  simp only [Prod.mk.injEq, Bool.and_eq_true, beq_iff_eq, List.cons.injEq, and_true,
    Option.isSome_iff_exists, toOption_eq_some_iff] at seen
  obtain ⟨rfl, ⟨⟨out, written⟩, out', written'⟩, ⟨⟨n, second⟩, field⟩, early, empty⟩ := seen
  obtain ⟨succeeds, -⟩ := untouched_of_inject read 0 ⟨.callOnly, false⟩
  obtain ⟨_, _, _, _, _, _, -, octets⟩ := succeeds _ c' done
  obtain ⟨others, pool, pool', middle, body, body', back, -, -, -, -, same, same'⟩ :=
    octets out out' written written'
  -- what a refusal leaves behind is the class as it was
  have refused {index : Nat} {options : PrologueOptions} {err : InjectError}
      (checked : err = .noCode ∨ err = .alreadyInjected ∨ ∃ type, err = .unsupportedReturn type)
      (stopped : (Edit.stopped? (inject index options) c).map (·.1) = some err) :
      inject index options c = .error err c := by
    obtain ⟨⟨_, d⟩, halted, rfl⟩ := Option.map_eq_some_iff.mp stopped
    have failed := Edit.stopped?_eq_some_iff.mp halted
    obtain rfl := (untouched_of_inject read index options).2 _ d failed checked
    exact failed
  exact ⟨c, c', out, out', n, read, field, second, done, written, written',
    others 1 n (by decide) second, ⟨pool, pool', middle, body, body', back, same, same'⟩,
    refused (.inr (.inr ⟨_, rfl⟩)) early, refused (.inl rfl) empty⟩

end Prologue

end JarGate
