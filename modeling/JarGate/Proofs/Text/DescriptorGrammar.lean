import JarGate.ClassFile.Descriptor
import JarGate.Proofs.Success

/-!
# The grammar of descriptors

A type is read from the front of its written form, whatever follows it, and of a whole text nothing may be
left. So a text is accepted exactly if it is the written form of a descriptor. It is then that of only one
descriptor, and no longer text is accepted.
-/

namespace JarGate

variable {text more : String} {cs rest : List Char}

namespace FieldType

variable {t u : FieldType}

/-- Whether the names of classes in a type can be told from what follows them: none is empty, and none
holds a semicolon. -/
def Named : FieldType → Prop
  | .object name => name ≠ "" ∧ ';' ∉ name.toList
  | .array element => element.Named
  | _ => True

/-- A type is read from the text that it is written as. -/
theorem eq_of_read (h : read cs = some (t, rest)) : cs = t.print.toList ++ rest := by
  fun_induction read cs generalizing t rest with
  | case9 => cases h
  | case10 => cases h
  | case11 cs c rest' found nonempty =>
    obtain ⟨rfl, rfl⟩ := Prod.mk.inj (Option.some.inj h)
    have stop : (c != ';') = false := by
      have first := List.head?_dropWhile_not (· != ';') cs
      rw [found] at first
      simpa using first
    obtain rfl : c = ';' := by simpa using stop
    have whole := List.takeWhile_append_dropWhile (p := (· != ';')) (l := cs)
    rw [found] at whole
    simp only [print, String.toList_append, String.toList_ofList]
    rw [List.append_assoc, List.append_assoc]
    exact congrArg _ whole.symm
  | case12 cs ih =>
    simp only [Option.map_eq_some_iff, Prod.exists, Prod.mk.injEq] at h
    obtain ⟨e, r, he, rfl, rfl⟩ := h
    rw [ih he, print, String.toList_append]
    rfl
  | case13 => cases h
  | _ =>
    obtain ⟨rfl, rfl⟩ := Prod.mk.inj (Option.some.inj h)
    rfl

theorem named_of_read (h : read cs = some (t, rest)) : t.Named := by
  fun_induction read cs generalizing t rest with
  | case9 => cases h
  | case10 => cases h
  | case11 cs c rest' found nonempty =>
    obtain ⟨rfl, rfl⟩ := Prod.mk.inj (Option.some.inj h)
    refine ⟨fun empty => nonempty ?_, ?_⟩
    · exact String.ofList_eq_empty_iff.mp empty
    · rw [String.toList_ofList]
      intro member
      simpa using List.mem_takeWhile_imp member
  | case12 cs ih =>
    simp only [Option.map_eq_some_iff, Prod.exists, Prod.mk.injEq] at h
    obtain ⟨e, r, he, rfl, rfl⟩ := h
    have inner : e.Named := ih he
    exact inner
  | case13 => cases h
  | _ =>
    obtain ⟨rfl, rfl⟩ := Prod.mk.inj (Option.some.inj h)
    trivial

/-- A type is read from the front of its written form, whatever follows it. -/
theorem read_print (named : t.Named) (rest : List Char) :
    read (t.print.toList ++ rest) = some (t, rest) := by
  induction t generalizing rest with
  | object name =>
      obtain ⟨nonempty, whole⟩ := named
      have inside : ∀ c ∈ name.toList, (c != ';') = true := by
        intro c member
        rw [bne_iff_ne]
        rintro rfl
        exact whole member
      have front : (name.toList ++ ';' :: rest).takeWhile (· != ';') = name.toList := by
        rw [List.takeWhile_append_of_pos inside, List.takeWhile_cons_of_neg (by decide), List.append_nil]
      have back : (name.toList ++ ';' :: rest).dropWhile (· != ';') = ';' :: rest := by
        rw [List.dropWhile_append_of_pos inside, List.dropWhile_cons_of_neg (by decide)]
      have text : (object name).print.toList ++ rest = 'L' :: (name.toList ++ ';' :: rest) := by
        simp [print]
      obtain ⟨c, cs, first⟩ := List.exists_cons_of_ne_nil (l := name.toList) (by simpa using nonempty)
      rw [text, read, front, back, first]
      dsimp only
      rw [← first, String.ofList_toList]
  | array element ih =>
      rw [print, String.toList_append, List.append_assoc]
      change (read (element.print.toList ++ rest)).map _ = _
      rw [ih named]
      rfl
  | _ => rfl

theorem read_eq_some_iff : read cs = some (t, rest) ↔ t.Named ∧ cs = t.print.toList ++ rest := by
  constructor
  · exact fun h => ⟨named_of_read h, eq_of_read h⟩
  · rintro ⟨named, rfl⟩
    exact read_print named rest

theorem parse_eq_ok_iff_read : parse text = .ok t ↔ read text.toList = some (t, []) := by
  rw [parse]
  split
  next u found => rw [found, Except.ok.injEq, Option.some.injEq, Prod.mk.injEq, and_iff_left rfl]
  next other => exact ⟨nofun, fun found => absurd found (other t)⟩

/-- A text is accepted as a type exactly if it is the written form of the type. -/
theorem parse_eq_ok_iff : parse text = .ok t ↔ t.Named ∧ text = t.print := by
  rw [parse_eq_ok_iff_read, read_eq_some_iff, List.append_nil, String.toList_inj]

/-- A type that was accepted does not go on. -/
theorem eq_empty_of_parse (first : parse text = .ok t) (longer : parse (text ++ more) = .ok u) :
    more = "" := by
  obtain ⟨named, rfl⟩ := parse_eq_ok_iff.mp first
  rw [parse_eq_ok_iff_read, String.toList_append, read_print named] at longer
  obtain ⟨-, nothing⟩ := Prod.mk.inj (Option.some.inj longer)
  exact String.toList_eq_nil_iff.mp nothing

end FieldType

namespace MethodDescriptor

open FieldType (read)

variable {d d' : MethodDescriptor} {done params : List FieldType} {result : Option FieldType}
  {t : FieldType}

/-- Whether the names of classes in all types of a descriptor can be told from what follows them. -/
def Named (d : MethodDescriptor) : Prop :=
  (∀ t ∈ d.params, t.Named) ∧ ∀ t ∈ d.result, t.Named

/-- The written forms of types, one behind the other. -/
def printAll (ts : List FieldType) : List Char := ts.flatMap fun t => t.print.toList

/-- The written form of the type of a result, if there is one. -/
def printResult (result : Option FieldType) : String := (result.map FieldType.print).getD "V"

theorem toList_print (d : MethodDescriptor) :
    d.print.toList = '(' :: (printAll d.params ++ ')' :: (printResult d.result).toList) := by
  simp [print, printAll, printResult, List.flatMap_map]

/-! ### Parameters -/

/-- Where a type is read, it is the next parameter. -/
theorem readParams_of_read (next : read cs = some (t, rest)) :
    readParams done cs = readParams (t :: done) rest := by
  match cs, next with
  | c :: cs, next =>
      rw [readParams.eq_3]
      · split
        next none => cases next.symm.trans none
        next found =>
          cases next.symm.trans found
          rfl
      · rintro rfl
        cases next

/-- Parameters are read from their written forms up to the closing parenthesis. -/
theorem readParams_printAll (named : ∀ t ∈ params, t.Named) (done : List FieldType) (rest : List Char) :
    readParams done (printAll params ++ ')' :: rest) = some (done.reverse ++ params, rest) := by
  induction params generalizing done with
  | nil => rw [printAll, List.flatMap_nil, List.nil_append, readParams, List.append_nil]
  | cons t params ih =>
      obtain ⟨here, others⟩ := List.forall_mem_cons.mp named
      rw [printAll, List.flatMap_cons, List.append_assoc,
        readParams_of_read (FieldType.read_print here _), ← printAll, ih others, List.reverse_cons,
        List.append_assoc]
      rfl

theorem eq_of_readParams (h : readParams done cs = some (params, rest)) :
    ∃ more, (∀ t ∈ more, t.Named) ∧ params = done.reverse ++ more ∧ cs = printAll more ++ ')' :: rest := by
  -- The induction is on the characters; the types that were read already are in reverse order.
  induction done, cs using readParams.induct generalizing params rest with
  | case1 done =>
      rw [readParams] at h
      cases h
  | case2 done rest' =>
      rw [readParams] at h
      obtain ⟨rfl, rfl⟩ := Prod.mk.inj (Option.some.inj h)
      exact ⟨[], nofun, (List.append_nil _).symm, rfl⟩
  | case3 done c cs other none =>
      rw [readParams] at h
      · split at h
        next => cases h
        next found => cases none.symm.trans found
      · exact other
  | case4 done c cs other t rest' found shorter ih =>
      rw [readParams_of_read found] at h
      obtain ⟨more, named, rfl, rfl⟩ := ih h
      refine ⟨t :: more, ?_, ?_, ?_⟩
      · exact List.forall_mem_cons.mpr ⟨FieldType.named_of_read found, named⟩
      · rw [List.reverse_cons, List.append_assoc]
        rfl
      · rw [FieldType.eq_of_read found, printAll, printAll, List.flatMap_cons, List.append_assoc]

theorem readParams_eq_some_iff : readParams [] cs = some (params, rest) ↔
    (∀ t ∈ params, t.Named) ∧ cs = printAll params ++ ')' :: rest := by
  constructor
  · intro h
    obtain ⟨more, named, rfl, rfl⟩ := eq_of_readParams h
    exact ⟨named, rfl⟩
  · rintro ⟨named, rfl⟩
    exact readParams_printAll named [] rest

/-! ### Whole descriptors -/

/-- The type of a result is what is left behind the parameters. -/
def ReadsResult (cs : List Char) : Option FieldType → Prop
  | none => cs = ['V']
  | some t => read cs = some (t, [])

theorem readsResult_iff :
    ReadsResult cs result ↔ (∀ t ∈ result, t.Named) ∧ cs = (printResult result).toList := by
  cases result with
  | none => exact ⟨fun h => ⟨nofun, h⟩, And.right⟩
  | some t =>
      rw [ReadsResult, FieldType.read_eq_some_iff, List.append_nil]
      simp [printResult]

/-- Behind a result nothing is left over. -/
theorem eq_nil_of_readsResult {other : Option FieldType} (named : ∀ t ∈ result, t.Named)
    (longer : ReadsResult ((printResult result).toList ++ rest) other) : rest = [] := by
  cases result with
  | none =>
      cases other with
      | none => exact List.append_cancel_left longer
      | some u => cases longer
  | some t =>
      have front : read ((printResult (some t)).toList ++ rest) = some (t, rest) :=
        FieldType.read_print (named t rfl) rest
      cases other with
      | none =>
          rw [ReadsResult] at longer
          rw [longer] at front
          cases front
      | some u => exact (Prod.mk.inj (Option.some.inj (front.symm.trans longer))).2

theorem ofChars?_eq_some_iff : ofChars? cs = some d ↔
    ∃ inner rest, cs = '(' :: inner ∧ readParams [] inner = some (d.params, rest) ∧
      ReadsResult rest d.result := by
  constructor
  · intro h
    unfold ofChars? at h
    split at h
    next inner =>
      split at h
      next params found =>
        cases h
        exact ⟨inner, _, rfl, found, rfl⟩
      next params rest other found =>
        split at h
        next t result =>
          cases h
          exact ⟨inner, rest, rfl, found, result⟩
        next => cases h
      next => cases h
    next => cases h
  · rintro ⟨inner, rest, rfl, found, result⟩
    obtain ⟨params, _ | t⟩ := d
    · obtain rfl : rest = ['V'] := result
      simp only [ofChars?, found]
    · have apart : rest ≠ ['V'] := by
        rintro rfl
        cases result
      replace result : read rest = some (t, []) := result
      simp only [ofChars?, found, result]

theorem parse_eq_ok_iff_ofChars? : parse text = .ok d ↔ ofChars? text.toList = some d := by
  rw [parse]
  split
  next found => rw [found, Except.ok.injEq, Option.some.injEq]
  next none => rw [none]; exact ⟨nofun, nofun⟩

/-- A text is accepted as a descriptor exactly if it is the written form of the descriptor. -/
theorem parse_eq_ok_iff : parse text = .ok d ↔ d.Named ∧ text = d.print := by
  simp only [parse_eq_ok_iff_ofChars?, ofChars?_eq_some_iff, readParams_eq_some_iff, readsResult_iff]
  rw [← String.toList_inj, toList_print]
  constructor
  · rintro ⟨_, _, whole, ⟨params, rfl⟩, result, rfl⟩
    exact ⟨⟨params, result⟩, whole⟩
  · rintro ⟨⟨params, result⟩, whole⟩
    exact ⟨_, _, whole, ⟨params, rfl⟩, result, rfl⟩

/-- A descriptor that was accepted does not go on. -/
theorem eq_empty_of_parse (first : parse text = .ok d) (longer : parse (text ++ more) = .ok d') :
    more = "" := by
  obtain ⟨⟨params, result⟩, rfl⟩ := parse_eq_ok_iff.mp first
  rw [parse_eq_ok_iff_ofChars?, ofChars?_eq_some_iff, String.toList_append, toList_print] at longer
  obtain ⟨inner, rest, whole, again, behind⟩ := longer
  obtain rfl : printAll d.params ++ ')' :: (printResult d.result).toList ++ more.toList = inner :=
    (List.cons.inj whole).2
  rw [List.append_assoc, List.cons_append, readParams_printAll params] at again
  obtain ⟨-, rfl⟩ := Prod.mk.inj (Option.some.inj again)
  exact String.toList_eq_nil_iff.mp (eq_nil_of_readsResult result behind)

end MethodDescriptor

/-- The readers of types and of descriptors accept just the written forms. A written form is that of one
type or descriptor only, and no accepted text is the front of a longer one. -/
theorem descriptor_grammar_exact :
    (∀ text t, FieldType.parse text = .ok t ↔ t.Named ∧ text = t.print) ∧
    (∀ text d, MethodDescriptor.parse text = .ok d ↔
      ((∀ t ∈ d.params, t.Named) ∧ ∀ t ∈ d.result, t.Named) ∧
        text = "(" ++ String.join (d.params.map FieldType.print) ++ ")" ++
          (d.result.map FieldType.print).getD "V") ∧
    (∀ t u : FieldType, t.Named → u.Named → t.print = u.print → t = u) ∧
    (∀ d d' : MethodDescriptor, d.Named → d'.Named → d.print = d'.print → d = d') ∧
    (∀ text more t u, FieldType.parse text = .ok t → FieldType.parse (text ++ more) = .ok u →
      more = "") ∧
    ∀ text more d d', MethodDescriptor.parse text = .ok d →
      MethodDescriptor.parse (text ++ more) = .ok d' → more = "" := by
  refine ⟨fun _ _ => FieldType.parse_eq_ok_iff, fun _ _ => MethodDescriptor.parse_eq_ok_iff, ?_, ?_,
    fun _ _ _ _ => FieldType.eq_empty_of_parse, fun _ _ _ _ => MethodDescriptor.eq_empty_of_parse⟩
  · intro t u named named' same
    have first := FieldType.parse_eq_ok_iff.mpr ⟨named, rfl⟩
    have second := FieldType.parse_eq_ok_iff.mpr ⟨named', same⟩
    exact Except.ok.inj (first.symm.trans second)
  · intro d d' named named' same
    have first := MethodDescriptor.parse_eq_ok_iff.mpr ⟨named, rfl⟩
    have second := MethodDescriptor.parse_eq_ok_iff.mpr ⟨named', same⟩
    exact Except.ok.inj (first.symm.trans second)

/-- A descriptor with nested arrays and a class, which is accepted, and does not go on. -/
theorem descriptor_grammar_exact_nested :
    MethodDescriptor.parse "(I[[Lp/Main;J)[Z" =
        .ok ⟨[.int, .array (.array (.object "p/Main")), .long], some (.array .boolean)⟩ ∧
      FieldType.parse "[[Lp/Main;" = .ok (.array (.array (.object "p/Main"))) ∧
      (∀ more d, MethodDescriptor.parse ("(I[[Lp/Main;J)[Z" ++ more) = .ok d → more = "") ∧
      ∀ text, FieldType.parse text ≠ .ok (.object "p;Main") := by
  obtain ⟨types, descriptors, -, -, -, ends⟩ := descriptor_grammar_exact
  have named : (FieldType.object "p/Main").Named := ⟨by decide, by decide⟩
  have parsed : MethodDescriptor.parse "(I[[Lp/Main;J)[Z" =
      .ok ⟨[.int, .array (.array (.object "p/Main")), .long], some (.array .boolean)⟩ := by
    refine (descriptors _ _).mpr ⟨⟨?_, ?_⟩, by decide⟩
    · simp only [List.forall_mem_cons]
      exact ⟨trivial, named, trivial, List.forall_mem_nil _⟩
    · rintro t ⟨⟩
      trivial
  refine ⟨parsed, (types _ _).mpr ⟨named, by decide⟩, fun more d => ends _ more _ d parsed, ?_⟩
  intro text accepted
  obtain ⟨⟨-, apart⟩, -⟩ := (types _ _).mp accepted
  exact apart (by decide)

end JarGate
