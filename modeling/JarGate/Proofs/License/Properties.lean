import JarGate.License.Properties
import JarGate.Proofs.Text.Digits
import JarGate.Proofs.Text.ModifiedUtf8

/-!
# Property files are read back

What `render` writes, `parse` reads. The reader takes a text apart step by step: into lines, lines into
entries, entries into key and value, and it unescapes these at the end. A lemma for each step says what
it makes of an escaped value.
-/

namespace JarGate.Properties

open Text (isBlank trimLeft)
open Text.Utf16 (ofChar)

/-! ### How characters are written -/

/-- The character that a letter behind a backslash stands for. -/
def meaning (letter : Char) : Char :=
  if letter = 't' then '\t'
  else if letter = 'n' then '\n'
  else if letter = 'r' then '\r'
  else if letter = 'f' then '\x0C'
  else letter

/-- How units are written by number. -/
def numbered (us : List UInt16) : List Char := us.flatMap fun u => ['\\', 'u'] ++ hex4 u

/-- Whether a character does not end a line. -/
def Inline (c : Char) : Prop := c ≠ '\n' ∧ c ≠ '\r'

/-- The three ways to write a character of a value. -/
inductive Written (first : Bool) (c : Char) : List Char → Prop
  | plain (inline : Inline c) (backslash : c ≠ '\\') (gap : first = true → isGap c = false) :
    Written first c [c]
  | marked (letter : Char) (inline : Inline letter) (number : letter ≠ 'u') (means : meaning letter = c) :
    Written first c ['\\', letter]
  | numbered : Written first c (numbered (ofChar c))

/-- A value is written in these ways. -/
theorem written_escapeChar (first : Bool) (c : Char) : Written first c (escapeChar first c) := by
  rw [escapeChar]
  split
  next h =>
    subst h
    exact .marked '\\' ⟨by decide, by decide⟩ (by decide) rfl
  next backslash =>
  split
  next h =>
    subst h
    exact .marked 't' ⟨by decide, by decide⟩ (by decide) rfl
  next tab =>
  split
  next h =>
    subst h
    exact .marked 'n' ⟨by decide, by decide⟩ (by decide) rfl
  next feed =>
  split
  next h =>
    subst h
    exact .marked 'r' ⟨by decide, by decide⟩ (by decide) rfl
  next return_ =>
  split
  next h =>
    obtain rfl : c = '\x0C' := Char.toNat_inj.mp h
    exact .marked 'f' ⟨by decide, by decide⟩ (by decide) rfl
  next formFeed =>
  split
  next h =>
    refine .marked c ⟨feed, return_⟩ ?_ ?_ <;>
      rcases h with rfl | rfl | rfl | rfl <;> decide
  next =>
  split
  next h =>
    exact .marked ' ' ⟨by decide, by decide⟩ (by decide) h.1.symm
  next space =>
  split
  next => exact .numbered
  next =>
    refine .plain ⟨feed, return_⟩ backslash fun start => ?_
    have inner : c ≠ ' ' := fun same => space ⟨same, start⟩
    simp [isGap, tab, inner, formFeed]

/-! ### Units by number -/

theorem mem_hex4 {u : UInt16} {d : Char} (h : d ∈ hex4 u) :
    ∃ n < 16, d = (Text.Hex.digit n).toUpper := by
  obtain ⟨place, -, rfl⟩ := List.mem_map.mp h
  exact ⟨_, Nat.mod_lt _ (by decide), rfl⟩

/-- A digit is neither a sign nor a backslash, and does not end a line. -/
theorem digit_ne {u : UInt16} {d : Char} (h : d ∈ hex4 u) : d ≠ '+' ∧ d ≠ '\\' ∧ Inline d := by
  have each : ∀ n < 16, (Text.Hex.digit n).toUpper ∉ ['+', '\\', '\n', '\r'] := by decide
  obtain ⟨n, small, rfl⟩ := mem_hex4 h
  simpa [Inline] using each n small

/-- Four digits are read back as the unit that they were written for. -/
theorem unitOfHex?_hex4 (u : UInt16) : unitOfHex? (hex4 u) = some u := by
  have bound := u.toNat_lt
  have unsigned (digits : List Char) (signed : hex4 u = '+' :: digits) : False := by
    have sign : '+' ∈ hex4 u := by
      rw [signed]
      exact List.mem_cons_self ..
    exact (digit_ne sign).1 rfl
  have digits (places : List Nat) :
      (places.map fun place => (Text.Hex.digit (u.toNat / place % 16)).toUpper).mapM
        Text.Hex.digitValue? = some (places.map fun place => u.toNat / place % 16) := by
    induction places with
    | nil => rfl
    | cons place places ih =>
        rw [List.map_cons, List.mapM_cons, Text.Hex.digitValue?_upper (Nat.mod_lt _ (by decide)), ih]
        rfl
  have value : ((u.toNat / 0x1000 % 16 * 16 + u.toNat / 0x100 % 16) * 16 + u.toNat / 0x10 % 16) * 16 +
      u.toNat / 1 % 16 = u.toNat := by
    omega
  rw [unitOfHex?, hex4, digits, if_pos (by rfl)]
  · simp only [List.map_cons, List.map_nil, Option.map_some, List.foldl_cons, List.foldl_nil, Nat.zero_mul,
      Nat.zero_add, value, UInt16.ofNat_toNat]
  · exact unsigned

/-! ### Unescaping -/

section

variable {done : List UInt16} {rest : List Char} {c : Char}

theorem unescapeOnto_plain (h : c ≠ '\\') :
    unescapeOnto done (c :: rest) = unescapeOnto ((ofChar c).reverse ++ done) rest := by
  rw [unescapeOnto] <;> simp [h]

theorem unescapeOnto_marked {letter : Char} (number : letter ≠ 'u') :
    unescapeOnto done ('\\' :: letter :: rest) =
      unescapeOnto ((ofChar (meaning letter)).reverse ++ done) rest := by
  have units : (if letter = 't' then [0x09] else if letter = 'n' then [0x0A] else
      if letter = 'r' then [0x0D] else if letter = 'f' then [0x0C] else ofChar letter) =
      ofChar (meaning letter) := by
    rw [meaning]
    split_ifs <;> rfl
  rw [unescapeOnto]
  · rw [← units]
  all_goals simp [number]

theorem unescapeOnto_numbered (us : List UInt16) :
    unescapeOnto done (numbered us ++ rest) = unescapeOnto (us.reverse ++ done) rest := by
  induction us generalizing done with
  | nil => rfl
  | cons u us ih =>
      have step (tail : List Char) :
          unescapeOnto done (['\\', 'u'] ++ hex4 u ++ tail) = unescapeOnto (u :: done) tail := by
        have known := unitOfHex?_hex4 u
        simp only [hex4, List.map_cons, List.map_nil] at known
        simp only [hex4, List.map_cons, List.map_nil, List.cons_append, List.nil_append, unescapeOnto, known]
      have whole : numbered (u :: us) = ['\\', 'u'] ++ hex4 u ++ numbered us := List.flatMap_cons
      rw [whole, List.append_assoc, step, ih, List.reverse_cons, List.append_assoc]
      rfl

/-- A written character is read back as its units. -/
theorem Written.unescapeOnto {first : Bool} {cs : List Char} (h : Written first c cs) :
    unescapeOnto done (cs ++ rest) = unescapeOnto ((ofChar c).reverse ++ done) rest := by
  cases h with
  | plain _ backslash _ => exact unescapeOnto_plain backslash
  | marked letter _ number means =>
      subst means
      exact unescapeOnto_marked number
  | numbered => exact unescapeOnto_numbered _

/-- Characters that are written one after another are read back as all of their units. -/
theorem unescapeOnto_flatMap {write : Char → List Char} (h : ∀ c, ∃ first, Written first c (write c))
    (cs : List Char) : unescapeOnto done (cs.flatMap write) = done.reverse ++ cs.flatMap ofChar := by
  induction cs generalizing done with
  | nil => simp [unescapeOnto]
  | cons c cs ih =>
      obtain ⟨first, written⟩ := h c
      rw [List.flatMap_cons, written.unescapeOnto, ih, List.flatMap_cons]
      simp

end

/-- A value is read back from its written form. -/
theorem unescape_escape (value : String) : unescape (escape value) = value := by
  have units : unescapeOnto [] (escape value) = Text.Utf16.encode value := by
    rw [escape, Text.Utf16.encode]
    cases value.toList with
    | nil => rfl
    | cons c cs =>
        dsimp only
        rw [(written_escapeChar true c).unescapeOnto,
          unescapeOnto_flatMap fun c => ⟨false, written_escapeChar false c⟩]
        simp
  rw [unescape, units, Text.Utf16.decodeLossy_encode]

/-! ### Lines -/

theorem Written.inline {first : Bool} {c : Char} {cs : List Char} (h : Written first c cs) :
    ∀ d ∈ cs, Inline d := by
  have backslash : Inline '\\' := ⟨by decide, by decide⟩
  cases h with
  | plain inline _ _ => simpa using inline
  | marked letter inline _ _ =>
      rw [List.forall_mem_cons, List.forall_mem_singleton]
      exact ⟨backslash, inline⟩
  | numbered =>
      intro d member
      obtain ⟨u, -, member⟩ := List.mem_flatMap.mp member
      rcases List.mem_append.mp member with lead | digit
      · have number : Inline 'u' := ⟨by decide, by decide⟩
        have each : ∀ d ∈ ['\\', 'u'], Inline d :=
          List.forall_mem_cons.mpr ⟨backslash, List.forall_mem_singleton.mpr number⟩
        exact each d lead
      · exact (digit_ne digit).2.2

/-- An escaped value is written character by character. -/
theorem escape_eq_flatten (value : String) : ∃ chunks : List (List Char),
    escape value = chunks.flatten ∧ ∀ chunk ∈ chunks, ∃ first c, Written first c chunk := by
  rw [escape]
  cases value.toList with
  | nil => exact ⟨[], rfl, nofun⟩
  | cons c cs =>
      refine ⟨escapeChar true c :: cs.map (escapeChar false), rfl, ?_⟩
      rw [List.forall_mem_cons, List.forall_mem_map]
      exact ⟨⟨true, c, written_escapeChar true c⟩, fun c _ => ⟨false, c, written_escapeChar false c⟩⟩

theorem inline_escape (value : String) : ∀ c ∈ escape value, Inline c := by
  obtain ⟨chunks, whole, written⟩ := escape_eq_flatten value
  intro c member
  rw [whole] at member
  obtain ⟨chunk, found, member⟩ := List.mem_flatten.mp member
  obtain ⟨first, d, written⟩ := written chunk found
  exact written.inline c member

/-- A line with its last character first, without the carriage return that is the last. -/
def chomp : List Char → List Char
  | '\r' :: line => line
  | line => line

theorem chomp_of_inline {line : List Char} (inline : ∀ c ∈ line, Inline c) : chomp line = line := by
  cases line with
  | nil => rfl
  | cons c line =>
      have other := (inline c (List.mem_cons_self ..)).2
      rw [chomp]
      exact fun _ same => other (List.cons.inj same).1

section

variable {done : List (List Char)} {line cs : List Char} {c : Char}

theorem linesOnto_feed :
    linesOnto done line ('\n' :: cs) = linesOnto ((chomp line).reverse :: done) [] cs := by
  rw [linesOnto.eq_def]
  rfl

theorem linesOnto_other (h : c ≠ '\n') : linesOnto done line (c :: cs) = linesOnto done (c :: line) cs := by
  rw [linesOnto.eq_def]
  exact if_neg h

/-- A line without a line end in it is taken as it is. -/
theorem linesOnto_line {rest : List Char} (inline : ∀ c ∈ cs, Inline c) (before : ∀ c ∈ line, Inline c) :
    linesOnto done line (cs ++ '\n' :: rest) = linesOnto ((line.reverse ++ cs) :: done) [] rest := by
  induction cs generalizing line with
  | nil => rw [List.nil_append, linesOnto_feed, chomp_of_inline before, List.append_nil]
  | cons c cs ih =>
      rw [List.forall_mem_cons] at inline
      have before' : ∀ d ∈ c :: line, Inline d := List.forall_mem_cons.mpr ⟨inline.1, before⟩
      rw [List.cons_append, linesOnto_other inline.1.1, ih inline.2 before', List.reverse_cons,
        List.append_assoc, List.singleton_append]

theorem linesOnto_append : linesOnto done line cs = done.reverse ++ linesOnto [] line cs := by
  induction cs generalizing done line with
  | nil =>
      rw [linesOnto, linesOnto]
      split <;> simp
  | cons c cs ih =>
      by_cases feed : c = '\n'
      · rw [feed, linesOnto_feed, linesOnto_feed, ih, @ih [_]]
        simp
      · rw [linesOnto_other feed, linesOnto_other feed]
        exact ih

end

/-- A text whose first line holds no line end otherwise. -/
theorem lines_cons {line : List Char} (inline : ∀ c ∈ line, Inline c) (text : String) :
    lines (String.ofList (line ++ ['\n']) ++ text) = line :: lines text := by
  rw [lines, String.toList_append, String.toList_ofList, List.append_assoc, List.singleton_append,
    linesOnto_line inline (List.forall_mem_nil _), linesOnto_append]
  rfl

/-! ### Lines that go on -/

theorem continues_concat {c : Char} (h : c ≠ '\\') (line : List Char) : continues (line ++ [c]) = false := by
  simp [continues, h]

theorem continues_pair (line : List Char) : continues (line ++ ['\\', '\\']) = continues line := by
  have pair (n : Nat) : (n + 1 + 1) % 2 = n % 2 := by omega
  simp [continues, pair]

/-- What is written by number ends in a digit. -/
theorem numbered_eq_concat {us : List UInt16} (h : us ≠ []) :
    ∃ front d, numbered us = front ++ [d] ∧ d ≠ '\\' := by
  obtain rfl | ⟨before, u, rfl⟩ := List.eq_nil_or_concat us
  · exact absurd rfl h
  · have filled : hex4 u ≠ [] := nofun
    have last : (hex4 u).getLast filled ∈ hex4 u := List.getLast_mem _
    refine ⟨numbered before ++ (['\\', 'u'] ++ (hex4 u).dropLast), _, ?_, (digit_ne last).2.1⟩
    have whole : numbered (before ++ [u]) = numbered before ++ (['\\', 'u'] ++ hex4 u) := by
      simp [numbered]
    rw [List.concat_eq_append, whole, List.append_assoc, List.append_assoc, List.dropLast_append_getLast]

theorem ofChar_ne_nil (c : Char) : ofChar c ≠ [] := by
  rw [ofChar]
  split <;> exact List.cons_ne_nil _ _

/-- A written character behind a line that does not go on gives no such line. -/
theorem Written.not_continues {first : Bool} {c : Char} {cs : List Char} (h : Written first c cs)
    {line : List Char} (complete : continues line = false) : continues (line ++ cs) = false := by
  cases h with
  | plain _ backslash _ => exact continues_concat backslash line
  | marked letter _ _ _ =>
      by_cases same : letter = '\\'
      · rw [same, continues_pair, complete]
      · rw [← List.singleton_append, ← List.append_assoc]
        exact continues_concat same _
  | numbered =>
      obtain ⟨front, d, whole, digit⟩ := numbered_eq_concat (ofChar_ne_nil c)
      rw [whole, ← List.append_assoc]
      exact continues_concat digit _

theorem not_continues_escape {line : List Char} (complete : continues line = false) (value : String) :
    continues (line ++ escape value) = false := by
  obtain ⟨chunks, whole, written⟩ := escape_eq_flatten value
  rw [whole]
  clear whole
  induction chunks generalizing line with
  | nil => rwa [List.flatten_nil, List.append_nil]
  | cons chunk chunks ih =>
      rw [List.forall_mem_cons] at written
      obtain ⟨⟨first, c, here⟩, later⟩ := written
      rw [List.flatten_cons, ← List.append_assoc]
      exact ih (here.not_continues complete) later

/-! ### Keys and values -/

/-- Whether a character may stand in a key as it is. -/
def isPlain (c : Char) : Bool :=
  !(isBlank c || c == '\\' || c == '=' || c == ':' || c == '#' || c == '!')

/-- A key that needs no escapes. -/
structure PlainKey (key : String) : Prop where
  nonempty : key.toList ≠ []
  plain : ∀ c ∈ key.toList, isPlain c = true

section

variable {c : Char}

theorem isPlain_iff : isPlain c = true ↔
    isBlank c = false ∧ c ≠ '\\' ∧ c ≠ '=' ∧ c ≠ ':' ∧ c ≠ '#' ∧ c ≠ '!' := by
  simp [isPlain, and_assoc]

theorem inline_of_isPlain (h : isPlain c = true) : Inline c := by
  obtain ⟨solid, -⟩ := isPlain_iff.mp h
  constructor <;> rintro rfl <;> cases solid

theorem isBlank_of_isGap (h : isGap c = true) : isBlank c = true := by
  simp only [isGap, Bool.or_eq_true, beq_iff_eq] at h
  rcases h with (rfl | rfl) | h
  · rfl
  · rfl
  · obtain rfl : c = '\x0C' := Char.toNat_inj.mp h
    rfl

/-- A plain key is taken as it is. -/
theorem splitKey_append {done key rest : List Char} (plain : ∀ c ∈ key, isPlain c = true) :
    splitKey done (key ++ '=' :: rest) = (done.reverse ++ key, '=' :: rest) := by
  induction key generalizing done with
  | nil =>
      rw [List.nil_append, List.append_nil, splitKey.eq_def]
      exact if_pos (.inl rfl)
  | cons c key ih =>
      rw [List.forall_mem_cons] at plain
      obtain ⟨solid, backslash, equals, colon, -⟩ := isPlain_iff.mp plain.1
      have inner : ¬(c = '=' ∨ c = ':' ∨ isGap c = true) := by
        rintro (same | same | gap)
        · exact equals same
        · exact colon same
        · rw [isBlank_of_isGap gap] at solid
          cases solid
      have step : splitKey done (c :: (key ++ '=' :: rest)) = splitKey (c :: done) (key ++ '=' :: rest) := by
        rw [splitKey]
        · exact if_neg inner
        all_goals simp [backslash]
      rw [List.cons_append, step, ih plain.2, List.reverse_cons, List.append_assoc, List.singleton_append]

/-- An escaped value does not start with a gap. -/
theorem dropWhile_isGap_escape (value : String) : (escape value).dropWhile isGap = escape value := by
  have head {first : Char} {rest : List Char} (solid : isGap first = false) :
      (first :: rest).dropWhile isGap = first :: rest :=
    List.dropWhile_cons_of_neg (by rw [solid]; exact Bool.false_ne_true)
  rw [escape]
  cases value.toList with
  | nil => rfl
  | cons c cs =>
      have written := written_escapeChar true c
      dsimp only
      generalize escapeChar true c = start at written
      cases written with
      | plain _ _ gap => exact head (gap rfl)
      | marked => exact head (by decide)
      | numbered =>
          cases units : ofChar c with
          | nil => exact absurd units (ofChar_ne_nil c)
          | cons u us => exact head (by decide)

end

/-- The line of an entry. -/
def line (e : String × String) : List Char := e.1.toList ++ '=' :: escape e.2

section

variable {key value : String}

theorem unescape_plain (h : PlainKey key) : unescape key.toList = key := by
  have units (cs : List Char) (done : List UInt16) (plain : ∀ c ∈ cs, isPlain c = true) :
      unescapeOnto done cs = done.reverse ++ cs.flatMap ofChar := by
    induction cs generalizing done with
    | nil => simp [unescapeOnto]
    | cons c cs ih =>
        rw [List.forall_mem_cons] at plain
        rw [unescapeOnto_plain (isPlain_iff.mp plain.1).2.1, ih _ plain.2]
        simp
  rw [unescape, units _ _ h.plain]
  exact Text.Utf16.decodeLossy_encode key

/-- An entry is read back from its line. -/
theorem entry_line (h : PlainKey key) : entry (line (key, value)) = (key, value) := by
  have written : splitValue ('=' :: escape value) = escape value := dropWhile_isGap_escape value
  rw [entry, line, splitKey_append h.plain]
  simp only [List.reverse_nil, List.nil_append, written, unescape_escape, unescape_plain h]

theorem inline_line (h : PlainKey key) : ∀ c ∈ line (key, value), Inline c := by
  have equals : Inline '=' := ⟨by decide, by decide⟩
  simp only [line, List.forall_mem_append, List.forall_mem_cons]
  exact ⟨fun c member => inline_of_isPlain (h.plain c member), equals, inline_escape value⟩

theorem not_continues_line (key value : String) : continues (line (key, value)) = false := by
  have start : continues (key.toList ++ ['=']) = false := continues_concat (by decide) _
  rw [line, ← List.singleton_append, ← List.append_assoc]
  exact not_continues_escape start value

/-- The line of an entry is no comment, and nothing is trimmed from it. -/
theorem line_start (h : PlainKey key) (value : String) :
    trimLeft (line (key, value)) = line (key, value) ∧ isVoid (line (key, value)) = false := by
  obtain ⟨c, cs, whole⟩ := List.exists_cons_of_ne_nil h.nonempty
  have first : isPlain c = true := by
    apply h.plain
    rw [whole]
    exact List.mem_cons_self ..
  obtain ⟨solid, -, -, -, hash, mark⟩ := isPlain_iff.mp first
  rw [line, whole, List.cons_append]
  refine ⟨List.dropWhile_cons_of_neg (by rw [solid]; exact Bool.false_ne_true), ?_⟩
  simp [isVoid, hash, mark]

end

/-! ### Files -/

variable {entries : List (String × String)}

theorem lines_render (plain : ∀ e ∈ entries, PlainKey e.1) :
    lines (render entries) = entries.map line := by
  induction entries with
  | nil => rfl
  | cons e entries ih =>
      rw [List.forall_mem_cons] at plain
      have whole : render (e :: entries) = String.ofList (line e ++ ['\n']) ++ render entries := by
        apply String.toList_inj.mp
        simp [render, line]
      rw [whole, lines_cons (inline_line plain.1), ih plain.2, List.map_cons]

theorem entriesOnto_line {done : List (String × String)} (plain : ∀ e ∈ entries, PlainKey e.1) :
    entriesOnto done [] (entries.map line) = done.reverse ++ entries := by
  induction entries generalizing done with
  | nil => simp [entriesOnto]
  | cons e entries ih =>
      rw [List.forall_mem_cons] at plain
      obtain ⟨trimmed, filled⟩ := line_start plain.1 e.2
      rw [List.map_cons, entriesOnto, trimmed, filled, not_continues_line]
      simp only [List.isEmpty_nil, Bool.and_false, Bool.false_eq_true, if_false, List.nil_append]
      rw [entry_line plain.1, ih plain.2, List.reverse_cons, List.append_assoc]
      rfl

/-- The entries of a property file are read back from it, if their keys need no escapes. The values
may be any texts. -/
theorem parse_render (plain : ∀ e ∈ entries, PlainKey e.1) : parse (render entries) = entries := by
  rw [parse, lines_render plain, entriesOnto_line plain]
  rfl

/-- A comment in front of a text is passed over. -/
theorem parse_comment {comment : List Char} (inline : ∀ c ∈ comment, Inline c) (text : String) :
    parse (String.ofList ('#' :: comment ++ ['\n']) ++ text) = parse text := by
  have mark : Inline '#' := ⟨by decide, by decide⟩
  rw [parse, lines_cons (List.forall_mem_cons.mpr ⟨mark, inline⟩)]
  rfl

end JarGate.Properties
