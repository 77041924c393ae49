import JarGate.Proofs.Format.Octets
import JarGate.Proofs.Success

/-!
# What decoders accept

A grammar says which octets stand for which value at a position. `Decoder.Accepts d G` says that `d`
reads exactly what `G` describes: whatever it takes from the front of its input is described, and
whatever is described it takes, with any octets behind. Decoders are composed by `bind`, and so are
their grammars; one lemma for each combinator therefore yields both directions of every codec.

Faults are not part of the notion: a grammar does not say how a decoder fails.
-/

namespace JarGate

variable {α β γ : Type}

/-- The octets that stand for a value at a position. -/
abbrev Grammar (α : Type) := Nat → Bytes → α → Prop

namespace Grammar

/-- No octets, for one value. -/
protected def pure (a : α) : Grammar α := fun _ bs b => bs = [] ∧ b = a

/-- One part after another; the second may depend on the value of the first. -/
protected def bind (G : Grammar α) (H : α → Grammar β) : Grammar β := fun pos bs b =>
  ∃ a xs ys, bs = xs ++ ys ∧ G pos xs a ∧ H a (pos + xs.length) ys b

/-- Values one after another. -/
inductive Many (G : Grammar α) : Grammar (List α)
  | nil (pos : Nat) : Many G pos [] []
  | cons {pos : Nat} {xs ys : Bytes} {a : α} {as : List α} (head : G pos xs a)
      (tail : Many G (pos + xs.length) ys as) : Many G pos (xs ++ ys) (a :: as)

/-- Values whose grammar does not depend on the position are described by their own octets, one
after another. -/
theorem many_iff {R : α → Bytes → Prop} {pos : Nat} {bs : Bytes} {as : List α} :
    Many (fun _ bs a => R a bs) pos bs as ↔
      ∃ chunks, List.Forall₂ R as chunks ∧ bs = chunks.flatten := by
  constructor
  · intro h
    induction h with
    | nil pos => exact ⟨[], .nil, rfl⟩
    | cons head _ ih =>
        obtain ⟨chunks, each, rfl⟩ := ih
        exact ⟨_ :: chunks, .cons head each, rfl⟩
  · rintro ⟨chunks, each, rfl⟩
    induction each generalizing pos with
    | nil => exact .nil pos
    | cons head _ ih => exact .cons head ih

/-- Values whose octets are a function of them. -/
theorem many_exact_iff {f : α → Bytes} {P : α → Prop} {pos : Nat} {bs : Bytes} {as : List α} :
    Many (fun _ bs a => bs = f a ∧ P a) pos bs as ↔ bs = as.flatMap f ∧ ∀ a ∈ as, P a := by
  constructor
  · intro h
    induction h with
    | nil pos => exact ⟨rfl, nofun⟩
    | cons head _ ih =>
        obtain ⟨rfl, holds⟩ := head
        obtain ⟨rfl, all⟩ := ih
        exact ⟨rfl, List.forall_mem_cons.mpr ⟨holds, all⟩⟩
  · rintro ⟨rfl, all⟩
    induction as generalizing pos with
    | nil => exact .nil pos
    | cons a as ih =>
        obtain ⟨holds, all⟩ := List.forall_mem_cons.mp all
        exact .cons ⟨rfl, holds⟩ (ih all)

end Grammar

namespace Decoder

/-- A decoder that never succeeds. -/
def Fails (d : Decoder α) : Prop := ∀ c, ∃ e, d c = .error e

theorem fails_fault (why : Fault) : Fails (fault why : Decoder α) := fun _ => ⟨_, rfl⟩

theorem fails_throw (e : ClassError) : Fails (throw e : Decoder α) := fun _ => ⟨e, rfl⟩

theorem Fails.bind {d : Decoder α} (h : Fails d) (f : α → Decoder β) : Fails (d >>= f) := by
  intro c
  obtain ⟨e, failed⟩ := h c
  refine ⟨e, ?_⟩
  change (d c >>= fun p => f p.1 p.2) = .error e
  rw [failed]
  rfl

/-- A decoder reads exactly what a grammar describes. Octets are taken up to the largest position
only, which is why that bound stands in the second direction. -/
structure Accepts (d : Decoder α) (G : Grammar α) : Prop where
  sound : ∀ {c c' : Cursor} {a : α}, d c = .ok (a, c') →
    ∃ bs, c.rest = bs ++ c'.rest ∧ c'.pos = c.pos + bs.length ∧ G c.pos bs a
  complete : ∀ {pos : Nat} {bs : Bytes} {a : α} (rest : Bytes), G pos bs a →
    pos + bs.length < positionLimit → d ⟨pos, bs ++ rest⟩ = .ok (a, ⟨pos + bs.length, rest⟩)

namespace Accepts

variable {d : Decoder α} {G H : Grammar α}

theorem congr (h : Accepts d G) (same : ∀ pos bs a, G pos bs a ↔ H pos bs a) : Accepts d H where
  sound read := by
    obtain ⟨bs, split, moved, described⟩ := h.sound read
    exact ⟨bs, split, moved, (same _ _ _).mp described⟩
  complete rest described fits := h.complete rest ((same _ _ _).mpr described) fits

theorem of_fails (h : Fails d) (none : ∀ pos bs a, ¬ G pos bs a) : Accepts d G where
  sound {c} _ _ read := by
    obtain ⟨e, failed⟩ := h c
    rw [failed] at read
    cases read
  complete _ described := absurd described (none _ _ _)

theorem pure (a : α) : Accepts (Pure.pure a) (Grammar.pure a) where
  sound {c} _ _ read := by
    cases read
    exact ⟨[], rfl, rfl, rfl, rfl⟩
  complete {pos _ _} rest described _ := by
    obtain ⟨rfl, rfl⟩ := described
    rfl

theorem bind {f : α → Decoder β} {F : α → Grammar β} (h : Accepts d G)
    (next : ∀ a, Accepts (f a) (F a)) : Accepts (d >>= f) (G.bind F) where
  sound {c c' b} read := by
    change (d c >>= fun p => f p.1 p.2) = .ok (b, c') at read
    cases first : d c with
    | error e =>
        rw [first] at read
        cases read
    | ok p =>
        rw [first] at read
        obtain ⟨xs, split, moved, described⟩ := h.sound first
        obtain ⟨ys, split', moved', described'⟩ := (next p.1).sound read
        refine ⟨xs ++ ys, ?_, ?_, p.1, xs, ys, rfl, described, ?_⟩
        · rw [split, split', List.append_assoc]
        · rw [moved', moved, List.length_append, Nat.add_assoc]
        · rwa [← moved]
  complete {pos bs b} rest described fits := by
    obtain ⟨a, xs, ys, rfl, first, second⟩ := described
    rw [List.length_append] at fits
    change (d ⟨pos, xs ++ ys ++ rest⟩ >>= fun p => f p.1 p.2) = _
    rw [List.append_assoc, h.complete (ys ++ rest) first (by omega)]
    change f a ⟨pos + xs.length, ys ++ rest⟩ = _
    rw [(next a).complete rest second (by omega), List.length_append, Nat.add_assoc]

/-- Parts of which the first consists of parts itself. -/
theorem bind_assoc {g : α → Decoder β} {f : β → Decoder γ} {G : Grammar β} {F : β → Grammar γ}
    (h : Accepts (d >>= g) G) (next : ∀ b, Accepts (f b) (F b)) :
    Accepts (d >>= fun a => g a >>= f) (G.bind F) := by
  rw [← LawfulMonad.bind_assoc]
  exact h.bind next

/-- A computation that reads nothing. -/
theorem lift (x : Except ClassError α) :
    Accepts (liftM x : Decoder α) (fun _ bs a => bs = [] ∧ x = .ok a) where
  sound {c c' a} read := by
    cases x with
    | error e => cases read
    | ok b =>
        cases read
        exact ⟨[], rfl, rfl, rfl, rfl⟩
  complete {pos _ _} rest described _ := by
    obtain ⟨rfl, rfl⟩ := described
    rfl

/-- A computation whose value is not used. -/
theorem check {x : Except ClassError β} (h : Accepts d G) :
    Accepts (do let _ ← (liftM x : Decoder β); d) (fun pos bs a => (∃ b, x = .ok b) ∧ G pos bs a) := by
  refine ((lift x).bind fun _ => h).congr fun pos bs a => ⟨?_, ?_⟩
  · rintro ⟨b, _, ys, rfl, ⟨rfl, succeeded⟩, described⟩
    exact ⟨⟨b, succeeded⟩, described⟩
  · rintro ⟨⟨b, succeeded⟩, described⟩
    exact ⟨b, [], bs, rfl, ⟨rfl, succeeded⟩, described⟩

/-- A computation that is done only where a test holds, and whose value is not used. -/
theorem checkIf {p : Prop} [Decidable p] {x : Except ClassError β} (h : Accepts d G) :
    Accepts (if p then do let _ ← (liftM x : Decoder β); d else d)
      (fun pos bs a => (p → ∃ b, x = .ok b) ∧ G pos bs a) := by
  by_cases test : p
  · rw [if_pos test]
    exact h.check.congr fun _ _ _ => by simp [test]
  · rw [if_neg test]
    exact h.congr fun _ _ _ => by simp [test]

/-- A decoder that goes on only where a test fails. -/
theorem refuse {p : Prop} [Decidable p] {fail : Decoder α} (fails : Fails fail)
    (h : Accepts d G) : Accepts (if p then fail else d) (fun pos bs a => ¬ p ∧ G pos bs a) := by
  by_cases test : p
  · rw [if_pos test]
    exact of_fails fails fun _ _ _ described => described.1 test
  · rw [if_neg test]
    exact h.congr fun _ _ _ => by simp [test]

theorem ite {p : Prop} [Decidable p] {e : Decoder α} (h : Accepts d G) (other : Accepts e H) :
    Accepts (if p then d else e) (fun pos bs a => if p then G pos bs a else H pos bs a) := by
  by_cases test : p
  · simpa only [if_pos test] using h
  · simpa only [if_neg test] using other

/-- A value that is read through a bijection. -/
theorem through {f : α → β} {g : β → α} (left : ∀ a, g (f a) = a) (right : ∀ b, f (g b) = b)
    (h : Accepts d G) : Accepts (do return f (← d)) (fun pos bs b => G pos bs (g b)) := by
  refine (h.bind fun a => .pure (f a)).congr fun pos bs b => ⟨?_, ?_⟩
  · rintro ⟨a, xs, _, rfl, described, rfl, rfl⟩
    rwa [List.append_nil, left]
  · intro described
    exact ⟨g b, bs, [], (List.append_nil bs).symm, described, rfl, (right b).symm⟩

end Accepts

/-! ### Numbers and runs of octets -/

theorem accepts_u8 : Accepts u8 (fun _ bs a => bs = [a]) where
  sound {c c' a} read := by
    rcases c with ⟨pos, _ | ⟨b, rest⟩⟩
    · cases read
    · cases read
      exact ⟨[a], rfl, rfl, rfl⟩
  complete rest described _ := by
    subst described
    rfl

theorem accepts_u16 : Accepts u16 (fun _ bs a => bs = be16 a) where
  sound {c c' n} read := by
    rcases c with ⟨pos, _ | ⟨a, _ | ⟨b, rest⟩⟩⟩
    · cases read
    · cases read
    · cases read
      exact ⟨[a, b], rfl, rfl, (be16_word16 a b).symm⟩
  complete {pos _ n} rest described _ := by
    subst described
    change Except.ok (word16 _ _, Cursor.mk (pos + 2) rest) = _
    rw [word16_be16]
    rfl

theorem u32_eq (pos : Nat) (a b : UInt16) (rest : Bytes) :
    u32 ⟨pos, be16 a ++ be16 b ++ rest⟩ = .ok (word32 a b, ⟨pos + 4, rest⟩) := by
  have regroup (p q r s : Nat) :
      ((p * 0x100 + q) * 0x100 + r) * 0x100 + s = (p * 0x100 + q) * 0x10000 + (r * 0x100 + s) := by
    omega
  simp only [be16, List.cons_append, List.nil_append, u32]
  rw [regroup, octets_toNat, octets_toNat]
  rfl

theorem accepts_u32 : Accepts u32 (fun _ bs a => bs = be32 a) where
  sound {c c' n} read := by
    rcases c with ⟨pos, _ | ⟨a, _ | ⟨b, _ | ⟨d, _ | ⟨e, rest⟩⟩⟩⟩⟩
    · cases read
    · cases read
    · cases read
    · cases read
    · have split : a :: b :: d :: e :: rest = be16 (word16 a b) ++ be16 (word16 d e) ++ rest := by
        rw [be16_word16, be16_word16]
        rfl
      rw [split, u32_eq] at read
      cases read
      refine ⟨be32 (word32 (word16 a b) (word16 d e)), ?_, rfl, rfl⟩
      rw [be32_word32]
      exact split
  complete {pos _ n} rest described _ := by
    subst described
    rw [be32_eq, u32_eq, word32_be32]
    rfl

theorem u64_eq (pos : Nat) (a b : UInt32) (rest : Bytes) :
    u64 ⟨pos, be32 a ++ be32 b ++ rest⟩ = .ok (word64 a b, ⟨pos + 8, rest⟩) := by
  have regroup (p q r s t u v w : Nat) :
      (((((((0 * 0x100 + p) * 0x100 + q) * 0x100 + r) * 0x100 + s) * 0x100 + t) * 0x100 + u) *
        0x100 + v) * 0x100 + w =
      (((p * 0x100 + q) * 0x100 + r) * 0x100 + s) * 0x100000000 +
        (((t * 0x100 + u) * 0x100 + v) * 0x100 + w) := by
    omega
  simp only [be32, List.cons_append, List.nil_append, u64, List.foldl_cons, List.foldl_nil]
  rw [regroup, octets32_toNat, octets32_toNat]
  rfl

theorem accepts_u64 : Accepts u64 (fun _ bs a => bs = be64 a) where
  sound {c c' n} read := by
    rcases c with ⟨pos, _ | ⟨b0, _ | ⟨b1, _ | ⟨b2, _ | ⟨b3, _ | ⟨b4, _ | ⟨b5, _ | ⟨b6, _ | ⟨b7,
      rest⟩⟩⟩⟩⟩⟩⟩⟩⟩
    iterate 8 cases read
    have split : b0 :: b1 :: b2 :: b3 :: b4 :: b5 :: b6 :: b7 :: rest =
        be32 (word32 (word16 b0 b1) (word16 b2 b3)) ++
          be32 (word32 (word16 b4 b5) (word16 b6 b7)) ++ rest := by
      simp only [be32_word32, be16_word16]
      rfl
    rw [split, u64_eq] at read
    cases read
    refine ⟨_, ?_, rfl, rfl⟩
    rw [be64_word64]
    exact split
  complete {pos _ n} rest described _ := by
    subst described
    rw [be64, u64_eq, word64_be64]
    rfl

theorem accepts_i8 : Accepts i8 (fun _ bs a => bs = [a.toUInt8]) :=
  accepts_u8.through (fun _ => UInt8.toUInt8_toInt8 _) Int8.toInt8_toUInt8

theorem accepts_i16 : Accepts i16 (fun _ bs a => bs = be16 a.toUInt16) :=
  accepts_u16.through (fun _ => UInt16.toUInt16_toInt16 _) Int16.toInt16_toUInt16

theorem accepts_i32 : Accepts i32 (fun _ bs a => bs = be32 a.toUInt32) :=
  accepts_u32.through (fun _ => UInt32.toUInt32_toInt32 _) Int32.toInt32_toUInt32

theorem splitOnto_eq_some_iff {done bytes taken rest : Bytes} {n : Nat} :
    splitOnto done n bytes = some (taken, rest) ↔
      ∃ bs, bytes = bs ++ rest ∧ bs.length = n ∧ taken = done.reverse ++ bs := by
  induction n generalizing done bytes with
  | zero =>
      simp only [splitOnto, Option.some.injEq, Prod.mk.injEq, List.length_eq_zero_iff]
      constructor
      · rintro ⟨rfl, rfl⟩
        exact ⟨[], by simp⟩
      · rintro ⟨_, rfl, rfl, rfl⟩
        simp
  | succ n ih =>
      cases bytes with
      | nil =>
          simp only [splitOnto]
          constructor
          · intro h
            cases h
          · rintro ⟨bs, split, len, _⟩
            obtain ⟨rfl, rfl⟩ := List.append_eq_nil_iff.mp split.symm
            cases len
      | cons b bytes =>
          rw [splitOnto, ih]
          constructor
          · rintro ⟨bs, rfl, rfl, rfl⟩
            exact ⟨b :: bs, by simp⟩
          · rintro ⟨_ | ⟨b', bs⟩, split, len, rfl⟩
            · cases len
            · obtain ⟨rfl, rfl⟩ := List.cons_eq_cons.mp split
              exact ⟨bs, by simpa using len⟩

theorem accepts_take (n : Nat) : Accepts (take n) (fun _ bs a => bs = a ∧ a.length = n) where
  sound {c c' a} read := by
    simp only [take] at read
    split at read
    · split at read
      next taken rest found =>
        cases read
        obtain ⟨bs, split, len, same⟩ := splitOnto_eq_some_iff.mp found
        exact ⟨bs, split, by rw [len], same.symm, by rw [same]; exact len⟩
      next => cases read
    · cases read
  complete {pos bs a} rest described fits := by
    obtain ⟨rfl, rfl⟩ := described
    have found : splitOnto [] bs.length (bs ++ rest) = some (bs, rest) :=
      splitOnto_eq_some_iff.mpr ⟨bs, rfl, rfl, rfl⟩
    simp only [take, if_pos fits, found]

theorem accepts_align4 :
    Accepts align4 (fun pos bs _ => bs.length = (4 - pos % 4) % 4) where
  sound {c c' a} read := by
    obtain ⟨⟨bs, c⟩, read, h⟩ := map_eq_ok_iff.mp read
    cases h
    obtain ⟨taken, split, moved, rfl, len⟩ := (accepts_take _).sound read
    exact ⟨taken, split, moved, len⟩
  complete {pos bs a} rest described fits := by
    simp only [align4]
    rw [← described, (accepts_take bs.length).complete rest ⟨rfl, rfl⟩ fits]
    rfl

theorem accepts_position : Accepts position (fun pos bs a => bs = [] ∧ a = pos) where
  sound {c c' a} read := by
    cases read
    exact ⟨[], rfl, rfl, rfl, rfl⟩
  complete rest described _ := by
    obtain ⟨rfl, rfl⟩ := described
    rfl

/-! ### Repetition and whole inputs -/

variable {d : Decoder α} {G : Grammar α}

theorem manyOnto_eq (n : Nat) (done : List α) (c : Cursor) :
    manyOnto d n done c = (many n d c).map fun p => (done.reverse ++ p.1, p.2) := by
  induction n generalizing done c with
  | zero => simp [manyOnto, many, Except.map]
  | succ n ih =>
      simp only [manyOnto, many]
      cases d c with
      | error e => rfl
      | ok p =>
          change manyOnto d n (p.1 :: done) p.2 = (manyOnto d n [p.1] p.2).map _
          rw [ih, ih [p.1]]
          cases many n d p.2 <;> simp [Except.map]

theorem many_succ (n : Nat) : many (n + 1) d = do return (← d) :: (← many n d) := by
  funext c
  change manyOnto d (n + 1) [] c = d c >>= fun p => many n d p.2 >>= fun q => pure (p.1 :: q.1, q.2)
  simp only [manyOnto]
  cases d c with
  | error e => rfl
  | ok p =>
      change manyOnto d n [p.1] p.2 = many n d p.2 >>= fun q => pure (p.1 :: q.1, q.2)
      rw [manyOnto_eq]
      cases many n d p.2 <;> rfl

theorem Accepts.many (h : Accepts d G) (n : Nat) :
    Accepts (many n d) (fun pos bs as => as.length = n ∧ G.Many pos bs as) := by
  induction n with
  | zero =>
      refine (Accepts.pure []).congr fun pos bs as => ⟨?_, ?_⟩
      · rintro ⟨rfl, rfl⟩
        exact ⟨rfl, .nil pos⟩
      · rintro ⟨len, run⟩
        cases run with
        | nil => exact ⟨rfl, rfl⟩
        | cons => cases len
  | succ n ih =>
      rw [many_succ]
      refine (h.bind fun a => ih.bind fun as => .pure (a :: as)).congr fun pos bs as => ⟨?_, ?_⟩
      · rintro ⟨a, xs, _, rfl, head, as, ys, _, rfl, ⟨rfl, tail⟩, rfl, rfl⟩
        rw [List.append_nil]
        exact ⟨rfl, .cons head tail⟩
      · rintro ⟨len, run⟩
        cases run with
        | nil => cases len
        | cons head tail =>
            exact ⟨_, _, _, rfl, head, _, _, [], (List.append_nil _).symm,
              ⟨Nat.succ.inj len, tail⟩, rfl, rfl⟩

/-- A whole input is read as a value that its octets stand for. -/
theorem Accepts.onAll_sound (h : Accepts d G) {trailing : Nat → Fault} {bytes : Bytes} {a : α}
    (read : onAll d trailing bytes = .ok a) : G 0 bytes a := by
  simp only [onAll] at read
  split at read
  · cases read
  next b c first =>
    split at read
    next atEnd =>
      cases read
      obtain ⟨bs, split, _, described⟩ := h.sound first
      rw [Cursor.atEnd, List.isEmpty_iff] at atEnd
      rw [atEnd, List.append_nil] at split
      rwa [← split] at described
    next => cases read

theorem Accepts.onAll_complete (h : Accepts d G) {trailing : Nat → Fault} {bytes : Bytes} {a : α}
    (described : G 0 bytes a) (fits : bytes.length < positionLimit) :
    onAll d trailing bytes = .ok a := by
  have read := h.complete [] described (by omega)
  rw [List.append_nil] at read
  simp only [onAll, Cursor.ofBytes, read]
  rfl

end Decoder

end JarGate
