import JarGate.Proofs.Pool.Requests

/-!
# What a method asks the pool for

The locals at the entry of a method name the class of the method and the reference types of its
parameters. All that computing them does to a pool is to ask it for these classes, which says once when it
fails and which texts it adds.
-/

namespace JarGate

namespace ConstantPool

variable {α β : Type} {names : String → Prop} {texts : Bytes → Prop}

/-! ### Asking for classes only -/

/-- Whether all that an addition does is to ask for classes, whose names are among given ones. -/
inductive Asks (names : String → Prop) : {α : Type} → Addition α → Prop
  | pure {α : Type} (a : α) : Asks names (Pure.pure a : Addition α)
  | addClass {name : String} (named : names name) : Asks names (addClass name)
  | bind {α β : Type} {e : Addition α} {f : α → Addition β} (first : Asks names e)
      (next : ∀ a, Asks names (f a)) : Asks names (e >>= f)

theorem Asks.mapM {f : β → Addition α} {bs : List β} (each : ∀ b ∈ bs, Asks names (f b)) :
    Asks names (bs.mapM f) := by
  induction bs with
  | nil => exact .pure []
  | cons b bs ih =>
      obtain ⟨here, behind⟩ := List.forall_mem_cons.mp each
      rw [List.mapM_cons]
      exact here.bind fun _ => (ih behind).bind fun _ => .pure _

theorem asks_ofField {t : FieldType} (named : ∀ name, t.className? = some name → names name) :
    Asks names (VerificationType.ofField t) := by
  cases t with
  | object name => exact (Asks.addClass (named _ rfl)).bind fun _ => .pure _
  | array element => exact (Asks.addClass (named _ rfl)).bind fun _ => .pure _
  | _ => exact .pure _

theorem asks_initialLocals {className : String} {descriptor : MethodDescriptor} (own : names className)
    (named : ∀ t ∈ descriptor.params, ∀ name, t.className? = some name → names name)
    (isStatic : Bool) (methodName : String) :
    Asks names (Frame.initialLocals className isStatic methodName descriptor) := by
  have behind (receiver : List VerificationType) : Asks names (do
      return receiver ++ (← descriptor.params.mapM VerificationType.ofField)) :=
    (Asks.mapM fun t member => asks_ofField (named t member)).bind fun _ => .pure _
  unfold Frame.initialLocals
  dsimp only
  split
  · exact behind []
  · split
    · exact behind [.uninitializedThis]
    · exact (Asks.addClass own).bind fun i => behind [.object i]

/-! ### Full pools -/

theorem Asks.failsFull {e : Addition α} (h : Asks names e) : FailsFull e := by
  induction h with
  | pure a => exact nofun
  | addClass _ => exact .addClass _
  | bind _ _ ih ihs => exact ih.bind ihs

/-! ### Texts -/

/-- Whether all texts of a pool are among given ones. -/
def Texts (texts : Bytes → Prop) (pool : ConstantPool) : Prop :=
  ∀ octets, Constant.utf8 octets ∈ pool.entries.toList → texts octets

/-- Whether an addition that succeeds adds no texts but given ones. -/
def KeepsTexts (texts : Bytes → Prop) (e : Addition α) : Prop :=
  ∀ (p q : ConstantPool) (a : α), e p = .ok a q → p.Texts texts → q.Texts texts

namespace KeepsTexts

theorem pure (a : α) : KeepsTexts texts (Pure.pure a) := by
  intro p q b made kept
  obtain ⟨-, rfl⟩ := Edit.pure_eq_ok.mp made
  exact kept

theorem bind {e : Addition α} {f : α → Addition β} (first : KeepsTexts texts e)
    (next : ∀ a, KeepsTexts texts (f a)) : KeepsTexts texts (e >>= f) := by
  intro p q b made kept
  obtain ⟨a, m, made, made'⟩ := Edit.bind_eq_ok.mp made
  exact next a m q b made' (first p m a made kept)

theorem findOrPush {c : Constant} (narrow : c.isWide = false)
    (fits : ∀ octets, c = .utf8 octets → texts octets) : KeepsTexts texts (findOrPush c) := by
  intro p q a made kept
  rw [ConstantPool.findOrPush] at made
  split at made
  next =>
    cases made
    exact kept
  next =>
    simp only [push, narrow, Bool.false_eq_true, if_false] at made
    split at made
    next =>
      cases made
      intro octets member
      rw [Array.toList_push, List.mem_append, List.mem_singleton] at member
      rcases member with old | new
      · exact kept octets old
      · exact fits octets new.symm
    next => cases made

theorem addUtf8 {text : String} (fits : texts (Text.ModifiedUtf8.encode text)) :
    KeepsTexts texts (addUtf8 text) := by
  refine findOrPush rfl fun octets same => ?_
  cases same
  exact fits

theorem addClass {name : String} (fits : texts (Text.ModifiedUtf8.encode name)) :
    KeepsTexts texts (addClass name) :=
  (addUtf8 fits).bind fun _ => findOrPush rfl nofun

theorem addNameAndType {name descriptor : String} (first : texts (Text.ModifiedUtf8.encode name))
    (second : texts (Text.ModifiedUtf8.encode descriptor)) :
    KeepsTexts texts (addNameAndType name descriptor) :=
  (addUtf8 first).bind fun _ => (addUtf8 second).bind fun _ => findOrPush rfl nofun

theorem addMethodRef {owner name descriptor : String} (own : texts (Text.ModifiedUtf8.encode owner))
    (first : texts (Text.ModifiedUtf8.encode name))
    (second : texts (Text.ModifiedUtf8.encode descriptor)) :
    KeepsTexts texts (addMethodRef owner name descriptor) :=
  (addClass own).bind fun _ => (addNameAndType first second).bind fun _ => findOrPush rfl nofun

end KeepsTexts

theorem Asks.keepsTexts {e : Addition α} (h : Asks names e)
    (fits : ∀ name, names name → texts (Text.ModifiedUtf8.encode name)) : KeepsTexts texts e := by
  induction h with
  | pure a => exact .pure a
  | addClass named => exact .addClass (fits _ named)
  | bind _ _ ih ihs => exact ih.bind ihs

/-! ### Answers -/

/-- Whether all that an addition answers has a property. -/
def Answers (e : Addition α) (Q : α → Prop) : Prop := ∀ (p q : ConstantPool) (a : α), e p = .ok a q → Q a

namespace Answers

variable {Q : α → Prop} {R : β → Prop}

theorem pure {a : α} (holds : Q a) : Answers (Pure.pure a) Q := by
  intro p q b made
  obtain ⟨rfl, -⟩ := Edit.pure_eq_ok.mp made
  exact holds

theorem bind {e : Addition α} {f : α → Addition β} (first : Answers e Q)
    (next : ∀ a, Q a → Answers (f a) R) : Answers (e >>= f) R := by
  intro p q b made
  obtain ⟨a, m, made, made'⟩ := Edit.bind_eq_ok.mp made
  exact next a (first p m a made) m q b made'

theorem anything (e : Addition α) : Answers e fun _ => True := fun _ _ _ _ => trivial

theorem mapM {f : β → Addition α} (each : ∀ b, Answers (f b) Q) (bs : List β) :
    Answers (bs.mapM f) fun as => ∀ a ∈ as, Q a := by
  induction bs with
  | nil => exact .pure nofun
  | cons b bs ih =>
      rw [List.mapM_cons]
      exact (each b).bind fun _ here => ih.bind fun _ behind =>
        .pure (List.forall_mem_cons.mpr ⟨here, behind⟩)

end Answers

theorem answers_ofField (t : FieldType) :
    Answers (VerificationType.ofField t) fun v => ∀ o, v ≠ .uninitialized o := by
  cases t with
  | object name => exact (Answers.anything _).bind fun _ _ => .pure nofun
  | array element => exact (Answers.anything _).bind fun _ _ => .pure nofun
  | _ => exact .pure nofun

/-- At the entry of a method no local holds an object that the method has made. -/
theorem answers_initialLocals (className : String) (isStatic : Bool) (methodName : String)
    (descriptor : MethodDescriptor) :
    Answers (Frame.initialLocals className isStatic methodName descriptor) fun initial =>
      ∀ o, .uninitialized o ∉ initial := by
  have behind (receiver : List VerificationType) (settled : ∀ o, .uninitialized o ∉ receiver) :
      Answers (do return receiver ++ (← descriptor.params.mapM VerificationType.ofField))
        fun initial => ∀ o, .uninitialized o ∉ initial := by
    refine (Answers.mapM answers_ofField _).bind fun types each => .pure fun o member => ?_
    rcases List.mem_append.mp member with here | there
    · exact settled o here
    · exact each _ there o rfl
  unfold Frame.initialLocals
  dsimp only
  split
  · exact behind [] (by simp)
  · split
    · exact behind [.uninitializedThis] (by simp)
    · exact (Answers.anything _).bind fun i _ => behind [.object i] (by simp)

end ConstantPool

end JarGate
