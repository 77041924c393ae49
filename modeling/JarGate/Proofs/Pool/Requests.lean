import JarGate.Proofs.Format.Classes
import JarGate.Proofs.Pool.Repetition

/-!
# Requests to a pool

All that is ever added to a pool is asked for by one of six requests, each for the index of a constant
that stands for given texts. A request that fails may leave some of the constants behind that it needs,
and the next one goes on from there. Whatever the requests are, the pool only grows at its end and stays
well formed; so an index that was once answered keeps its meaning, and a request that is made again
finds all that it needs.
-/

namespace JarGate

namespace ConstantPool

/-! ### Full pools -/

section

variable {α β : Type}

/-- Whether an addition fails only where it leaves a full pool behind. -/
def FailsFull (e : Addition α) : Prop :=
  ∀ (p q : ConstantPool) (why : ClassError), e p = .error why q →
    why = .overflow .poolFull ∧ 0xFFFF ≤ q.count

namespace FailsFull

theorem bind {e : Addition α} {f : α → Addition β} (h : FailsFull e) (next : ∀ a, FailsFull (f a)) :
    FailsFull (e >>= f) := by
  intro p q why failed
  rw [Edit.bind_run] at failed
  cases first : e p with
  | ok a m =>
      rw [first] at failed
      exact next a m q why failed
  | error err m =>
      rw [first] at failed
      cases failed
      exact h p q why first

theorem findOrPush {c : Constant} (narrow : c.isWide = false) : FailsFull (findOrPush c) := by
  intro p q why failed
  rw [ConstantPool.findOrPush] at failed
  split at failed
  next => cases failed
  next =>
    simp only [push, narrow, Bool.false_eq_true, if_false] at failed
    split at failed
    next => cases failed
    next full =>
      cases failed
      exact ⟨rfl, by omega⟩

theorem addUtf8 (text : String) : FailsFull (addUtf8 text) := findOrPush rfl

theorem addClass (name : String) : FailsFull (addClass name) :=
  (addUtf8 name).bind fun _ => findOrPush rfl

theorem addNameAndType (name descriptor : String) : FailsFull (addNameAndType name descriptor) :=
  (addUtf8 name).bind fun _ => (addUtf8 descriptor).bind fun _ => findOrPush rfl

end FailsFull

end

/-! ### Requests -/

/-- What a pool is asked for. -/
inductive Request where
  | utf8 (text : String)
  | classInfo (name : String)
  | string (value : String)
  | nameAndType (name descriptor : String)
  | fieldRef (owner name descriptor : String)
  | methodRef (owner name descriptor : String)
  deriving DecidableEq, Repr

/-- Whether a pool is without constants or was read, by itself or with a class. -/
inductive Original : ConstantPool → Prop
  | empty : Original .empty
  | read {pool : ConstantPool} {before behind : Cursor}
      (read : ConstantPool.read before = .ok (pool, behind)) : Original pool
  | decode {c : ClassFile} {data : Bytes} (decoded : ClassFile.decode data = .ok c) : Original c.pool

theorem Original.wellFormed {pool : ConstantPool} (original : pool.Original) : pool.WellFormed := by
  cases original with
  | empty => exact ⟨by decide, ⟨[], rfl, .nil⟩, rfl⟩
  | read read =>
      obtain ⟨_, -, -, -, wellFormed⟩ := accepts_read.sound read
      exact wellFormed
  | decode decoded => exact (ClassFile.wellFormed_of_decode decoded).pool

namespace Request

variable {p q : ConstantPool} {index : UInt16}

/-- The addition that a request is met by. -/
def addition : Request → Addition UInt16
  | utf8 text => addUtf8 text
  | classInfo name => addClass name
  | string value => addString value
  | nameAndType name descriptor => addNameAndType name descriptor
  | fieldRef owner name descriptor => addFieldRef owner name descriptor
  | methodRef owner name descriptor => addMethodRef owner name descriptor

/-- What requests make of a pool, one after another. -/
def run (requests : List Request) (pool : ConstantPool) : ConstantPool :=
  requests.foldl (fun pool r => r.addition.final pool) pool

/-- Whether an index stands for the texts of a request, in a constant of the kind that was asked for. -/
def ResolvesTo (r : Request) (pool : ConstantPool) (index : UInt16) : Prop :=
  match r with
  | utf8 text => pool.utf8 index = .ok text
  | classInfo name => pool.className index = .ok name
  | string value => ∃ i, pool.get index = .ok (.string i) ∧ pool.utf8 i = .ok value
  | nameAndType name descriptor => pool.nameAndType index = .ok (name, descriptor)
  | fieldRef owner name descriptor =>
    (∃ o s, pool.get index = .ok (.fieldRef o s)) ∧ pool.memberRef index = .ok ⟨owner, name, descriptor⟩
  | methodRef owner name descriptor =>
    (∃ o s, pool.get index = .ok (.methodRef o s)) ∧ pool.memberRef index = .ok ⟨owner, name, descriptor⟩

/-! ### One request -/

theorem adds (r : Request) : Adds (fun _ => True) r.addition (fun q i => r.ResolvesTo q i) := by
  cases r with
  | utf8 text => exact (adds_utf8 persistent_true text).imp fun found => found.1.1
  | classInfo name => exact (adds_class persistent_true name).imp fun found => found.1.1
  | string value => exact (adds_string persistent_true value).imp fun found => found.1
  | nameAndType name descriptor =>
      exact (adds_nameAndType persistent_true name descriptor).imp fun found => found.1.1
  | fieldRef owner name descriptor =>
      exact (adds_fieldRef persistent_true owner name descriptor).imp fun found => found.1
  | methodRef owner name descriptor =>
      exact (adds_methodRef persistent_true owner name descriptor).imp fun found => found.1

theorem repeats (r : Request) : Repeats r.addition := by
  cases r with
  | utf8 text => exact repeats_utf8 text
  | classInfo name => exact repeats_class name
  | string value => exact repeats_string value
  | nameAndType name descriptor => exact repeats_nameAndType name descriptor
  | fieldRef owner name descriptor => exact repeats_fieldRef owner name descriptor
  | methodRef owner name descriptor => exact repeats_methodRef owner name descriptor

theorem failsFull (r : Request) : FailsFull r.addition := by
  cases r with
  | utf8 text => exact .addUtf8 text
  | classInfo name => exact .addClass name
  | string value => exact (FailsFull.addUtf8 value).bind fun _ => .findOrPush rfl
  | nameAndType name descriptor => exact .addNameAndType name descriptor
  | fieldRef owner name descriptor | methodRef owner name descriptor =>
      exact (FailsFull.addClass owner).bind fun _ => (FailsFull.addNameAndType name descriptor).bind
        fun _ => .findOrPush rfl

theorem ResolvesTo.extends {r : Request} (h : r.ResolvesTo p index) (grown : p.Extends q) :
    r.ResolvesTo q index := by
  cases r with
  | utf8 text => exact grown.utf8 h
  | classInfo name => exact grown.className h
  | string value => exact h.imp fun _ found => ⟨grown.get found.1, grown.utf8 found.2⟩
  | nameAndType name descriptor => exact grown.nameAndType h
  | fieldRef owner name descriptor | methodRef owner name descriptor =>
      exact ⟨h.1.imp fun _ => Exists.imp fun _ => grown.get, grown.memberRef h.2⟩

/-! ### Many requests -/

theorem grown_run (requests : List Request) (sound : p.WellFormed) : Grown p (run requests p) := by
  induction requests generalizing p with
  | nil => exact .refl sound
  | cons r rs ih =>
      have first := r.adds.final sound
      exact first.trans (ih first.wellFormed)

/-- Additions to a pool are append-only, faithful and idempotent. Behind any requests to an original pool,
it has at most 65535 indices, all links between its constants are of the kinds that they have to be, and
no request changes what is at an index that is taken, also if it fails. A request fails only where it
leaves no index of the pool free. An index that was answered stands for just the texts that were asked
for, at once and behind any later requests, and the same request then answers it again and adds
nothing. -/
theorem run_faithful {pool : ConstantPool} (original : pool.Original) (earlier : List Request) :
    let p := run earlier pool
    p.count ≤ 65535 ∧ (∀ c ∈ p.entries.toList, p.Linked c) ∧ pool.Extends p ∧
      (∀ later, p.Extends (run later p)) ∧
      (∀ (r : Request) (why : ClassError) (q : ConstantPool), r.addition p = .error why q →
        why = .overflow .poolFull ∧ q.count = 65535) ∧
      ∀ (r : Request) (index : UInt16) (q : ConstantPool), r.addition p = .ok index q →
        ∀ later, r.ResolvesTo (run later q) index ∧
          r.addition (run later q) = .ok index (run later q) := by
  intro p
  have here : Grown pool p := grown_run earlier original.wellFormed
  refine ⟨Nat.le_of_lt_succ here.wellFormed.small, check?_eq_none_iff.mp here.wellFormed.links,
    here.extends_, fun later => (grown_run later here.wellFormed).extends_, ?_, ?_⟩
  · intro r why q failed
    obtain ⟨full, none⟩ := r.failsFull p q why failed
    have left := r.adds.final here.wellFormed
    rw [Edit.final, failed] at left
    exact ⟨full, Nat.le_antisymm (Nat.le_of_lt_succ left.wellFormed.small) none⟩
  · intro r index q answered later
    obtain ⟨step, resolves⟩ := r.adds.run here.wellFormed trivial answered
    have behind := grown_run later step.wellFormed
    obtain ⟨-, again⟩ := r.repeats p q index here.wellFormed.reserved answered
    exact ⟨resolves.extends behind.extends_, again _ behind.extends_⟩

/-- The octets of a pool that holds one text three times, first longer than it has to be written, and a
number of eight octets. -/
def repetitive : Bytes :=
  [0, 6, 1, 0, 2, 0xC1, 0x81, 1, 0, 1, 0x41, 1, 0, 1, 0x41, 5, 0, 0, 0, 0, 0, 0, 0, 7]

/-- The pool behind these octets, and a text that is written with five of them. -/
def repetitivePool : ConstantPool :=
  ⟨#[.unusable, .utf8 [0xC1, 0x81], .utf8 [0x41], .utf8 [0x41], .long 7, .unusable,
    .utf8 [0xC0, 0x80, 0x62], .string 6]⟩

/-- A reference to a method is put behind all that is there, and takes the second of the three texts. -/
theorem run_faithful_repetitive :
    ∃ pool behind q, ConstantPool.read (Cursor.ofBytes repetitive) = .ok (pool, behind) ∧
      run [.string "\u0000b"] pool = repetitivePool ∧
      addMethodRef "A" "A" "()V" repetitivePool = .ok 11 q ∧
      (run [.classInfo "A", .utf8 "c"] q).memberRef 11 = .ok ⟨"A", "A", "()V"⟩ ∧
      addMethodRef "A" "A" "()V" (run [.classInfo "A", .utf8 "c"] q) =
        .ok 11 (run [.classInfo "A", .utf8 "c"] q) := by
  have read : ConstantPool.read (Cursor.ofBytes repetitive) = .ok (⟨#[.unusable, .utf8 [0xC1, 0x81],
      .utf8 [0x41], .utf8 [0x41], .long 7, .unusable]⟩, ⟨24, []⟩) := by
    cbv
  have earlier : run [.string "\u0000b"] ⟨#[.unusable, .utf8 [0xC1, 0x81], .utf8 [0x41], .utf8 [0x41],
      .long 7, .unusable]⟩ = repetitivePool := by
    cbv
  have answered : (methodRef "A" "A" "()V").addition repetitivePool =
      .ok 11 ⟨repetitivePool.entries ++ #[.classInfo 2, .utf8 [0x28, 0x29, 0x56], .nameAndType 2 9,
        .methodRef 8 10]⟩ := by
    cbv
  obtain ⟨-, -, -, -, -, faithful⟩ := run_faithful (.read read) [.string "\u0000b"]
  rw [earlier] at faithful
  obtain ⟨resolves, again⟩ := faithful _ _ _ answered [.classInfo "A", .utf8 "c"]
  exact ⟨_, _, _, read, earlier, answered, resolves.2, again⟩

end Request

end ConstantPool

end JarGate
