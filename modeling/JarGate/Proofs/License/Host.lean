import JarGate.License.Host
import JarGate.Proofs.Text.Digits
import JarGate.Proofs.Text.Utf8

/-!
# Telling hosts apart

The name of a machine is the digest of its facts, which stand one after another with nothing between them.
So it tells two machines apart where this text differs, up to collisions of the digest, and no further: what
one fact loses at its end and the next one gains at its front is not seen.
-/

namespace JarGate

/-- Whether two messages are different and have one digest. -/
def Sha256.Collision (a b : Bytes) : Prop :=
  a ≠ b ∧ ofBytes a = ofBytes b

/-- Texts of the same lengths are told by what they are one after another. -/
theorem eq_iff_join_eq {ss ts : List String} :
    ss = ts ↔ String.join ss = String.join ts ∧ ss.map String.length = ts.map String.length := by
  have joined : String.join ss = String.join ts ↔
      (ss.map String.toList).flatten = (ts.map String.toList).flatten := by
    rw [← String.toList_inj, String.toList_join, String.toList_join, List.flatMap_def, List.flatMap_def]
  have measured (ss : List String) :
      ss.map String.length = (ss.map String.toList).map List.length := by
    rw [List.map_map]
    rfl
  have each : Function.Injective (List.map String.toList) :=
    List.map_injective_iff.mpr fun _ _ => String.toList_inj.mp
  rw [joined, measured, measured, ← List.eq_iff_flatten_eq, each.eq_iff]

/-- Texts of one length are told by what they are one after another. -/
theorem join_eq_iff_of_length {n : Nat} (positive : 0 < n) {ss ts : List String}
    (each : ∀ s ∈ ss, s.length = n) (each' : ∀ t ∈ ts, t.length = n) :
    String.join ss = String.join ts ↔ ss = ts := by
  have first : ss.map String.length = List.replicate ss.length n :=
    List.eq_replicate_iff.mpr ⟨List.length_map _, List.forall_mem_map.mpr each⟩
  have second : ts.map String.length = List.replicate ts.length n :=
    List.eq_replicate_iff.mpr ⟨List.length_map _, List.forall_mem_map.mpr each'⟩
  constructor
  · intro same
    have total : (ss.map String.length).sum = (ts.map String.length).sum := by
      rw [← String.length_join, same, String.length_join]
    rw [first, second, List.sum_replicate, List.sum_replicate, smul_eq_mul, smul_eq_mul] at total
    have count : ss.length = ts.length := Nat.eq_of_mul_eq_mul_right positive total
    exact eq_iff_join_eq.mpr ⟨same, by rw [first, second, count]⟩
  · rintro rfl
    rfl

namespace HostFacts

variable {h h' : HostFacts}

/-- The facts one by one. -/
def parts (h : HostFacts) : List String :=
  h.cards ++ [h.system, h.architecture, h.user]

theorem join_parts (h : HostFacts) : String.join h.parts = h.text := by
  simp only [parts, text, String.join_append, String.join_cons, String.join_nil, String.append_empty,
    String.append_assoc]

theorem parts_injective : Function.Injective parts := by
  rintro ⟨cards, system, architecture, user⟩ ⟨cards', system', architecture', user'⟩ same
  obtain ⟨rfl, names⟩ := List.append_inj' same rfl
  cases names
  rfl

theorem hardwareId_eq_iff : h.hardwareId = h'.hardwareId ↔
    h.text = h'.text ∨ Sha256.Collision (Text.Utf8.encode h.text) (Text.Utf8.encode h'.text) := by
  rw [hardwareId, hardwareId, Text.Hex.ofBytes_injective.eq_iff, Sha256.Collision,
    Text.Utf8.encode_injective.ne_iff]
  constructor
  · intro same
    by_cases equal : h.text = h'.text
    · exact .inl equal
    · exact .inr ⟨equal, same⟩
  · rintro (equal | ⟨-, same⟩)
    · rw [equal]
    · exact same

/-- The names of two machines agree just where the texts of their facts do, or where these texts are a
collision of the digest. The texts agree only for the same facts where these are as long one by one, as
many addresses among them; where at most one of the names of the system, the architecture and the user
differs; and where only the addresses may differ, all of one length. -/
theorem hardwareId_separates (h h' : HostFacts) :
    (h.hardwareId = h'.hardwareId ↔
      h.text = h'.text ∨ Sha256.Collision (Text.Utf8.encode h.text) (Text.Utf8.encode h'.text)) ∧
    (h = h' ↔ h.text = h'.text ∧ h.parts.map String.length = h'.parts.map String.length) ∧
    (∀ s, { h with system := s }.text = h.text ↔ s = h.system) ∧
    (∀ s, { h with architecture := s }.text = h.text ↔ s = h.architecture) ∧
    (∀ s, { h with user := s }.text = h.text ↔ s = h.user) ∧
    ∀ n > 0, ∀ cards, (∀ c ∈ h.cards ++ cards, c.length = n) →
      ({ h with cards := cards }.text = h.text ↔ cards = h.cards) := by
  refine ⟨hardwareId_eq_iff, ?_, fun s => ?_, fun s => ?_, fun s => ?_, fun n positive cards each => ?_⟩
  · rw [← parts_injective.eq_iff, eq_iff_join_eq, join_parts, join_parts]
  · simp only [text, String.append_assoc, String.append_right_inj, String.append_left_inj]
  · simp only [text, String.append_assoc, String.append_right_inj, String.append_left_inj]
  · simp only [text, String.append_assoc, String.append_right_inj]
  · obtain ⟨ours, others⟩ := List.forall_mem_append.mp each
    simp only [text, String.append_left_inj]
    exact join_eq_iff_of_length positive others ours

/-- The facts about a machine with one network card. -/
def oneCard : HostFacts := ⟨["0242AC110002"], "linux", "x86_64", "steve"⟩

theorem hardwareId_separates_oneCard :
    { oneCard with user := "alex" }.text ≠ oneCard.text ∧
    (∀ c ∈ oneCard.cards ++ ["0242AC110003"], c.length = 12) ∧
    { oneCard with cards := ["0242AC110003"] }.text ≠ oneCard.text := by
  obtain ⟨-, -, -, -, user, cards⟩ := hardwareId_separates oneCard oneCard
  have long : ∀ c ∈ oneCard.cards ++ ["0242AC110003"], c.length = 12 := by decide
  exact ⟨fun same => absurd ((user "alex").mp same) (by decide), long,
    fun same => absurd ((cards 12 (by decide) _ long).mp same) (by decide)⟩

/-- The same machine, with the end of one fact at the front of the next. -/
def movedBoundary : HostFacts := ⟨["0242AC110002"], "linux", "x86", "_64steve"⟩

/-- Two machines that differ in two facts have one name, and the digest is not to blame. -/
theorem hardwareId_movedBoundary : oneCard ≠ movedBoundary ∧
    oneCard.hardwareId = movedBoundary.hardwareId ∧
    ¬ Sha256.Collision (Text.Utf8.encode oneCard.text) (Text.Utf8.encode movedBoundary.text) := by
  have same : oneCard.text = movedBoundary.text := by decide
  exact ⟨by decide, by rw [hardwareId, hardwareId, same], fun collision => collision.1 (by rw [same])⟩

end HostFacts

end JarGate
