import JarGate.Proofs.Code.Representability

/-!
# Smallest tables

Without hints, states are compressed to a table that is no longer than any other representable table that
stands for them. The choice is made frame by frame, which is enough: every frame is taken relative to the
locals of the state in front of it, and these do not depend on how that state was written.
-/

namespace JarGate

namespace Frame

variable {f g : Frame} {frames : List Frame} {previous : Option Nat}
  {before locals stack initial : List VerificationType} {state : FrameState}
  {states : List (Nat × FrameState)} {hints : List (Option Frame)} {body : Bytes}

/-! ### One frame -/

/-- No frame is larger than the full one for the state that it describes. -/
theorem size_le_full (d : UInt16) (described : g.apply before = .ok ⟨locals, stack⟩) :
    g.size ≤ (full d locals stack).size := by
  cases g with
  | same d' | sameExtended d' =>
      simp only [size, fields, List.length_append, be16_length, List.length_nil]
      omega
  | oneStack d' t | oneStackExtended d' t =>
      cases described
      simp only [size, fields, List.length_append, be16_length, List.flatMap_singleton]
      omega
  | chop d' count =>
      simp only [size, fields, List.length_append, be16_length]
      omega
  | append d' added =>
      cases described
      simp only [size, fields, List.length_append, be16_length, List.flatMap_append]
      omega
  | full d' all stack' =>
      cases described
      exact Nat.le_refl _

/-- The short form of a frame, at distance zero. -/
def shortened : Frame → Frame
  | same _ | sameExtended _ => same 0
  | oneStack _ t | oneStackExtended _ t => oneStack 0 t
  | chop _ count => chop 0 count
  | append _ locals => append 0 locals
  | full _ locals stack => full 0 locals stack

theorem smallest_of_fewer {count : UInt8} (any : 1 ≤ count.toNat) (few : count.toNat ≤ 3)
    (len : locals.length + count.toNat = before.length) (start : locals <+: before) :
    smallest before ⟨locals, []⟩ = chop 0 count := by
  simp only [smallest]
  split
  next same =>
    rw [same] at len
    omega
  next =>
    split
    next =>
      have left : before.length - locals.length = count.toNat := by omega
      rw [left, UInt8.ofNat_toNat]
    next far => exact absurd ⟨by omega, by omega, start⟩ far

theorem smallest_of_more {added : List VerificationType} (any : 1 ≤ added.length)
    (few : added.length ≤ 3) (whole : before ++ added = locals) :
    smallest before ⟨locals, []⟩ = append 0 added := by
  have len : before.length + added.length = locals.length := by
    rw [← whole, List.length_append]
  simp only [smallest]
  split
  next same =>
    rw [same] at len
    omega
  next =>
    split
    next shorter => omega
    next =>
      split
      next => rw [← whole, List.drop_left]
      next far => exact absurd ⟨by omega, by omega, ⟨added, whole⟩⟩ far

/-- Where a state is the one in front of it with up to three locals more or less, or with a single type
on the stack, the smallest frame for it is of the form that says so. -/
theorem smallest_of_apply (short : f.kind ≠ .full) (fits : f.Formed)
    (described : f.apply before = .ok state) : smallest before state = f.shortened := by
  cases f with
  | same d | sameExtended d | oneStack d t | oneStackExtended d t =>
      cases described
      exact if_pos rfl
  | chop d count =>
      rw [apply] at described
      split at described
      next enough =>
        cases described
        refine smallest_of_fewer fits.1 fits.2 ?_ (List.take_prefix _ _)
        rw [List.length_take]
        omega
      next => cases described
  | append d added =>
      cases described
      exact smallest_of_more fits.1 fits.2 rfl
  | full d all stack => exact absurd rfl short

/-- A short form is given up only where its distance needs the extended one. -/
theorem size_le_of_shortened (fits : f.Representable)
    (placed : f.shortened.withDelta f.delta.toNat = .ok g) : g.size ≤ f.size := by
  rw [withDelta, if_pos f.delta.toNat_lt] at placed
  obtain rfl := Except.ok.inj placed
  cases f with
  | same d | oneStack d t =>
      have held : d.toNat ≤ maxShortDelta := fits
      simp only [shortened, delta, held, if_true]
      exact Nat.le_refl _
  | sameExtended d | oneStackExtended d t =>
      by_cases held : d.toNat ≤ maxShortDelta <;> simp [shortened, delta, held, size, fields]
  | chop d count | append d added | full d all stack =>
      simp [shortened, size, fields]

/-- The frame that is chosen without a hint is representable if there is any representable one for the
state, and no larger than that. -/
theorem smallest_le (fits : f.Representable) (described : f.apply before = .ok state)
    (placed : (smallest before state).withDelta f.delta.toNat = .ok g) :
    g.Representable ∧ g.size ≤ f.size := by
  by_cases whole : f.kind = .full
  · cases f with
    | full d all stack =>
        cases described
        have formed := formed_withDelta (formed_smallest before _) placed
        have applied : g.apply before = .ok ⟨all, stack⟩ := by
          rw [apply_withDelta placed, apply_smallest]
        have few : FrameState.Countable ⟨all, stack⟩ :=
          ⟨Nat.le_of_lt_succ fits.1, Nat.le_of_lt_succ fits.2⟩
        exact ⟨formed.representable applied few, size_le_full d applied⟩
    | _ => cases whole
  · rw [smallest_of_apply whole fits.formed described] at placed
    have short : f.shortened.Representable := by
      cases f with
      | same d | sameExtended d | oneStack d t | oneStackExtended d t => exact Nat.zero_le _
      | chop d count | append d added | full d all stack => exact fits
    exact ⟨representable_withDelta short placed, size_le_of_shortened fits placed⟩

/-! ### Tables -/

theorem Expands.compressOnto_le (h : Expands previous locals frames states)
    (unwrapped : Unwrapped previous frames) (fits : ∀ f ∈ frames, f.Representable) (blind : ∀ hint ∈ hints, hint = none) :
    ∃ out, (∀ done, compressOnto done previous locals hints states = .ok (done.reverse ++ out)) ∧
      List.Forall₂ (fun f g => g.Representable ∧ g.size ≤ f.size) frames out := by
  induction h generalizing hints with
  | nil =>
      refine ⟨[], fun done => ?_, .nil⟩
      rw [compressOnto, List.append_nil]
  | @cons previous locals f fs state states here behind ih =>
      obtain ⟨first, rest⟩ := List.forall_mem_cons.mp fits
      obtain ⟨there, unwrapped⟩ := unwrapped.cons
      have unhinted : hints.head?.join = none := by
        cases hints with
        | nil => rfl
        | cons hint _ => exact blind hint (List.mem_cons_self ..)
      have close : f.delta.toNat ≤ 0xFFFF := Nat.le_of_lt_succ f.delta.toNat_lt
      obtain ⟨g, placed⟩ := exists_withDelta_iff (f := smallest locals state).mpr close
      obtain ⟨out, compressed, each⟩ :=
        ih unwrapped rest fun hint member => blind hint (List.mem_of_mem_tail member)
      refine ⟨g :: out, fun done => ?_, .cons (smallest_le first here placed) each⟩
      refine compressOnto_cons_iff.mpr ⟨_, g, deltaAfter_offsetAfter there, ?_, ?_⟩
      · rw [unhinted, choose, placed]
      · rw [compressed, List.reverse_cons, List.append_assoc]
        rfl

/-- Without hints, compressing gives a smallest table. For whatever table was read and expands, its states
are compressed to frames that stand for them, and that are written as no more octets than the table that
was read, from which they are read back. -/
theorem compress_smallest (read : readTable body = .ok frames)
    (expanded : expand frames initial = .ok states) (blind : ∀ hint ∈ hints, hint = none) :
    ∃ out bytes, compress states initial hints = .ok out ∧ expand out initial = .ok states ∧
      writeTable frames = .ok body ∧ writeTable out = .ok bytes ∧ readTable bytes = .ok out ∧
      bytes.length ≤ body.length := by
  obtain ⟨fits, written⟩ := written_of_readTable read
  obtain ⟨body', written', len⟩ := fits.exists_writeTable
  obtain rfl := Except.ok.inj (written.symm.trans written')
  have described := expand_eq_ok_iff.mp expanded
  have unwrapped := unwrapped_of_few fits.few
  obtain ⟨out, compressed, each⟩ := described.compressOnto_le unwrapped fits.each blind
  have fits' : RepresentableTable out := by
    refine ⟨each.length_eq ▸ fits.few, fun g member => ?_⟩
    obtain ⟨_, -, representable, -⟩ := exists_of_forall₂ each.flip g member
    exact representable
  obtain ⟨bytes, written', len'⟩ := fits'.exists_writeTable
  have less : (out.map size).sum ≤ (frames.map size).sum := by
    apply List.Forall₂.sum_le_sum
    rw [List.forall₂_map_left_iff, List.forall₂_map_right_iff]
    exact each.flip.imp fun _ _ => And.right
  refine ⟨out, bytes, compressed [], expand_of_compress described.lt (compressed []), written, written',
    (readTable_iff_of_written written').mpr fits', ?_⟩
  omega

/-- Frames that are larger than they need be: extended forms at short distances, and full ones for states
that are close to the one before. Only the third is as small as it can be, since a frame that names the
type on the stack cannot take away a local. -/
def wastefulFrames : List Frame :=
  [.sameExtended 3, .full 0 [.integer, .float] [], .full 5 [.integer] [.null],
    .oneStackExtended 2 .null, .full 63 [.integer] []]

/-- The octets of these frames. -/
def wastefulOctets : Bytes :=
  [0, 5, 251, 0, 3, 255, 0, 0, 0, 2, 1, 2, 0, 0, 255, 0, 5, 0, 1, 1, 0, 1, 5, 247, 0, 2, 5,
    255, 0, 63, 0, 1, 1, 0, 0]

/-- The frames are compressed to 19 octets of the 35. -/
theorem compress_smallest_wasteful :
    readTable wastefulOctets = .ok wastefulFrames ∧
    ∃ states bytes, expand wastefulFrames [.integer] = .ok states ∧
      compress states [.integer] [none] = .ok [.same 3, .append 0 [.float],
        .full 5 [.integer] [.null], .oneStack 2 .null, .same 63] ∧
      writeTable [.same 3, .append 0 [.float], .full 5 [.integer] [.null], .oneStack 2 .null,
        .same 63] = .ok bytes ∧
      bytes.length = 19 ∧ bytes.length ≤ wastefulOctets.length := by
  have read : readTable wastefulOctets = .ok wastefulFrames := by decide
  have expanded : expand wastefulFrames [.integer] = .ok [(3, ⟨[.integer], []⟩),
      (4, ⟨[.integer, .float], []⟩), (10, ⟨[.integer], [.null]⟩), (13, ⟨[.integer], [.null]⟩),
      (77, ⟨[.integer], []⟩)] := by
    decide
  have blind : ∀ hint ∈ [(none : Option Frame)], hint = none := by simp
  obtain ⟨out, bytes, compressed, -, -, written, -, short⟩ := compress_smallest read expanded blind
  obtain rfl : out = _ := Except.ok.inj (compressed.symm.trans rfl)
  obtain rfl : bytes = _ := Except.ok.inj (written.symm.trans rfl)
  exact ⟨read, _, _, expanded, compressed, written, rfl, short⟩

end Frame

end JarGate
