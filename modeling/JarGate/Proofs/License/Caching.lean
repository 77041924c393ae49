import JarGate.License.Client
import JarGate.Proofs.License.Expiry

/-!
# Histories of a client

A client may be shared. Its callers ask it whether the license is valid, or make it forget the verdict,
in any order; every call holds the lock of the client, so that calls follow one another. What happens
outside while no call runs is not restricted: a call finds its surroundings in any state.

A history is what was seen of a client, latest call first. From it alone one can tell which request is
the latest, whether the verdict on it was forgotten, and what the last answer was. These are the cache
and the status of the client, so that the client asks again just where the history says so.
-/

namespace JarGate

variable {ι τ σ : Type}

/-- A request that was sent, what it yielded, and what time it was then. -/
structure Inquiry where
  request : ValidationRequest
  outcome : Except TransportError ValidationResponse
  /-- The time of the steady clock. -/
  completed : Duration
  /-- The time of the wall clock. -/
  time : Int

/-- What a request told about the license. -/
def Inquiry.result? (x : Inquiry) : Option ValidationResult :=
  x.outcome.toOption.map .ofResponse

/-- Surroundings that keep a list of the requests that are sent. -/
def Surroundings.logged (env : Surroundings τ σ) : Surroundings τ (σ × List Inquiry) where
  wallClock s := env.wallClock s.1
  steadyClock s := env.steadyClock s.1
  send handle request s :=
    let (outcome, outside) := env.send handle request s.1
    (outcome, outside,
      s.2 ++ [⟨request, outcome, env.steadyClock outside, env.wallClock outside⟩])

namespace LicenseClient

/-- What a client can be called for. -/
inductive Call where
  | validate
  | clearCache
  deriving DecidableEq, Repr

/-- A call, and the state in which it finds the surroundings. -/
structure Turn (ι σ : Type) where
  caller : ι
  call : Call
  outside : σ

/-- What is seen of a call. -/
structure Event (ι : Type) where
  caller : ι
  call : Call
  /-- The time of the steady clock at which the call had the lock. -/
  started : Duration
  /-- The requests that were sent. -/
  inquiries : List Inquiry
  /-- The verdict that was given. -/
  verdict : Option Bool
  /-- The last answer, as the client tells it afterwards. -/
  status : Option ValidationResult

/-- A client, and what was seen of it so far, latest call first. -/
structure Session (ι τ : Type) where
  client : LicenseClient τ
  history : List (Event ι)

namespace Session

/-- A client that was not called yet. -/
def start (policy : LicensePolicy) (transport : τ) (identity : Identity) : Session ι τ :=
  ⟨.new policy transport identity, []⟩

/-- One call. -/
def call (env : Surroundings τ σ) (s : Session ι τ) (t : Turn ι σ) : Session ι τ :=
  let now := env.steadyClock t.outside
  match t.call with
  | .validate =>
    let (verdict, client, _, log) := s.client.validate env.logged (t.outside, [])
    ⟨client, ⟨t.caller, .validate, now, log, some verdict, client.status⟩ :: s.history⟩
  | .clearCache =>
    let client := s.client.clearCache
    ⟨client, ⟨t.caller, .clearCache, now, [], none, client.status⟩ :: s.history⟩

/-- Calls, one after another. -/
def run (env : Surroundings τ σ) (s : Session ι τ) (turns : List (Turn ι σ)) : Session ι τ :=
  turns.foldl (call env) s

end Session

/-! ### Reading a history -/

/-- The latest call that sent a request, and the request. -/
def latest? (history : List (Event ι)) : Option (Event ι × Inquiry) :=
  history.findSome? fun e => e.inquiries.getLast?.map (e, ·)

/-- The latest call that sent a request, and the request, unless the verdict was forgotten since. -/
def kept? (history : List (Event ι)) : Option (Event ι × Inquiry) :=
  latest? (history.takeWhile (·.call = .validate))

/-- The last answer. -/
def answered? (history : List (Event ι)) : Option ValidationResult :=
  history.findSome? fun e => e.inquiries.findSome? Inquiry.result?

/-- The last answer, as the client told it after the latest call. -/
def told? (history : List (Event ι)) : Option ValidationResult :=
  history.head?.bind (·.status)

/-- What a client does in a call, as the calls before it ask for. -/
structure Behaves (policy : LicensePolicy) (question : ValidationRequest) (earlier : List (Event ι))
    (e : Event ι) : Prop where
  /-- One request is sent at most, and it asks about the license of the client. -/
  sent : e.inquiries = [] ∨ ∃ x, e.inquiries = [x] ∧ x.request = question
  /-- A call that clears the cache sends none and gives no verdict. -/
  clears : e.call = .clearCache → e.inquiries = [] ∧ e.verdict = none
  /-- The client asks where no verdict is kept, or the one that is kept has come of age. -/
  asks : e.call = .validate → (e.inquiries ≠ [] ↔ ∀ k x, kept? earlier = some (k, x) →
    policy.cacheDuration.nanoseconds ≤ e.started.nanoseconds - x.completed.nanoseconds)
  /-- Without asking, it gives the verdict of the latest request again. -/
  repeats : e.call = .validate → e.inquiries = [] →
    ∃ k x, latest? earlier = some (k, x) ∧ e.verdict = k.verdict
  /-- The verdict on a request without an answer is that of the failure mode. -/
  failed : ∀ x ∈ e.inquiries, ∀ why, x.outcome = .error why →
    ∃ verdict, e.verdict = some verdict ∧ (verdict = true ↔ policy.mode = .allowOnError)
  /-- An answer is told from then on, and counts as long as its expiry is ahead. -/
  answered : ∀ x ∈ e.inquiries, ∀ answer, x.outcome = .ok answer →
    e.status = some (.ofResponse answer) ∧ ∃ verdict, e.verdict = some verdict ∧
      (verdict = true ↔ answer.valid = true ∧
        ∀ expiry, answer.expiryTime = some expiry → 0 < expiry → x.time < expiry)
  /-- Without an answer, the client tells what it told before. -/
  unchanged : (∀ x ∈ e.inquiries, x.result? = none) → e.status = told? earlier
  /-- The client tells the last answer. -/
  status : e.status = answered? (e :: earlier)

/-- Whether the steady clock never went back. -/
structure Steady (history : List (Event ι)) : Prop where
  within : ∀ e ∈ history, ∀ x ∈ e.inquiries, e.started.nanoseconds ≤ x.completed.nanoseconds
  between : history.Pairwise fun later earlier =>
    earlier.started.nanoseconds ≤ later.started.nanoseconds ∧
      ∀ x ∈ earlier.inquiries, x.completed.nanoseconds ≤ later.started.nanoseconds

section

variable {e k : Event ι} {x : Inquiry} {history : List (Event ι)}

theorem latest?_quiet (quiet : e.inquiries = []) : latest? (e :: history) = latest? history := by
  rw [latest?, List.findSome?_cons, quiet]
  rfl

theorem latest?_asked (asked : e.inquiries = [x]) : latest? (e :: history) = some (e, x) := by
  rw [latest?, List.findSome?_cons, asked]
  rfl

theorem kept?_clears (clears : e.call = .clearCache) : kept? (e :: history) = none := by
  rw [kept?, List.takeWhile_cons_of_neg (by simp [clears])]
  rfl

theorem kept?_quiet (validates : e.call = .validate) (quiet : e.inquiries = []) :
    kept? (e :: history) = kept? history := by
  rw [kept?, List.takeWhile_cons_of_pos (by simp [validates]), latest?_quiet quiet, kept?]

theorem kept?_asked (validates : e.call = .validate) (asked : e.inquiries = [x]) :
    kept? (e :: history) = some (e, x) := by
  rw [kept?, List.takeWhile_cons_of_pos (by simp [validates]), latest?_asked asked]

/-- What is kept was sent by the latest call that sent a request. -/
theorem latest?_of_kept? (kept : kept? history = some (k, x)) : latest? history = some (k, x) :=
  (List.takeWhile_prefix _).findSome?_eq_some kept

theorem mem_of_latest? (found : latest? history = some (k, x)) :
    k ∈ history ∧ x ∈ k.inquiries := by
  obtain ⟨e, member, sent⟩ := List.exists_of_findSome?_eq_some found
  obtain ⟨y, last, same⟩ := Option.map_eq_some_iff.mp sent
  obtain ⟨rfl, rfl⟩ := Prod.mk.inj same
  exact ⟨member, List.mem_of_getLast? last⟩

theorem answered?_quiet (quiet : e.inquiries = []) :
    answered? (e :: history) = answered? history := by
  rw [answered?, List.findSome?_cons, quiet]
  rfl

theorem answered?_asked (asked : e.inquiries = [x]) :
    answered? (e :: history) = x.result?.or (answered? history) := by
  rw [answered?, List.findSome?_cons, asked, List.findSome?_singleton]
  cases x.result? <;> rfl

end

/-! ### One call -/

section

variable {env : Surroundings τ σ} {c : LicenseClient τ} {now : Duration}

theorem cached?_eq_some_iff {verdict : Bool} : c.cached? now = some verdict ↔
    ∃ since, c.cache = some ⟨verdict, since⟩ ∧
      now.nanoseconds - since.nanoseconds < c.policy.cacheDuration.nanoseconds := by
  rw [cached?]
  cases c.cache with
  | none => simp
  | some kept =>
      obtain ⟨verdict', since⟩ := kept
      by_cases fresh : now.nanoseconds - since.nanoseconds < c.policy.cacheDuration.nanoseconds
      · simp [fresh]
      · simp [fresh]

/-- A client that gives its verdict again sends nothing. -/
theorem validate_logged_of_cached {s : σ} {log : List Inquiry} {verdict : Bool}
    (holds : c.cached? (env.steadyClock s) = some verdict) :
    c.validate env.logged (s, log) = (verdict, c, s, log) := by
  have clock : env.logged.steadyClock (s, log) = env.steadyClock s := rfl
  rw [validate, clock, holds]

/-- Any other client sends its request, and takes in what that yields. -/
theorem validate_logged_of_none {s : σ} (log : List Inquiry)
    (asks : c.cached? (env.steadyClock s) = none) :
    ∃ x s', x.request = c.request ∧ c.validate env.logged (s, log) =
      (c.verdictOn x.time x.outcome, c.receive x.outcome (c.verdictOn x.time x.outcome) x.completed,
        s', log ++ [x]) := by
  have clock : env.logged.steadyClock (s, log) = env.steadyClock s := rfl
  let outside := (env.send c.transport c.request s).2
  let x : Inquiry := ⟨c.request, (env.send c.transport c.request s).1, env.steadyClock outside,
    env.wallClock outside⟩
  refine ⟨x, outside, rfl, ?_⟩
  rw [validate, clock, asks]
  rfl

/-- The verdict on an answer: the license is valid, and its expiry is ahead. -/
theorem verdictOn_ok_iff {time : Int} {answer : ValidationResponse} :
    c.verdictOn time (.ok answer) = true ↔ answer.valid = true ∧
      ∀ expiry, answer.expiryTime = some expiry → 0 < expiry → time < expiry := by
  rw [verdictOn, ValidationResult.isValidAt_ofResponse_iff]
  simp only [ValidationResult.ofResponse, Option.filter_eq_some_iff, decide_eq_true_eq, and_imp]

theorem verdictOn_error_iff {time : Int} {why : TransportError} :
    c.verdictOn time (.error why) = true ↔ c.policy.mode = .allowOnError := by
  rw [verdictOn]
  cases c.policy.mode <;> decide

/-- The last answer after a request is that of the request, if there is one. -/
theorem status_receive {x : Inquiry} {verdict : Bool} :
    (c.receive x.outcome verdict x.completed).status = x.result?.or c.status := by
  simp only [receive, Inquiry.result?]
  cases x.outcome <;> rfl

end

/-- What a call can make of a client and its history. -/
inductive Session.Called (s : Session ι τ) (caller : ι) (now : Duration) : Session ι τ → Prop
  | repeated {verdict : Bool} (holds : s.client.cached? now = some verdict) :
    Called s caller now
      ⟨s.client, ⟨caller, .validate, now, [], some verdict, s.client.status⟩ :: s.history⟩
  | asked {x : Inquiry} {verdict : Bool} (missing : s.client.cached? now = none)
      (question : x.request = s.client.request)
      (judged : s.client.verdictOn x.time x.outcome = verdict) :
    Called s caller now
      ⟨s.client.receive x.outcome verdict x.completed,
        ⟨caller, .validate, now, [x], some verdict, x.result?.or s.client.status⟩ :: s.history⟩
  | cleared :
    Called s caller now
      ⟨s.client.clearCache, ⟨caller, .clearCache, now, [], none, s.client.status⟩ :: s.history⟩

theorem Session.called (env : Surroundings τ σ) (s : Session ι τ) (t : Turn ι σ) :
    s.Called t.caller (env.steadyClock t.outside) (s.call env t) := by
  obtain ⟨caller, call, outside⟩ := t
  cases call with
  | clearCache => exact .cleared
  | validate =>
      rw [Session.call]
      dsimp only
      cases cached : s.client.cached? (env.steadyClock outside) with
      | some verdict =>
          rw [validate_logged_of_cached cached]
          exact .repeated cached
      | none =>
          obtain ⟨x, outside', question, validated⟩ := validate_logged_of_none [] cached
          rw [validated, status_receive]
          exact .asked cached question rfl

/-! ### Runs -/

/-- A client keeps what its history says. -/
structure Session.Remembers (policy : LicensePolicy) (question : ValidationRequest)
    (s : Session ι τ) : Prop where
  policy : s.client.policy = policy
  question : s.client.request = question
  cache : s.client.cache.map (fun kept => (some kept.verdict, kept.since)) =
    (kept? s.history).map fun kept => (kept.1.verdict, kept.2.completed)
  status : s.client.status = answered? s.history
  told : s.client.status = told? s.history

namespace Session

variable {policy : LicensePolicy} {question : ValidationRequest} {s s' : Session ι τ} {caller : ι}
variable {now : Duration}

theorem remembers_start (policy : LicensePolicy) (transport : τ) (identity : Identity) :
    Remembers policy (LicenseClient.new policy transport identity).request
      (start policy transport identity : Session ι τ) :=
  ⟨rfl, rfl, rfl, rfl, rfl⟩

/-- The verdict that still holds is that on the request that is kept, while it is young. -/
theorem Remembers.cached?_eq_some_iff (remembers : s.Remembers policy question) {verdict : Bool} :
    s.client.cached? now = some verdict ↔
      ∃ k x, kept? s.history = some (k, x) ∧ k.verdict = some verdict ∧
        now.nanoseconds - x.completed.nanoseconds < policy.cacheDuration.nanoseconds := by
  rw [LicenseClient.cached?_eq_some_iff, remembers.policy]
  have same := remembers.cache
  constructor
  · rintro ⟨since, cached, young⟩
    rw [cached] at same
    obtain ⟨⟨k, x⟩, kept, equal⟩ := Option.map_eq_some_iff.mp same.symm
    obtain ⟨given, rfl⟩ := Prod.mk.inj equal
    exact ⟨k, x, kept, given, young⟩
  · rintro ⟨k, x, kept, given, young⟩
    rw [kept] at same
    obtain ⟨⟨verdict', since⟩, cached, equal⟩ := Option.map_eq_some_iff.mp same
    obtain ⟨told, rfl⟩ := Prod.mk.inj equal
    obtain rfl := Option.some.inj (told.trans given)
    exact ⟨_, cached, young⟩

/-- Whatever is kept has a verdict. -/
theorem Remembers.exists_verdict (remembers : s.Remembers policy question) {k : Event ι}
    {x : Inquiry} (kept : kept? s.history = some (k, x)) : ∃ verdict, k.verdict = some verdict := by
  have same := remembers.cache
  rw [kept] at same
  obtain ⟨⟨verdict, since⟩, -, equal⟩ := Option.map_eq_some_iff.mp same
  exact ⟨verdict, (Prod.mk.inj equal).1.symm⟩

/-- No verdict holds where none is kept, or the one that is kept has come of age. -/
theorem Remembers.cached?_eq_none_iff (remembers : s.Remembers policy question) :
    s.client.cached? now = none ↔ ∀ k x, kept? s.history = some (k, x) →
      policy.cacheDuration.nanoseconds ≤ now.nanoseconds - x.completed.nanoseconds := by
  constructor
  · intro missing k x kept
    obtain ⟨verdict, given⟩ := remembers.exists_verdict kept
    refine not_lt.mp fun young => ?_
    rw [remembers.cached?_eq_some_iff.mpr ⟨k, x, kept, given, young⟩] at missing
    cases missing
  · intro aged
    refine Option.eq_none_iff_forall_ne_some.mpr fun verdict holds => ?_
    obtain ⟨k, x, kept, -, young⟩ := remembers.cached?_eq_some_iff.mp holds
    exact absurd young (not_lt.mpr (aged k x kept))

theorem Remembers.called (remembers : s.Remembers policy question) (called : s.Called caller now s') :
    s'.Remembers policy question := by
  cases called with
  | repeated holds =>
      refine ⟨remembers.policy, remembers.question, ?_, ?_, rfl⟩
      · rw [kept?_quiet rfl rfl]
        exact remembers.cache
      · rw [answered?_quiet rfl]
        exact remembers.status
  | asked missing asked judged =>
      refine ⟨remembers.policy, remembers.question, ?_, ?_, status_receive⟩
      · rw [kept?_asked rfl rfl]
        rfl
      · rw [answered?_asked rfl, status_receive, remembers.status]
  | cleared =>
      refine ⟨remembers.policy, remembers.question, ?_, ?_, rfl⟩
      · rw [kept?_clears rfl]
        rfl
      · rw [answered?_quiet rfl]
        exact remembers.status

/-- A client that remembers its history behaves as that asks for. -/
theorem Remembers.behaves (remembers : s.Remembers policy question)
    (called : s.Called caller now s') : ∃ e, s'.history = e :: s.history ∧ e.caller = caller ∧
      e.started = now ∧ Behaves policy question s.history e := by
  cases called with
  | @repeated verdict holds =>
      refine ⟨_, rfl, rfl, rfl, ?_⟩
      obtain ⟨k, x, kept, given, young⟩ := remembers.cached?_eq_some_iff.mp holds
      exact {
        sent := .inl rfl
        clears := nofun
        asks := fun _ => ⟨fun sent => absurd rfl sent, fun aged =>
          absurd young (not_lt.mpr (aged k x kept))⟩
        repeats := fun _ _ => ⟨k, x, latest?_of_kept? kept, given.symm⟩
        failed := nofun
        answered := nofun
        unchanged := fun _ => remembers.told
        status := by rw [answered?_quiet rfl, remembers.status] }
  | @asked x verdict missing question judged =>
      refine ⟨_, rfl, rfl, rfl, ?_⟩
      have only {P : Inquiry → Prop} (here : P x) : ∀ y ∈ [x], P y :=
        List.forall_mem_singleton.mpr here
      exact {
        sent := .inr ⟨x, rfl, question.trans remembers.question⟩
        clears := nofun
        asks := fun _ => ⟨fun _ => remembers.cached?_eq_none_iff.mp missing, fun _ => nofun⟩
        repeats := nofun
        failed := only fun why failed => ⟨verdict, rfl, by
          rw [← judged, failed, verdictOn_error_iff, remembers.policy]⟩
        answered := only fun answer answered => by
          refine ⟨?_, verdict, rfl, ?_⟩
          · rw [Inquiry.result?, answered]
            rfl
          · rw [← judged, answered, verdictOn_ok_iff]
        unchanged := fun silent => by
          rw [← remembers.told, silent x (List.mem_singleton_self x), Option.none_or]
        status := by rw [answered?_asked rfl, remembers.status] }
  | cleared =>
      refine ⟨_, rfl, rfl, rfl, ?_⟩
      exact {
        sent := .inl rfl
        clears := fun _ => ⟨rfl, rfl⟩
        asks := nofun
        repeats := nofun
        failed := nofun
        answered := nofun
        unchanged := fun _ => remembers.told
        status := by rw [answered?_quiet rfl, remembers.status] }

/-- Along a run a client remembers its history, and behaves as that asks for in every call. -/
theorem Remembers.run (env : Surroundings τ σ) (remembers : s.Remembers policy question)
    (behaves : ∀ e earlier, e :: earlier <:+ s.history → Behaves policy question earlier e)
    (turns : List (Turn ι σ)) : (s.run env turns).Remembers policy question ∧
      ∀ e earlier, e :: earlier <:+ (s.run env turns).history →
        Behaves policy question earlier e := by
  induction turns generalizing s with
  | nil => exact ⟨remembers, behaves⟩
  | cons t turns ih =>
      have called := s.called env t
      obtain ⟨e, history, -, -, next⟩ := remembers.behaves called
      refine ih (remembers.called called) fun e' earlier suffix => ?_
      rw [history] at suffix
      obtain same | older := List.suffix_cons_iff.mp suffix
      · obtain ⟨rfl, rfl⟩ := List.cons.inj same
        exact next
      · exact behaves e' earlier older

end Session

/-! ### Requests lie apart -/

section

variable {policy : LicensePolicy} {question : ValidationRequest} {history earlier between : List (Event ι)}
variable {e f : Event ι} {x : Inquiry}

/-- Only a call that asks whether the license is valid sends a request. -/
theorem Behaves.validate_of_sent (behaves : Behaves policy question earlier e)
    (sent : e.inquiries ≠ []) : e.call = .validate := by
  cases call : e.call with
  | validate => rfl
  | clearCache => exact absurd (behaves.clears call).1 sent

/-- Where nothing was forgotten since a request, that request or a later one is kept. -/
theorem exists_kept? (earlier : List (Event ι)) (asked : e.inquiries = [x]) (validates : e.call = .validate)
    (held : ∀ m ∈ between, m.call = .validate) :
    ∃ k y, kept? (between ++ e :: earlier) = some (k, y) ∧
      (k = e ∧ y = x ∨ k ∈ between ∧ y ∈ k.inquiries) := by
  have all : (between ++ e :: earlier).takeWhile (·.call = .validate) =
      between ++ e :: earlier.takeWhile (·.call = .validate) := by
    rw [List.takeWhile_append_of_pos (by simpa using held),
      List.takeWhile_cons_of_pos (by simpa using validates)]
  rw [kept?, all, latest?, List.findSome?_append, ← latest?, ← latest?, latest?_asked asked]
  cases found : latest? between with
  | none => exact ⟨e, x, rfl, .inl ⟨rfl, rfl⟩⟩
  | some p => exact ⟨p.1, p.2, rfl, .inr (mem_of_latest? found)⟩

/-- Two requests between which nothing was forgotten lie as far apart as verdicts are kept. -/
theorem apart_of_behaves
    (behaves : ∀ e earlier, e :: earlier <:+ history → Behaves policy question earlier e)
    (steady : Steady history) (suffix : f :: (between ++ e :: earlier) <:+ history)
    (held : ∀ m ∈ between, m.call = .validate) (again : f.inquiries ≠ []) (sent : x ∈ e.inquiries) :
    x.completed.nanoseconds + policy.cacheDuration.nanoseconds ≤ f.started.nanoseconds := by
  have inner : e :: earlier <:+ history :=
    ((List.suffix_append between _).trans (List.suffix_cons f _)).trans suffix
  have first := behaves e earlier inner
  have last := behaves f _ suffix
  obtain none_sent | ⟨x', asked, -⟩ := first.sent
  · rw [none_sent] at sent
    cases sent
  obtain rfl : x = x' := by
    rw [asked] at sent
    exact List.mem_singleton.mp sent
  have validates := first.validate_of_sent (asked ▸ List.cons_ne_nil _ _)
  obtain ⟨k, y, kept, which⟩ := exists_kept? earlier asked validates held
  have aged := (last.asks (last.validate_of_sent again)).mp again k y kept
  have ordered := steady.between.sublist suffix.sublist
  obtain ⟨after, rest⟩ := List.pairwise_cons.mp ordered
  obtain ⟨rfl, rfl⟩ | ⟨member, own⟩ := which
  · have past := (after k (by simp)).2 y (by simp [asked])
    omega
  · have past := (after k (by simp [member])).2 y own
    have order := (List.pairwise_append.mp rest).2.2 k member e (List.mem_cons_self ..)
    have later := order.2 x sent
    have during := steady.within k (suffix.subset (by simp [member])) y own
    omega

end

/-- Every call is seen, by whom and when it was made. -/
theorem Session.seen_call (env : Surroundings τ σ) (s : Session ι τ) (t : Turn ι σ) :
    (s.call env t).history.map (fun e => (e.caller, e.call, e.started)) =
      (t.caller, t.call, env.steadyClock t.outside) ::
        s.history.map (fun e => (e.caller, e.call, e.started)) := by
  obtain ⟨caller, call, outside⟩ := t
  cases call <;> rfl

theorem Session.seen_run (env : Surroundings τ σ) (s : Session ι τ) (turns : List (Turn ι σ)) :
    (s.run env turns).history.map (fun e => (e.caller, e.call, e.started)) =
      (turns.map fun t => (t.caller, t.call, env.steadyClock t.outside)).reverse ++
        s.history.map (fun e => (e.caller, e.call, e.started)) := by
  induction turns generalizing s with
  | nil => rfl
  | cons t turns ih =>
      have first : s.run env (t :: turns) = (s.call env t).run env turns := rfl
      rw [first, ih, seen_call, List.map_cons, List.reverse_cons, List.append_assoc]
      rfl

/-- A client caches its verdicts, however calls of any number of callers follow one another and
whatever its requests yield. The history of a run has every call, and in each the client does what the
calls before it ask for: it sends a request just where no verdict is kept or the one that is kept has
come of age. Where the steady clock never goes back, two requests between which nothing was forgotten
are at least as far apart as verdicts are kept. A client that keeps no verdict asks every time, and what
a client tells at the end is the last answer. -/
theorem caching_run (env : Surroundings τ σ) (policy : LicensePolicy) (transport : τ)
    (identity : Identity) (turns : List (Turn ι σ)) :
    let s := (Session.start policy transport identity : Session ι τ).run env turns
    s.history.reverse.map (fun e => (e.caller, e.call, e.started)) =
        turns.map (fun t => (t.caller, t.call, env.steadyClock t.outside)) ∧
      (∀ e earlier, e :: earlier <:+ s.history →
        Behaves policy (LicenseClient.new policy transport identity).request earlier e) ∧
      (Steady s.history → ∀ f between e earlier, f :: (between ++ e :: earlier) <:+ s.history →
        (∀ m ∈ between, m.call = .validate) → f.inquiries ≠ [] → ∀ x ∈ e.inquiries,
          x.completed.nanoseconds + policy.cacheDuration.nanoseconds ≤ f.started.nanoseconds) ∧
      (policy.cacheDuration.nanoseconds = 0 →
        ∀ e ∈ s.history, e.call = .validate → e.inquiries ≠ []) ∧
      s.client.status = answered? s.history := by
  intro s
  obtain ⟨remembers, behaves⟩ :=
    (Session.remembers_start policy transport identity).run env
      (fun e earlier suffix => absurd (List.suffix_nil.mp suffix) (List.cons_ne_nil _ _)) turns
  refine ⟨?_, behaves, ?_, ?_, remembers.status⟩
  · have seen := Session.seen_run env (Session.start policy transport identity) turns
    have fresh : (Session.start policy transport identity : Session ι τ).history = [] := rfl
    rw [List.map_reverse, seen, fresh, List.map_nil, List.append_nil, List.reverse_reverse]
  · intro steady f between e earlier suffix held again x sent
    exact apart_of_behaves behaves steady suffix held again sent
  · intro zero e member validates
    obtain ⟨later, earlier, split⟩ := List.append_of_mem member
    refine ((behaves e earlier ⟨later, split.symm⟩).asks validates).mpr fun k x _ => ?_
    rw [zero]
    exact Nat.zero_le _

/-- Surroundings in which a request takes a nanosecond, and yields an answer where the network is up. -/
def ticking : Surroundings Unit (Nat × Bool) where
  wallClock s := s.1
  steadyClock s := ⟨s.1⟩
  send _ _ s :=
    (if s.2 then .ok ⟨true, "", none, some 100, none⟩ else .error .timeout, s.1 + 1, s.2)

/-- A policy by which verdicts are kept for ten nanoseconds. -/
def tenNanoseconds : LicensePolicy :=
  { LicensePolicy.new "" "" with mode := .allowOnError, cacheDuration := ⟨10⟩ }

/-- Two callers that share a client. The verdict of the first request is given once more, has come of
age at the third call, and the next one is forgotten. -/
def sharedTurns : List (Turn Char (Nat × Bool)) :=
  [⟨'a', .validate, 0, true⟩, ⟨'b', .validate, 10, false⟩, ⟨'b', .validate, 11, false⟩,
    ⟨'a', .clearCache, 13, true⟩, ⟨'b', .validate, 14, true⟩]

theorem caching_run_sharedTurns :
    let s := (Session.start tenNanoseconds () ⟨"", ""⟩ : Session Char Unit).run ticking sharedTurns
    (s.history.map fun e => (e.inquiries.length, e.verdict)) =
        [(1, some true), (0, none), (1, some true), (0, some true), (1, some true)] ∧
      ∀ f between e earlier, f :: (between ++ e :: earlier) <:+ s.history →
        (∀ m ∈ between, m.call = .validate) → f.inquiries ≠ [] → ∀ x ∈ e.inquiries,
          x.completed.nanoseconds + 10 ≤ f.started.nanoseconds := by
  intro s
  have steady : Steady s.history := by
    constructor
    · decide +kernel
    · decide +kernel
  exact ⟨by decide +kernel,
    (caching_run ticking tenNanoseconds () ⟨"", ""⟩ sharedTurns).2.2.1 steady⟩

end LicenseClient

end JarGate
