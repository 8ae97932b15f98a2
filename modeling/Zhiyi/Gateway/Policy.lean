import Zhiyi.Gateway.Trace

set_option autoImplicit false

/-! The retry and fallback policy of `complete`: how every attempt follows from
the error of the one before it. -/
namespace Zhiyi
namespace Gateway
open Python

abbrev Entry := AttemptRecord × Option ModelError

def position (route : ModelRoute) (a : AttemptRecord) : ℕ :=
  route.targets.findIdx fun target => target.key == (a.provider, a.modelId)

/-- What an error permits: a retry on the same position, or the next position,
    which is explained by the error's code. -/
inductive Follows (route : ModelRoute) (a : AttemptRecord) (e : ModelError) (b : AttemptRecord) : Prop
  | retry (hposition : position route b = position route a) (hretryable : e.retryable = true)
    (hreason : b.fallbackReason = a.fallbackReason)
  | fallback (hposition : position route b = position route a + 1)
    (hallowed : e.fallbackAllowed = true) (hreason : b.fallbackReason = some e.code)

structure Policy (route : ModelRoute) (entries : List Entry) : Prop where
  numbered : entries.map (·.1.attemptNo) = List.range' 1 entries.length
  onRoute : ∀ entry ∈ entries, position route entry.1 < route.targets.length
  outcomes : ∀ entry ∈ entries,
    entry.1.outcome = entry.2.elim .succeeded fun e => .failed e.code
  starts : ∀ entry ∈ entries.head?, position route entry.1 = 0 ∧ entry.1.fallbackReason = none
  follows : entries.IsChain fun entry next => ∃ e, entry.2 = some e ∧ Follows route entry.1 e next.1
  bounded : ∀ p target, route.targets[p]? = some target →
    entries.countP (fun entry => position route entry.1 == p) ≤ target.limits.maxRetries + 1

variable {O : Objects}

def failedEntries (s : CompleteState O) : List Entry := s.failures.map fun p => (p.1, some p.2)

def ledger (run : CompleteState O × Except Exn (ModelResponse O)) : List Entry :=
  failedEntries run.1 ++
    match run.2 with
    | .ok r => r.attempts.getLast?.toList.map fun a => (a, none)
    | .error _ => []

def reportedAttempts : Except Exn (ModelResponse O) → Option (List AttemptRecord)
  | .ok r => some r.attempts
  | .error (.model e) => some e.attempts
  | .error _ => none

theorem position_of_target {route : ModelRoute} {p : ℕ} {target : ModelTarget}
    (h : route.targets[p]? = some target) {a : AttemptRecord} (hp : a.provider = target.provider)
    (hm : a.modelId = target.modelId) : position route a = p := by
  obtain ⟨hlt, hget⟩ := List.getElem?_eq_some_iff.mp h
  unfold position
  rw [List.findIdx_eq hlt]
  refine ⟨by simp [hget, hp, hm, ModelTarget.key], fun j hj => ?_⟩
  have hne := List.nodup_iff_injective_get.mp route.distinct
  by_contra hcon
  have hkey : (route.targets.get ⟨j, hj.trans hlt⟩).key = target.key := by
    simpa [hp, hm, ModelTarget.key] using hcon
  have hjp : (⟨j, by simpa [ModelRoute.targets] using hj.trans hlt⟩ :
      Fin ((route.primary :: route.fallbacks).map ModelTarget.key).length) =
      ⟨p, by simpa [ModelRoute.targets] using hlt⟩ := by
    apply hne
    simp only [List.get_eq_getElem, List.getElem_map]
    exact hkey.trans (congrArg ModelTarget.key hget.symm)
  have := congrArg Fin.val hjp
  simp only at this
  omega

/-- How the next attempt relates to what has been attempted. -/
def Linked (route : ModelRoute) (entries : List Entry) (a : AttemptRecord) : Prop :=
  (entries = [] → position route a = 0 ∧ a.fallbackReason = none) ∧
    ∀ entry ∈ entries.getLast?, ∃ e, entry.2 = some e ∧ Follows route entry.1 e a

theorem Policy.snoc {route : ModelRoute} {entries : List Entry} (h : Policy route entries)
    {entry : Entry} {target : ModelTarget} (hno : entry.1.attemptNo = entries.length + 1)
    (htarget : route.targets[position route entry.1]? = some target)
    (houtcome : entry.1.outcome = entry.2.elim .succeeded fun e => .failed e.code)
    (hlinked : Linked route entries entry.1)
    (hcount : entries.countP (fun x => position route x.1 == position route entry.1) ≤
      target.limits.maxRetries) : Policy route (entries ++ [entry]) where
  numbered := by
    simp [h.numbered, hno, List.range'_1_concat, Nat.add_comm]
  onRoute x hx := by
    rcases List.mem_append.mp hx with hx | hx
    · exact h.onRoute x hx
    · rw [List.mem_singleton.mp hx]
      exact (List.getElem?_eq_some_iff.mp htarget).1
  outcomes x hx := by
    rcases List.mem_append.mp hx with hx | hx
    · exact h.outcomes x hx
    · rw [List.mem_singleton.mp hx]
      exact houtcome
  starts x hx := by
    cases entries with
    | nil =>
      obtain rfl : entry = x := by simpa using hx
      exact hlinked.1 rfl
    | cons first rest => exact h.starts x (by simpa using hx)
  follows := by
    refine List.isChain_append.mpr ⟨h.follows, List.isChain_singleton _, fun x hx y hy => ?_⟩
    obtain rfl : entry = y := by simpa using hy
    exact hlinked.2 x hx
  bounded p t ht := by
    rw [List.countP_append, List.countP_singleton]
    by_cases hp : position route entry.1 = p
    · subst hp
      rw [htarget] at ht
      obtain rfl := Option.some.inj ht
      simpa using hcount
    · simpa [hp] using h.bounded p t ht

/-- The record an attempt on `target` makes. -/
structure RecordOf (s : CompleteState O) (target : ModelTarget) (outcome : AttemptOutcome)
    (a : AttemptRecord) : Prop where
  number : a.attemptNo = s.failures.length + 1
  provider : a.provider = target.provider
  modelId : a.modelId = target.modelId
  outcome : a.outcome = outcome
  reason : a.fallbackReason = s.fallbackReason

theorem recordOf_attemptRecord {s : CompleteState O} {target : ModelTarget} {script : CompleteScript O}
    {now : ℚ} {outcome : AttemptOutcome} {providerRequestId : Option String}
    {usage : Option ModelUsage} :
    RecordOf s target outcome (attemptRecord s.attempts target script now outcome providerRequestId
      usage s.fallbackReason) := by
  constructor
  all_goals simp [attemptRecord, CallState.attempts]

variable {g : DefaultModelGateway O} {request : ModelRequest O} {deadline : ℚ}

theorem tryComplete_ok {s : CompleteState O} {target : ModelTarget} {script : CompleteScript O}
    {succeeded : AttemptRecord} {r : ModelResponse O}
    (h : (tryComplete g request deadline s target script).outcome = .ok (succeeded, r)) :
    RecordOf s target .succeeded succeeded ∧ r.attempts = s.attempts ++ [succeeded] := by
  unfold tryComplete at h
  split at h
  · cases h
  · split at h
    · cases h
    · split at h
      · cases h
      · simp only at h
        split at h
        · cases h
        · obtain ⟨r', hr, h⟩ := map_eq_ok.mp h
          cases h
          exact ⟨recordOf_attemptRecord, (response_eq_ok hr).2⟩

/-- Everything an attempt of `complete` can be. -/
inductive Attempted (s : CompleteState O) (target : ModelTarget) :
    CompleteState O × AttemptEnd (Except Exn (ModelResponse O)) → Prop
  | succeeded (t : CompleteState O) (a : AttemptRecord) (r : ModelResponse O)
    (hrecord : RecordOf s target .succeeded a) (hattempts : r.attempts = s.attempts ++ [a])
    (hfailures : t.failures = s.failures) : Attempted s target (t, .exited (.ok r))
  | cancelled (t : CompleteState O) (hfailures : t.failures = s.failures) :
    Attempted s target (t, .exited (.error .cancelled))
  | failed (t : CompleteState O) (a : AttemptRecord) (e : ModelError)
    (hrecord : RecordOf s target (.failed e.code) a) (hfailures : t.failures = s.failures)
    (hreason : t.fallbackReason = s.fallbackReason) : Attempted s target (t, .failed a e)

variable (g request deadline)

theorem completeAttempt_attempted (s : CompleteState O) (target : ModelTarget)
    (script : CompleteScript O) :
    Attempted s target (completeAttempt g request deadline s target script) := by
  unfold completeAttempt
  simp only
  split
  · next succeeded r h =>
    obtain ⟨hrecord, hattempts⟩ := tryComplete_ok h
    exact .succeeded _ succeeded r hrecord hattempts rfl
  · exact .cancelled _ rfl
  · exact .failed _ _ _ recordOf_attemptRecord rfl rfl

def NextLinked (route : ModelRoute) (s : CompleteState O) (p : ℕ) : Prop :=
  (s.failures = [] → p = 0 ∧ s.fallbackReason = none) ∧
    ∀ last ∈ s.failures.getLast?,
      (position route last.1 = p ∧ last.2.retryable = true ∧
        s.fallbackReason = last.1.fallbackReason) ∨
      (position route last.1 + 1 = p ∧ last.2.fallbackAllowed = true ∧
        s.fallbackReason = some last.2.code)

/-- An attempt on position `p` with `budget` retries left may begin. -/
structure Ready (route : ModelRoute) (target : ModelTarget) (p budget : ℕ) (s : CompleteState O) :
    Prop where
  policy : Policy route (failedEntries s)
  here : route.targets[p]? = some target
  count : (failedEntries s).countP (fun x => position route x.1 == p) + budget ≤
    target.limits.maxRetries
  linked : NextLinked route s p

theorem NextLinked.linked {route : ModelRoute} {s : CompleteState O} {p : ℕ}
    (h : NextLinked route s p) {a : AttemptRecord} (hp : position route a = p)
    (hreason : a.fallbackReason = s.fallbackReason) : Linked route (failedEntries s) a := by
  refine ⟨fun hnil => ?_, fun entry hentry => ?_⟩
  · obtain ⟨h1, h2⟩ := h.1 (List.map_eq_nil_iff.mp hnil)
    exact ⟨hp.trans h1, hreason.trans h2⟩
  · simp only [failedEntries, List.getLast?_map, Option.mem_def, Option.map_eq_some_iff] at hentry
    obtain ⟨last, hlast, rfl⟩ := hentry
    refine ⟨last.2, rfl, ?_⟩
    rcases h.2 last hlast with ⟨h1, h2, h3⟩ | ⟨h1, h2, h3⟩
    · exact .retry (hp.trans h1.symm) h2 (hreason.trans h3)
    · exact .fallback (hp.trans h1.symm) h2 (hreason.trans h3)

theorem Ready.snoc {route : ModelRoute} {target : ModelTarget} {p budget : ℕ} {s : CompleteState O}
    (h : Ready route target p budget s) {outcome : AttemptOutcome} {a : AttemptRecord}
    (ha : RecordOf s target outcome a) {e : Option ModelError}
    (houtcome : outcome = e.elim .succeeded fun e => .failed e.code) :
    Policy route (failedEntries s ++ [(a, e)]) := by
  have hp := position_of_target h.here ha.provider ha.modelId
  have hcount := h.count
  have hhere : route.targets[position route a]? = some target := by
    rw [hp]
    exact h.here
  refine h.policy.snoc (by simp [ha.number, failedEntries]) hhere ?_ ?_ ?_
  · rw [ha.outcome, houtcome]
  · exact h.linked.linked hp ha.reason
  · simp only [hp]
    omega

/-- The state of a call that has ended: its ledger follows the policy and is what
    the caller sees, and a last error that permits nothing is the result. -/
structure Ended (route : ModelRoute) (run : CompleteState O × Except Exn (ModelResponse O)) :
    Prop where
  policy : Policy route (ledger run)
  reported : ∀ attempts ∈ reportedAttempts run.2, attempts = (ledger run).map Prod.fst
  final : ∀ last ∈ run.1.failures.getLast?, last.2.retryable = false →
    last.2.fallbackAllowed = false → ∃ e, run.2 = .error (.model e) ∧ e.code = last.2.code

theorem map_fst_failedEntries (s : CompleteState O) : (failedEntries s).map Prod.fst = s.attempts := by
  simp [failedEntries, CallState.attempts]

theorem ledger_raised (s : CompleteState O) (e : Exn) : ledger (s, .error e) = failedEntries s := by
  simp [ledger]

theorem Ended.ofRaised {route : ModelRoute} {s : CompleteState O}
    (hpolicy : Policy route (failedEntries s)) {e : ModelError}
    (hfinal : ∀ last ∈ s.failures.getLast?, last.2.retryable = false →
      last.2.fallbackAllowed = false → e.code = last.2.code) :
    Ended route (s, .error (.model (e.withAttempts s.attempts))) where
  policy := by
    rw [ledger_raised]
    exact hpolicy
  reported attempts h := by
    rw [ledger_raised, map_fst_failedEntries]
    exact (Option.some.inj h).symm
  final last hlast h1 h2 := ⟨_, rfl, hfinal last hlast h1 h2⟩

theorem Ended.ofInterrupted {route : ModelRoute} {s : CompleteState O}
    (hpolicy : Policy route (failedEntries s)) {e : Exn} (he : ∀ error, e ≠ .model error)
    (hopen : ∀ last ∈ s.failures.getLast?,
      last.2.retryable = true ∨ last.2.fallbackAllowed = true) :
    Ended route (s, .error e) where
  policy := by
    rw [ledger_raised]
    exact hpolicy
  reported attempts h := by
    cases e with
    | model error => exact absurd rfl (he error)
    | _ => cases h
  final last hlast h1 h2 := by
    rcases hopen last hlast with h | h <;> simp_all

theorem NextLinked.permits {route : ModelRoute} {s : CompleteState O} {p : ℕ}
    (h : NextLinked route s p) :
    ∀ last ∈ s.failures.getLast?, last.2.retryable = true ∨ last.2.fallbackAllowed = true := by
  intro last hlast
  rcases h.2 last hlast with ⟨-, h, -⟩ | ⟨-, h, -⟩
  · exact .inl h
  · exact .inr h

theorem Ended.ofSucceeded {route : ModelRoute} {target : ModelTarget} {p budget : ℕ}
    {s t : CompleteState O} (h : Ready route target p budget s) {a : AttemptRecord}
    {r : ModelResponse O} (ha : RecordOf s target .succeeded a)
    (hattempts : r.attempts = s.attempts ++ [a]) (hfailures : t.failures = s.failures) :
    Ended route (t, .ok r) := by
  have hledger : ledger (t, .ok r) = failedEntries s ++ [(a, none)] := by
    simp [ledger, failedEntries, hattempts, hfailures]
  refine ⟨?_, fun attempts hr => ?_, fun last hlast h1 h2 => ?_⟩
  · rw [hledger]
    exact h.snoc ha rfl
  · rw [hledger, List.map_append, map_fst_failedEntries, ← Option.some.inj hr]
    exact hattempts
  · rw [hfailures] at hlast
    rcases h.linked.permits last hlast with h | h <;> simp_all

/-- A target is exhausted by an error that leads no further here. -/
structure Exhausted (route : ModelRoute) (p : ℕ) (s : CompleteState O) (e : ModelError) : Prop where
  policy : Policy route (failedEntries s)
  last : ∃ a, s.failures.getLast? = some (a, e) ∧ position route a = p
  ahead : ∀ entry ∈ failedEntries s, position route entry.1 ≤ p

variable (env : ℕ → CompleteScript O)

/-- Nothing has been attempted beyond position `p`. -/
def Behind (route : ModelRoute) (p : ℕ) (s : CompleteState O) : Prop :=
  ∀ entry ∈ failedEntries s, position route entry.1 ≤ p

/-- The state after a failed attempt on position `p`. -/
structure Recorded (route : ModelRoute) (target : ModelTarget) (p budget : ℕ) (s : CompleteState O)
    (a : AttemptRecord) (e : ModelError) : Prop where
  exhausted : Exhausted route p s e
  last : s.failures.getLast? = some (a, e)
  count : (failedEntries s).countP (fun x => position route x.1 == p) + budget ≤
    target.limits.maxRetries + 1
  reason : s.fallbackReason = a.fallbackReason

theorem Ready.record {route : ModelRoute} {target : ModelTarget} {p budget : ℕ} {s t : CompleteState O}
    (h : Ready route target p budget s) (hbehind : Behind route p s) {a : AttemptRecord}
    {e : ModelError} (ha : RecordOf s target (.failed e.code) a) (hfailures : t.failures = s.failures)
    (hreason : t.fallbackReason = s.fallbackReason) :
    Recorded route target p budget (t.fail a e) a e := by
  have hp := position_of_target h.here ha.provider ha.modelId
  have hentries : failedEntries (t.fail a e) = failedEntries s ++ [(a, some e)] := by
    simp [failedEntries, CallState.fail, hfailures]
  have hcount := h.count
  constructor
  · refine ⟨?_, ⟨a, by simp [CallState.fail], hp⟩, fun entry hentry => ?_⟩
    · rw [hentries]
      exact h.snoc ha rfl
    · rw [hentries] at hentry
      rcases List.mem_append.mp hentry with hentry | hentry
      · exact hbehind entry hentry
      · rw [List.mem_singleton.mp hentry, hp]
  · simp [CallState.fail]
  · rw [hentries, List.countP_append, List.countP_singleton]
    simp only [hp, beq_self_eq_true, if_true]
    omega
  · exact hreason.trans ha.reason.symm

theorem Recorded.ready {route : ModelRoute} {target : ModelTarget} {p budget : ℕ}
    {s : CompleteState O} {a : AttemptRecord} {e : ModelError}
    (h : Recorded route target p (budget + 1) s a e) (hhere : route.targets[p]? = some target)
    (hretryable : e.retryable = true) (w : World O) :
    Ready route target p budget { s with world := w } := by
  obtain ⟨b, hb, hposition⟩ := h.exhausted.last
  rw [h.last] at hb
  cases hb
  have hcount := h.count
  refine ⟨h.exhausted.policy, hhere, ?_, fun hnil => ?_, fun last hlast => ?_⟩
  · simp only [failedEntries] at hcount ⊢
    omega
  · have hlast := h.last
    rw [show s.failures = [] from hnil] at hlast
    cases hlast
  · rw [show s.failures.getLast? = some (a, e) from h.last] at hlast
    cases hlast
    exact .inl ⟨hposition, hretryable, h.reason⟩

/-- What one attempt on position `p` leads to. -/
def AttemptResult (route : ModelRoute) (target : ModelTarget) (p budget : ℕ) :
    CompleteState O × AttemptEnd (Except Exn (ModelResponse O)) → Prop
  | (t, .exited result) => Ended route (t, result)
  | (t, .failed a e) => Recorded route target p budget (t.fail a e) a e

theorem attempt_result {route : ModelRoute} {target : ModelTarget} {p budget : ℕ}
    {s : CompleteState O} (h : Ready route target p budget s) (hbehind : Behind route p s)
    (script : CompleteScript O) :
    AttemptResult route target p budget
      (completeAttempt g request deadline (s.beginAttempt target script) target script) := by
  have hready : Ready route target p budget (s.beginAttempt target script) :=
    ⟨h.policy, h.here, h.count, h.linked⟩
  have hattempted := completeAttempt_attempted g request deadline
    (s.beginAttempt target script) target script
  generalize completeAttempt g request deadline (s.beginAttempt target script) target script = out
    at hattempted ⊢
  cases hattempted with
  | succeeded t a r hrecord hattempts hfailures =>
    exact Ended.ofSucceeded hready hrecord hattempts hfailures
  | cancelled t hfailures =>
    refine Ended.ofInterrupted ?_ (by simp) ?_
    · simpa [failedEntries, hfailures] using hready.policy
    · rw [hfailures]
      exact hready.linked.permits
  | failed t a e hrecord hfailures hreason => exact hready.record hbehind hrecord hfailures hreason

/-- The inner loop ends the call, or it exhausts its target. -/
def LoopResult (route : ModelRoute) (p : ℕ) :
    CompleteState O × (Except Exn (ModelResponse O) ⊕ ModelError) → Prop
  | (t, .inl result) => Ended route (t, result)
  | (t, .inr e) => Exhausted route p t e

theorem Recorded.interrupted {route : ModelRoute} {target : ModelTarget} {p budget : ℕ}
    {s : CompleteState O} {a : AttemptRecord} {e : ModelError}
    (h : Recorded route target p budget s a e) (hretryable : e.retryable = true) (w : World O) :
    (∀ error : ModelError,
      Ended route ({ s with world := w }, .error (.model (error.withAttempts s.attempts)))) ∧
    ∀ other : Exn, (∀ error, other ≠ .model error) →
      Ended route ({ s with world := w }, .error other) := by
  have hpermits : ∀ last ∈ s.failures.getLast?, last.2.retryable = true := by
    intro last hlast
    rw [h.last] at hlast
    cases hlast
    exact hretryable
  constructor
  · intro error
    refine Ended.ofRaised (s := { s with world := w }) h.exhausted.policy fun last hlast hnot => ?_
    exact absurd (hpermits last hlast) (by simp [hnot])
  · intro other hother
    exact Ended.ofInterrupted (s := { s with world := w }) h.exhausted.policy hother
      fun last hlast => .inl (hpermits last hlast)

theorem retryLoop_result {route : ModelRoute} {target : ModelTarget} {p : ℕ} (budget : ℕ)
    (s : CompleteState O) (h : Ready route target p budget s) (hbehind : Behind route p s) :
    LoopResult route p (retryLoop (completeAttempt g request deadline) .error deadline
      request.requestId env target budget s) := by
  induction budget generalizing s with
  | zero =>
    have hresult := attempt_result g request deadline h hbehind (env s.failures.length)
    unfold retryLoop
    simp only
    split
    · next t result heq =>
      rw [heq] at hresult
      exact hresult
    · next t a e heq =>
      rw [heq] at hresult
      split_ifs <;> exact Recorded.exhausted hresult
  | succ budget ih =>
    have hresult := attempt_result g request deadline h hbehind (env s.failures.length)
    unfold retryLoop
    simp only
    split
    · next t result heq =>
      rw [heq] at hresult
      exact hresult
    · next t a e heq =>
      rw [heq] at hresult
      have hrecorded : Recorded route target p (budget + 1) (t.fail a e) a e := hresult
      split_ifs with hretryable
      · split
        · exact (hrecorded.interrupted hretryable _).1 _
        · next w other hother hback =>
          exact (hrecorded.interrupted hretryable _).2 _ fun error herror =>
            hother error herror
        · exact ih _ (hrecorded.ready h.here hretryable _) hrecorded.exhausted.ahead
      · exact hrecorded.exhausted

/-- The targets before position `p` are exhausted. -/
structure Arrived (route : ModelRoute) (p : ℕ) (s : CompleteState O) (last : Option ModelError) :
    Prop where
  policy : Policy route (failedEntries s)
  before : ∀ entry ∈ failedEntries s, position route entry.1 < p
  linked : NextLinked route s p
  error : ∀ x ∈ s.failures.getLast?, last = some x.2

theorem Arrived.ready {route : ModelRoute} {p : ℕ} {s : CompleteState O} {last : Option ModelError}
    (h : Arrived route p s last) {target : ModelTarget} (hhere : route.targets[p]? = some target) :
    Ready route target p target.limits.maxRetries s := by
  refine ⟨h.policy, hhere, ?_, h.linked⟩
  have hnone : (failedEntries s).countP (fun x => position route x.1 == p) = 0 := by
    rw [List.countP_eq_zero]
    intro entry hentry
    have := h.before entry hentry
    simp only [beq_iff_eq]
    omega
  omega

theorem Exhausted.arrived {route : ModelRoute} {p : ℕ} {s : CompleteState O} {e : ModelError}
    (h : Exhausted route p s e) (hallowed : e.fallbackAllowed = true) :
    Arrived route (p + 1) { s with fallbackReason := some e.code } (some e) := by
  obtain ⟨a, hlast, hposition⟩ := h.last
  refine ⟨h.policy, fun entry hentry => ?_, ⟨fun hnil => ?_, fun last hx => ?_⟩, fun x hx => ?_⟩
  · have := h.ahead entry hentry
    omega
  · rw [show s.failures = [] from hnil] at hlast
    cases hlast
  · rw [show s.failures.getLast? = some (a, e) from hlast] at hx
    cases hx
    exact .inr ⟨by rw [hposition], hallowed, rfl⟩
  · rw [show s.failures.getLast? = some (a, e) from hlast] at hx
    cases hx
    rfl

/-- The outer loop over the targets from position `p` on. -/
theorem routeLoop_ended {route : ModelRoute} {provider : ModelTarget → Except Exn Unit}
    (hprovider : ∀ target ∈ route.targets, provider target = .ok ()) (targets : List ModelTarget)
    {p : ℕ} {s : CompleteState O} {last : Option ModelError} (hp : targets = route.targets.drop p)
    (h : Arrived route p s last) (hstarted : targets = [] → last.isSome) :
    Ended route (routeLoop (completeAttempt g request deadline) .error deadline request.requestId env
      provider targets s last) := by
  induction targets generalizing p s last with
  | nil =>
    cases last with
    | none => simp at hstarted
    | some e =>
      refine Ended.ofRaised h.policy fun x hx _ _ => ?_
      rw [Option.some.inj (h.error x hx)]
  | cons target targets ih =>
    have hhere : route.targets[p]? = some target := by
      rw [← List.head?_drop, ← hp]
      rfl
    have hmem : target ∈ route.targets := List.mem_of_getElem? hhere
    simp only [routeLoop, hprovider target hmem]
    have hresult := retryLoop_result g request deadline env target.limits.maxRetries s (h.ready hhere)
      fun entry hentry => (h.before entry hentry).le
    split
    · next t result heq =>
      rw [heq] at hresult
      exact hresult
    · next t e heq =>
      rw [heq] at hresult
      have hexhausted : Exhausted route p t e := hresult
      split_ifs with hallowed
      · refine ih ?_ (hexhausted.arrived hallowed) fun _ => rfl
        rw [← List.tail_drop, ← hp, List.tail_cons]
      · refine Ended.ofRaised hexhausted.policy fun x hx _ _ => ?_
        obtain ⟨a, hlast, -⟩ := hexhausted.last
        rw [hlast] at hx
        cases hx
        rfl

variable {g request deadline}

def InTime (deadline : ℚ) (w : World O) : Prop :=
  ∀ key at_, .invoked key at_ ∈ w.events → ∃ t, at_ = some t ∧ t < deadline

theorem InTime.log {w : World O} (h : InTime deadline w) {event : Event O}
    (hevent : ∀ key at_, event ≠ .invoked key at_) : InTime deadline (w.log event) := by
  intro key at_ hmem
  rcases List.mem_append.mp hmem with hmem | hmem
  · exact h key at_ hmem
  · exact absurd (List.mem_singleton.mp hmem).symm (hevent key at_)

theorem InTime.invoke {w : World O} (h : InTime deadline w) {key : TargetKey} {t : ℚ}
    (ht : t < deadline) : InTime deadline (w.log (.invoked key (some t))) := by
  intro key' at_ hmem
  rcases List.mem_append.mp hmem with hmem | hmem
  · exact h key' at_ hmem
  · cases List.mem_singleton.mp hmem
    exact ⟨t, rfl, ht⟩

theorem InTime.report {w : World O} (h : InTime deadline w) (target : ModelTarget)
    (script : CompleteScript O) (r : Report) : InTime deadline (w.report target script r) :=
  h.log (by simp)

theorem InTime.reportIf {w : World O} (h : InTime deadline w) (admitted : Bool)
    (target : ModelTarget) (script : CompleteScript O) (r : Report) :
    InTime deadline (reportIf admitted w target script r) := by
  unfold Gateway.reportIf
  split_ifs
  · exact h.report target script r
  · exact h

theorem InTime.admitCall {w w' : World O} (h : InTime deadline w) {target : ModelTarget}
    {script : CompleteScript O} {requestId : String} {answer : Except Exn Unit}
    (hadm : admitCall w target script deadline requestId = (w', answer)) : InTime deadline w' := by
  cases answer with
  | ok u =>
    obtain ⟨-, rfl⟩ := admitCall_ok hadm
    exact InTime.log (w := ⟨_, w.events⟩) h (by simp)
  | error e =>
    obtain ⟨-, quiet, hquiet, hevents⟩ := admitCall_error hadm
    intro key at_ hmem
    rw [hevents] at hmem
    rcases List.mem_append.mp hmem with hmem | hmem
    · exact h key at_ hmem
    · cases hquiet _ hmem

section
variable (g request)

theorem tryComplete_inTime {s : CompleteState O} (h : InTime deadline s.world) (target : ModelTarget)
    (script : CompleteScript O) :
    InTime deadline (tryComplete g request deadline s target script).world := by
  unfold tryComplete
  split
  · next w e hadm => exact h.admitCall hadm
  · next w hadm =>
    have hw := h.admitCall hadm
    split
    · exact hw
    · split
      · exact hw
      · next left hcheck =>
        simp only
        split
        · exact hw.invoke (remaining_eq_ok hcheck)
        · exact hw.invoke (remaining_eq_ok hcheck)

theorem completeAttempt_inTime {s : CompleteState O} (h : InTime deadline s.world)
    (target : ModelTarget) (script : CompleteScript O) :
    InTime deadline (completeAttempt g request deadline s target script).1.world := by
  have htried := tryComplete_inTime g request h target script
  unfold completeAttempt
  simp only
  split
  · exact (htried.report target script .success).log (by simp)
  · exact (htried.reportIf _ target script _).log (by simp)
  · exact (htried.reportIf _ target script _).log (by simp)

theorem inTime_rule :
    LoopRule (completeAttempt g request deadline) .error (fun _ => True) (fun _ => True)
      (fun s => InTime deadline s.world) (fun s _ => InTime deadline s.world) where
  attempt s target script _ h := by
    have hattempt := completeAttempt_inTime g request (s := s.beginAttempt target script) h target
      script
    split <;> simp_all [CallState.fail]
  slept s delay h := h.log (by simp)
  reason s code h := h
  raised s e _ h := h
  model _ := trivial
  sleeper _ _ _ _ := .inr trivial

end

theorem preflightTarget_error {target : ModelTarget} {e : Exn}
    (h : g.preflightTarget target request = .error e) :
    ∀ attempts ∈ reportedAttempts (O := O) (.error e), attempts = [] := by
  have hmodel : ∀ code message, e = .model (.of code message request.requestId) →
      ∀ attempts ∈ reportedAttempts (O := O) (.error e), attempts = [] := by
    rintro code message rfl attempts hmem
    exact (Option.some.inj hmem).symm
  unfold DefaultModelGateway.preflightTarget DefaultModelGateway.provider at h
  rcases bind_eq_error.mp h with h | ⟨_, -, h⟩
  · exact hmodel _ _ (require_eq_error.mp h).2.symm
  rcases bind_eq_error.mp h with h | ⟨_, -, h⟩
  · exact hmodel _ _ (require_eq_error.mp h).2.symm
  rcases bind_eq_error.mp h with h | ⟨_, -, h⟩
  · exact hmodel _ _ (require_eq_error.mp h).2.symm
  rcases bind_eq_error.mp h with h | ⟨_, -, h⟩
  · cases hestimate : g.estimate target request with
    | error error =>
      rw [hestimate] at h
      cases h
      intro attempts hmem
      cases hmem
    | ok bound =>
      rw [hestimate] at h
      cases h
  · exact hmodel _ _ (require_eq_error.mp h).2.symm

theorem provider_of_preflight {route : ModelRoute} (h : g.preflightRoute route request = .ok ()) :
    ∀ target ∈ route.targets, g.provider target request.requestId = .ok () := by
  intro target htarget
  have hpreflight := forM_eq_ok h target htarget
  unfold DefaultModelGateway.preflightTarget at hpreflight
  obtain ⟨_, hprovider, -⟩ := bind_eq_ok.mp hpreflight
  exact hprovider

theorem policy_nil (route : ModelRoute) : Policy route [] := by
  constructor <;> simp

theorem arrived_initial (route : ModelRoute) (breakers : Breakers) :
    Arrived route 0 (.initial breakers : CompleteState O) none := by
  constructor
  · exact policy_nil route
  · simp [failedEntries, CallState.initial]
  · exact ⟨fun _ => ⟨rfl, rfl⟩, by simp [CallState.initial]⟩
  · simp [CallState.initial]

theorem complete_of_preflight {route : ModelRoute} (start : ℚ) (breakers : Breakers)
    (env : ℕ → CompleteScript O) (h : g.preflightRoute route request = .ok ()) :
    Ended route (complete g request route start breakers env) ∧
      InTime (start + route.totalTimeoutSeconds)
        (complete g request route start breakers env).1.world := by
  simp only [complete, h]
  constructor
  · exact routeLoop_ended g request _ env (provider_of_preflight h) route.targets rfl
      (arrived_initial route breakers)
      (by simp [ModelRoute.targets])
  · exact (inTime_rule g request).routeLoop_all _ _ env _ route.targets
      (by simp [InTime, CallState.initial])

/-- `complete` follows the retry and fallback policy: its attempts do, the caller
    sees exactly them, an error that permits neither a retry nor a fallback is the
    result, no provider is invoked at or after the deadline, and none at all when
    the preflight rejects a target. -/
theorem complete_follows_policy (g : DefaultModelGateway O) (request : ModelRequest O)
    (route : ModelRoute) (start : ℚ) (breakers : Breakers) (env : ℕ → CompleteScript O) :
    let run := complete g request route start breakers env
    Policy route (ledger run) ∧
    (∀ attempts ∈ reportedAttempts run.2, attempts = (ledger run).map Prod.fst) ∧
    (∀ last ∈ run.1.failures.getLast?, last.2.retryable = false → last.2.fallbackAllowed = false →
      ∃ e, run.2 = .error (.model e) ∧ e.code = last.2.code) ∧
    (∀ key at_, .invoked key at_ ∈ run.1.world.events →
      ∃ t, at_ = some t ∧ t < start + route.totalTimeoutSeconds) ∧
    ((∃ target ∈ route.targets, g.preflightTarget target request ≠ .ok ()) →
      run.1.world.events = []) := by
  intro run
  cases hpreflight : g.preflightRoute route request with
  | ok u =>
    obtain ⟨hended, hinTime⟩ := complete_of_preflight start breakers env hpreflight
    refine ⟨hended.policy, hended.reported, hended.final, hinTime, ?_⟩
    rintro ⟨target, htarget, hrejected⟩
    exact absurd (forM_eq_ok hpreflight target htarget) hrejected
  | error e =>
    have hrun : run = (.initial breakers, .error e) := by simp only [run, complete, hpreflight]
    obtain ⟨target, -, hrejected⟩ := forM_eq_error hpreflight
    rw [hrun]
    refine ⟨policy_nil route, preflightTarget_error hrejected, ?_, ?_, fun _ => rfl⟩
    · simp [CallState.initial]
    · simp [CallState.initial]

end Gateway
end Zhiyi
