import Zhiyi.Gateway.Chunking

set_option autoImplicit false

/-! `complete` and `stream` make the same decisions: a simulation between the two
attempts, carried through the loops they share. -/
namespace Zhiyi
namespace Gateway
open Python

variable {O : Objects}

def AttemptRecord.untimed (a : AttemptRecord) :
    ℕ × ProviderId × String × AttemptOutcome × Option String × Option ModelUsage × Option ErrorCode :=
  (a.attemptNo, a.provider, a.modelId, a.outcome, a.providerRequestId, a.usage, a.fallbackReason)

structure SameError (e e' : ModelError) : Prop where
  code : e'.code = e.code
  retryable : e'.retryable = e.retryable
  fallbackAllowed : e'.fallbackAllowed = e.fallbackAllowed
  usage : e'.usage = e.usage
  providerRequestId : e'.providerRequestId = e.providerRequestId

theorem SameError.refl (e : ModelError) : SameError e e := ⟨rfl, rfl, rfl, rfl, rfl⟩

structure SameResponse (r r' : ModelResponse O) : Prop where
  requestId : r'.requestId = r.requestId
  provider : r'.provider = r.provider
  modelId : r'.modelId = r.modelId
  text : responseText r' = responseText r
  finishReason : r'.finishReason = r.finishReason
  usage : r'.usage = r.usage
  totalUsage : r'.totalUsage = r.totalUsage
  attempts : r'.attempts.map (·.untimed) = r.attempts.map (·.untimed)
  providerRequestId : r'.providerRequestId = r.providerRequestId
  toolCalls : r'.toolCalls = r.toolCalls
  structuredOutput : r'.structuredOutput = r.structuredOutput

/-- The scripts of corresponding attempts: the environment answers alike, no timeout
    fires, and the provider streams a chunking of its response or raises its error
    before any chunk. -/
structure Corresponds (deadline deadline' : ℚ) (c : CompleteScript O) (s : StreamScript O) : Prop where
  limiter : s.limiter = c.limiter
  beforeAdmission : s.beforeAdmission = c.beforeAdmission
  breakerCheck : s.breakerCheck = c.breakerCheck
  credential : s.credential = c.credential
  beforeReport : s.beforeReport = c.beforeReport
  reportedAt : s.reportedAt = c.reportedAt
  backoff : s.backoff = c.backoff
  inTime : c.limiterCheck < deadline ∧ c.credentialCheck < deadline ∧ c.providerCheck < deadline ∧
    c.backoffCheck < deadline
  inTime' : s.limiterCheck < deadline' ∧ s.credentialCheck < deadline' ∧ s.backoffCheck < deadline'
  sends : Sends s.provider deadline'
  provider : match c.provider with
    | .ok answer => s.provider.opened = .ok () ∧ s.provider.ending = .ok () ∧
        Chunked answer (s.provider.chunks.map (·.chunk))
    | .error e => s.provider.opened = .error e ∨
        s.provider.opened = .ok () ∧ s.provider.chunks = [] ∧ s.provider.ending = .error e

def SameFailures (xs ys : List (AttemptRecord × ModelError)) : Prop :=
  List.Forall₂ (fun p q => q.1.untimed = p.1.untimed ∧ SameError p.2 q.2) xs ys

theorem SameFailures.attempts {xs ys : List (AttemptRecord × ModelError)} (h : SameFailures xs ys) :
    (ys.map Prod.fst).map (·.untimed) = (xs.map Prod.fst).map (·.untimed) := by
  induction h with
  | nil => rfl
  | cons hpq _ ih => simpa [hpq.1] using ih

theorem SameFailures.concat {xs ys : List (AttemptRecord × ModelError)} (h : SameFailures xs ys)
    {a a' : AttemptRecord} (hrecord : a'.untimed = a.untimed) {e e' : ModelError}
    (hsame : SameError e e') : SameFailures (xs ++ [(a, e)]) (ys ++ [(a', e')]) :=
  List.rel_append h (.cons ⟨hrecord, hsame⟩ .nil)

/-- Corresponding states of the two calls while nothing visible has been sent. -/
structure Related (c : CompleteState O) (s : StreamState O) : Prop where
  breakers : s.world.breakers = c.world.breakers
  failures : SameFailures c.failures s.failures
  fallbackReason : s.fallbackReason = c.fallbackReason
  visible : s.visible = false
  consumerClosed : s.consumerClosed = false

theorem Related.attempts {c : CompleteState O} {s : StreamState O} (h : Related c s) :
    s.attempts.map (·.untimed) = c.attempts.map (·.untimed) := h.failures.attempts

section
variable {deadline deadline' : ℚ} {c : CompleteScript O} {s : StreamScript O}
  (h : Corresponds deadline deadline' c s) (target : ModelTarget) (requestId : String)
include h

theorem Corresponds.admitCall {w w' : World O} (hw : w'.breakers = w.breakers) :
    (Gateway.admitCall w' target s deadline' requestId).2 =
      (Gateway.admitCall w target c deadline requestId).2 ∧
      (Gateway.admitCall w' target s deadline' requestId).1.breakers =
        (Gateway.admitCall w target c deadline requestId).1.breakers := by
  have hwait : limiterWait target s deadline' requestId = limiterWait target c deadline requestId := by
    unfold limiterWait
    rw [remaining_of_lt h.inTime.1, remaining_of_lt h.inTime'.1, h.limiter]
    rfl
  unfold Gateway.admitCall
  rw [hwait, h.beforeAdmission, h.breakerCheck, hw]
  split
  · exact ⟨rfl, hw⟩
  · simp only
    split_ifs <;> exact ⟨rfl, rfl⟩

theorem Corresponds.credentials (hasSecretProvider : Bool) :
    Gateway.credential hasSecretProvider target s deadline' requestId =
      Gateway.credential hasSecretProvider target c deadline requestId := by
  unfold Gateway.credential
  rw [remaining_of_lt h.inTime.2.1, remaining_of_lt h.inTime'.2.1, h.credential]
  rfl

theorem Corresponds.report {w w' : World O} (hw : w'.breakers = w.breakers) (r : Report) :
    (w'.report target s r).breakers = (w.report target c r).breakers := by
  simp only [World.report, h.beforeReport, h.reportedAt, hw]

theorem Corresponds.reportIf {w w' : World O} (hw : w'.breakers = w.breakers) (admitted : Bool)
    (r : Report) : (Gateway.reportIf admitted w' target s r).breakers =
      (Gateway.reportIf admitted w target c r).breakers := by
  unfold Gateway.reportIf
  split_ifs
  · exact h.report target hw r
  · exact hw

theorem Corresponds.backoffs {w w' : World O} (hw : w'.breakers = w.breakers) (retryIndex : ℕ) :
    (Gateway.backoff w' target retryIndex s deadline' requestId).2 =
        (Gateway.backoff w target retryIndex c deadline requestId).2 ∧
      (Gateway.backoff w' target retryIndex s deadline' requestId).1.breakers =
        (Gateway.backoff w target retryIndex c deadline requestId).1.breakers := by
  unfold Gateway.backoff
  rw [remaining_of_lt h.inTime.2.2.2, remaining_of_lt h.inTime'.2.2, h.backoff]
  exact ⟨rfl, hw⟩

end

theorem untimed_congr {α : Type} {f : AttemptRecord → α}
    (hf : ∀ a b : AttemptRecord, a.untimed = b.untimed → f a = f b) {as bs : List AttemptRecord}
    (h : as.map (·.untimed) = bs.map (·.untimed)) : as.map f = bs.map f := by
  induction as generalizing bs with
  | nil => cases bs with
    | nil => rfl
    | cons b bs => cases h
  | cons a as ih =>
    cases bs with
    | nil => cases h
    | cons b bs =>
      obtain ⟨hab, hrest⟩ := List.cons.inj h
      simp [hf a b hab, ih hrest]

theorem text_joined (answer : ProviderResponse O) :
    String.join ((joined answer).content.map (·.text)) = String.join (answer.content.map (·.text)) := by
  unfold joined
  simp only
  split_ifs with hempty
  · simp [String.join_cons]
  · simp only [ne_eq, not_not] at hempty
    rw [hempty]
    rfl

theorem isEmpty_joined (answer : ProviderResponse O) :
    (joined answer).content.isEmpty = answer.content.isEmpty := by
  unfold joined
  cases hcontent : answer.content with
  | nil => rfl
  | cons part parts =>
    have hne : String.join ((part :: parts).map (·.text)) ≠ "" := by
      rw [List.map_cons, String.join_cons]
      exact fun h => part.nonempty (String.append_eq_empty_iff.mp h).1
    simp only [dif_pos hne, List.isEmpty_cons]

structure SameFields (f f' : ModelResponseFields O) : Prop where
  requestId : f'.requestId = f.requestId
  provider : f'.provider = f.provider
  modelId : f'.modelId = f.modelId
  text : String.join (f'.content.map (·.text)) = String.join (f.content.map (·.text))
  isEmpty : f'.content.isEmpty = f.content.isEmpty
  finishReason : f'.finishReason = f.finishReason
  usage : f'.usage = f.usage
  totalUsage : f'.totalUsage = f.totalUsage
  attempts : f'.attempts.map (·.untimed) = f.attempts.map (·.untimed)
  providerRequestId : f'.providerRequestId = f.providerRequestId
  toolCalls : f'.toolCalls = f.toolCalls
  structuredOutput : f'.structuredOutput = f.structuredOutput

theorem SameFields.postInit {f f' : ModelResponseFields O} (h : SameFields f f') :
    f'.postInit = f.postInit := by
  have hlast : f'.attempts.getLast?.map (·.untimed) = f.attempts.getLast?.map (·.untimed) := by
    rw [← List.getLast?_map, ← List.getLast?_map, h.attempts]
  have hattempts : f'.checkAttempts = f.checkAttempts := by
    unfold ModelResponseFields.checkAttempts
    cases ha : f.attempts.getLast? with
    | none =>
      rw [ha] at hlast
      rw [Option.map_eq_none_iff.mp hlast]
    | some a =>
      rw [ha] at hlast
      obtain ⟨a', ha', hsame⟩ := Option.map_eq_some_iff.mp hlast
      simp only [AttemptRecord.untimed, Prod.mk.injEq] at hsame
      simp only [ha', hsame.2.1, hsame.2.2.1, hsame.2.2.2.1, h.provider, h.modelId]
  unfold ModelResponseFields.postInit
  rw [hattempts, h.isEmpty, h.finishReason, h.toolCalls, h.structuredOutput]

theorem SameFields.new {f f' : ModelResponseFields O} (h : SameFields f f') :
    (∃ r r', ModelResponse.new f = .ok r ∧ ModelResponse.new f' = .ok r' ∧ SameResponse r r') ∨
      ∃ e, ModelResponse.new f = .error e ∧ ModelResponse.new f' = .error e := by
  cases hf : f.postInit with
  | ok u =>
    refine .inl ⟨⟨f, hf⟩, ⟨f', h.postInit.trans hf⟩, construct_of_ok _ hf,
      construct_of_ok _ (h.postInit.trans hf), ?_⟩
    exact ⟨h.requestId, h.provider, h.modelId, h.text, h.finishReason, h.usage, h.totalUsage,
      h.attempts, h.providerRequestId, h.toolCalls, h.structuredOutput⟩
  | error e =>
    exact .inr ⟨e, construct_of_error _ hf, construct_of_error _ (h.postInit.trans hf)⟩

/-- The exception is recorded as an error that permits neither a retry nor a fallback. -/
def Final (e : Exn) : Prop :=
  ∀ message requestId, (asModelError message requestId e).retryable = false ∧
    (asModelError message requestId e).fallbackAllowed = false

/-- Results of the two attempts' `_response`. -/
inductive ResponseAgrees : Except Exn (ModelResponse O) → Except Exn (ModelResponse O) → Prop
  | ok (r r' : ModelResponse O) (hsame : SameResponse r r') : ResponseAgrees (.ok r) (.ok r')
  | error (e : Exn) (hfinal : Final e) : ResponseAgrees (.error e) (.error e)

theorem final_malformed (message requestId : String) : Final (malformed message requestId) :=
  fun _ _ => ⟨rfl, rfl⟩

theorem structuredOutput_final {request : ModelRequest O} {answer : ProviderResponse O} {e : Exn}
    (h : structuredOutput request answer = .error e) : Final e := by
  unfold structuredOutput at h
  split at h
  · cases h
    exact fun _ _ => ⟨rfl, rfl⟩
  · split at h
    · cases h
    · cases h
      exact fun _ _ => ⟨rfl, rfl⟩
  · cases h
    exact final_malformed _ _
  · cases h

theorem validateToolCalls_final {request : ModelRequest O} {calls : List (ToolCall O)}
    {ids : List String} {e : Exn} (h : validateToolCalls request calls ids = .error e) : Final e := by
  induction calls generalizing ids with
  | nil => cases h
  | cons call calls ih =>
    unfold validateToolCalls at h
    split_ifs at h
    · cases h
      exact final_malformed _ _
    · exact ih h

theorem aggregate_error {usages : List ModelUsage} {e : Exn} (h : ModelUsage.aggregate usages = .error e) :
    e = .exception ∨ ∃ error, e = .python error := by
  have hnew : ∀ f, (ModelUsage.new f).mapError .python = .error e → ∃ error, e = .python error := by
    intro f hf
    cases hnew : ModelUsage.new f with
    | ok usage => simp [hnew, Except.mapError] at hf
    | error error =>
      rw [hnew] at hf
      cases hf
      exact ⟨error, rfl⟩
  unfold ModelUsage.aggregate at h
  split_ifs at h
  · exact .inr (hnew _ h)
  · rcases bind_eq_error.mp h with h | ⟨total, -, h⟩
    · unfold aggregateAmount at h
      simp only at h
      split_ifs at h
      split at h
      · split at h
        · cases h
        · cases h
          exact .inl rfl
      · cases h
    · exact .inr (hnew _ h)

theorem response_joined (request : ModelRequest O) (target : ModelTarget) (answer : ProviderResponse O)
    {attempts attempts' : List AttemptRecord}
    (h : attempts'.map (·.untimed) = attempts.map (·.untimed)) :
    ResponseAgrees (response request target answer attempts)
      (response request target (joined answer) attempts') := by
  have husages : attempts'.filterMap (·.usage) = attempts.filterMap (·.usage) := by
    have hmap := untimed_congr (f := (·.usage))
      (fun a b hab => congrArg (fun t => t.2.2.2.2.2.1) hab) h
    simpa [List.filterMap_map, Function.comp_def] using congrArg (List.filterMap id) hmap
  unfold response
  have hstructured : structuredOutput request (joined answer) = structuredOutput request answer := rfl
  rw [hstructured, husages]
  cases hs : structuredOutput request answer with
  | error e => exact .error e (structuredOutput_final hs)
  | ok structured =>
    have htools : (joined answer).toolCalls = answer.toolCalls := rfl
    simp only [bind, Except.bind, htools]
    cases hmixed : require (!(structured.isSome && !answer.toolCalls.isEmpty))
        (malformed "Provider mixed tool calls and structured output" request.requestId) with
    | error e =>
      rw [← (require_eq_error.mp hmixed).2]
      exact .error _ (final_malformed _ _)
    | ok u =>
      cases hcalls : validateToolCalls request answer.toolCalls [] with
      | error e => exact .error e (validateToolCalls_final hcalls)
      | ok u =>
        simp only
        cases htotal : ModelUsage.aggregate (attempts.filterMap (·.usage)) with
        | error e =>
          rcases aggregate_error htotal with rfl | ⟨error, rfl⟩
          · exact .error _ fun _ _ => ⟨rfl, rfl⟩
          · exact .error _ (final_malformed _ _)
        | ok totalUsage =>
          simp only
          have hsame : SameFields
              { requestId := request.requestId, provider := target.provider, modelId := target.modelId,
                content := answer.content, finishReason := answer.finishReason, usage := answer.usage,
                totalUsage := totalUsage, attempts := attempts,
                providerRequestId := answer.providerRequestId, toolCalls := answer.toolCalls,
                structuredOutput := structured }
              { requestId := request.requestId, provider := target.provider, modelId := target.modelId,
                content := (joined answer).content, finishReason := (joined answer).finishReason,
                usage := (joined answer).usage, totalUsage := totalUsage, attempts := attempts',
                providerRequestId := (joined answer).providerRequestId, toolCalls := answer.toolCalls,
                structuredOutput := structured } :=
            ⟨rfl, rfl, rfl, text_joined answer, isEmpty_joined answer, rfl, rfl, rfl, h, rfl, rfl, rfl⟩
          rcases hsame.new with ⟨r, r', hr, hr', hresponse⟩ | ⟨e, he, he'⟩
          · rw [hr, hr']
            exact .ok r r' hresponse
          · rw [he, he']
            exact .error _ (final_malformed _ _)

inductive OutcomeAgrees (visible : Bool) : Except Exn (AttemptRecord × ModelResponse O) →
    Except Interrupt (AttemptRecord × ModelResponse O) → Prop
  | ok (a a' : AttemptRecord) (r r' : ModelResponse O) (hsame : SameResponse r r') :
    OutcomeAgrees visible (.ok (a, r)) (.ok (a', r'))
  | error (e : Exn) (hfinal : visible = true → Final e) :
    OutcomeAgrees visible (.error e) (.error (.raised e))

/-- How the `try` blocks of corresponding attempts end. -/
structure TriedAgrees (s : StreamState O) (t : Tried O) (u : StreamTried O) : Prop where
  breakers : u.state.world.breakers = t.world.breakers
  admitted : u.admitted = t.admitted
  usage : u.locals.usage = t.answer.bind (·.usage)
  failures : u.state.failures = s.failures
  fallbackReason : u.state.fallbackReason = s.fallbackReason
  consumerClosed : u.state.consumerClosed = false
  outcome : OutcomeAgrees u.state.visible t.outcome u.outcome

theorem TriedAgrees.stopped {s : StreamState O} (hvisible : s.visible = false)
    (hclosed : s.consumerClosed = false) {w w' : World O} (hw : w'.breakers = w.breakers)
    (admitted : Bool) (e : Exn) :
    TriedAgrees s ⟨w, admitted, none, .error e⟩
      ⟨{ s with world := w' }, admitted, .initial, .error (.raised e)⟩ :=
  ⟨hw, rfl, rfl, rfl, rfl, hclosed, .error e fun h => by simp [hvisible] at h⟩

section
variable (g : DefaultModelGateway O) (request : ModelRequest O) {deadline deadline' : ℚ}
  {cs : CompleteScript O} {ss : StreamScript O}

theorem consume_raised {answer : StreamAnswer O} (hanswer : Sends answer deadline')
    (hchunks : answer.chunks = [])
    {e : Exn} (hending : answer.ending = .error e) (target : ModelTarget) (requestId : String)
    (s : StreamState O) (l : StreamLocals O) :
    ∃ w, w.breakers = s.world.breakers ∧
      consume requestId deadline' target answer answer.chunks true s l =
        ({ s with world := w }, l, .error (.raised e)) := by
  refine ⟨s.world.log (.invoked target.key (some answer.lastCheck)), rfl, ?_⟩
  rw [hchunks]
  unfold consume
  simp only [remaining_of_lt hanswer.lastCheck, hending, markInvoked, if_true]
  rfl

theorem firstCheck_lt {answer : StreamAnswer O} (hanswer : Sends answer deadline') :
    answer.firstCheck < deadline' := by
  unfold StreamAnswer.firstCheck
  cases hchunks : answer.chunks with
  | nil => exact hanswer.lastCheck
  | cons step steps => exact hanswer.checks step (by simp [hchunks])

theorem consume_chunked {answer : StreamAnswer O} (hanswer : Sends answer deadline')
    (hending : answer.ending = .ok ()) {reply : ProviderResponse O}
    (hchunked : Chunked reply (answer.chunks.map (·.chunk))) (target : ModelTarget)
    (requestId : String) {s : StreamState O} (hclosed : s.consumerClosed = false) :
    ∃ t l, consume requestId deadline' target answer answer.chunks true s .initial = (t, l, .ok ()) ∧
      Gathered (answer.chunks.map (·.chunk)) l ∧ t.world.breakers = s.world.breakers ∧
      t.failures = s.failures ∧ t.fallbackReason = s.fallbackReason ∧ t.consumerClosed = false := by
  rw [consume_first, remaining_of_lt (firstCheck_lt hanswer)]
  simp only
  have hb : Buffered { s with
      world := s.world.log (.invoked target.key (some answer.firstCheck)) } .initial := by
    simp [Buffered, StreamLocals.initial]
  have hreads := consume_reads requestId deadline' target (by rw [hending]; simp) answer.chunks
    hanswer.reads (s := { s with
      world := s.world.log (.invoked target.key (some answer.firstCheck)) }) hclosed hb
  obtain ⟨hok, hgathered⟩ := consume_gathers requestId target hanswer hending
    answer.chunks (fun _ h => h) [] (by simpa using hchunked.consistent)
    (by simpa using hchunked.once) (s := { s with
      world := s.world.log (.invoked target.key (some answer.firstCheck)) }) hclosed hb gathered_initial
  generalize consume requestId deadline' target answer answer.chunks false _ _ =
    consumed at hreads hok hgathered ⊢
  obtain ⟨t, l, left⟩ := consumed
  simp only at hreads hok hgathered
  subst hok
  obtain ⟨payloads, hdelivered, -⟩ := hreads.payloads
  refine ⟨t, l, rfl, by simpa using hgathered, ?_, hdelivered.failures, hdelivered.fallbackReason,
    hdelivered.consumerClosed.trans hclosed⟩
  rw [hdelivered.world]
  rfl

theorem try_agrees {c : CompleteState O} {s : StreamState O} (hrelated : Related c s)
    (h : Corresponds deadline deadline' cs ss) (target : ModelTarget) :
    TriedAgrees s (tryComplete g request deadline c target cs)
      (tryStream g request deadline' s target ss) := by
  obtain ⟨hanswer, hbreakers⟩ := h.admitCall target request.requestId hrelated.breakers
  unfold tryComplete tryStream
  cases hadm : admitCall c.world target cs deadline request.requestId with
  | mk w answer =>
    cases hadm' : admitCall s.world target ss deadline' request.requestId with
    | mk w' answer' =>
      rw [hadm, hadm'] at hanswer hbreakers
      simp only at hanswer hbreakers
      subst hanswer
      cases answer' with
      | error e => exact .stopped hrelated.visible hrelated.consumerClosed hbreakers false e
      | ok u =>
        simp only [h.credentials target]
        cases credential g.hasSecretProvider target cs deadline request.requestId with
        | error e => exact .stopped hrelated.visible hrelated.consumerClosed hbreakers true e
        | ok u =>
          simp only [remaining_of_lt h.inTime.2.2.1]
          have hprovider := h.provider
          cases hcomplete : cs.provider with
          | error e =>
            simp only [hcomplete] at hprovider
            rcases hprovider with hopened | ⟨hopened, hchunks, hending⟩
            · simp only [hopened]
              exact .stopped hrelated.visible hrelated.consumerClosed (by exact hbreakers) true e
            · obtain ⟨w'', hw'', hconsume⟩ := consume_raised h.sends hchunks hending target
                request.requestId { s with world := w' } .initial
              simp only [hopened, hconsume, closeIterator, h.sends.close]
              exact .stopped (w := w.log _) hrelated.visible hrelated.consumerClosed
                (hw''.trans hbreakers) true e
          | ok reply =>
            simp only [hcomplete] at hprovider
            obtain ⟨hopened, hending, hchunked⟩ := hprovider
            obtain ⟨t, l, hconsume, hgathered, ht, hfailures, hreason, hclosed⟩ := consume_chunked h.sends
              hending hchunked target request.requestId (s := { s with world := w' })
              hrelated.consumerClosed
            obtain ⟨husage, hrequestId, hassembled⟩ :=
              assembled_of_chunked hchunked hgathered request.requestId
            simp only [hopened, hconsume, closeIterator, h.sends.close]
            refine ⟨ht.trans hbreakers, rfl, husage, hfailures, hreason, hclosed, ?_⟩
            simp only [finishStream, hassembled, husage, hrequestId, hreason]
            have hattempts : t.attempts.map (·.untimed) = c.attempts.map (·.untimed) := by
              unfold CallState.attempts
              rw [hfailures]
              exact hrelated.attempts
            have hlength : t.attempts.length = c.attempts.length := by
              simpa using congrArg List.length hattempts
            have hsame : (t.attempts ++ [attemptRecord t.attempts target ss ss.finishedAt .succeeded
                reply.providerRequestId reply.usage s.fallbackReason]).map (·.untimed) =
                (c.attempts ++ [attemptRecord c.attempts target cs cs.finishedAt .succeeded
                  reply.providerRequestId reply.usage c.fallbackReason]).map (·.untimed) := by
              rw [List.map_append, List.map_append, hattempts]
              simp [attemptRecord, AttemptRecord.untimed, hlength, hrelated.fallbackReason]
            have hresponse := response_joined request target reply hsame
            simp only [bind, Except.bind]
            generalize response request target reply _ = x at hresponse ⊢
            generalize response request target (joined reply) _ = y at hresponse ⊢
            cases hresponse with
            | ok r r' hsame => exact .ok _ _ r r' hsame
            | error e hfinal => exact .error e fun _ => hfinal

def lastPayload (s : StreamState O) : Option (ChunkPayload O) :=
  (streamItems s.world.events).getLast?.map (·.payload)

/-- The end of a stream agrees with the result of the corresponding `complete`: a
    terminal item with the same response, or a raised or sent error with the same code
    and the same attempts. -/
def Agrees (result : Except Exn (ModelResponse O)) (s : StreamState O) (ended : StreamEnd) : Prop :=
  match result with
  | .ok r => ended = .terminal ∧ ∃ r', lastPayload s = some (.terminal r') ∧ SameResponse r r'
  | .error (.model e) =>
    ∃ e', (ended = .raised (.model e') ∨ ended = .errorItem ∧ lastPayload s = some (.error e')) ∧
      e'.code = e.code ∧ e'.attempts.map (·.untimed) = e.attempts.map (·.untimed)
  | .error e => ended = .raised e

theorem agrees_raised (e : Exn) (s : StreamState O) : Agrees (.error e) s (.raised e) := by
  cases e with
  | model error => exact ⟨error, .inl rfl, rfl, rfl⟩
  | _ => rfl

inductive AttemptAgrees : CompleteState O × AttemptEnd (Except Exn (ModelResponse O)) →
    StreamState O × AttemptEnd StreamEnd → Prop
  | exited (t : CompleteState O) (result : Except Exn (ModelResponse O)) (u : StreamState O)
    (ended : StreamEnd) (hagrees : Agrees result u ended) :
    AttemptAgrees (t, .exited result) (u, .exited ended)
  | failed (t : CompleteState O) (a : AttemptRecord) (e : ModelError) (u : StreamState O)
    (a' : AttemptRecord) (e' : ModelError) (hrelated : Related (t.fail a e) (u.fail a' e'))
    (hsame : SameError e e') : AttemptAgrees (t, .failed a e) (u, .failed a' e')
  | shown (t : CompleteState O) (a : AttemptRecord) (e : ModelError) (u : StreamState O)
    (ended : StreamEnd) (hretryable : e.retryable = false) (hfallback : e.fallbackAllowed = false)
    (hagrees : Agrees (.error (.model (e.withAttempts (t.fail a e).attempts))) u ended) :
    AttemptAgrees (t, .failed a e) (u, .exited ended)

theorem lastPayload_lastItem {s : StreamState O} (h : s.consumerClosed = false)
    (payload : ChunkPayload O) (ended : StreamEnd) :
    lastPayload (lastItem s payload ended).1 = some payload ∧ (lastItem s payload ended).2 = ended := by
  rw [lastItem_read h]
  simp [lastPayload, World.log, streamItems]

theorem sameError_asModelError (message message' requestId : String) (e : Exn) :
    SameError (asModelError message requestId e) (asModelError message' requestId e) := by
  cases e <;> exact ⟨rfl, rfl, rfl, rfl, rfl⟩

theorem attempt_agrees {c : CompleteState O} {s : StreamState O} (hrelated : Related c s)
    (h : Corresponds deadline deadline' cs ss) (target : ModelTarget) :
    AttemptAgrees (completeAttempt g request deadline c target cs)
      (streamAttempt g request deadline' s target ss) := by
  have htry := try_agrees g request hrelated h target
  unfold completeAttempt streamAttempt
  generalize tryComplete g request deadline c target cs = tried at htry ⊢
  generalize tryStream g request deadline' s target ss = tried' at htry ⊢
  obtain ⟨w, admitted, answer, outcome⟩ := tried
  obtain ⟨t, admitted', l, outcome'⟩ := tried'
  obtain ⟨hbreakers, hadmitted, husage, hfailures, hreason, hclosed, houtcome⟩ := htry
  simp only at hbreakers hadmitted husage hfailures hreason hclosed houtcome
  subst hadmitted
  cases houtcome with
  | ok a a' r r' hsame =>
    obtain ⟨hlast, hended⟩ := lastPayload_lastItem (s := { t with
      world := (t.world.report target ss .success).log (.emitted a') }) hclosed (.terminal r') .terminal
    exact .exited _ _ _ _ ⟨hended, r', hlast, hsame⟩
  | error e hfinal =>
    have hsame := sameError_asModelError "Model provider attempt timed out" "Model stream timed out"
      request.requestId e
    have hlength : s.attempts.length = c.attempts.length := by
      simpa using congrArg List.length hrelated.attempts
    have hrecord : (attemptRecord s.attempts target ss ss.failedAt
        (.failed (asModelError "Model stream timed out" request.requestId e).code)
        (asModelError "Model stream timed out" request.requestId e).providerRequestId
        ((asModelError "Model stream timed out" request.requestId e).usage.or l.usage)
        s.fallbackReason).untimed =
        (attemptRecord c.attempts target cs cs.failedAt
          (.failed (asModelError "Model provider attempt timed out" request.requestId e).code)
          (asModelError "Model provider attempt timed out" request.requestId e).providerRequestId
          ((asModelError "Model provider attempt timed out" request.requestId e).usage.or
            (answer.bind (·.usage))) c.fallbackReason).untimed := by
      simp only [attemptRecord, AttemptRecord.untimed, hlength, hsame.code, hsame.providerRequestId,
        hsame.usage, husage, hrelated.fallbackReason]
    have hworld := h.reportIf target hbreakers admitted'
      (.failure (asModelError "Model provider attempt timed out" request.requestId e).code)
    have hfailed := hrelated.failures.concat hrecord hsame
    rw [← hfailures] at hfailed
    cases e with
    | cancelled => exact .exited _ _ _ _ rfl
    | _ =>
      simp only
      split_ifs with hvisible
      · obtain ⟨hretryable, hfallback⟩ :=
          hfinal hvisible "Model provider attempt timed out" request.requestId
        have hattempts := hfailed.attempts
        simp only [List.map_append, List.map_cons, List.map_nil] at hattempts
        refine .shown _ _ _ _ _ hretryable hfallback ⟨_, .inr ⟨(lastPayload_lastItem ?_ _ _).2,
          (lastPayload_lastItem ?_ _ _).1⟩, hsame.code, ?_⟩
        · exact hclosed
        · exact hclosed
        · simpa only [ModelError.withAttempts, CallState.attempts, CallState.fail, List.map_append,
            List.map_cons, List.map_nil] using hattempts
      · refine .failed _ _ _ _ _ _ ⟨?_, hfailed, hreason.trans hrelated.fallbackReason, ?_, hclosed⟩ hsame
        · rw [hsame.code]
          exact hworld
        · have ht : t.visible = false := by simpa using hvisible
          exact ht

inductive TargetAgrees : CompleteState O × (Except Exn (ModelResponse O) ⊕ ModelError) →
    StreamState O × (StreamEnd ⊕ ModelError) → Prop
  | ended (t : CompleteState O) (result : Except Exn (ModelResponse O)) (u : StreamState O)
    (ended : StreamEnd) (hagrees : Agrees result u ended) :
    TargetAgrees (t, .inl result) (u, .inl ended)
  | failed (t : CompleteState O) (e : ModelError) (u : StreamState O) (e' : ModelError)
    (hrelated : Related t u) (hsame : SameError e e') : TargetAgrees (t, .inr e) (u, .inr e')
  | shown (t : CompleteState O) (e : ModelError) (u : StreamState O) (ended : StreamEnd)
    (hfallback : e.fallbackAllowed = false)
    (hagrees : Agrees (.error (.model (e.withAttempts t.attempts))) u ended) :
    TargetAgrees (t, .inr e) (u, .inl ended)

theorem Related.begin {c : CompleteState O} {s : StreamState O} (h : Related c s) (target : ModelTarget)
    (cs : CompleteScript O) (ss : StreamScript O) :
    Related (c.beginAttempt target cs) (s.beginAttempt target ss) :=
  ⟨h.breakers, h.failures, h.fallbackReason, h.visible, h.consumerClosed⟩

theorem Related.length {c : CompleteState O} {s : StreamState O} (h : Related c s) :
    s.failures.length = c.failures.length := (List.Forall₂.length_eq h.failures).symm

theorem Related.raised {c : CompleteState O} {s : StreamState O} (h : Related c s) {e e' : ModelError}
    (hcode : e'.code = e.code) :
    Agrees (.error (.model (e.withAttempts c.attempts))) s (.raised (.model (e'.withAttempts s.attempts))) :=
  ⟨e'.withAttempts s.attempts, .inl rfl, hcode, h.attempts⟩

theorem Related.backoff {c : CompleteState O} {s : StreamState O} (hrelated : Related c s)
    (h : Corresponds deadline deadline' cs ss) (target : ModelTarget) (retryIndex : ℕ)
    (requestId : String) :
    ∃ w w' answer, Gateway.backoff c.world target retryIndex cs deadline requestId = (w, answer) ∧
      Gateway.backoff s.world target retryIndex ss deadline' requestId = (w', answer) ∧
      Related { c with world := w } { s with world := w' } := by
  obtain ⟨hanswer, hbreakers⟩ := h.backoffs target requestId hrelated.breakers retryIndex
  exact ⟨_, _, _, rfl, Prod.ext rfl hanswer, hbreakers, hrelated.failures, hrelated.fallbackReason,
    hrelated.visible, hrelated.consumerClosed⟩

variable {cenv : ℕ → CompleteScript O} {senv : ℕ → StreamScript O}
  (henv : ∀ n, Corresponds deadline deadline' (cenv n) (senv n))
include henv

theorem retryLoop_agrees (target : ModelTarget) (budget : ℕ) {c : CompleteState O} {s : StreamState O}
    (hrelated : Related c s) :
    TargetAgrees
      (retryLoop (completeAttempt g request deadline) .error deadline request.requestId cenv target budget c)
      (retryLoop (streamAttempt g request deadline') .raised deadline' request.requestId senv target
        budget s) := by
  induction budget generalizing c s with
  | zero =>
    have hattempt := attempt_agrees g request (hrelated.begin target (cenv c.failures.length)
      (senv c.failures.length)) (henv c.failures.length) target
    unfold retryLoop
    rw [hrelated.length]
    simp only
    generalize completeAttempt g request deadline _ target _ = tried at hattempt ⊢
    generalize streamAttempt g request deadline' _ target _ = tried' at hattempt ⊢
    cases hattempt with
    | exited t result u ended hagrees => exact .ended _ _ _ _ hagrees
    | failed t a e u a' e' hnext hsame =>
      simp only [ite_self]
      exact .failed _ _ _ _ hnext hsame
    | shown t a e u ended hretryable hfallback hagrees =>
      simp only [ite_self]
      exact .shown _ _ _ _ hfallback hagrees
  | succ budget ih =>
    have hattempt := attempt_agrees g request (hrelated.begin target (cenv c.failures.length)
      (senv c.failures.length)) (henv c.failures.length) target
    unfold retryLoop
    rw [hrelated.length]
    simp only
    generalize completeAttempt g request deadline _ target _ = tried at hattempt ⊢
    generalize streamAttempt g request deadline' _ target _ = tried' at hattempt ⊢
    cases hattempt with
    | exited t result u ended hagrees => exact .ended _ _ _ _ hagrees
    | failed t a e u a' e' hnext hsame =>
      simp only [hsame.retryable]
      by_cases hretryable : e.retryable = true
      · obtain ⟨w, w', answer, hw, hw', hslept⟩ := hnext.backoff (henv c.failures.length) target
          (target.limits.maxRetries - (budget + 1)) request.requestId
        simp only [hretryable, if_true, hw, hw']
        cases answer with
        | ok _ => exact ih hslept
        | error e =>
          cases e with
          | model e => exact .ended _ _ _ _ (hslept.raised rfl)
          | _ => exact .ended _ _ _ _ (agrees_raised _ _)
      · simp only [hretryable, Bool.false_eq_true, if_false]
        exact .failed _ _ _ _ hnext hsame
    | shown t a e u ended hretryable hfallback hagrees =>
      simp only [hretryable, Bool.false_eq_true, if_false]
      exact .shown _ _ _ _ hfallback hagrees

theorem routeLoop_agrees (provider : ModelTarget → Except Exn Unit) (targets : List ModelTarget)
    {c : CompleteState O} {s : StreamState O} (hrelated : Related c s)
    (last last' : Option ModelError) (hlast : Option.Rel SameError last last') :
    Agrees
      (routeLoop (completeAttempt g request deadline) .error deadline request.requestId cenv provider
        targets c last).2
      (routeLoop (streamAttempt g request deadline') .raised deadline' request.requestId senv provider
        targets s last').1
      (routeLoop (streamAttempt g request deadline') .raised deadline' request.requestId senv provider
        targets s last').2 := by
  induction targets generalizing c s last last' with
  | nil =>
    cases hlast with
    | none => exact rfl
    | some hsame => exact hrelated.raised hsame.code
  | cons target targets ih =>
    unfold routeLoop
    cases hp : provider target with
    | error e => exact agrees_raised e s
    | ok _ =>
      have hloop := retryLoop_agrees g request henv target target.limits.maxRetries hrelated
      simp only
      generalize retryLoop (completeAttempt g request deadline) _ _ _ _ target _ c = left at hloop ⊢
      generalize retryLoop (streamAttempt g request deadline') _ _ _ _ target _ s = right at hloop ⊢
      cases hloop with
      | ended t result u ended hagrees => exact hagrees
      | failed t e u e' hnext hsame =>
        simp only [hsame.fallbackAllowed]
        split_ifs
        · rw [hsame.code]
          have hreason : Related { t with fallbackReason := some e.code }
              { u with fallbackReason := some e.code } :=
            ⟨hnext.breakers, hnext.failures, rfl, hnext.visible, hnext.consumerClosed⟩
          exact ih hreason _ _ (.some hsame)
        · exact hnext.raised hsame.code
      | shown t e u ended hfallback hagrees =>
        simp only [hfallback, Bool.false_eq_true, if_false]
        exact hagrees

omit henv in
/-- From the same breakers, with scripts that correspond attempt by attempt, a stream
    read to its end agrees with `complete`. -/
theorem stream_agrees_with_complete (route : ModelRoute) (start start' : ℚ) (breakers : Breakers)
    (cenv : ℕ → CompleteScript O) (senv : ℕ → StreamScript O)
    (h : ∀ n, Corresponds (start + route.totalTimeoutSeconds) (start' + route.totalTimeoutSeconds)
      (cenv n) (senv n)) :
    Agrees (complete g request route start breakers cenv).2
      (stream g request route start' breakers senv).1 (stream g request route start' breakers senv).2 := by
  unfold complete stream
  cases g.preflightRoute route request with
  | error e => exact agrees_raised e _
  | ok _ =>
    have hrelated : Related (.initial breakers : CompleteState O) (.initial breakers : StreamState O) :=
      ⟨rfl, List.Forall₂.nil, rfl, rfl, rfl⟩
    exact routeLoop_agrees g request h _ route.targets hrelated none none .none

end

namespace Sample

def hello : ProviderResponse objects := ⟨[⟨"hello", by decide⟩], .stop, none, none, [], none⟩

def chunk (text : String) (finishReason : Option FinishReason) : ChunkStep objects :=
  ⟨1, ⟨some text, none, none, finishReason, none, none⟩, true, true, true⟩

def helloChunks : StreamAnswer objects :=
  ⟨.ok (), [chunk "hel" none, chunk "lo" (some .stop)], 1, .ok (), .ok ()⟩

theorem chunked_hello : Chunked hello (helloChunks.chunks.map (·.chunk)) where
  text := by decide
  usage := rfl
  providerRequestId := rfl
  structuredOutput := rfl
  finishReason := rfl
  toolCalls := ⟨[], rfl, .nil, by simp, by simp [helloChunks, chunk]⟩

theorem sends_helloChunks : Sends helloChunks 60 where
  reads := by simp [helloChunks, chunk, ChunkStep.Read]
  checks := by simp [helloChunks, chunk]
  lastCheck := by norm_num [helloChunks]
  close := rfl

end Sample

open Sample in
/-- `"hello"` in two chunks, or in one response. -/
theorem sample_agrees_with_complete :
    Agrees (complete gateway request (route none 0) 0 Table.empty fun _ => script 1 (.ok hello)).2
      (stream gateway request (route none 0) 0 Table.empty fun _ => script 1 helloChunks).1
      (stream gateway request (route none 0) 0 Table.empty fun _ => script 1 helloChunks).2 :=
  stream_agrees_with_complete gateway request (route none 0) 0 0 Table.empty _ _ fun _ =>
    { limiter := rfl, beforeAdmission := rfl, breakerCheck := rfl, credential := rfl,
      beforeReport := rfl, reportedAt := rfl, backoff := rfl,
      inTime := by norm_num [script, route], inTime' := by norm_num [script, route],
      sends := by simpa [route, script] using sends_helloChunks, provider := ⟨rfl, rfl, chunked_hello⟩ }

end Gateway
end Zhiyi
