import Zhiyi.Gateway.CircuitBreaker

set_option autoImplicit false

/-! The parts of the gateway that `complete` and `stream` share. What a suspended
call is resumed with, every clock reading and every random sample of one attempt
is an `AttemptScript`. Other calls of the same gateway may use the breakers while
this call is suspended. -/
namespace Zhiyi
namespace Gateway
open Python

abbrev Breakers := Table TargetKey CircuitBreaker

/-- `_circuit_breaker`: the target's breaker, made at its first use. -/
def circuitBreaker (breakers : Breakers) (target : ModelTarget) : CircuitBreaker :=
  (breakers.get? target.key).getD
    (.new target.limits.circuitFailureThreshold target.limits.circuitRecoverySeconds)

/-- The answers of the environment during one attempt, in the order they are
    asked for. `P` is what the provider does. -/
structure AttemptScript (P : Type) where
  startedAt : DateTime
  startedMonotonic : ℚ
  limiterCheck : ℚ
  limiter : Except Exn Unit
  beforeAdmission : Breakers → Breakers
  breakerCheck : ℚ
  credentialCheck : ℚ
  credential : Except Exn Unit
  providerCheck : ℚ
  provider : P
  finishedAt : ℚ
  beforeReport : Breakers → Breakers
  reportedAt : ℚ
  failedAt : ℚ
  sample : ℚ
  backoffCheck : ℚ
  backoff : Except Exn Unit

structure DefaultModelGateway (O : Objects) where
  providers : List ProviderId
  estimate : ModelTarget → ModelRequest O → Except PyError ℕ
  hasSecretProvider : Bool

/-- What a call does to its surroundings: breaker operations with the breaker
    before and after a report, provider invocations, and recorded attempts. -/
inductive Event (O : Objects) where
  | admitted (key : TargetKey)
  | refused (key : TargetKey)
  | invoked (key : TargetKey) (at_ : Option ℚ)
  | reported (key : TargetKey) (r : Report) (before after : CircuitBreaker)
  | emitted (attempt : AttemptRecord)
  | slept (delay : ℚ)
  | yielded (chunk : ModelChunk O)

structure World (O : Objects) where
  breakers : Breakers
  events : List (Event O)

variable {O : Objects} {P : Type}

def World.log (w : World O) (event : Event O) : World O := { w with events := w.events ++ [event] }

namespace DefaultModelGateway
variable (g : DefaultModelGateway O)

def provider (target : ModelTarget) (requestId : String) : Except Exn Unit :=
  require (g.providers.contains target.provider)
    (.model (.of .invalidRequest "Model provider is not registered" requestId))

def preflightTarget (target : ModelTarget) (request : ModelRequest O) : Except Exn Unit := do
  g.provider target request.requestId
  require (request.requiredCapabilities.all target.capabilities.supports &&
      request.inputModalities.all target.capabilities.inputModalities.contains)
    (.model (.of .capabilityMismatch "Model capabilities do not satisfy the request"
      request.requestId))
  require (request.maxOutputTokens ≤ target.capabilities.maxOutputTokens)
    (.model (.of .capabilityMismatch "Requested output exceeds the model limit" request.requestId))
  let inputUpperBound ← (g.estimate target request).mapError .python
  require (inputUpperBound + request.maxOutputTokens ≤ target.capabilities.maxContextTokens)
    (.model (.of .capabilityMismatch
      "Estimated input and output exceed the model context limit" request.requestId))

def preflightRoute (route : ModelRoute) (request : ModelRequest O) : Except Exn Unit :=
  route.targets.forM fun target => g.preflightTarget target request

end DefaultModelGateway

/-- `_remaining`, at one clock reading. -/
def remaining (deadline now : ℚ) (requestId : String) : Except Exn ℚ :=
  if deadline - now ≤ 0 then
    .error (.model (.of .timeout "Model call exceeded its total deadline" requestId))
  else .ok (deadline - now)

/-- `try: ... except TimeoutError: raise ModelError(code=TIMEOUT, message=...)`. -/
def timeoutAs (message requestId : String) (answer : Except Exn Unit) : Except Exn Unit :=
  match answer with
  | .error .timeout => .error (.model (.of .timeout message requestId))
  | answer => answer

/-- The rate-limit wait of `_admit`. -/
def limiterWait (target : ModelTarget) (script : AttemptScript P) (deadline : ℚ)
    (requestId : String) : Except Exn Unit :=
  if target.limits.rateLimitPerSecond.isNone then .ok ()
  else do
    let _ ← remaining deadline script.limiterCheck requestId
    timeoutAs "Rate-limit wait exceeded the total deadline" requestId script.limiter

def circuitOpenError (requestId : String) : Exn :=
  .model (.of .circuitOpen "Model target circuit is open" requestId)

/-- `_admit`. -/
def admitCall (w : World O) (target : ModelTarget) (script : AttemptScript P) (deadline : ℚ)
    (requestId : String) : World O × Except Exn Unit :=
  match limiterWait target script deadline requestId with
  | .error e => (w, .error e)
  | .ok () =>
    let breakers := script.beforeAdmission w.breakers
    let (breaker, admitted) := (circuitBreaker breakers target).beforeCall script.breakerCheck
    let w := { w with breakers := breakers.set target.key breaker }
    if admitted then (w.log (.admitted target.key), .ok ())
    else (w.log (.refused target.key), .error (circuitOpenError requestId))

def credential (hasSecretProvider : Bool) (target : ModelTarget) (script : AttemptScript P)
    (deadline : ℚ) (requestId : String) : Except Exn Unit :=
  if target.credential.isNone then .ok ()
  else if !hasSecretProvider then
    .error (.model (.of .authentication "Secret provider is not configured" requestId))
  else do
    let _ ← remaining deadline script.credentialCheck requestId
    match script.credential with
    | .error .timeout =>
      .error (.model (.of .timeout "Secret resolution exceeded the total deadline" requestId))
    | .error .secretResolution =>
      .error (.model (.of .authentication "Model credential is unavailable" requestId))
    | answer => answer

def backoffDelay (limits : ModelLimits) (retryIndex : ℕ) (sample : ℚ) : ℚ :=
  min limits.retryMaxDelaySeconds (limits.retryBaseDelaySeconds * 2 ^ min retryIndex 30) *
    (1 / 2 + min 1 (max 0 sample))

def backoff (w : World O) (target : ModelTarget) (retryIndex : ℕ) (script : AttemptScript P)
    (deadline : ℚ) (requestId : String) : World O × Except Exn Unit :=
  match remaining deadline script.backoffCheck requestId with
  | .error e => (w, .error e)
  | .ok _ =>
    (w.log (.slept (backoffDelay target.limits retryIndex script.sample)),
      timeoutAs "Retry backoff exceeded the total deadline" requestId script.backoff)

def World.report (w : World O) (target : ModelTarget) (script : AttemptScript P) (r : Report) :
    World O :=
  let breakers := script.beforeReport w.breakers
  let before := circuitBreaker breakers target
  let after := before.report r script.reportedAt
  { breakers := breakers.set target.key after
    events := w.events ++ [.reported target.key r before after] }

/-- `_attempt`. -/
def attemptRecord (attempts : List AttemptRecord) (target : ModelTarget) (script : AttemptScript P)
    (now : ℚ) (outcome : AttemptOutcome) (providerRequestId : Option String)
    (usage : Option ModelUsage) (fallbackReason : Option ErrorCode) : AttemptRecord where
  attemptNo := attempts.length + 1
  provider := target.provider
  modelId := target.modelId
  startedAt := script.startedAt
  durationMs := max 0 ((now - script.startedMonotonic) * 1000)
  outcome := outcome
  providerRequestId := providerRequestId
  usage := usage
  fallbackReason := fallbackReason
  positive := Nat.succ_pos _
  nonnegative := le_max_left _ _

def malformed (message requestId : String) : Exn := .model (.of .malformedResponse message requestId)

/-- The structured output part of `_response`. -/
def structuredOutput (request : ModelRequest O) (response : ProviderResponse O) :
    Except Exn (Option O.Value) :=
  match request.structuredOutput, response.structuredOutput with
  | some _, none =>
    .error (.model (.of .structuredOutputInvalid "Provider returned no structured output"
      request.requestId))
  | some validate, some value =>
    match validate value with
    | some value => .ok value
    | none =>
      .error (.model (.of .structuredOutputInvalid
        "Structured output did not satisfy the platform contract" request.requestId))
  | none, some _ =>
    .error (malformed "Provider returned unexpected structured output" request.requestId)
  | none, none => .ok none

/-- `_validate_tool_calls`, with the ids seen so far. -/
def validateToolCalls (request : ModelRequest O) : List (ToolCall O) → List String → Except Exn Unit
  | [], _ => .ok ()
  | call :: calls, ids =>
    if !request.toolNames.contains call.name || ids.contains call.id then
      .error (malformed "Provider returned an unknown or duplicate tool call" request.requestId)
    else validateToolCalls request calls (call.id :: ids)

def response (request : ModelRequest O) (target : ModelTarget) (answer : ProviderResponse O)
    (attempts : List AttemptRecord) : Except Exn (ModelResponse O) := do
  let structured ← structuredOutput request answer
  require (!(structured.isSome && !answer.toolCalls.isEmpty))
    (malformed "Provider mixed tool calls and structured output" request.requestId)
  validateToolCalls request answer.toolCalls []
  let built : Except Exn (ModelResponse O) := do
    let totalUsage ← ModelUsage.aggregate (attempts.filterMap (·.usage))
    (ModelResponse.new {
      requestId := request.requestId
      provider := target.provider
      modelId := target.modelId
      content := answer.content
      finishReason := answer.finishReason
      usage := answer.usage
      totalUsage := totalUsage
      attempts := attempts
      providerRequestId := answer.providerRequestId
      toolCalls := answer.toolCalls
      structuredOutput := structured }).mapError .python
  match built with
  | .error (.python _) =>
    .error (malformed "Provider response violated the platform contract" request.requestId)
  | built => built

theorem response_eq_ok {request : ModelRequest O} {target : ModelTarget} {answer : ProviderResponse O}
    {attempts : List AttemptRecord} {r : ModelResponse O}
    (h : response request target answer attempts = .ok r) :
    r.content = answer.content ∧ r.attempts = attempts := by
  obtain ⟨structured, -, h⟩ := bind_eq_ok.mp h
  obtain ⟨_, -, h⟩ := bind_eq_ok.mp h
  obtain ⟨_, -, h⟩ := bind_eq_ok.mp h
  simp only at h
  split at h
  · cases h
  · obtain ⟨totalUsage, -, h⟩ := bind_eq_ok.mp h
    obtain ⟨_, hr⟩ := construct_eq_ok (mapError_eq_ok.mp h)
    rw [← hr]
    exact ⟨rfl, rfl⟩

/-- The handlers of the attempt's `try` for everything but a cancellation. -/
def asModelError (timeoutMessage requestId : String) : Exn → ModelError
  | .timeout => .of .timeout timeoutMessage requestId
  | .model e => e
  | _ => .of .unknown "Model provider failed unexpectedly" requestId

structure AttemptStep (P : Type) where
  target : ModelTarget
  script : AttemptScript P
  breakers : Breakers
  consumerClosed : Bool

/-- The variables of a running call. Each failed attempt is kept with its error;
    the last three fields are those of a stream. -/
structure CallState (O : Objects) (P : Type) where
  world : World O
  failures : List (AttemptRecord × ModelError)
  fallbackReason : Option ErrorCode
  steps : List (AttemptStep P)
  sequence : ℕ
  visible : Bool
  consumerClosed : Bool

def CallState.initial (breakers : Breakers) : CallState O P :=
  ⟨⟨breakers, []⟩, [], none, [], 0, false, false⟩

def CallState.beginAttempt (s : CallState O P) (target : ModelTarget) (script : AttemptScript P) :
    CallState O P :=
  { s with steps := s.steps ++ [⟨target, script, s.world.breakers, s.consumerClosed⟩] }

def CallState.fail (s : CallState O P) (record : AttemptRecord) (error : ModelError) :
    CallState O P :=
  { s with failures := s.failures ++ [(record, error)] }

def CallState.attempts (s : CallState O P) : List AttemptRecord := s.failures.map Prod.fst

/-- An attempt ends the call, or it fails. -/
inductive AttemptEnd (R : Type) where
  | exited (result : R)
  | failed (record : AttemptRecord) (error : ModelError)

section
variable {R : Type}
  (attempt : CallState O P → ModelTarget → AttemptScript P → CallState O P × AttemptEnd R)
  (raised : Exn → R) (deadline : ℚ) (requestId : String) (env : ℕ → AttemptScript P)

/-- The attempts on one target: the call's result, or the target's last error. -/
def retryLoop (target : ModelTarget) : ℕ → CallState O P → CallState O P × (R ⊕ ModelError)
  | budget, s =>
    let script := env s.failures.length
    match attempt (s.beginAttempt target script) target script with
    | (s, .exited result) => (s, .inl result)
    | (s, .failed record error) =>
      let s := s.fail record error
      if error.retryable then
        match budget with
        | 0 => (s, .inr error)
        | budget + 1 =>
          match backoff s.world target (target.limits.maxRetries - (budget + 1)) script deadline
              requestId with
          | (w, .error (.model e)) =>
            ({ s with world := w }, .inl (raised (.model (e.withAttempts s.attempts))))
          | (w, .error e) => ({ s with world := w }, .inl (raised e))
          | (w, .ok ()) => retryLoop target budget { s with world := w }
      else (s, .inr error)

def routeLoop (provider : ModelTarget → Except Exn Unit) :
    List ModelTarget → CallState O P → Option ModelError → CallState O P × R
  | [], s, none => (s, raised .exception)
  | [], s, some e => (s, raised (.model (e.withAttempts s.attempts)))
  | target :: targets, s, _ =>
    match provider target with
    | .error e => (s, raised e)
    | .ok () =>
      match retryLoop attempt raised deadline requestId env target target.limits.maxRetries s with
      | (s, .inl result) => (s, result)
      | (s, .inr e) =>
        if e.fallbackAllowed then
          routeLoop provider targets { s with fallbackReason := some e.code } (some e)
        else (s, raised (.model (e.withAttempts s.attempts)))

theorem backoff_world (w : World O) (target : ModelTarget) (retryIndex : ℕ)
    (script : AttemptScript P) :
    (backoff w target retryIndex script deadline requestId).1 = w ∨
      ∃ delay, (backoff w target retryIndex script deadline requestId).1 = w.log (.slept delay) := by
  unfold backoff
  split
  · exact .inl rfl
  · exact .inr ⟨_, rfl⟩

/-- An invariant `I` of the running call and a fact `J` of the ended one, over the
    scripts in `S` and the exceptions in `E`. -/
structure LoopRule (S : AttemptScript P → Prop) (E : Exn → Prop) (I : CallState O P → Prop)
    (J : CallState O P → R → Prop) : Prop where
  attempt : ∀ s target script, S script → I s →
    match attempt (s.beginAttempt target script) target script with
    | (t, .exited result) => J t result
    | (t, .failed record error) => I (t.fail record error)
  slept : ∀ s delay, I s → I { s with world := s.world.log (.slept delay) }
  reason : ∀ s code, I s → I { s with fallbackReason := some code }
  raised : ∀ s e, E e → I s → J s (raised e)
  model : ∀ error, E (.model error)
  sleeper : ∀ script e, S script → script.backoff = .error e → e = .timeout ∨ E e

variable {attempt raised deadline requestId env} {S : AttemptScript P → Prop} {E : Exn → Prop}
  {I : CallState O P → Prop} {J : CallState O P → R → Prop}

theorem LoopRule.backoff_error (rule : LoopRule attempt raised S E I J) {w w' : World O}
    {target : ModelTarget} {retryIndex : ℕ} {script : AttemptScript P} (hscript : S script) {e : Exn}
    (h : backoff w target retryIndex script deadline requestId = (w', .error e)) : E e := by
  unfold Gateway.backoff at h
  split at h
  · next e' hcheck =>
    obtain ⟨-, he⟩ := Prod.mk.inj h
    cases he
    unfold remaining at hcheck
    split_ifs at hcheck
    cases hcheck
    exact rule.model _
  · obtain ⟨-, he⟩ := Prod.mk.inj h
    cases hsleep : script.backoff with
    | ok u => simp [timeoutAs, hsleep] at he
    | error e' =>
      rw [hsleep] at he
      rcases rule.sleeper script e' hscript hsleep with rfl | hE
      · cases he
        exact rule.model _
      · cases e' <;> cases he <;> first | exact hE | exact rule.model _

theorem LoopRule.backoff (rule : LoopRule attempt raised S E I J) {s : CallState O P} (hs : I s)
    {target : ModelTarget} {retryIndex : ℕ} {script : AttemptScript P} {w : World O}
    {answer : Except Exn Unit}
    (h : backoff s.world target retryIndex script deadline requestId = (w, answer)) :
    I { s with world := w } := by
  rcases backoff_world deadline requestId s.world target retryIndex script with hw | ⟨delay, hw⟩
  · rw [h] at hw
    cases hw
    exact hs
  · rw [h] at hw
    cases hw
    exact rule.slept s delay hs

variable (deadline requestId env)

theorem LoopRule.retryLoop (rule : LoopRule attempt raised S E I J) (henv : ∀ n, S (env n))
    (target : ModelTarget) (budget : ℕ) {s : CallState O P} (hs : I s) :
    match retryLoop attempt raised deadline requestId env target budget s with
    | (t, .inl result) => J t result
    | (t, .inr _) => I t := by
  induction budget generalizing s with
  | zero =>
    have hattempt := rule.attempt s target (env s.failures.length) (henv _) hs
    unfold Gateway.retryLoop
    split at hattempt
    · next t result heq => simpa only [heq] using hattempt
    · next t record error heq =>
      simp only [heq]
      split_ifs <;> exact hattempt
  | succ budget ih =>
    have hattempt := rule.attempt s target (env s.failures.length) (henv _) hs
    unfold Gateway.retryLoop
    split at hattempt
    · next t result heq => simpa only [heq] using hattempt
    · next t record error heq =>
      simp only [heq]
      by_cases hretryable : error.retryable = true
      · simp only [hretryable, if_true]
        cases hback : Gateway.backoff (t.fail record error).world target
            (target.limits.maxRetries - (budget + 1)) (env s.failures.length) deadline requestId with
        | mk w answer =>
          have hw := rule.backoff hattempt hback
          cases answer with
          | ok u => exact ih hw
          | error e =>
            have hE := rule.backoff_error (henv _) hback
            cases e <;> first | exact rule.raised _ _ (rule.model _) hw | exact rule.raised _ _ hE hw
      · simpa only [hretryable, Bool.false_eq_true, if_false] using hattempt

/-- Every run of the loops keeps the rule's invariant to its end. -/
theorem LoopRule.routeLoop (rule : LoopRule attempt raised S E I J) (henv : ∀ n, S (env n))
    (provider : ModelTarget → Except Exn Unit) (targets : List ModelTarget)
    (hprovider : ∀ target ∈ targets, ∀ e, provider target = .error e → E e) {s : CallState O P}
    (hs : I s) (last : Option ModelError) (hstarted : targets = [] → last.isSome ∨ E .exception) :
    J (routeLoop attempt raised deadline requestId env provider targets s last).1
      (routeLoop attempt raised deadline requestId env provider targets s last).2 := by
  induction targets generalizing s last with
  | nil =>
    cases last with
    | none => exact rule.raised _ _ (by simpa using hstarted rfl) hs
    | some e => exact rule.raised _ _ (rule.model _) hs
  | cons target targets ih =>
    unfold Gateway.routeLoop
    cases hp : provider target with
    | error e => exact rule.raised _ _ (hprovider target List.mem_cons_self e hp) hs
    | ok u =>
      have hloop := rule.retryLoop deadline requestId env henv target target.limits.maxRetries hs
      split at hloop
      · next t result heq => simpa only [heq] using hloop
      · next t error heq =>
        simp only
        split_ifs
        · exact ih (fun target h => hprovider target (List.mem_cons_of_mem _ h)) (rule.reason _ _ hloop)
            _ fun _ => .inl rfl
        · exact rule.raised _ _ (rule.model _) hloop

theorem LoopRule.routeLoop_all {I : CallState O P → Prop} {J : CallState O P → R → Prop}
    (rule : LoopRule attempt raised (fun _ => True) (fun _ => True) I J)
    (provider : ModelTarget → Except Exn Unit) (targets : List ModelTarget) {s : CallState O P}
    (hs : I s) :
    J (Gateway.routeLoop attempt raised deadline requestId env provider targets s none).1
      (Gateway.routeLoop attempt raised deadline requestId env provider targets s none).2 :=
  rule.routeLoop deadline requestId env (fun _ => trivial) provider targets
    (fun _ _ _ _ => trivial) hs none fun _ => .inr trivial

end

end Gateway
end Zhiyi
