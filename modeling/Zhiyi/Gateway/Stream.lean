import Zhiyi.Gateway.Complete

set_option autoImplicit false

/-! `DefaultModelGateway.stream`. At every item the consumer reads on or closes
the generator; an item after the close leaves the generator suspended, with
`RuntimeError` for the consumer. -/
namespace Zhiyi
namespace Gateway
open Python

variable {O : Objects}

/-- One chunk of the provider's iterator: the clock reading before it, the chunk,
    and whether the consumer reads on at each of the items it can cause. -/
structure ChunkStep (O : Objects) where
  check : ℚ
  chunk : ProviderChunk O
  readsText : Bool
  readsTool : Bool
  readsUsage : Bool

/-- What the provider's iterator does: its chunks, then its end or an error, and
    what closing it does. -/
structure StreamAnswer (O : Objects) where
  opened : Except Exn Unit
  chunks : List (ChunkStep O)
  lastCheck : ℚ
  ending : Except Exn Unit
  close : Except Exn Unit

abbrev StreamScript (O : Objects) := AttemptScript (StreamAnswer O)

abbrev StreamState (O : Objects) := CallState O (StreamAnswer O)

/-- Why the body of an attempt was left: an exception, the `GeneratorExit` of a
    closing consumer, or an item nobody can receive any more. -/
inductive Interrupt where
  | raised (e : Exn)
  | closed
  | abandoned

structure ToolCallBuffer where
  callId : Option String
  name : Option String
  fragments : List String
  deriving DecidableEq

namespace ToolCallBuffer

def empty : ToolCallBuffer := ⟨none, none, []⟩

def malformedFragments (requestId : String) : Exn :=
  malformed "Provider returned malformed tool call fragments" requestId

def agree (known new : Option String) (requestId : String) : Except Exn (Option String) :=
  match known, new with
  | known, none => .ok known
  | some a, some b => if a ≠ b then .error (malformedFragments requestId) else .ok (some b)
  | none, some b => .ok (some b)

def append (buffer : ToolCallBuffer) (delta : ToolCallDelta) (requestId : String) :
    Except Exn ToolCallBuffer := do
  let callId ← agree buffer.callId delta.id requestId
  let name ← agree buffer.name delta.name requestId
  return ⟨callId, name, buffer.fragments ++ [delta.argumentsFragment]⟩

def build (buffer : ToolCallBuffer) (requestId : String) : Except Exn (ToolCall O) :=
  match buffer.callId, buffer.name with
  | some callId, some name =>
    match O.loads (String.join buffer.fragments) with
    | .error .decode => .error (malformedFragments requestId)
    | .error (.other e) => .error e
    | .ok arguments =>
      if h : callId ≠ "" ∧ matchesToolName name = true ∧ O.isMapping arguments = true then
        .ok ⟨callId, name, arguments, h.1, h.2.1, h.2.2⟩
      else .error (malformedFragments requestId)
  | _, _ => .error (malformedFragments requestId)

end ToolCallBuffer

/-- `yield`: the consumer reads on, or closes the generator. -/
def yieldItem (s : StreamState O) (payload : ChunkPayload O) (reads : Bool) :
    StreamState O × Except Interrupt Unit :=
  if s.consumerClosed then (s, .error .abandoned)
  else
    let s := { s with world := s.world.log (.yielded ⟨s.sequence, payload⟩) }
    if reads then ({ s with sequence := s.sequence + 1 }, .ok ())
    else ({ s with consumerClosed := true }, .error .closed)

structure StreamLocals (O : Objects) where
  usage : Option ModelUsage
  providerRequestId : Option String
  textFragments : List String
  finishReason : FinishReason
  structuredOutput : Option O.Value
  toolBuffers : Dict ℕ ToolCallBuffer

def StreamLocals.initial : StreamLocals O := ⟨none, none, [], .unknown, none, Dict.empty⟩

def deliverText (s : StreamState O) (l : StreamLocals O) (step : ChunkStep O) :
    StreamState O × StreamLocals O × Except Interrupt Unit :=
  match step.chunk.textDelta with
  | none => (s, l, .ok ())
  | some text =>
    if text = "" then (s, l, .ok ())
    else
      let (s, read) := yieldItem { s with visible := true } (.textDelta text) step.readsText
      (s, { l with textFragments := l.textFragments ++ [text] }, read)

def deliverTool (requestId : String) (s : StreamState O) (l : StreamLocals O) (step : ChunkStep O) :
    StreamState O × StreamLocals O × Except Interrupt Unit :=
  match step.chunk.toolCallDelta with
  | none => (s, l, .ok ())
  | some delta =>
    let s := { s with visible := true }
    match ((l.toolBuffers.get? delta.index).getD .empty).append delta requestId with
    | .error e => (s, l, .error (.raised e))
    | .ok buffer =>
      let (s, read) := yieldItem s (.toolCallDelta delta) step.readsTool
      (s, { l with toolBuffers := l.toolBuffers.insert delta.index buffer }, read)

def deliverUsage (s : StreamState O) (l : StreamLocals O) (step : ChunkStep O) :
    StreamState O × StreamLocals O × Except Interrupt Unit :=
  match step.chunk.usage with
  | none => (s, l, .ok ())
  | some usage =>
    let (s, read) := yieldItem s (.usage usage) step.readsUsage
    (s, { l with usage := some usage }, read)

def collect (requestId : String) (l : StreamLocals O) (chunk : ProviderChunk O) :
    StreamLocals O × Except Interrupt Unit :=
  let l := { l with
    finishReason := chunk.finishReason.getD l.finishReason
    providerRequestId := chunk.providerRequestId.or l.providerRequestId }
  match chunk.structuredOutput, l.structuredOutput with
  | none, _ => (l, .ok ())
  | some _, some _ =>
    (l, .error (.raised (malformed "Provider returned duplicate structured output" requestId)))
  | some value, none => ({ l with structuredOutput := some value }, .ok ())

def deliver (requestId : String) (s : StreamState O) (l : StreamLocals O) (step : ChunkStep O) :
    StreamState O × StreamLocals O × Except Interrupt Unit :=
  match deliverText s l step with
  | (s, l, .error e) => (s, l, .error e)
  | (s, l, .ok ()) =>
    match deliverTool requestId s l step with
    | (s, l, .error e) => (s, l, .error e)
    | (s, l, .ok ()) =>
      match deliverUsage s l step with
      | (s, l, .error e) => (s, l, .error e)
      | (s, l, .ok ()) =>
        let (l, collected) := collect requestId l step.chunk
        (s, l, collected)

/-- The first `anext` starts the provider, unless its `stream` has raised before. -/
def markInvoked (s : StreamState O) (target : ModelTarget) (first : Bool) (check : ℚ) :
    StreamState O :=
  if first then { s with world := s.world.log (.invoked target.key (some check)) } else s

/-- The loop over the provider's iterator. -/
def consume (requestId : String) (deadline : ℚ) (target : ModelTarget) (answer : StreamAnswer O) :
    List (ChunkStep O) → Bool → StreamState O → StreamLocals O →
      StreamState O × StreamLocals O × Except Interrupt Unit
  | [], first, s, l =>
    match remaining deadline answer.lastCheck requestId with
    | .error e => (s, l, .error (.raised e))
    | .ok _ => (markInvoked s target first answer.lastCheck, l, answer.ending.mapError .raised)
  | step :: steps, first, s, l =>
    match remaining deadline step.check requestId with
    | .error e => (s, l, .error (.raised e))
    | .ok _ =>
      match deliver requestId (markInvoked s target first step.check) l step with
      | (s, l, .error e) => (s, l, .error e)
      | (s, l, .ok ()) => consume requestId deadline target answer steps false s l

/-- The `finally` that closes the iterator. A generator left at an item is not
    resumed, so it does not get there. -/
def closeIterator (answer : StreamAnswer O) (left : Except Interrupt Unit) : Except Interrupt Unit :=
  match left with
  | .error .abandoned => .error .abandoned
  | left =>
    match answer.close with
    | .error e => .error (.raised e)
    | .ok () => left

section
variable (g : DefaultModelGateway O) (request : ModelRequest O) (deadline : ℚ)

/-- What the chunks amount to, as one response. -/
def assembled (l : StreamLocals O) (requestId : String) : Except Exn (ProviderResponse O) := do
  let toolCalls ← l.toolBuffers.items.mapM fun p => p.2.build requestId
  let text := String.join l.textFragments
  return {
    content := if h : text ≠ "" then [⟨text, h⟩] else []
    finishReason := l.finishReason
    usage := l.usage
    providerRequestId := l.providerRequestId
    toolCalls := toolCalls
    structuredOutput := l.structuredOutput }

/-- The variables the attempt's `try` leaves behind, and how it ended. -/
structure StreamTried (O : Objects) where
  state : StreamState O
  admitted : Bool
  locals : StreamLocals O
  outcome : Except Interrupt (AttemptRecord × ModelResponse O)

def finishStream (s : StreamState O) (target : ModelTarget) (script : StreamScript O)
    (l : StreamLocals O) : Except Exn (AttemptRecord × ModelResponse O) := do
  let answer ← assembled l request.requestId
  let succeeded := attemptRecord s.attempts target script script.finishedAt .succeeded
    l.providerRequestId l.usage s.fallbackReason
  let r ← response request target answer (s.attempts ++ [succeeded])
  return (succeeded, r)

/-- The `try` block of an attempt. -/
def tryStream (s : StreamState O) (target : ModelTarget) (script : StreamScript O) : StreamTried O :=
  match admitCall s.world target script deadline request.requestId with
  | (w, .error e) => ⟨{ s with world := w }, false, .initial, .error (.raised e)⟩
  | (w, .ok ()) =>
    let s := { s with world := w }
    match credential g.hasSecretProvider target script deadline request.requestId with
    | .error e => ⟨s, true, .initial, .error (.raised e)⟩
    | .ok () =>
      match script.provider.opened with
      | .error e =>
        ⟨{ s with world := s.world.log (.invoked target.key none) }, true, .initial,
          .error (.raised e)⟩
      | .ok () =>
        let (s, l, left) := consume request.requestId deadline target script.provider
          script.provider.chunks true s .initial
        match closeIterator script.provider left with
        | .error e => ⟨s, true, l, .error e⟩
        | .ok () => ⟨s, true, l, (finishStream request s target script l).mapError .raised⟩

/-- How a stream ends: after its terminal or error item, because the consumer
    closed it, with an item nobody can receive, or by an exception. -/
inductive StreamEnd where
  | terminal
  | errorItem
  | closed
  | abandoned
  | raised (e : Exn)

/-- The last item of a stream. Closing the generator there ends it as well. -/
def lastItem (s : StreamState O) (payload : ChunkPayload O) (ended : StreamEnd) :
    StreamState O × StreamEnd :=
  match yieldItem s payload true with
  | (s, .ok ()) => (s, ended)
  | (s, .error _) => (s, .abandoned)

/-- The handler of a cancelled task and of a closing consumer. -/
def cancelAttempt (s : StreamState O) (tried : StreamTried O) (target : ModelTarget)
    (script : StreamScript O) : StreamState O :=
  let w := reportIf tried.admitted tried.state.world target script .cancelled
  let cancelled := attemptRecord s.attempts target script script.finishedAt .cancelled
    tried.locals.providerRequestId tried.locals.usage s.fallbackReason
  { tried.state with world := w.log (.emitted cancelled) }

/-- One attempt of `stream`. -/
def streamAttempt (s : StreamState O) (target : ModelTarget) (script : StreamScript O) :
    StreamState O × AttemptEnd StreamEnd :=
  let tried := tryStream g request deadline s target script
  match tried.outcome with
  | .ok (succeeded, r) =>
    let w := (tried.state.world.report target script .success).log (.emitted succeeded)
    let (s, ended) := lastItem { tried.state with world := w } (.terminal r) .terminal
    (s, .exited ended)
  | .error .abandoned => (tried.state, .exited .abandoned)
  | .error .closed => (cancelAttempt s tried target script, .exited .closed)
  | .error (.raised .cancelled) =>
    (cancelAttempt s tried target script, .exited (.raised .cancelled))
  | .error (.raised e) =>
    let error := asModelError "Model stream timed out" request.requestId e
    let w := reportIf tried.admitted tried.state.world target script (.failure error.code)
    let failed := attemptRecord s.attempts target script script.failedAt (.failed error.code)
      error.providerRequestId (error.usage.or tried.locals.usage) s.fallbackReason
    let s := { tried.state with world := w.log (.emitted failed) }
    if s.visible then
      let (s, ended) :=
        lastItem s (.error (error.withAttempts (s.attempts ++ [failed]))) .errorItem
      (s, .exited ended)
    else (s, .failed failed error)

/-- `stream`, started at the clock reading `start` and read as the script says. -/
def stream (route : ModelRoute) (start : ℚ) (breakers : Breakers) (env : ℕ → StreamScript O) :
    StreamState O × StreamEnd :=
  let deadline := start + route.totalTimeoutSeconds
  match g.preflightRoute route request with
  | .error e => (.initial breakers, .raised e)
  | .ok () =>
    routeLoop (streamAttempt g request deadline) .raised deadline request.requestId env
      (fun target => g.provider target request.requestId) route.targets (.initial breakers) none

end

namespace Sample

def objects : Objects := ⟨Unit, fun _ => true, fun _ => .error .decode⟩

def gateway : DefaultModelGateway objects := ⟨["openai"], fun _ _ => .ok 1, false⟩

def request : ModelRequest objects := ⟨"request-1", [.text "hello"], 1, [.text], [], none⟩

def limits (maxRetries : ℕ) : ModelLimits where
  attemptTimeoutSeconds := 10
  streamFirstByteTimeoutSeconds := 10
  streamIdleTimeoutSeconds := 10
  maxRetries := maxRetries
  retryBaseDelaySeconds := 1
  retryMaxDelaySeconds := 1
  rateLimitPerSecond := none
  rateLimitBurst := 1
  circuitFailureThreshold := 2
  circuitRecoverySeconds := 30
  thresholdPositive := by decide
  recoveryPositive := by norm_num

def target (credential : Option String) (maxRetries : ℕ) : ModelTarget where
  provider := "openai"
  modelId := "gpt-4"
  credential := credential
  capabilities := ⟨false, false, [.text], 100, 100⟩
  limits := limits maxRetries

def route (credential : Option String) (maxRetries : ℕ) : ModelRoute :=
  ⟨target credential maxRetries, [], 60, by simp, by norm_num⟩

/-- One attempt at the clock reading `now`, alone on the gateway. -/
def script {P : Type} (now : ℚ) (provider : P) : AttemptScript P where
  startedAt := ⟨0, by decide⟩
  startedMonotonic := now
  limiterCheck := now
  limiter := .ok ()
  beforeAdmission := id
  breakerCheck := now
  credentialCheck := now
  credential := .ok ()
  providerCheck := now
  provider := provider
  finishedAt := now
  beforeReport := id
  reportedAt := now
  failedAt := now
  sample := 0
  backoffCheck := now
  backoff := .ok ()

def openBreakers : Breakers :=
  Table.empty.set ("openai", "gpt-4") ⟨2, 30, .open, 2, some 0, false⟩

end Sample

end Gateway
end Zhiyi
