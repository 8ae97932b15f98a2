import Zhiyi.Library.DateTime
import Zhiyi.Library.Decimal
import Zhiyi.Library.Dict

set_option autoImplicit false

/-! Provider-neutral model contracts: requests, routes, attempts, usage, errors,
responses and stream chunks. Seconds are rational numbers. -/
namespace Zhiyi
namespace Gateway
open Python

inductive ErrorCode where
  | invalidRequest | capabilityMismatch | authentication | permission | contentPolicy
  | rateLimited | timeout | circuitOpen | unavailable | malformedResponse
  | structuredOutputInvalid | cancelled | unknown
  deriving DecidableEq, Repr

/-- `_RETRYABLE_CODES`. -/
def ErrorCode.isRetryable : ErrorCode → Bool
  | .rateLimited | .timeout | .unavailable => true
  | _ => false

/-- `_FALLBACK_CODES`. -/
def ErrorCode.allowsFallback : ErrorCode → Bool
  | .circuitOpen => true
  | code => code.isRetryable

inductive InputModality where
  | text | image | document
  deriving DecidableEq, Repr

inductive ModelCapability where
  | text | toolCalling | structuredOutput
  deriving DecidableEq, Repr

inductive FinishReason where
  | stop | toolCalls | length | contentFilter | cancelled | unknown
  deriving DecidableEq, Repr

abbrev ProviderId := String

structure ModelUsageFields where
  inputTokens : Option ℕ := none
  outputTokens : Option ℕ := none
  totalTokens : Option ℕ := none
  amount : Option Decimal := none
  currency : Option String := none
  incomplete : Bool := false
  deriving DecidableEq

def ModelUsageFields.postInit (f : ModelUsageFields) : Except PyError Unit := do
  match f.totalTokens with
  | some total =>
    require (f.incomplete || f.inputTokens.getD 0 + f.outputTokens.getD 0 ≤ total)
      (.valueError "total token usage is below known input and output")
  | none => .ok ()
  require (f.amount.isNone == f.currency.isNone)
    (.valueError "amount and currency must be provided together")

structure ModelUsage extends ModelUsageFields where
  valid : toModelUsageFields.postInit = .ok ()
  deriving DecidableEq

def ModelUsage.new (f : ModelUsageFields) : Except PyError ModelUsage :=
  construct f.postInit fun valid => ⟨f, valid⟩

/-- An outcome with the error code it requires. -/
inductive AttemptOutcome where
  | succeeded
  | failed (code : ErrorCode)
  | cancelled
  deriving DecidableEq, Repr

def AttemptOutcome.errorCode : AttemptOutcome → Option ErrorCode
  | .succeeded => none
  | .failed code => some code
  | .cancelled => some .cancelled

structure AttemptRecord where
  attemptNo : ℕ
  provider : ProviderId
  modelId : String
  startedAt : DateTime
  durationMs : ℚ
  outcome : AttemptOutcome
  providerRequestId : Option String
  usage : Option ModelUsage
  fallbackReason : Option ErrorCode
  positive : 0 < attemptNo
  nonnegative : 0 ≤ durationMs
  deriving DecidableEq

structure ModelError where
  code : ErrorCode
  message : String
  requestId : String
  correlationId : Option String
  providerRequestId : Option String
  retryable : Bool
  fallbackAllowed : Bool
  usage : Option ModelUsage
  attempts : List AttemptRecord
  deriving DecidableEq

namespace ModelError

/-- `ModelError(code=..., message=..., request_id=...)`, with the default flags of the code. -/
def of (code : ErrorCode) (message requestId : String) : ModelError where
  code := code
  message := message
  requestId := requestId
  correlationId := none
  providerRequestId := none
  retryable := code.isRetryable
  fallbackAllowed := code.allowsFallback
  usage := none
  attempts := []

def withAttempts (e : ModelError) (attempts : List AttemptRecord) : ModelError :=
  { e with attempts := attempts }

end ModelError

/-- What an awaited operation can raise: a `ModelError`, `TimeoutError`,
    `SecretResolutionError`, a `TypeError` or `ValueError`, any other `Exception`,
    or the `CancelledError` of a cancelled task. -/
inductive Exn where
  | model (error : ModelError)
  | timeout
  | secretResolution
  | python (error : PyError)
  | exception
  | cancelled
  deriving DecidableEq

/-- The sum of the known values and whether one of them is unknown. -/
def aggregateOptional (values : List (Option ℕ)) : Option ℕ × Bool :=
  let known := values.filterMap id
  (if known = [] then none else some known.sum, known.length != values.length)

/-- The sum of all amounts, when each is known and there is one currency. -/
def aggregateAmount (usages : List ModelUsage) : Except Exn (Option (Decimal × String)) :=
  let currencies := fromKeys (usages.filterMap (·.currency))
  if usages.any (·.amount.isNone) then .ok none
  else
    match currencies with
    | [currency] =>
      match (usages.filterMap (·.amount)).foldlM Decimal.contextAdd Decimal.zero with
      | some amount => .ok (some (amount, currency))
      | none => .error .exception
    | _ => .ok none

def ModelUsage.aggregate (usages : List ModelUsage) : Except Exn ModelUsage :=
  if usages = [] then (ModelUsage.new { incomplete := true }).mapError .python
  else do
    let (inputTokens, inputIncomplete) := aggregateOptional (usages.map (·.inputTokens))
    let (outputTokens, outputIncomplete) := aggregateOptional (usages.map (·.outputTokens))
    let (totalTokens, totalIncomplete) := aggregateOptional (usages.map (·.totalTokens))
    let total ← aggregateAmount usages
    (ModelUsage.new {
      inputTokens := inputTokens
      outputTokens := outputTokens
      totalTokens := totalTokens
      amount := total.map Prod.fst
      currency := total.map Prod.snd
      incomplete := usages.any (·.incomplete) || inputIncomplete || outputIncomplete ||
        totalIncomplete || total.isNone }).mapError .python

structure ModelCapabilityProfile where
  toolCalling : Bool
  structuredOutput : Bool
  inputModalities : List InputModality
  maxContextTokens : ℕ
  maxOutputTokens : ℕ
  deriving DecidableEq

def ModelCapabilityProfile.supports (profile : ModelCapabilityProfile) : ModelCapability → Bool
  | .text => true
  | .toolCalling => profile.toolCalling
  | .structuredOutput => profile.structuredOutput

structure ModelLimits where
  attemptTimeoutSeconds : ℚ
  streamFirstByteTimeoutSeconds : ℚ
  streamIdleTimeoutSeconds : ℚ
  maxRetries : ℕ
  retryBaseDelaySeconds : ℚ
  retryMaxDelaySeconds : ℚ
  rateLimitPerSecond : Option ℚ
  rateLimitBurst : ℕ
  circuitFailureThreshold : ℕ
  circuitRecoverySeconds : ℚ
  thresholdPositive : 0 < circuitFailureThreshold
  recoveryPositive : 0 < circuitRecoverySeconds
  deriving DecidableEq

abbrev TargetKey := ProviderId × String

structure ModelTarget where
  provider : ProviderId
  modelId : String
  credential : Option String
  capabilities : ModelCapabilityProfile
  limits : ModelLimits
  deriving DecidableEq

def ModelTarget.key (target : ModelTarget) : TargetKey := (target.provider, target.modelId)

structure ModelRoute where
  primary : ModelTarget
  fallbacks : List ModelTarget
  totalTimeoutSeconds : ℚ
  distinct : ((primary :: fallbacks).map ModelTarget.key).Nodup
  timeoutPositive : 0 < totalTimeoutSeconds
  deriving DecidableEq

def ModelRoute.targets (route : ModelRoute) : List ModelTarget := route.primary :: route.fallbacks

/-- How `json.loads` fails: with a `JSONDecodeError`, or with another exception. -/
inductive LoadsFailure where
  | decode
  | other (e : Exn)

/-- The Python objects that tool arguments and structured outputs are, and the
    `json.loads` that makes them. -/
structure Objects where
  Value : Type
  isMapping : Value → Bool
  loads : String → Except LoadsFailure Value

inductive ContentPart where
  | text (text : String)
  | image (uri mediaType : String)
  | document (uri mediaType : String)
  deriving DecidableEq

/-- A text part of a response is never empty. -/
structure TextPart where
  text : String
  nonempty : text ≠ ""
  deriving DecidableEq

def isToolNameStart (c : Char) : Bool := ('A' ≤ c && c ≤ 'Z') || ('a' ≤ c && c ≤ 'z')

/-- `^[A-Za-z][A-Za-z0-9_.-]{0,127}$`. -/
def matchesToolName (s : String) : Bool :=
  match s.toList with
  | [] => false
  | c :: rest =>
    isToolNameStart c && decide (rest.length ≤ 127) &&
      rest.all fun c => isToolNameStart c || c.isDigit || c == '_' || c == '.' || c == '-'

section
variable (O : Objects)

structure ToolCall where
  id : String
  name : String
  arguments : O.Value
  identified : id ≠ ""
  named : matchesToolName name = true
  mapping : O.isMapping arguments = true

/-- `ModelRequest`, with the capabilities its tools and structured output require.
    The contract's `validate` gives `none` where it raises and `some none` where it
    returns `None`. -/
structure ModelRequest where
  requestId : String
  content : List ContentPart
  maxOutputTokens : ℕ
  requiredCapabilities : List ModelCapability
  toolNames : List String
  structuredOutput : Option (O.Value → Option (Option O.Value))

structure ProviderResponse where
  content : List TextPart
  finishReason : FinishReason
  usage : Option ModelUsage
  providerRequestId : Option String
  toolCalls : List (ToolCall O)
  structuredOutput : Option O.Value

structure ModelResponseFields where
  requestId : String
  provider : ProviderId
  modelId : String
  content : List TextPart
  finishReason : FinishReason
  usage : Option ModelUsage
  totalUsage : ModelUsage
  attempts : List AttemptRecord
  providerRequestId : Option String
  toolCalls : List (ToolCall O)
  structuredOutput : Option O.Value

end

section
variable {O : Objects}

def ModelRequest.inputModalities (request : ModelRequest O) : List InputModality :=
  .text :: request.content.filterMap fun
    | .text _ => none
    | .image _ _ => some .image
    | .document _ _ => some .document

/-- The checks on the last attempt of `__post_init__`. -/
def ModelResponseFields.checkAttempts (f : ModelResponseFields O) : Except PyError Unit :=
  match f.attempts.getLast? with
  | none => .error (.valueError "model response requires at least one attempt")
  | some last => do
    require (last.outcome == .succeeded)
      (.valueError "model response requires a successful final attempt")
    require (last.provider == f.provider && last.modelId == f.modelId)
      (.valueError "model response target must match the final attempt")

def ModelResponseFields.postInit (f : ModelResponseFields O) : Except PyError Unit := do
  f.checkAttempts
  require (!(f.content.isEmpty && f.toolCalls.isEmpty && f.structuredOutput.isNone))
    (.valueError "model response has no usable content")
  require (!(!f.toolCalls.isEmpty && f.finishReason != .toolCalls))
    (.valueError "tool calls require a tool_calls finish reason")
  require (!(f.finishReason == .toolCalls && f.toolCalls.isEmpty))
    (.valueError "tool_calls finish reason requires at least one tool call")
  require (!(!f.toolCalls.isEmpty && f.structuredOutput.isSome))
    (.valueError "tool calls and structured output cannot be mixed")

end

structure ModelResponse (O : Objects) extends ModelResponseFields O where
  valid : toModelResponseFields.postInit = .ok ()

def ModelResponse.new {O : Objects} (f : ModelResponseFields O) : Except PyError (ModelResponse O) :=
  construct f.postInit fun valid => ⟨f, valid⟩

structure ToolCallDelta where
  index : ℕ
  id : Option String
  name : Option String
  argumentsFragment : String
  deriving DecidableEq

structure ProviderChunk (O : Objects) where
  textDelta : Option String
  toolCallDelta : Option ToolCallDelta
  usage : Option ModelUsage
  finishReason : Option FinishReason
  providerRequestId : Option String
  structuredOutput : Option O.Value

/-- The kind of a chunk with the one payload it requires. -/
inductive ChunkPayload (O : Objects) where
  | textDelta (text : String)
  | toolCallDelta (delta : ToolCallDelta)
  | usage (usage : ModelUsage)
  | terminal (response : ModelResponse O)
  | error (error : ModelError)

structure ModelChunk (O : Objects) where
  sequence : ℕ
  payload : ChunkPayload O

end Gateway
end Zhiyi
