import Zhiyi.Domain.CanonicalDecimal
import Zhiyi.Domain.Identifiers
import Zhiyi.Library.DateTime
import Zhiyi.Library.Json

set_option autoImplicit false

/-! Versioned, deeply immutable lifecycle events. -/
namespace Zhiyi
open Python

inductive RunStatus where
  | queued | running | waitingApproval | waitingResolution | succeeded | failed | cancelled
  | limitExceeded
  deriving DecidableEq, Repr

namespace RunStatus

def value : RunStatus → String
  | .queued => "queued"
  | .running => "running"
  | .waitingApproval => "waiting_approval"
  | .waitingResolution => "waiting_resolution"
  | .succeeded => "succeeded"
  | .failed => "failed"
  | .cancelled => "cancelled"
  | .limitExceeded => "limit_exceeded"

def isTerminal : RunStatus → Bool
  | .succeeded | .failed | .cancelled | .limitExceeded => true
  | _ => false

theorem value_injective : Function.Injective value := by
  intro a b h
  revert h
  cases a <;> cases b <;> decide

end RunStatus

inductive RunEventType where
  | runCreated | runStarted | runWaitingApproval | runWaitingResolution | runResumed
  | runBudgetConsumed | runSucceeded | runFailed | runCancelled | runLimitExceeded
  deriving DecidableEq, Repr

namespace RunEventType

def value : RunEventType → String
  | .runCreated => "run.created"
  | .runStarted => "run.started"
  | .runWaitingApproval => "run.waiting_approval"
  | .runWaitingResolution => "run.waiting_resolution"
  | .runResumed => "run.resumed"
  | .runBudgetConsumed => "run.budget_consumed"
  | .runSucceeded => "run.succeeded"
  | .runFailed => "run.failed"
  | .runCancelled => "run.cancelled"
  | .runLimitExceeded => "run.limit_exceeded"

def commonPayloadFields : List String := ["status", "run_version"]

/-- `_EVENT_PAYLOAD_FIELDS`. -/
def payloadFields : RunEventType → List String
  | .runCreated => commonPayloadFields ++ ["agent_version_id"]
  | .runStarted => commonPayloadFields ++ ["previous_status"]
  | .runWaitingApproval => commonPayloadFields ++ ["previous_status", "reference_id"]
  | .runWaitingResolution => commonPayloadFields ++ ["previous_status", "reference_id"]
  | .runResumed => commonPayloadFields ++ ["previous_status"]
  | .runBudgetConsumed => commonPayloadFields ++ ["usage", "charge_id"]
  | .runSucceeded => commonPayloadFields ++ ["result_version"]
  | .runFailed => commonPayloadFields ++ ["result_version", "error_code"]
  | .runCancelled => commonPayloadFields ++ ["result_version", "error_code", "correlation_id"]
  | .runLimitExceeded => commonPayloadFields ++ ["result_version", "error_code", "limit_dimension"]

/-- `_REQUIRED_PAYLOAD_FIELDS`, which differs for the optional correlation only. -/
def requiredPayloadFields : RunEventType → List String
  | .runCreated => commonPayloadFields ++ ["agent_version_id"]
  | .runStarted => commonPayloadFields ++ ["previous_status"]
  | .runWaitingApproval => commonPayloadFields ++ ["previous_status", "reference_id"]
  | .runWaitingResolution => commonPayloadFields ++ ["previous_status", "reference_id"]
  | .runResumed => commonPayloadFields ++ ["previous_status"]
  | .runBudgetConsumed => commonPayloadFields ++ ["usage", "charge_id"]
  | .runSucceeded => commonPayloadFields ++ ["result_version"]
  | .runFailed => commonPayloadFields ++ ["result_version", "error_code"]
  | .runCancelled => commonPayloadFields ++ ["result_version", "error_code"]
  | .runLimitExceeded => commonPayloadFields ++ ["result_version", "error_code", "limit_dimension"]

def expectedStatus : RunEventType → RunStatus
  | .runCreated => .queued
  | .runStarted => .running
  | .runWaitingApproval => .waitingApproval
  | .runWaitingResolution => .waitingResolution
  | .runResumed => .running
  | .runBudgetConsumed => .running
  | .runSucceeded => .succeeded
  | .runFailed => .failed
  | .runCancelled => .cancelled
  | .runLimitExceeded => .limitExceeded

def expectedPreviousStatus : RunEventType → Option (List RunStatus)
  | .runStarted => some [.queued]
  | .runWaitingApproval => some [.running]
  | .runWaitingResolution => some [.running]
  | .runResumed => some [.waitingApproval, .waitingResolution]
  | _ => none

/-- `expected_errors`. -/
def expectedError : RunEventType → Option String
  | .runFailed => some "failed"
  | .runCancelled => some "cancelled"
  | .runLimitExceeded => some "budget_limit"
  | _ => none

end RunEventType

def usageFields : List String :=
  ["cost", "input_tokens", "model_calls", "output_tokens", "steps", "tool_calls", "total_tokens"]

def limitDimensions : List String :=
  ["deadline", "steps", "model_calls", "tool_calls", "input_tokens", "output_tokens",
    "total_tokens", "cost"]

/-- `type(value) is int and value >= least`. -/
def isIntAtLeast (least : ℤ) : Option Json → Bool
  | some (.int n) => decide (least ≤ n)
  | _ => false

/-- `value == text`. -/
def isText (text : String) : Option Json → Bool
  | some (.str s) => s == text
  | _ => false

/-- `value == 1`, which `True` satisfies as well. -/
def equalsOne : Json → Bool
  | .int n => n == 1
  | .bool b => b
  | _ => false

mutual
def hashable : Json → Bool
  | .obj _ => false
  | .arr items => hashableItems items
  | _ => true
def hashableItems : List Json → Bool
  | [] => true
  | j :: items => hashable j && hashableItems items
end

/-- `value in texts`, which hashes the value first. -/
def isMember (texts : List String) (value : Option Json) : Except PyError Bool :=
  match value with
  | some (.str s) => .ok (texts.contains s)
  | some j => if hashable j then .ok false else .error (.typeError "unhashable type: 'dict'")
  | none => .ok false

def requireIdentifier (kind : IdentifierKind) (value : Option Json) (message : String) :
    Except PyError Unit :=
  match value with
  | some (.str s) => do
    let _ ← (Identifier.new s : Except PyError (Identifier kind))
  | _ => .error (.valueError message)

/-- The `run.budget_consumed` part of `_validate_payload_schema`. -/
def validateBudgetPayload (payload : Mapping) : Except PyError Unit := do
  requireIdentifier .charge (payload.get? "charge_id") "event charge_id is invalid"
  match payload.get? "usage" with
  | some (.obj usage) =>
    let names := usage.map Prod.fst
    require (names.all usageFields.contains && usageFields.all names.contains)
      (.valueError "budget event usage fields are invalid")
    require ((usageFields.erase "cost").all fun name => isIntAtLeast 0 (usage.lookup name))
      (.valueError "budget event usage counters must be non-negative")
    match usage.lookup "input_tokens", usage.lookup "output_tokens", usage.lookup "total_tokens" with
    | some (.int inputTokens), some (.int outputTokens), some (.int totalTokens) =>
      require (totalTokens == inputTokens + outputTokens)
        (.valueError "budget event total_tokens is inconsistent")
    | _, _, _ => .error (.valueError "budget event token counters must be integers")
    match usage.lookup "cost" with
    | some (.str cost) =>
      require (matchesDecimalPattern cost)
        (.valueError "budget event cost must be a canonical decimal string")
    | _ => .error (.valueError "budget event cost must be a canonical decimal string")
  | _ => .error (.valueError "budget event usage fields are invalid")

def requirePreviousStatus (eventType : RunEventType) (payload : Mapping) : Except PyError Unit :=
  match eventType.expectedPreviousStatus with
  | some previous => do
    let found ← isMember (previous.map RunStatus.value) (payload.get? "previous_status")
    require found (.valueError "event previous_status is invalid")
  | none => .ok ()

def requireReferences (eventType : RunEventType) (payload : Mapping) : Except PyError Unit :=
  match eventType with
  | .runCreated =>
    requireIdentifier .agentVersion (payload.get? "agent_version_id")
      "event agent_version_id is invalid"
  | .runWaitingApproval | .runWaitingResolution =>
    requireIdentifier .reference (payload.get? "reference_id") "event reference_id is invalid"
  | .runBudgetConsumed => validateBudgetPayload payload
  | _ => .ok ()

def requireResultVersion (payload : Mapping) : Except PyError Unit :=
  require ((payload.get? "result_version").all equalsOne)
    (.valueError "event result_version must be 1")

def requireErrorCode (eventType : RunEventType) (payload : Mapping) : Except PyError Unit :=
  match eventType.expectedError with
  | some expected =>
    require (isText expected (payload.get? "error_code"))
      (.valueError "event error_code does not match its event type")
  | none => .ok ()

def requireCorrelation (payload : Mapping) : Except PyError Unit :=
  match payload.get? "correlation_id" with
  | some value => requireIdentifier .correlation (some value) "event correlation_id is invalid"
  | none => .ok ()

def requireLimitDimension (payload : Mapping) : Except PyError Unit :=
  match payload.get? "limit_dimension" with
  | some value => do
    let found ← isMember limitDimensions (some value)
    require found (.valueError "event limit_dimension is invalid")
  | none => .ok ()

def validatePayloadSchema (eventType : RunEventType) (payload : Mapping) : Except PyError Unit := do
  require (eventType.requiredPayloadFields.all payload.keys.contains)
    (.valueError "event payload is missing required fields")
  require (isText eventType.expectedStatus.value (payload.get? "status"))
    (.valueError "event status does not match its event type")
  require (isIntAtLeast 1 (payload.get? "run_version"))
    (.valueError "event run_version must be positive")
  requirePreviousStatus eventType payload
  requireReferences eventType payload
  requireResultVersion payload
  requireErrorCode eventType payload
  requireCorrelation payload
  requireLimitDimension payload

structure RunEventFields where
  eventId : EventId
  tenantId : TenantId
  runId : RunId
  sequence : ℕ
  type : RunEventType
  occurredAt : DateTime
  payloadVersion : ℕ
  payload : Mapping
  deriving DecidableEq

def RunEventFields.postInit (f : RunEventFields) : Except PyError Unit := do
  require (1 ≤ f.sequence) (.valueError "sequence must be a positive integer")
  require (f.payloadVersion == 1) (.valueError "payload_version must be 1")
  require (f.payload.keys.all f.type.payloadFields.contains)
    (.valueError "event payload contains fields not allowed for this event type")
  validatePayloadSchema f.type f.payload

structure RunEvent extends RunEventFields where
  valid : toRunEventFields.postInit = .ok ()
  deriving DecidableEq

def RunEvent.new (f : RunEventFields) : Except PyError RunEvent :=
  construct f.postInit fun valid => ⟨f, valid⟩

theorem RunEvent.new_fields (e : RunEvent) : new e.toRunEventFields = .ok e :=
  construct_of_ok _ e.valid

theorem RunEvent.new_eq_ok {f : RunEventFields} {e : RunEvent} (h : new f = .ok e) :
    e.toRunEventFields = f := by
  obtain ⟨_, rfl⟩ := construct_eq_ok h
  rfl

theorem isText_iff {text : String} {value : Option Json} :
    isText text value = true ↔ value = some (.str text) := by
  unfold isText
  split <;> simp_all

theorem isIntAtLeast_iff {least : ℤ} {value : Option Json} :
    isIntAtLeast least value = true ↔ ∃ n, value = some (.int n) ∧ least ≤ n := by
  unfold isIntAtLeast
  split <;> simp_all

theorem isMember_eq_true {texts : List String} {value : Option Json}
    (h : isMember texts value = .ok true) : ∃ s ∈ texts, value = some (.str s) := by
  unfold isMember at h
  split at h
  · next s => exact ⟨s, by simpa using h, rfl⟩
  · split_ifs at h
    simp at h
  · simp at h

theorem previousStatus_of_require {eventType : RunEventType} {payload : Mapping}
    {previous : List RunStatus} (h : requirePreviousStatus eventType payload = .ok ())
    (hp : eventType.expectedPreviousStatus = some previous) :
    ∃ status ∈ previous, payload.get? "previous_status" = some (.str status.value) := by
  unfold requirePreviousStatus at h
  rw [hp] at h
  obtain ⟨found, hfound, h⟩ := bind_eq_ok.mp h
  rw [require_eq_ok.mp h] at hfound
  obtain ⟨s, hs, hget⟩ := isMember_eq_true hfound
  obtain ⟨status, hstatus, rfl⟩ := List.mem_map.mp hs
  exact ⟨status, hstatus, hget⟩

namespace RunEvent
variable (e : RunEvent)

theorem sequence_pos : 1 ≤ e.sequence := by
  obtain ⟨_, h, _⟩ := bind_eq_ok.mp e.valid
  simpa using h

theorem schema : validatePayloadSchema e.type e.payload = .ok () := by
  obtain ⟨_, _, h⟩ := bind_eq_ok.mp e.valid
  obtain ⟨_, _, h⟩ := bind_eq_ok.mp h
  obtain ⟨_, _, h⟩ := bind_eq_ok.mp h
  exact h

theorem status : e.payload.get? "status" = some (.str e.type.expectedStatus.value) := by
  obtain ⟨_, _, h⟩ := bind_eq_ok.mp e.schema
  obtain ⟨_, h, _⟩ := bind_eq_ok.mp h
  exact isText_iff.mp (require_eq_ok.mp h)

theorem previousStatus {previous : List RunStatus}
    (hp : e.type.expectedPreviousStatus = some previous) :
    ∃ status ∈ previous, e.payload.get? "previous_status" = some (.str status.value) := by
  obtain ⟨_, _, h⟩ := bind_eq_ok.mp e.schema
  obtain ⟨_, _, h⟩ := bind_eq_ok.mp h
  obtain ⟨_, _, h⟩ := bind_eq_ok.mp h
  obtain ⟨_, h, _⟩ := bind_eq_ok.mp h
  exact previousStatus_of_require h hp

end RunEvent
end Zhiyi
