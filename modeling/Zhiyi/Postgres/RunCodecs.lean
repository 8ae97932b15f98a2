import Zhiyi.Application.RunRepository
import Zhiyi.Library.IsoText
import Zhiyi.Postgres.CanonicalInteger

set_option autoImplicit false

/-! Format-version-1 codecs of runs, events and command receipts. A record is the
mapping of one row's columns, with timestamps as the driver delivers them. -/
namespace Zhiyi
open Python

def recordFormatVersion : ℕ := 1

/-- Every exception of a decoder is reported as corrupt data. -/
def corrupted {α : Type} (x : Except PyError α) : Except Failure α :=
  x.mapError fun _ => .repository .dataCorruption

def encodeCanonicalJson (value : Json) : String :=
  String.ofList (Json.text (fun n => (encodeCanonicalInteger n).toList) value.sortKeys)

def decodeCanonicalJson (value : String) : Except PyError Json :=
  match Json.loads (fun digits => (decodeCanonicalInteger digits).toOption) value with
  | some j => .ok j
  | none => .error (.valueError "canonical JSON is invalid")

/-- `_mapping`. -/
def mappingOf (value : Json) (fields : List String) : Except PyError (List (String × Json)) :=
  match value with
  | .obj entries => do
    require ((entries.map Prod.fst).all fields.contains && fields.all (entries.map Prod.fst).contains)
      (.valueError "record fields are invalid")
    return entries
  | _ => .error (.valueError "record fields are invalid")

/-- `raw[name]`, once `_mapping` has found the name. -/
def fieldOf (raw : List (String × Json)) (name : String) : Json := (raw.lookup name).getD .null

/-- `_string`. -/
def stringOf : Json → Except PyError String
  | .str s => .ok s
  | _ => .error (.valueError "record string is invalid")

/-- `_integer`, for a constructor that rejects negative integers. -/
def integerOf : Json → Except PyError ℕ
  | .int n => if 0 ≤ n then .ok n.toNat else .error (.valueError "value must be non-negative")
  | _ => .error (.valueError "record integer is invalid")

/-- `_strings`. -/
def stringsOf : Json → Except PyError (List String)
  | .arr items => items.mapM stringOf
  | _ => .error (.valueError "record string sequence is invalid")

def optionalOf {α : Type} (read : Json → Except PyError α) : Json → Except PyError (Option α)
  | .null => .ok none
  | j => do
    let a ← read j
    return some a

def identifierOf (kind : IdentifierKind) (value : Json) : Except PyError (Identifier kind) := do
  let s ← stringOf value
  Identifier.new s

/-- A canonical integer string, for a constructor that rejects negative integers. -/
def counterOfText (s : String) : Except PyError ℕ := do
  let n ← decodeCanonicalInteger s.toList
  require (0 ≤ n) (.valueError "value must be non-negative")
  return n.toNat

def counterOf (value : Json) : Except PyError ℕ := do
  let s ← stringOf value
  counterOfText s

/-- `Enum(value)`. -/
def enumOf {α : Type} (members : List α) (value : α → String) (s : String) : Except PyError α :=
  match members.find? fun member => value member == s with
  | some member => .ok member
  | none => .error (.valueError "value is not a valid member")

def runStatuses : List RunStatus :=
  [.queued, .running, .waitingApproval, .waitingResolution, .succeeded, .failed, .cancelled,
    .limitExceeded]

def runEventTypes : List RunEventType :=
  [.runCreated, .runStarted, .runWaitingApproval, .runWaitingResolution, .runResumed,
    .runBudgetConsumed, .runSucceeded, .runFailed, .runCancelled, .runLimitExceeded]

def commandTypes : List CommandType :=
  [.createRun, .startRun, .waitForApproval, .waitForResolution, .resumeRun, .consumeBudget,
    .succeedRun, .failRun, .cancelRun, .enforceDeadline]

def runErrorCodes : List RunErrorCode :=
  [.invalidInput, .notFound, .illegalTransition, .versionConflict, .idempotencyConflict,
    .budgetLimit, .invariantViolation, .cancelled, .failed]

def budgetDimensions : List BudgetDimension :=
  [.deadline, .steps, .modelCalls, .toolCalls, .inputTokens, .outputTokens, .totalTokens, .cost]

/-- A timestamp column as the driver delivers it, or inside a JSON document. -/
inductive TimestampValue where
  | datetime (value : ZonedDateTime)
  | text (value : String)
  deriving DecidableEq

/-- `value.replace("Z", "+00:00")`. -/
def replaceZulu (s : String) : String :=
  String.ofList (s.toList.flatMap fun c => if c = 'Z' then "+00:00".toList else [c])

def readTimestamp : TimestampValue → Except PyError DateTime
  | .datetime z => do
    require (z.utcOffset == 0) (.valueError "timestamp record is not UTC")
    return z.instant
  | .text s => do
    let (date, offset) ← DateTime.fromisoformat (replaceZulu s)
    require (offset == some 0) (.valueError "timestamp record is not UTC")
    return date

def timestampOf (value : Json) : Except PyError DateTime := do
  let s ← stringOf value
  readTimestamp (.text s)

/-- `Decimal(value)` for a text of the canonical pattern. -/
def decimalOfText (s : String) : Decimal :=
  let whole := s.toList.takeWhile Char.isDigit
  let fraction := (s.toList.dropWhile Char.isDigit).tail
  ⟨Nat.ofDigitChars 10 (whole ++ fraction) 0, -fraction.length⟩

/-- `_decimal`. -/
def decimalOf (value : Json) : Except PyError Decimal :=
  match value with
  | .str s => do
    require (matchesDecimalPattern s) (.valueError "decimal record is not canonical")
    require (canonicalDecimal (decimalOfText s) == s) (.valueError "decimal record is not canonical")
    return decimalOfText s
  | _ => .error (.valueError "decimal record is not canonical")

-- The documents list their fields in sorted order, as their text does.

def encodedInteger (n : ℕ) : Json := .str (encodeCanonicalInteger n)

def optionalDocument {α : Type} (document : α → Json) : Option α → Json
  | none => .null
  | some a => document a

def optionalIdentifier {kind : IdentifierKind} (i : Option (Identifier kind)) : Json :=
  optionalDocument (fun i => .str i.value) i

def referencesDocument (references : List ReferenceId) : Json :=
  .arr (references.map fun reference => .str reference.value)

def agentVersionDocument (version : AgentVersionRef) : Json := .obj [
  ("agent_id", .str version.agentId.value),
  ("build_digest", .str version.buildDigest),
  ("tenant_id", .str version.tenantId.value),
  ("version_id", .str version.versionId.value)]

def chargesDocument (charges : Dict ChargeId String) : Json :=
  .obj (charges.items.map fun p => (p.1.value, .str p.2))

/-- `_counter_fields`. -/
def usageDocument (usage : BudgetSnapshot) : Json := .obj [
  ("charge_fingerprints", chargesDocument usage.chargeFingerprints),
  ("cost", .str (canonicalDecimal usage.cost)),
  ("input_tokens", encodedInteger usage.inputTokens),
  ("model_calls", encodedInteger usage.modelCalls),
  ("output_tokens", encodedInteger usage.outputTokens),
  ("steps", encodedInteger usage.steps),
  ("tool_calls", encodedInteger usage.toolCalls)]

def errorDocument (error : SafeRunError) : Json := .obj [
  ("code", .str error.code.value),
  ("correlation_id", optionalIdentifier error.correlationId),
  ("limit_dimension", optionalDocument (fun dimension => .str dimension.value) error.limitDimension)]

def draftDocument (draft : RunResultDraft) : Json := .obj [
  ("answer", optionalDocument .str draft.answer),
  ("approval_ids", referencesDocument draft.approvalIds),
  ("artifact_ids", referencesDocument draft.artifactIds),
  ("citation_ids", referencesDocument draft.citationIds),
  ("correlation_id", optionalIdentifier draft.correlationId),
  ("warning_codes", .arr (draft.warningCodes.map .str))]

/-- `_encode_result`. -/
def resultDocument : Option RunResult → Json
  | none => .null
  | some result => .obj [
    ("agent_version", agentVersionDocument result.agentVersion),
    ("draft", draftDocument result.draft),
    ("error", optionalDocument errorDocument result.error),
    ("result_version", .int result.resultVersion),
    ("run_id", .str result.runId.value),
    ("status", .str result.status.value),
    ("tenant_id", .str result.tenantId.value),
    ("usage", usageDocument result.usage)]

def budgetDocument (budget : RunBudget) : Json := .obj [
  ("currency", .str budget.currency),
  ("deadline_at", .str budget.deadlineAt.isoformat),
  ("max_cost", .str (canonicalDecimal budget.maxCost)),
  ("max_input_tokens", encodedInteger budget.maxInputTokens),
  ("max_model_calls", encodedInteger budget.maxModelCalls),
  ("max_output_tokens", encodedInteger budget.maxOutputTokens),
  ("max_steps", encodedInteger budget.maxSteps),
  ("max_tool_calls", encodedInteger budget.maxToolCalls),
  ("max_total_tokens", encodedInteger budget.maxTotalTokens)]

def snapshotDocument (run : Run) : Json := .obj [
  ("agent_version", agentVersionDocument run.agentVersion),
  ("budget", budgetDocument run.budget),
  ("created_at", .str run.createdAt.isoformat),
  ("last_observed_at", .str run.lastObservedAt.isoformat),
  ("next_event_sequence", encodedInteger run.nextEventSequence),
  ("result", resultDocument run.result),
  ("run_id", .str run.runId.value),
  ("status", .str run.status.value),
  ("task_id", .str run.taskId.value),
  ("tenant_id", .str run.tenantId.value),
  ("updated_at", .str run.updatedAt.isoformat),
  ("usage", usageDocument run.usage),
  ("version", encodedInteger run.version)]

structure RunRecord where
  recordFormatVersion : ℕ
  tenantId : String
  runId : String
  taskId : String
  agentId : String
  agentVersionId : String
  agentBuildDigest : String
  runStatus : String
  runVersion : String
  nextEventSequence : String
  createdAt : ZonedDateTime
  updatedAt : ZonedDateTime
  lastObservedAt : ZonedDateTime
  snapshotFormatVersion : ℕ
  snapshot : String
  deriving DecidableEq

def utc (d : DateTime) : ZonedDateTime := ⟨d, 0⟩

def encodeRun (run : Run) : RunRecord where
  recordFormatVersion := recordFormatVersion
  tenantId := run.tenantId.value
  runId := run.runId.value
  taskId := run.taskId.value
  agentId := run.agentVersion.agentId.value
  agentVersionId := run.agentVersion.versionId.value
  agentBuildDigest := run.agentVersion.buildDigest
  runStatus := run.status.value
  runVersion := encodeCanonicalInteger run.version
  nextEventSequence := encodeCanonicalInteger run.nextEventSequence
  createdAt := utc run.createdAt
  updatedAt := utc run.updatedAt
  lastObservedAt := utc run.lastObservedAt
  snapshotFormatVersion := recordFormatVersion
  snapshot := encodeCanonicalJson (snapshotDocument run)

def decodeAgentVersion (value : Json) : Except PyError AgentVersionRef := do
  let agent ← mappingOf value ["tenant_id", "agent_id", "version_id", "build_digest"]
  let tenantId ← identifierOf .tenant (fieldOf agent "tenant_id")
  let agentId ← identifierOf .agent (fieldOf agent "agent_id")
  let versionId ← identifierOf .agentVersion (fieldOf agent "version_id")
  let buildDigest ← stringOf (fieldOf agent "build_digest")
  AgentVersionRef.new tenantId agentId versionId buildDigest

/-- The charge map. A value that is no string has no text with the prefix that the
    constructor requires. -/
def decodeCharges : List (String × Json) → Except PyError (Dict ChargeId String)
  | [] => .ok Dict.empty
  | (key, item) :: charges => do
    let chargeId ← Identifier.new key
    let fingerprint ← stringOf item
    let rest ← decodeCharges charges
    return rest.insert chargeId fingerprint

def decodeUsage (value : Json) : Except PyError BudgetSnapshot := do
  let raw ← mappingOf value ["steps", "model_calls", "tool_calls", "input_tokens", "output_tokens",
    "cost", "charge_fingerprints"]
  let charges ← match fieldOf raw "charge_fingerprints" with
    | .obj charges => decodeCharges charges
    | _ => .error (.valueError "charge fingerprints are invalid")
  let steps ← counterOf (fieldOf raw "steps")
  let modelCalls ← counterOf (fieldOf raw "model_calls")
  let toolCalls ← counterOf (fieldOf raw "tool_calls")
  let inputTokens ← counterOf (fieldOf raw "input_tokens")
  let outputTokens ← counterOf (fieldOf raw "output_tokens")
  let cost ← decimalOf (fieldOf raw "cost")
  BudgetSnapshot.new {
    steps := steps
    modelCalls := modelCalls
    toolCalls := toolCalls
    inputTokens := inputTokens
    outputTokens := outputTokens
    cost := cost
    chargeFingerprints := charges }

def dimensionOf (value : Json) : Except PyError BudgetDimension := do
  let s ← stringOf value
  enumOf budgetDimensions BudgetDimension.value s

def decodeError (value : Json) : Except PyError SafeRunError := do
  let raw ← mappingOf value ["code", "correlation_id", "limit_dimension"]
  let code ← stringOf (fieldOf raw "code")
  let code ← enumOf runErrorCodes RunErrorCode.value code
  let correlationId ← optionalOf (identifierOf .correlation) (fieldOf raw "correlation_id")
  let limitDimension ← optionalOf dimensionOf (fieldOf raw "limit_dimension")
  SafeRunError.new ⟨code, correlationId, limitDimension⟩

def referencesOf (value : Json) : Except PyError (List ReferenceId) := do
  let texts ← stringsOf value
  texts.mapM Identifier.new

def decodeDraft (value : Json) : Except PyError RunResultDraft := do
  let draft ← mappingOf value ["answer", "warning_codes", "citation_ids", "artifact_ids",
    "approval_ids", "correlation_id"]
  let answer ← optionalOf stringOf (fieldOf draft "answer")
  let warningCodes ← stringsOf (fieldOf draft "warning_codes")
  let citationIds ← referencesOf (fieldOf draft "citation_ids")
  let artifactIds ← referencesOf (fieldOf draft "artifact_ids")
  let approvalIds ← referencesOf (fieldOf draft "approval_ids")
  let correlationId ← optionalOf (identifierOf .correlation) (fieldOf draft "correlation_id")
  RunResultDraft.new ⟨answer, warningCodes, citationIds, artifactIds, approvalIds, correlationId⟩

def decodeResult : Json → Except PyError (Option RunResult)
  | .null => .ok none
  | value => do
    let raw ← mappingOf value ["result_version", "tenant_id", "run_id", "agent_version", "status",
      "draft", "usage", "error"]
    let error ← optionalOf decodeError (fieldOf raw "error")
    let resultVersion ← integerOf (fieldOf raw "result_version")
    let tenantId ← identifierOf .tenant (fieldOf raw "tenant_id")
    let runId ← identifierOf .run (fieldOf raw "run_id")
    let agentVersion ← decodeAgentVersion (fieldOf raw "agent_version")
    let status ← stringOf (fieldOf raw "status")
    let status ← enumOf runStatuses RunStatus.value status
    let draft ← decodeDraft (fieldOf raw "draft")
    let usage ← decodeUsage (fieldOf raw "usage")
    let result ← RunResult.new {
      resultVersion := resultVersion
      tenantId := tenantId
      runId := runId
      agentVersion := agentVersion
      status := status
      draft := draft
      usage := usage
      error := error }
    return some result

def decodeBudget (value : Json) : Except PyError RunBudget := do
  let budget ← mappingOf value ["deadline_at", "max_steps", "max_model_calls", "max_tool_calls",
    "max_input_tokens", "max_output_tokens", "max_total_tokens", "max_cost", "currency"]
  let deadlineAt ← timestampOf (fieldOf budget "deadline_at")
  let maxSteps ← counterOf (fieldOf budget "max_steps")
  let maxModelCalls ← counterOf (fieldOf budget "max_model_calls")
  let maxToolCalls ← counterOf (fieldOf budget "max_tool_calls")
  let maxInputTokens ← counterOf (fieldOf budget "max_input_tokens")
  let maxOutputTokens ← counterOf (fieldOf budget "max_output_tokens")
  let maxTotalTokens ← counterOf (fieldOf budget "max_total_tokens")
  let maxCost ← decimalOf (fieldOf budget "max_cost")
  let currency ← stringOf (fieldOf budget "currency")
  RunBudget.new {
    deadlineAt := deadlineAt
    maxSteps := maxSteps
    maxModelCalls := maxModelCalls
    maxToolCalls := maxToolCalls
    maxInputTokens := maxInputTokens
    maxOutputTokens := maxOutputTokens
    maxTotalTokens := maxTotalTokens
    maxCost := maxCost
    currency := currency }

def decodeSnapshot (value : Json) : Except PyError Run := do
  let snapshot ← mappingOf value ["tenant_id", "run_id", "task_id", "agent_version", "status",
    "version", "budget", "usage", "created_at", "updated_at", "last_observed_at",
    "next_event_sequence", "result"]
  let tenantId ← identifierOf .tenant (fieldOf snapshot "tenant_id")
  let runId ← identifierOf .run (fieldOf snapshot "run_id")
  let taskId ← identifierOf .task (fieldOf snapshot "task_id")
  let agentVersion ← decodeAgentVersion (fieldOf snapshot "agent_version")
  let status ← stringOf (fieldOf snapshot "status")
  let status ← enumOf runStatuses RunStatus.value status
  let version ← counterOf (fieldOf snapshot "version")
  let budget ← decodeBudget (fieldOf snapshot "budget")
  let usage ← decodeUsage (fieldOf snapshot "usage")
  let createdAt ← timestampOf (fieldOf snapshot "created_at")
  let updatedAt ← timestampOf (fieldOf snapshot "updated_at")
  let lastObservedAt ← timestampOf (fieldOf snapshot "last_observed_at")
  let nextEventSequence ← counterOf (fieldOf snapshot "next_event_sequence")
  let result ← decodeResult (fieldOf snapshot "result")
  Run.new {
    tenantId := tenantId
    runId := runId
    taskId := taskId
    agentVersion := agentVersion
    status := status
    version := version
    budget := budget
    usage := usage
    createdAt := createdAt
    updatedAt := updatedAt
    lastObservedAt := lastObservedAt
    nextEventSequence := nextEventSequence
    result := result }

/-- The projection columns agree with the run. -/
def checkProjections (run : Run) (raw : RunRecord) : Except PyError Unit := do
  let createdAt ← readTimestamp (.datetime raw.createdAt)
  let updatedAt ← readTimestamp (.datetime raw.updatedAt)
  let lastObservedAt ← readTimestamp (.datetime raw.lastObservedAt)
  require (run.tenantId.value == raw.tenantId && run.runId.value == raw.runId &&
      run.taskId.value == raw.taskId && run.agentVersion.agentId.value == raw.agentId &&
      run.agentVersion.versionId.value == raw.agentVersionId &&
      run.agentVersion.buildDigest == raw.agentBuildDigest && run.status.value == raw.runStatus &&
      encodeCanonicalInteger run.version == raw.runVersion &&
      encodeCanonicalInteger run.nextEventSequence == raw.nextEventSequence &&
      run.createdAt == createdAt && run.updatedAt == updatedAt &&
      run.lastObservedAt == lastObservedAt)
    (.valueError "run projections disagree")

def decodeRun (raw : RunRecord) : Except Failure Run := corrupted do
  require (raw.recordFormatVersion == recordFormatVersion &&
      raw.snapshotFormatVersion == recordFormatVersion) (.valueError "record version is unsupported")
  let document ← decodeCanonicalJson raw.snapshot
  let run ← decodeSnapshot document
  checkProjections run raw
  return run

structure EventRecord where
  recordFormatVersion : ℕ
  eventId : String
  tenantId : String
  runId : String
  sequenceValue : String
  eventType : String
  occurredAt : TimestampValue
  payloadVersion : ℕ
  payload : String
  deriving DecidableEq

def encodeEvent (event : RunEvent) : EventRecord where
  recordFormatVersion := recordFormatVersion
  eventId := event.eventId.value
  tenantId := event.tenantId.value
  runId := event.runId.value
  sequenceValue := encodeCanonicalInteger event.sequence
  eventType := event.type.value
  occurredAt := .datetime (utc event.occurredAt)
  payloadVersion := event.payloadVersion
  payload := encodeCanonicalJson (.obj event.payload.fields)

def mappingOfJson (value : Json) : Except PyError Mapping :=
  match value with
  | .obj fields =>
    if h : Json.Canonical (.obj fields) then .ok ⟨fields, h⟩
    else .error (.valueError "event payload must be an object")
  | _ => .error (.valueError "event payload must be an object")

def decodeEvent (raw : EventRecord) : Except Failure RunEvent := corrupted do
  require (raw.recordFormatVersion == recordFormatVersion)
    (.valueError "event record version is unsupported")
  let document ← decodeCanonicalJson raw.payload
  let payload ← mappingOfJson document
  let eventId ← Identifier.new raw.eventId
  let tenantId ← Identifier.new raw.tenantId
  let runId ← Identifier.new raw.runId
  let sequence ← counterOfText raw.sequenceValue
  let type ← enumOf runEventTypes RunEventType.value raw.eventType
  let occurredAt ← readTimestamp raw.occurredAt
  RunEvent.new {
    eventId := eventId
    tenantId := tenantId
    runId := runId
    sequence := sequence
    type := type
    occurredAt := occurredAt
    payloadVersion := raw.payloadVersion
    payload := payload }

structure ReceiptRecord where
  recordFormatVersion : ℕ
  tenantId : String
  commandId : String
  runId : String
  commandType : String
  intentFingerprint : String
  resultingStatus : String
  resultingVersion : String
  eventId : Option String
  createdAt : ZonedDateTime
  deriving DecidableEq

/-- `encode_receipt`, for a receipt that names at most one event. -/
def encodeReceipt (receipt : CommandReceipt) : Except PyError ReceiptRecord := do
  require (receipt.eventIds.length ≤ 1) (.valueError "receipt cannot reference multiple events")
  return {
    recordFormatVersion := recordFormatVersion
    tenantId := receipt.tenantId.value
    commandId := receipt.commandId.value
    runId := receipt.runId.value
    commandType := receipt.commandType.value
    intentFingerprint := receipt.intentFingerprint
    resultingStatus := receipt.resultingStatus.value
    resultingVersion := encodeCanonicalInteger receipt.resultingVersion
    eventId := receipt.eventIds.head?.map (·.value)
    createdAt := utc receipt.createdAt }

def decodeReceipt (raw : ReceiptRecord) : Except Failure CommandReceipt := corrupted do
  require (raw.recordFormatVersion == recordFormatVersion)
    (.valueError "receipt record version is unsupported")
  let tenantId ← Identifier.new raw.tenantId
  let commandId ← Identifier.new raw.commandId
  let runId ← Identifier.new raw.runId
  let commandType ← enumOf commandTypes CommandType.value raw.commandType
  let resultingStatus ← enumOf runStatuses RunStatus.value raw.resultingStatus
  let resultingVersion ← counterOfText raw.resultingVersion
  let eventIds ← match raw.eventId with
    | some eventId => do
      let eventId ← Identifier.new eventId
      pure [eventId]
    | none => pure []
  let createdAt ← readTimestamp (.datetime raw.createdAt)
  CommandReceipt.new {
    tenantId := tenantId
    commandId := commandId
    runId := runId
    commandType := commandType
    intentFingerprint := raw.intentFingerprint
    resultingStatus := resultingStatus
    resultingVersion := resultingVersion
    eventIds := eventIds
    createdAt := createdAt }

end Zhiyi
