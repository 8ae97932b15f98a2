import Zhiyi.Domain.Operations

set_option autoImplicit false

/-! Immutable commands for the run lifecycle application boundary. -/
namespace Zhiyi
open Python

inductive CommandType where
  | createRun | startRun | waitForApproval | waitForResolution | resumeRun | consumeBudget
  | succeedRun | failRun | cancelRun | enforceDeadline
  deriving DecidableEq, Repr

def CommandType.value : CommandType → String
  | .createRun => "create_run"
  | .startRun => "start_run"
  | .waitForApproval => "wait_for_approval"
  | .waitForResolution => "wait_for_resolution"
  | .resumeRun => "resume_run"
  | .consumeBudget => "consume_budget"
  | .succeedRun => "succeed_run"
  | .failRun => "fail_run"
  | .cancelRun => "cancel_run"
  | .enforceDeadline => "enforce_deadline"

def optionalText : Option String → Json
  | none => .null
  | some s => .str s

def canonicalizeAgentVersion (v : AgentVersionRef) : Json := .obj [
  ("agent_id", .str v.agentId.value),
  ("build_digest", .str v.buildDigest),
  ("tenant_id", .str v.tenantId.value),
  ("version_id", .str v.versionId.value)]

def canonicalizeBudget (b : RunBudget) : Json := .obj [
  ("currency", .str b.currency),
  ("deadline_at", .str b.deadlineAt.isoformat),
  ("max_cost", .str (canonicalDecimal b.maxCost)),
  ("max_input_tokens", .int b.maxInputTokens),
  ("max_model_calls", .int b.maxModelCalls),
  ("max_output_tokens", .int b.maxOutputTokens),
  ("max_steps", .int b.maxSteps),
  ("max_tool_calls", .int b.maxToolCalls),
  ("max_total_tokens", .int b.maxTotalTokens)]

def canonicalizeReferences (references : List ReferenceId) : Json :=
  .arr (references.map fun r => .str r.value)

def canonicalizeDraft (d : RunResultDraft) : Json := .obj [
  ("answer", optionalText d.answer),
  ("approval_ids", canonicalizeReferences d.approvalIds),
  ("artifact_ids", canonicalizeReferences d.artifactIds),
  ("citation_ids", canonicalizeReferences d.citationIds),
  ("correlation_id", optionalText (d.correlationId.map (·.value))),
  ("warning_codes", .arr (d.warningCodes.map .str))]

def canonicalizeError (e : SafeRunError) : Json := .obj [
  ("code", .str e.code.value),
  ("correlation_id", optionalText (e.correlationId.map (·.value))),
  ("limit_dimension", optionalText (e.limitDimension.map (·.value)))]

/-- `_fingerprint` of a canonicalized body. -/
def fingerprint (body : Json) : Except PyError String := do
  let text ← body.dumps
  return "sha256:" ++ Sha256.hexdigest text

structure CreateRunCommand where
  tenantId : TenantId
  commandId : CommandId
  taskId : TaskId
  agentVersion : AgentVersionRef
  budget : RunBudget
  correlationId : Option CorrelationId
  tenantMatches : agentVersion.tenantId = tenantId
  deriving DecidableEq

def CreateRunCommand.intentFingerprint (command : CreateRunCommand) : Except PyError String :=
  fingerprint (.obj [
    ("agent_version", canonicalizeAgentVersion command.agentVersion),
    ("budget", canonicalizeBudget command.budget),
    ("command_type", .str CommandType.createRun.value),
    ("task_id", .str command.taskId.value),
    ("tenant_id", .str command.tenantId.value)])

/-- A command on an existing run. Its nine classes differ in their business
    fields only, which are the arguments of the operation. -/
structure ExistingRunCommand where
  tenantId : TenantId
  commandId : CommandId
  runId : RunId
  expectedVersion : ℕ
  operation : Operation
  deriving DecidableEq

namespace Operation

def commandType : Operation → CommandType
  | .start => .startRun
  | .waitForApproval _ => .waitForApproval
  | .waitForResolution _ => .waitForResolution
  | .resume => .resumeRun
  | .succeed _ => .succeedRun
  | .fail _ _ => .failRun
  | .cancel _ => .cancelRun
  | .consumeBudget _ => .consumeBudget
  | .enforceDeadline => .enforceDeadline

/-- `_business_payload`. The correlation of a cancellation is not part of it. -/
def businessPayload : Operation → Json
  | .waitForApproval referenceId => .obj [("reference_id", .str referenceId.value)]
  | .waitForResolution referenceId => .obj [("reference_id", .str referenceId.value)]
  | .consumeBudget charge => .obj [("charge", charge.body)]
  | .succeed draft => .obj [("result", canonicalizeDraft draft)]
  | .fail draft error =>
    .obj [("error", canonicalizeError error), ("result", canonicalizeDraft draft)]
  | _ => .obj []

end Operation

def ExistingRunCommand.intentFingerprint (command : ExistingRunCommand) : Except PyError String :=
  fingerprint (.obj [
    ("command_type", .str command.operation.commandType.value),
    ("payload", command.operation.businessPayload),
    ("run_id", .str command.runId.value),
    ("tenant_id", .str command.tenantId.value)])

inductive Command where
  | create (command : CreateRunCommand)
  | existing (command : ExistingRunCommand)
  deriving DecidableEq

namespace Command

def tenantId : Command → TenantId
  | .create c => c.tenantId
  | .existing c => c.tenantId

def commandId : Command → CommandId
  | .create c => c.commandId
  | .existing c => c.commandId

def commandType : Command → CommandType
  | .create _ => .createRun
  | .existing c => c.operation.commandType

def expectedVersion : Command → ℕ
  | .create _ => 0
  | .existing c => c.expectedVersion

def intentFingerprint : Command → Except PyError String
  | .create c => c.intentFingerprint
  | .existing c => c.intentFingerprint

end Command

theorem matchesDigestPattern_hexdigest (text : String) :
    matchesDigestPattern ("sha256:" ++ Sha256.hexdigest text) = true := by
  unfold matchesDigestPattern
  rw [String.toList_append]
  change (decide ((Sha256.hexdigest text).toList.length = 64) &&
    (Sha256.hexdigest text).toList.all fun c => "0123456789abcdef".toList.contains c) = true
  rw [Bool.and_eq_true, decide_eq_true_eq, List.all_eq_true]
  exact ⟨Sha256.hexdigest_length text, Sha256.hexdigest_isHex text⟩

theorem fingerprint_matches {body : Json} {s : String} (h : fingerprint body = .ok s) :
    matchesDigestPattern s = true := by
  obtain ⟨text, -, h⟩ := bind_eq_ok.mp h
  cases h
  exact matchesDigestPattern_hexdigest text

theorem fingerprint_of_withinStrDigits {body : Json} (h : body.withinStrDigits = true) :
    ∃ s, fingerprint body = .ok s := by
  refine ⟨"sha256:" ++ Sha256.hexdigest (String.ofList (Json.print body.sortKeys)), ?_⟩
  simp only [fingerprint, Json.dumps, if_pos h]
  rfl

theorem Command.intentFingerprint_matches {command : Command} {s : String}
    (h : command.intentFingerprint = .ok s) : matchesDigestPattern s = true := by
  cases command with
  | create c => exact fingerprint_matches h
  | existing c => exact fingerprint_matches h

end Zhiyi
