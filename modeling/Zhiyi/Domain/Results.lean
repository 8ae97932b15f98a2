import Zhiyi.Domain.Budget
import Zhiyi.Domain.Events

set_option autoImplicit false

/-! Safe immutable terminal result contracts. -/
namespace Zhiyi
open Python

structure SafeRunErrorFields where
  code : RunErrorCode
  correlationId : Option CorrelationId
  limitDimension : Option BudgetDimension
  deriving DecidableEq

def SafeRunErrorFields.postInit (f : SafeRunErrorFields) : Except PyError Unit := do
  require (!(f.code == .budgetLimit && f.limitDimension.isNone))
    (.valueError "budget-limit errors require a limit dimension")
  require (!(f.code != .budgetLimit && f.limitDimension.isSome))
    (.valueError "limit dimension is only valid for budget-limit errors")

structure SafeRunError extends SafeRunErrorFields where
  valid : toSafeRunErrorFields.postInit = .ok ()
  deriving DecidableEq

def SafeRunError.new (f : SafeRunErrorFields) : Except PyError SafeRunError :=
  construct f.postInit fun valid => ⟨f, valid⟩

structure RunResultDraftFields where
  answer : Option String
  warningCodes : List String
  citationIds : List ReferenceId
  artifactIds : List ReferenceId
  approvalIds : List ReferenceId
  correlationId : Option CorrelationId
  deriving DecidableEq

def RunResultDraftFields.postInit (f : RunResultDraftFields) : Except PyError Unit :=
  require (f.warningCodes.all matchesIdentifierPattern)
    (.valueError "warning_codes must contain safe identifiers")

/-- Repeated codes and references are dropped, the first ones kept. -/
def RunResultDraftFields.deduplicated (f : RunResultDraftFields) : RunResultDraftFields :=
  { f with
    warningCodes := fromKeys f.warningCodes
    citationIds := fromKeys f.citationIds
    artifactIds := fromKeys f.artifactIds
    approvalIds := fromKeys f.approvalIds }

theorem RunResultDraftFields.deduplicated_idem (f : RunResultDraftFields) :
    f.deduplicated.deduplicated = f.deduplicated := by
  simp only [deduplicated, fromKeys_of_nodup (fromKeys_nodup _)]

theorem RunResultDraftFields.postInit_deduplicated {f : RunResultDraftFields}
    (h : f.postInit = .ok ()) : f.deduplicated.postInit = .ok () := by
  rw [postInit, require_eq_ok, List.all_eq_true] at h ⊢
  exact fun code hc => h code (mem_of_mem_fromKeys hc)

structure RunResultDraft extends RunResultDraftFields where
  valid : toRunResultDraftFields.postInit = .ok ()
  distinct : toRunResultDraftFields.deduplicated = toRunResultDraftFields
  deriving DecidableEq

namespace RunResultDraft

def new (f : RunResultDraftFields) : Except PyError RunResultDraft :=
  construct f.postInit fun valid =>
    ⟨f.deduplicated, RunResultDraftFields.postInit_deduplicated valid, f.deduplicated_idem⟩

/-- `RunResultDraft(correlation_id=...)`, with the defaults of the other fields. -/
def correlated (correlationId : Option CorrelationId) : RunResultDraft where
  answer := none
  warningCodes := []
  citationIds := []
  artifactIds := []
  approvalIds := []
  correlationId := correlationId
  valid := rfl
  distinct := rfl

end RunResultDraft

structure RunResultFields where
  resultVersion : ℕ
  tenantId : TenantId
  runId : RunId
  agentVersion : AgentVersionRef
  status : RunStatus
  draft : RunResultDraft
  usage : BudgetSnapshot
  error : Option SafeRunError
  deriving DecidableEq

/-- `expected_code`, for the statuses that carry an error. -/
def expectedErrorCode : RunStatus → Option RunErrorCode
  | .failed => some .failed
  | .cancelled => some .cancelled
  | .limitExceeded => some .budgetLimit
  | _ => none

def RunResultFields.postInit (f : RunResultFields) : Except PyError Unit := do
  require (f.resultVersion == 1) (.valueError "result_version must be 1")
  require (f.agentVersion.tenantId == f.tenantId)
    (.valueError "agent version tenant must match result tenant")
  require f.status.isTerminal (.valueError "result status must be terminal")
  if f.status = .succeeded then
    require f.error.isNone (.valueError "successful results cannot contain an error")
  else
    match f.error with
    | none => .error (.valueError "non-success results require a safe error")
    | some error =>
      require (some error.code == expectedErrorCode f.status)
        (.valueError "result error code does not match terminal status")

structure RunResult extends RunResultFields where
  valid : toRunResultFields.postInit = .ok ()
  deriving DecidableEq

def RunResult.new (f : RunResultFields) : Except PyError RunResult :=
  construct f.postInit fun valid => ⟨f, valid⟩

theorem RunResult.new_eq_ok {f : RunResultFields} {r : RunResult} (h : new f = .ok r) :
    r.toRunResultFields = f := by
  obtain ⟨_, rfl⟩ := construct_eq_ok h
  rfl

def RunResult.eq (a b : RunResult) : Bool :=
  a.resultVersion == b.resultVersion && a.tenantId == b.tenantId && a.runId == b.runId &&
    a.agentVersion == b.agentVersion && a.status == b.status && a.draft == b.draft &&
    a.usage.eq b.usage && a.error == b.error

end Zhiyi
