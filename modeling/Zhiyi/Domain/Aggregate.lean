import Zhiyi.Domain.Results

set_option autoImplicit false

/-! Immutable Run aggregate and its single lifecycle transition model. -/
namespace Zhiyi
open Python

/-- `_ALLOWED_TRANSITIONS`. -/
def allowedTransitions : RunStatus → List RunStatus
  | .queued => [.running, .cancelled, .limitExceeded]
  | .running =>
    [.waitingApproval, .waitingResolution, .succeeded, .failed, .cancelled, .limitExceeded]
  | .waitingApproval => [.running, .cancelled, .limitExceeded]
  | .waitingResolution => [.running, .cancelled, .limitExceeded]
  | .succeeded => []
  | .failed => []
  | .cancelled => []
  | .limitExceeded => []

structure RunFields where
  tenantId : TenantId
  runId : RunId
  taskId : TaskId
  agentVersion : AgentVersionRef
  status : RunStatus
  version : ℕ
  budget : RunBudget
  usage : BudgetSnapshot
  createdAt : DateTime
  updatedAt : DateTime
  lastObservedAt : DateTime
  nextEventSequence : ℕ
  result : Option RunResult
  deriving DecidableEq

/-- The result checks of `__post_init__`. -/
def RunFields.checkResult (f : RunFields) : Except PyError Unit :=
  if f.status.isTerminal then
    match f.result with
    | none => .error (.valueError "terminal run must have one matching result")
    | some result => do
      require (result.status == f.status)
        (.valueError "terminal run must have one matching result")
      require (result.tenantId == f.tenantId && result.runId == f.runId &&
          result.agentVersion == f.agentVersion && result.usage.eq f.usage)
        (.valueError "terminal result must match the run snapshot")
  else require f.result.isNone (.valueError "non-terminal run cannot have a result")

def RunFields.postInit (f : RunFields) : Except PyError Unit := do
  require (f.agentVersion.tenantId == f.tenantId)
    (.valueError "agent version tenant must match run tenant")
  require (1 ≤ f.version) (.valueError "version must be positive")
  require (!(f.updatedAt < f.createdAt || f.lastObservedAt < f.updatedAt))
    (.valueError "run timestamps must move forward")
  require (!(f.budget.deadlineAt ≤ f.createdAt))
    (.valueError "budget deadline must be after run creation")
  require (f.nextEventSequence == f.version + 1)
    (.valueError "event sequence and run version must remain continuous")
  f.checkResult

structure Run extends RunFields where
  valid : toRunFields.postInit = .ok ()
  deriving DecidableEq

structure RunMutation where
  run : Run
  events : List RunEvent
  deriving DecidableEq

namespace Run

def new (f : RunFields) : Except PyError Run := construct f.postInit fun valid => ⟨f, valid⟩

/-- The dataclass equality, which compares decimals by value. -/
def eq (a b : Run) : Bool :=
  a.tenantId == b.tenantId && a.runId == b.runId && a.taskId == b.taskId &&
    a.agentVersion == b.agentVersion && a.status == b.status && a.version == b.version &&
    (a.budget.deadlineAt == b.budget.deadlineAt && a.budget.maxSteps == b.budget.maxSteps &&
      a.budget.maxModelCalls == b.budget.maxModelCalls &&
      a.budget.maxToolCalls == b.budget.maxToolCalls &&
      a.budget.maxInputTokens == b.budget.maxInputTokens &&
      a.budget.maxOutputTokens == b.budget.maxOutputTokens &&
      a.budget.maxTotalTokens == b.budget.maxTotalTokens &&
      a.budget.maxCost == b.budget.maxCost && a.budget.currency == b.budget.currency) &&
    a.usage.eq b.usage && a.createdAt == b.createdAt && a.updatedAt == b.updatedAt &&
    a.lastObservedAt == b.lastObservedAt && a.nextEventSequence == b.nextEventSequence &&
    match a.result, b.result with
    | none, none => true
    | some r, some s => r.eq s
    | _, _ => false

def create (tenantId : TenantId) (runId : RunId) (taskId : TaskId) (agentVersion : AgentVersionRef)
    (budget : RunBudget) (observedAt : DateTime) (eventId : EventId) :
    Except Failure RunMutation := raising do
  let run ← new {
    tenantId := tenantId
    runId := runId
    taskId := taskId
    agentVersion := agentVersion
    status := .queued
    version := 1
    budget := budget
    usage := BudgetSnapshot.initial
    createdAt := observedAt
    updatedAt := observedAt
    lastObservedAt := observedAt
    nextEventSequence := 2
    result := none }
  let event ← RunEvent.new {
    eventId := eventId
    tenantId := tenantId
    runId := runId
    sequence := 1
    type := .runCreated
    occurredAt := observedAt
    payloadVersion := 1
    payload := Mapping.ofEntries [
      ("agent_version_id", .str agentVersion.versionId.value),
      ("run_version", .int 1),
      ("status", .str RunStatus.queued.value)] }
  return ⟨run, [event]⟩

/-- `_effective_time`: a clock that went backwards is held at the last observation. -/
def effectiveTime (run : Run) (observedAt : DateTime) : DateTime := max run.lastObservedAt observedAt

def assertTransition (run : Run) (target : RunStatus) : Except Failure Unit :=
  require ((allowedTransitions run.status).contains target) (.lifecycle .illegalTransition)

/-- The optional arguments of `_change`, with their defaults. -/
structure Change where
  target : RunStatus
  eventType : RunEventType
  payload : List (String × FrozenJson) := []
  usage : Option BudgetSnapshot := none
  resultDraft : Option RunResultDraft := none
  error : Option SafeRunError := none
  allowRunningSelfTransition : Bool := false

def resultFor (run : Run) (change : Change) (usage : BudgetSnapshot) :
    Except PyError (Option RunResult) :=
  if change.target.isTerminal then do
    let result ← RunResult.new {
      resultVersion := 1
      tenantId := run.tenantId
      runId := run.runId
      agentVersion := run.agentVersion
      status := change.target
      draft := change.resultDraft.getD (RunResultDraft.correlated none)
      usage := usage
      error := change.error }
    return some result
  else .ok none

/-- `replace(self, ...)`: the run after the change. -/
def changedFields (run : Run) (change : Change) (effectiveAt : DateTime)
    (result : Option RunResult) : RunFields :=
  { run.toRunFields with
    status := change.target
    version := run.version + 1
    usage := change.usage.getD run.usage
    updatedAt := effectiveAt
    lastObservedAt := effectiveAt
    nextEventSequence := run.nextEventSequence + 1
    result := result }

def eventFields (run : Run) (change : Change) (effectiveAt : DateTime) (eventId : EventId) :
    RunEventFields where
  eventId := eventId
  tenantId := run.tenantId
  runId := run.runId
  sequence := run.nextEventSequence
  type := change.eventType
  occurredAt := effectiveAt
  payloadVersion := 1
  payload := (Mapping.ofEntries [
    ("run_version", .int (run.version + 1)),
    ("status", .str change.target.value)]).update change.payload

/-- `_change` once the transition is allowed. -/
def changeAt (run : Run) (change : Change) (effectiveAt : DateTime) (eventId : EventId) :
    Except PyError RunMutation := do
  let result ← run.resultFor change (change.usage.getD run.usage)
  let updated ← new (run.changedFields change effectiveAt result)
  let event ← RunEvent.new (run.eventFields change effectiveAt eventId)
  return ⟨updated, [event]⟩

def change (run : Run) (change : Change) (observedAt : DateTime) (eventId : EventId) :
    Except Failure RunMutation := do
  if !(change.allowRunningSelfTransition && run.status == change.target &&
      change.target == .running) then
    run.assertTransition change.target
  raising (run.changeAt change (run.effectiveTime observedAt) eventId)

-- Each operation guards the status and hands one change to `change`.

def startChange (run : Run) : Change where
  target := .running
  eventType := .runStarted
  payload := [("previous_status", .str run.status.value)]

def start (run : Run) (observedAt : DateTime) (eventId : EventId) : Except Failure RunMutation :=
  run.change run.startChange observedAt eventId

def waitChange (run : Run) (target : RunStatus) (eventType : RunEventType)
    (referenceId : ReferenceId) : Change where
  target := target
  eventType := eventType
  payload := [("previous_status", .str run.status.value), ("reference_id", .str referenceId.value)]

def waitFor (run : Run) (target : RunStatus) (eventType : RunEventType) (referenceId : ReferenceId)
    (observedAt : DateTime) (eventId : EventId) : Except Failure RunMutation :=
  if run.status ≠ .running then .error (.lifecycle .illegalTransition)
  else run.change (run.waitChange target eventType referenceId) observedAt eventId

def waitForApproval (run : Run) (referenceId : ReferenceId) (observedAt : DateTime)
    (eventId : EventId) : Except Failure RunMutation :=
  run.waitFor .waitingApproval .runWaitingApproval referenceId observedAt eventId

def waitForResolution (run : Run) (referenceId : ReferenceId) (observedAt : DateTime)
    (eventId : EventId) : Except Failure RunMutation :=
  run.waitFor .waitingResolution .runWaitingResolution referenceId observedAt eventId

def resumeChange (run : Run) : Change where
  target := .running
  eventType := .runResumed
  payload := [("previous_status", .str run.status.value)]

def resume (run : Run) (observedAt : DateTime) (eventId : EventId) : Except Failure RunMutation :=
  if run.status ≠ .waitingApproval ∧ run.status ≠ .waitingResolution then
    .error (.lifecycle .illegalTransition)
  else run.change run.resumeChange observedAt eventId

def succeedChange (draft : RunResultDraft) : Change where
  target := .succeeded
  eventType := .runSucceeded
  payload := [("result_version", .int 1)]
  resultDraft := some draft

def succeed (run : Run) (draft : RunResultDraft) (observedAt : DateTime) (eventId : EventId) :
    Except Failure RunMutation :=
  if run.status ≠ .running then .error (.lifecycle .illegalTransition)
  else run.change (succeedChange draft) observedAt eventId

def failChange (draft : RunResultDraft) (error : SafeRunError) : Change where
  target := .failed
  eventType := .runFailed
  payload := [("error_code", .str error.code.value), ("result_version", .int 1)]
  resultDraft := some draft
  error := some error

def fail (run : Run) (draft : RunResultDraft) (error : SafeRunError) (observedAt : DateTime)
    (eventId : EventId) : Except Failure RunMutation :=
  if run.status ≠ .running then .error (.lifecycle .illegalTransition)
  else if error.code ≠ .failed then
    .error (.python (.valueError "fail transition requires the failed error code"))
  else run.change (failChange draft error) observedAt eventId

def cancelChange (correlationId : Option CorrelationId) (error : SafeRunError) : Change where
  target := .cancelled
  eventType := .runCancelled
  payload := [("error_code", .str error.code.value), ("result_version", .int 1)] ++
    (correlationId.map fun c => ("correlation_id", FrozenJson.str c.value)).toList
  resultDraft := some (RunResultDraft.correlated correlationId)
  error := some error

def cancel (run : Run) (correlationId : Option CorrelationId) (observedAt : DateTime)
    (eventId : EventId) : Except Failure RunMutation := do
  let error ← raising (SafeRunError.new ⟨.cancelled, correlationId, none⟩)
  run.change (cancelChange correlationId error) observedAt eventId

def limitChange (dimension : BudgetDimension) (error : SafeRunError) : Change where
  target := .limitExceeded
  eventType := .runLimitExceeded
  payload := [("error_code", .str error.code.value), ("limit_dimension", .str dimension.value),
    ("result_version", .int 1)]
  error := some error

def limit (run : Run) (dimension : BudgetDimension) (observedAt : DateTime) (eventId : EventId) :
    Except Failure RunMutation := do
  let error ← raising (SafeRunError.new ⟨.budgetLimit, none, some dimension⟩)
  run.change (limitChange dimension error) observedAt eventId

def usagePayload (usage : BudgetSnapshot) : Mapping := Mapping.ofEntries [
  ("cost", .str (canonicalDecimal usage.cost)),
  ("input_tokens", .int usage.inputTokens),
  ("model_calls", .int usage.modelCalls),
  ("output_tokens", .int usage.outputTokens),
  ("steps", .int usage.steps),
  ("tool_calls", .int usage.toolCalls),
  ("total_tokens", .int usage.totalTokens)]

def consumeChange (charge : BudgetCharge) (usage : BudgetSnapshot) : Change where
  target := .running
  eventType := .runBudgetConsumed
  payload := [("charge_id", .str charge.chargeId.value), ("usage", (usagePayload usage).toFrozen)]
  usage := some usage
  allowRunningSelfTransition := true

def consumeBudget (run : Run) (charge : BudgetCharge) (observedAt : DateTime) (eventId : EventId) :
    Except Failure RunMutation :=
  if run.status ≠ .running then .error (.lifecycle .illegalTransition)
  else do
    let decision ← run.usage.apply charge run.budget
    if decision.replayed then return ⟨run, []⟩
    else
      let effectiveAt := run.effectiveTime observedAt
      if run.budget.deadlineAt ≤ effectiveAt then run.limit .deadline effectiveAt eventId
      else
        match decision.exceededDimension with
        | some dimension => run.limit dimension effectiveAt eventId
        | none => run.change (consumeChange charge decision.snapshot) effectiveAt eventId

def enforceDeadline (run : Run) (observedAt : DateTime) (eventId : EventId) :
    Except Failure RunMutation :=
  if run.status.isTerminal then .ok ⟨run, []⟩
  else
    let effectiveAt := run.effectiveTime observedAt
    if effectiveAt < run.budget.deadlineAt then .ok ⟨run, []⟩
    else run.limit .deadline effectiveAt eventId

end Run

inductive Operation where
  | start
  | waitForApproval (referenceId : ReferenceId)
  | waitForResolution (referenceId : ReferenceId)
  | resume
  | succeed (draft : RunResultDraft)
  | fail (draft : RunResultDraft) (error : SafeRunError)
  | cancel (correlationId : Option CorrelationId)
  | consumeBudget (charge : BudgetCharge)
  | enforceDeadline
  deriving DecidableEq

namespace Run

def perform (run : Run) (observedAt : DateTime) (eventId : EventId) :
    Operation → Except Failure RunMutation
  | .start => run.start observedAt eventId
  | .waitForApproval referenceId => run.waitForApproval referenceId observedAt eventId
  | .waitForResolution referenceId => run.waitForResolution referenceId observedAt eventId
  | .resume => run.resume observedAt eventId
  | .succeed draft => run.succeed draft observedAt eventId
  | .fail draft error => run.fail draft error observedAt eventId
  | .cancel correlationId => run.cancel correlationId observedAt eventId
  | .consumeBudget charge => run.consumeBudget charge observedAt eventId
  | .enforceDeadline => run.enforceDeadline observedAt eventId

theorem new_eq_ok {f : RunFields} {run : Run} (h : new f = .ok run) : run.toRunFields = f := by
  obtain ⟨_, rfl⟩ := construct_eq_ok h
  rfl

/-- The checks of `__post_init__`, by name. -/
structure Sound (f : RunFields) : Prop where
  tenant : f.agentVersion.tenantId = f.tenantId
  version : 1 ≤ f.version
  updated : f.createdAt ≤ f.updatedAt
  observed : f.updatedAt ≤ f.lastObservedAt
  deadline : f.createdAt < f.budget.deadlineAt
  sequence : f.nextEventSequence = f.version + 1
  result : f.checkResult = .ok ()

theorem sound_iff {f : RunFields} : f.postInit = .ok () ↔ Sound f := by
  constructor
  · intro h
    obtain ⟨_, h1, h⟩ := bind_eq_ok.mp h
    obtain ⟨_, h2, h⟩ := bind_eq_ok.mp h
    obtain ⟨_, h3, h⟩ := bind_eq_ok.mp h
    obtain ⟨_, h4, h⟩ := bind_eq_ok.mp h
    obtain ⟨_, h5, h6⟩ := bind_eq_ok.mp h
    simp only [require_eq_ok, Bool.not_eq_true', Bool.or_eq_false_iff, decide_eq_true_eq,
      decide_eq_false_iff_not, not_lt, not_le, beq_iff_eq] at h1 h2 h3 h4 h5
    exact ⟨h1, h2, h3.1, h3.2, h4, h5, h6⟩
  · rintro ⟨h1, h2, h3, h4, h5, h6, h7⟩
    have h34 : (!(decide (f.updatedAt < f.createdAt) || decide (f.lastObservedAt < f.updatedAt)))
        = true := by simp [h3, h4]
    have h5' : (!decide (f.budget.deadlineAt ≤ f.createdAt)) = true := by simpa using h5
    simp [RunFields.postInit, h1, h2, h34, h5', h6, h7, bind, Except.bind]

theorem sound (run : Run) : Sound run.toRunFields := sound_iff.mp run.valid

theorem terminal_result (run : Run) (h : run.status.isTerminal = true) :
    ∃ result, run.result = some result ∧ result.status = run.status ∧
      result.tenantId = run.tenantId ∧ result.runId = run.runId ∧
      result.agentVersion = run.agentVersion ∧ result.usage.eq run.usage = true := by
  have hc := run.sound.result
  unfold RunFields.checkResult at hc
  rw [if_pos h] at hc
  cases hr : run.result with
  | none => simp [hr] at hc
  | some result =>
    simp only [hr] at hc
    obtain ⟨_, h1, h2⟩ := bind_eq_ok.mp hc
    simp only [require_eq_ok, Bool.and_eq_true, beq_iff_eq] at h1 h2
    exact ⟨result, rfl, h1, h2.1.1.1, h2.1.1.2, h2.1.2, h2.2⟩

theorem live_result (run : Run) (h : run.status.isTerminal = false) : run.result = none := by
  have hc := run.sound.result
  unfold RunFields.checkResult at hc
  rw [if_neg (by simp [h]), require_eq_ok] at hc
  simpa using hc

end Run
end Zhiyi
