import Zhiyi.Domain.Operations

set_option autoImplicit false

/-! When a lifecycle operation returns a mutation and when it reports an illegal
transition. The status graph and the event constructor each decide legality;
they part at `start` on a waiting run. -/
namespace Zhiyi
open Python

attribute [simp] RunEventType.payloadFields RunEventType.commonPayloadFields
  RunEventType.requiredPayloadFields RunEventType.expectedStatus
  RunEventType.expectedPreviousStatus RunEventType.expectedError

@[simp] theorem requireIdentifier_value (kind : IdentifierKind) (i : Identifier kind)
    (message : String) : requireIdentifier kind (some (.str i.value)) message = .ok () := by
  simp only [requireIdentifier, Identifier.new_value]
  rfl

theorem mem_limitDimensions (dimension : BudgetDimension) : dimension.value ∈ limitDimensions := by
  cases dimension <;> decide

namespace Run

theorem validateBudgetPayload_of_usage {payload : Mapping} {chargeId : ChargeId}
    {usage : BudgetSnapshot} (hcharge : payload.get? "charge_id" = some (.str chargeId.value))
    (husage : payload.get? "usage" = some (.obj (usagePayload usage).fields)) :
    validateBudgetPayload payload = .ok () := by
  have hkeys : (usagePayload usage).fields.map Prod.fst = (usagePayload usage).keys := rfl
  have hlookup : ∀ k, (usagePayload usage).fields.lookup k = (usagePayload usage).get? k :=
    fun _ => rfl
  have hcounters : usageFields.erase "cost" =
      ["input_tokens", "model_calls", "output_tokens", "steps", "tool_calls", "total_tokens"] := by
    decide
  have htotal : (0 : ℤ) ≤ usage.inputTokens + usage.outputTokens := by omega
  simp only [validateBudgetPayload, hcharge, husage, requireIdentifier_value, hkeys, hlookup,
    hcounters]
  simp [usagePayload, Mapping.ofEntries, Mapping.get?_insert, Mapping.all_keys_insert,
    Mapping.mem_keys_insert, usageFields, isIntAtLeast, FrozenJson.str, FrozenJson.int, bind,
    Except.bind, canonicalDecimal_matches, BudgetSnapshot.totalTokens, htotal]

/-- Every change an operation makes, `start` outside `queued` apart, passes the
    event constructor. One simplification serves all cases of `Makes`. -/
theorem Makes.event_valid {run : Run} {observedAt : DateTime} {op : Operation} {c : Change}
    (h : run.Makes observedAt op c) (hstart : op = .start → run.status = .queued)
    (effectiveAt : DateTime) (eventId : EventId) :
    (run.eventFields c effectiveAt eventId).postInit = .ok () := by
  have hseq : 1 ≤ run.nextEventSequence := by
    have := run.sound.sequence
    omega
  have hver : (1 : ℤ) ≤ run.version + 1 := by omega
  cases h
  case' start => have hs := hstart rfl
  case' resume hs => rcases hs with hs | hs
  case' cancel correlationId => cases correlationId
  case' consumed charge next hs hfresh hnext hdim hearly =>
    have hbudget := fun payload => @validateBudgetPayload_of_usage payload charge.chargeId next
  all_goals
    simp [RunEventFields.postInit, eventFields, startChange, waitChange, resumeChange,
      succeedChange, failChange, cancelChange, cancelError, limitChange, limitError, consumeChange,
      Mapping.ofEntries, Mapping.toFrozen, Mapping.all_keys_insert, Mapping.mem_keys_insert,
      Mapping.get?_insert, validatePayloadSchema, requirePreviousStatus, requireReferences,
      requireResultVersion, requireErrorCode, requireCorrelation, requireLimitDimension, isText,
      isIntAtLeast, isMember, equalsOne, mem_limitDimensions, RunErrorCode.value, FrozenJson.str,
      FrozenJson.int, bind, Except.bind, *]

def Change.ErrorFits (c : Change) : Prop :=
  if c.target = .succeeded then c.error = none
  else ∃ error, c.error = some error ∧ some error.code = expectedErrorCode c.target

theorem Makes.error_fits {run : Run} {observedAt : DateTime} {op : Operation} {c : Change}
    (h : run.Makes observedAt op c) (ht : c.target.isTerminal = true) : c.ErrorFits := by
  cases h
  case succeed => rfl
  case fail draft error hs hcode => exact ⟨error, rfl, by rw [hcode]; rfl⟩
  case cancel correlationId => exact ⟨cancelError correlationId, rfl, rfl⟩
  case exceeded charge next dimension _ _ _ _ _ => exact ⟨limitError dimension, rfl, rfl⟩
  case overdue => exact ⟨limitError .deadline, rfl, rfl⟩
  case expired => exact ⟨limitError .deadline, rfl, rfl⟩
  all_goals cases ht

end Run

theorem BudgetSnapshot.eq_refl (usage : BudgetSnapshot) : usage.eq usage = true := by
  have hcost : (usage.cost == usage.cost) = true := (Decimal.beq_iff _ _).mpr rfl
  simp [BudgetSnapshot.eq, hcost]

namespace Run

theorem eq_refl (run : Run) : run.eq run = true := by
  have hcost : (run.budget.maxCost == run.budget.maxCost) = true := (Decimal.beq_iff _ _).mpr rfl
  cases hresult : run.result <;> simp [Run.eq, RunResult.eq, BudgetSnapshot.eq_refl, hcost, hresult]

theorem resultFor_of_fits (run : Run) (c : Change) (effectiveAt : DateTime)
    (h : c.target.isTerminal = true → c.ErrorFits) :
    ∃ result, run.resultFor c (c.usage.getD run.usage) = .ok result ∧
      (run.changedFields c effectiveAt result).checkResult = .ok () := by
  unfold resultFor RunFields.checkResult changedFields
  by_cases ht : c.target.isTerminal = true
  · rw [if_pos ht]
    have hfits := h ht
    have hvalid : RunResultFields.postInit ⟨1, run.tenantId, run.runId, run.agentVersion, c.target,
        c.resultDraft.getD (RunResultDraft.correlated none), c.usage.getD run.usage, c.error⟩ =
        .ok () := by
      have htenant := run.sound.tenant
      unfold Change.ErrorFits at hfits
      split_ifs at hfits with hsucceeded
      · simp [RunResultFields.postInit, htenant, hsucceeded, hfits, bind, Except.bind,
          RunStatus.isTerminal]
      · obtain ⟨error, herror, hcode⟩ := hfits
        simp [RunResultFields.postInit, htenant, ht, hsucceeded, herror, hcode, bind, Except.bind]
    rw [RunResult.new, construct_of_ok _ hvalid]
    refine ⟨_, rfl, ?_⟩
    simp [ht, BudgetSnapshot.eq_refl, bind, Except.bind]
  · rw [if_neg ht]
    exact ⟨none, rfl, by simp [ht]⟩

theorem changedFields_valid (run : Run) (c : Change) (observedAt : DateTime)
    (result : Option RunResult)
    (h : (run.changedFields c (run.effectiveTime observedAt) result).checkResult = .ok ()) :
    (run.changedFields c (run.effectiveTime observedAt) result).postInit = .ok () := by
  have hs := run.sound
  refine sound_iff.mpr ⟨hs.tenant, by simp [changedFields], ?_, le_rfl, hs.deadline, ?_, h⟩
  · exact hs.updated.trans (hs.observed.trans (le_max_left _ _))
  · simp [changedFields, hs.sequence]

theorem Makes.changeAt_ok {run : Run} {observedAt : DateTime} {op : Operation} {c : Change}
    (h : run.Makes observedAt op c) (hstart : op = .start → run.status = .queued)
    (eventId : EventId) :
    ∃ m, run.changeAt c (run.effectiveTime observedAt) eventId = .ok m := by
  obtain ⟨result, hresult, hcheck⟩ :=
    run.resultFor_of_fits c (run.effectiveTime observedAt) h.error_fits
  have hrun := run.changedFields_valid c observedAt result hcheck
  have hevent := h.event_valid hstart (run.effectiveTime observedAt) eventId
  simp only [changeAt, hresult, new, RunEvent.new, construct_of_ok _ hrun, construct_of_ok _ hevent,
    bind, Except.bind]
  exact ⟨_, rfl⟩

end Run

namespace Operation

def legalIn (status : RunStatus) : Operation → Bool
  | .start => status == .queued
  | .resume => status == .waitingApproval || status == .waitingResolution
  | .cancel _ => !status.isTerminal
  | .enforceDeadline => true
  | _ => status == .running

/-- Arguments the operation is meant for: the failed error code, and a charge
    that is the counted one wherever its id is counted. -/
def Admissible (run : Run) : Operation → Prop
  | .fail _ error => error.code = .failed
  | .consumeBudget charge =>
    ∀ fingerprint, run.usage.chargeFingerprints.get? charge.chargeId = some fingerprint →
      charge.fingerprint = .ok fingerprint
  | _ => True

/-- Not `start` on a waiting run, and not a new charge on a running run whose
    conversions exceed the digit limit. -/
def Supported (run : Run) : Operation → Prop
  | .start => run.status ≠ .waitingApproval ∧ run.status ≠ .waitingResolution
  | .consumeBudget charge =>
    run.status = .running → run.usage.chargeFingerprints.get? charge.chargeId = none →
      run.usage.Countable charge
  | _ => True

end Operation

namespace Run

def Advances (run : Run) (m : RunMutation) : Prop :=
  m.run.version = run.version + 1 ∧
    ∃ event, m.events = [event] ∧ event.runId = run.runId ∧ event.sequence = run.nextEventSequence

/-- A mutation in the legal statuses, `ILLEGAL_TRANSITION` in all others. -/
def Reports (run : Run) (observedAt : DateTime) (eventId : EventId) (op : Operation) : Prop :=
  if op.legalIn run.status then
    ∃ m, run.perform observedAt eventId op = .ok m ∧
      (run.Advances m ∨ (m = ⟨run, []⟩ ∧ run.Keeps observedAt op))
  else run.perform observedAt eventId op = .error (.lifecycle .illegalTransition)

theorem Changed.advances {run : Run} {c : Change} {effectiveAt : DateTime} {eventId : EventId}
    {m : RunMutation} (h : run.Changed c effectiveAt eventId m) : run.Advances m := by
  obtain ⟨⟨result, -, hrun⟩, event, hevents, hevent⟩ := h
  exact ⟨by rw [hrun]; rfl, event, hevents, by rw [hevent]; rfl, by rw [hevent]; rfl⟩

theorem Makes.change_ok {run : Run} {observedAt at' : DateTime} {op : Operation} {c : Change}
    (h : run.Makes observedAt op c) (hstart : op = .start → run.status = .queued)
    (hallows : run.Allows c) (eventId : EventId)
    (hat : run.effectiveTime at' = run.effectiveTime observedAt) :
    ∃ m, run.change c at' eventId = .ok m := by
  classical
  obtain ⟨m, hm⟩ := h.changeAt_ok hstart eventId
  exact ⟨m, by rw [change_eq, if_pos hallows, hat, hm]; rfl⟩

theorem limit_allowed (run : Run) (dimension : BudgetDimension) (error : SafeRunError)
    (h : run.status.isTerminal = false) : run.Allows (limitChange dimension error) := by
  left
  revert h
  cases run.status <;> simp [RunStatus.isTerminal, allowedTransitions, limitChange]

theorem consumeBudget_ok {run : Run} {charge : BudgetCharge} {observedAt : DateTime}
    {eventId : EventId} (hs : run.status = .running)
    (hadmissible : (Operation.consumeBudget charge).Admissible run)
    (hsupported : (Operation.consumeBudget charge).Supported run) :
    ∃ m, run.consumeBudget charge observedAt eventId = .ok m := by
  have hlive : run.status.isTerminal = false := by rw [hs]; rfl
  cases hcounted : run.usage.chargeFingerprints.get? charge.chargeId with
  | some fingerprint =>
    refine ⟨⟨run, []⟩, ?_⟩
    simp [consumeBudget, BudgetSnapshot.apply, hs, hcounted, hadmissible fingerprint hcounted, bind,
      Except.bind]
    rfl
  | none =>
    have hcount := hsupported hs hcounted
    obtain ⟨next, hnext⟩ := BudgetSnapshot.candidate_of_countable hcount
    have made : ∀ {c : Change}, run.Makes observedAt (.consumeBudget charge) c → run.Allows c →
        ∃ m, run.change c (run.effectiveTime observedAt) eventId = .ok m := fun hm ha =>
      hm.change_ok (by simp) ha eventId (run.effectiveTime_idem observedAt)
    by_cases hlate : run.budget.deadlineAt ≤ run.effectiveTime observedAt
    · obtain ⟨m, hm⟩ := made (.overdue charge hs hcounted hcount hlate)
        (run.limit_allowed _ _ hlive)
      refine ⟨m, ?_⟩
      cases hdim : next.exceeded run.budget <;>
        simpa [consumeBudget, BudgetSnapshot.apply, hs, hcounted, hnext, hdim, hlate, limit_eq, bind,
          Except.bind, pure, Except.pure] using hm
    · cases hdim : next.exceeded run.budget with
      | some dimension =>
        obtain ⟨m, hm⟩ := made
          (.exceeded charge next dimension hs hcounted hnext hdim (not_le.mp hlate))
          (run.limit_allowed _ _ hlive)
        exact ⟨m, by simpa [consumeBudget, BudgetSnapshot.apply, hs, hcounted, hnext, hdim, hlate,
          limit_eq, bind, Except.bind, pure, Except.pure] using hm⟩
      | none =>
        obtain ⟨m, hm⟩ := made (.consumed charge next hs hcounted hnext hdim (not_le.mp hlate))
          (.inr ⟨rfl, hs, rfl⟩)
        exact ⟨m, by simpa [consumeBudget, BudgetSnapshot.apply, hs, hcounted, hnext, hdim, hlate,
          bind, Except.bind, pure, Except.pure] using hm⟩

theorem enforceDeadline_ok (run : Run) (observedAt : DateTime) (eventId : EventId) :
    ∃ m, run.enforceDeadline observedAt eventId = .ok m := by
  simp only [enforceDeadline]
  split_ifs with ht he
  · exact ⟨_, rfl⟩
  · exact ⟨_, rfl⟩
  · have hlive : run.status.isTerminal = false := by simpa using ht
    have hmakes : run.Makes observedAt .enforceDeadline
        (limitChange .deadline (limitError .deadline)) := .expired hlive (not_lt.mp he)
    exact hmakes.change_ok (by simp) (run.limit_allowed _ _ hlive) eventId
      (run.effectiveTime_idem observedAt)

/-- In its legal statuses a supported operation returns. One case per operation:
    the guard passes, the graph has the edge, the constructors accept. -/
theorem perform_ok_of_legal {run : Run} {op : Operation} (observedAt : DateTime)
    (eventId : EventId) (hlegal : op.legalIn run.status = true) (hadmissible : op.Admissible run)
    (hsupported : op.Supported run) : ∃ m, run.perform observedAt eventId op = .ok m := by
  have edge : ∀ {c : Change} {status : RunStatus}, run.status = status →
      c.target ∈ allowedTransitions status → run.Allows c := fun hs h => .inl (hs ▸ h)
  have made : ∀ {c : Change}, run.Makes observedAt op c → (op = .start → run.status = .queued) →
      run.Allows c → ∃ m, run.change c observedAt eventId = .ok m := fun hm hstart ha =>
    hm.change_ok hstart ha eventId rfl
  cases op with
  | start =>
    have hs : run.status = .queued := by simpa [Operation.legalIn] using hlegal
    exact made .start (fun _ => hs) (edge hs (by simp [allowedTransitions, startChange]))
  | waitForApproval referenceId =>
    have hs : run.status = .running := by simpa [Operation.legalIn] using hlegal
    have h := made (.waitForApproval referenceId hs) (by simp)
      (edge hs (by simp [allowedTransitions, waitChange]))
    simpa [perform, waitForApproval, waitFor, hs] using h
  | waitForResolution referenceId =>
    have hs : run.status = .running := by simpa [Operation.legalIn] using hlegal
    have h := made (.waitForResolution referenceId hs) (by simp)
      (edge hs (by simp [allowedTransitions, waitChange]))
    simpa [perform, waitForResolution, waitFor, hs] using h
  | resume =>
    have hs : run.status = .waitingApproval ∨ run.status = .waitingResolution := by
      simpa [Operation.legalIn] using hlegal
    have hallows : run.Allows run.resumeChange :=
      hs.elim (fun hs => edge hs (by simp [allowedTransitions, resumeChange]))
        (fun hs => edge hs (by simp [allowedTransitions, resumeChange]))
    have hguard : ¬ (run.status ≠ .waitingApproval ∧ run.status ≠ .waitingResolution) := by tauto
    have h := made (.resume hs) (by simp) hallows
    simpa [perform, resume, if_neg hguard] using h
  | succeed draft =>
    have hs : run.status = .running := by simpa [Operation.legalIn] using hlegal
    have h := made (.succeed draft hs) (by simp)
      (edge hs (by simp [allowedTransitions, succeedChange]))
    simpa [perform, succeed, hs] using h
  | fail draft error =>
    have hs : run.status = .running := by simpa [Operation.legalIn] using hlegal
    have hcode : error.code = .failed := hadmissible
    have h := made (.fail draft error hs hcode) (by simp)
      (edge hs (by simp [allowedTransitions, failChange]))
    simpa [perform, fail, hs, hcode] using h
  | cancel correlationId =>
    have hlive : run.status.isTerminal = false := by simpa [Operation.legalIn] using hlegal
    have hallows : run.Allows (cancelChange correlationId (cancelError correlationId)) := by
      left
      revert hlive
      cases run.status <;> simp [RunStatus.isTerminal, allowedTransitions, cancelChange]
    exact made (.cancel correlationId) (by simp) hallows
  | consumeBudget charge =>
    have hs : run.status = .running := by simpa [Operation.legalIn] using hlegal
    exact consumeBudget_ok hs hadmissible hsupported
  | enforceDeadline => exact run.enforceDeadline_ok observedAt eventId

theorem perform_illegal {run : Run} {observedAt : DateTime} {eventId : EventId} {op : Operation}
    (hlegal : op.legalIn run.status = false) (hsupported : op.Supported run) :
    run.perform observedAt eventId op = .error (.lifecycle .illegalTransition) := by
  classical
  have refused : ∀ c : Change, ¬ run.Allows c →
      run.change c observedAt eventId = .error (.lifecycle .illegalTransition) := fun c h => by
    rw [change_eq, if_neg h]
  cases op with
  | start =>
    refine refused run.startChange fun h => ?_
    rcases h with h | ⟨h, -⟩
    · obtain ⟨h1, h2⟩ := hsupported
      revert h h1 h2 hlegal
      cases run.status <;> simp [Operation.legalIn, allowedTransitions, startChange]
    · cases h
  | cancel correlationId =>
    refine refused (cancelChange correlationId (cancelError correlationId)) fun h => ?_
    rcases h with h | ⟨h, -⟩
    · revert h hlegal
      cases run.status <;> simp [Operation.legalIn, RunStatus.isTerminal, allowedTransitions]
    · cases h
  | enforceDeadline => cases hlegal
  | resume =>
    have hs : run.status ≠ .waitingApproval ∧ run.status ≠ .waitingResolution := by
      simpa [Operation.legalIn] using hlegal
    simp [perform, resume, hs]
  | waitForApproval referenceId =>
    have hs : run.status ≠ .running := by simpa [Operation.legalIn] using hlegal
    simp [perform, waitForApproval, waitFor, hs]
  | waitForResolution referenceId =>
    have hs : run.status ≠ .running := by simpa [Operation.legalIn] using hlegal
    simp [perform, waitForResolution, waitFor, hs]
  | succeed draft =>
    have hs : run.status ≠ .running := by simpa [Operation.legalIn] using hlegal
    simp [perform, succeed, hs]
  | fail draft error =>
    have hs : run.status ≠ .running := by simpa [Operation.legalIn] using hlegal
    simp [perform, fail, hs]
  | consumeBudget charge =>
    have hs : run.status ≠ .running := by simpa [Operation.legalIn] using hlegal
    simp [perform, consumeBudget, hs]

theorem supported_of_reports {run : Run} {observedAt : DateTime} {eventId : EventId}
    {op : Operation} (h : run.Reports observedAt eventId op) : op.Supported run := by
  cases op with
  | start =>
    by_contra hwaiting
    have hw : run.status = .waitingApproval ∨ run.status = .waitingResolution := by
      simpa [Operation.Supported, or_iff_not_imp_left] using hwaiting
    have hlegal : ¬ (Operation.start.legalIn run.status = true) := by
      rcases hw with hw | hw <;> rw [hw] <;> decide
    have hallows : run.Allows run.startChange := by
      left
      rcases hw with hw | hw <;> rw [hw] <;> simp [allowedTransitions, startChange]
    classical
    rw [Reports, if_neg hlegal, perform, start, change_eq, if_pos hallows] at h
    cases hc : run.changeAt run.startChange (run.effectiveTime observedAt) eventId <;>
      simp [hc, raising, Except.mapError] at h
  | consumeBudget charge =>
    intro hs hfresh
    have hlegal : (Operation.consumeBudget charge).legalIn run.status = true := by
      rw [hs]
      rfl
    rw [Reports, if_pos hlegal] at h
    obtain ⟨m, hm, -⟩ := h
    by_contra hcount
    simp [perform, consumeBudget, BudgetSnapshot.apply, hs, hfresh,
      BudgetSnapshot.candidate_of_not_countable hcount, bind, Except.bind] at hm
  | _ => trivial

/-- The event constructor lets `start` through from `queued` only. -/
theorem status_of_started {run : Run} {observedAt : DateTime} {eventId : EventId} {m : RunMutation}
    (h : run.start observedAt eventId = .ok m) : run.status = .queued := by
  obtain ⟨-, -, event, -, hevent⟩ := change_eq_ok h
  have htype : event.type = .runStarted := by rw [hevent]; rfl
  obtain ⟨status, hstatus, hget⟩ :=
    event.previousStatus (show event.type.expectedPreviousStatus = some [.queued] by rw [htype]; rfl)
  have hpayload : event.payload.get? "previous_status" = some (.str run.status.value) := by
    rw [hevent]
    simp [eventFields, startChange, Mapping.ofEntries, Mapping.get?_insert, FrozenJson.str]
  rw [hpayload, Option.some.injEq, Json.str.injEq] at hget
  rw [RunStatus.value_injective hget]
  simpa using hstatus

theorem perform_ok_iff (run : Run) (observedAt : DateTime) (eventId : EventId) (op : Operation) :
    (∃ m, run.perform observedAt eventId op = .ok m) ↔
      op.legalIn run.status = true ∧ op.Admissible run ∧ op.Supported run := by
  refine ⟨?_, fun ⟨hl, ha, hs⟩ => perform_ok_of_legal observedAt eventId hl ha hs⟩
  rintro ⟨m, hm⟩
  rcases perform_eq_ok hm with ⟨-, hkeeps⟩ | ⟨c, hmakes, hallows, -⟩
  · cases hkeeps with
    | repeated charge fingerprint hs hcounted hsame =>
      refine ⟨by rw [hs]; rfl, fun stored hstored => ?_, fun _ hfresh => ?_⟩
      · rw [← Option.some.inj (hcounted.symm.trans hstored), hsame]
      · rw [hcounted] at hfresh
        cases hfresh
    | terminal | early => exact ⟨rfl, trivial, trivial⟩
  · cases hmakes with
    | start =>
      have hs := status_of_started hm
      exact ⟨by rw [hs]; rfl, trivial, by rw [hs]; decide, by rw [hs]; decide⟩
    | resume hs => exact ⟨by rcases hs with hs | hs <;> rw [hs] <;> rfl, trivial, trivial⟩
    | cancel correlationId =>
      refine ⟨?_, trivial, trivial⟩
      rcases hallows with h | ⟨h, -⟩
      · revert h
        cases run.status <;> simp [Operation.legalIn, RunStatus.isTerminal, allowedTransitions]
      · cases h
    | fail _ _ hs hcode => exact ⟨by rw [hs]; rfl, hcode, trivial⟩
    | overdue charge hs hfresh hcount =>
      exact ⟨by rw [hs]; rfl, by simp [Operation.Admissible, hfresh], fun _ _ => hcount⟩
    | exceeded charge _ _ hs hfresh hnext | consumed charge _ hs hfresh hnext =>
      exact ⟨by rw [hs]; rfl, by simp [Operation.Admissible, hfresh],
        fun _ _ => countable_of_candidate hnext⟩
    | expired => exact ⟨rfl, trivial, trivial⟩
    | waitForApproval _ hs | waitForResolution _ hs | succeed _ hs =>
      exact ⟨by rw [hs]; rfl, trivial, trivial⟩

/-- Legality is reported as the command table says exactly for the supported
    operations. -/
theorem reports_iff_supported (run : Run) (observedAt : DateTime) (eventId : EventId)
    (op : Operation) (hadmissible : op.Admissible run) :
    run.Reports observedAt eventId op ↔ op.Supported run := by
  refine ⟨supported_of_reports, fun hsupported => ?_⟩
  unfold Reports
  split_ifs with hlegal
  · obtain ⟨m, hm⟩ := perform_ok_of_legal observedAt eventId hlegal hadmissible hsupported
    refine ⟨m, hm, ?_⟩
    rcases perform_eq_ok hm with ⟨rfl, hkeeps⟩ | ⟨c, -, -, hchanged⟩
    · exact .inr ⟨rfl, hkeeps⟩
    · exact .inl hchanged.advances
  · exact perform_illegal (by simpa using hlegal) hsupported

end Run

namespace Sample

def tenant : TenantId := ⟨"tenant-1", by decide⟩
def runId : RunId := ⟨"run-1", by decide⟩
def taskId : TaskId := ⟨"task-1", by decide⟩
def reference : ReferenceId := ⟨"approval-1", by decide⟩
def event1 : EventId := ⟨"event-1", by decide⟩
def event2 : EventId := ⟨"event-2", by decide⟩
def event3 : EventId := ⟨"event-3", by decide⟩
def event4 : EventId := ⟨"event-4", by decide⟩

def agentVersion : AgentVersionRef where
  tenantId := tenant
  agentId := ⟨"agent-1", by decide⟩
  versionId := ⟨"version-1", by decide⟩
  buildDigest := "sha256:0000000000000000000000000000000000000000000000000000000000000000"
  digestSafe := by decide

/-- The instant `seconds` after the epoch. -/
def instant (seconds : ℕ) (h : (seconds : ℤ) * DateTime.second ≤ maxMicros) : DateTime :=
  ⟨seconds * DateTime.second, by unfold minMicros DateTime.second; omega, h⟩

def opening : DateTime := instant 0 (by decide)

def budget : RunBudget where
  deadlineAt := instant 1000 (by decide)
  maxSteps := 10
  maxModelCalls := 10
  maxToolCalls := 10
  maxInputTokens := 100
  maxOutputTokens := 100
  maxTotalTokens := 200
  maxCost := ⟨5, 0⟩
  currency := "USD"
  valid := by decide
  normalized := by decide

def queuedRun : Run where
  tenantId := tenant
  runId := runId
  taskId := taskId
  agentVersion := agentVersion
  status := .queued
  version := 1
  budget := budget
  usage := BudgetSnapshot.initial
  createdAt := opening
  updatedAt := opening
  lastObservedAt := opening
  nextEventSequence := 2
  result := none
  valid := by decide

def createdEvent : RunEvent where
  eventId := event1
  tenantId := tenant
  runId := runId
  sequence := 1
  type := .runCreated
  occurredAt := opening
  payloadVersion := 1
  payload := Mapping.ofEntries [
    ("agent_version_id", .str "version-1"), ("run_version", .int 1), ("status", .str "queued")]
  valid := by decide +kernel

def charge : BudgetCharge where
  chargeId := ⟨"charge-1", by decide⟩
  steps := 1
  modelCalls := 0
  toolCalls := 0
  inputTokens := 7
  outputTokens := 0
  cost := ⟨25, -2⟩
  valid := by decide
  normalized := by decide

def runningRun : Run where
  toRunFields :=
    { queuedRun.toRunFields with status := .running, version := 2, nextEventSequence := 3 }
  valid := by decide

def waitingRun : Run where
  toRunFields :=
    { queuedRun.toRunFields with status := .waitingApproval, version := 3, nextEventSequence := 4 }
  valid := by decide

end Sample

namespace Run

theorem queuedRun_reachable : Reachable Sample.queuedRun :=
  .created Sample.tenant Sample.runId Sample.taskId Sample.agentVersion Sample.budget Sample.opening
    Sample.event1 _ rfl

theorem runningRun_reachable : Reachable Sample.runningRun :=
  .performed _ _ Sample.opening Sample.event2 .start queuedRun_reachable rfl

theorem waitingRun_reachable : Reachable Sample.waitingRun :=
  .performed _ _ Sample.opening Sample.event3 (.waitForApproval Sample.reference)
    runningRun_reachable rfl

/-- `start` on a waiting run passes the status graph, and the event constructor
    rejects it with a `ValueError`. -/
theorem start_of_waitingRun :
    Reachable Sample.waitingRun ∧ Operation.start.Admissible Sample.waitingRun ∧
      Sample.waitingRun.perform Sample.opening Sample.event4 .start =
        .error (.python (.valueError "event previous_status is invalid")) ∧
      ¬ Sample.waitingRun.Reports Sample.opening Sample.event4 .start := by
  refine ⟨waitingRun_reachable, trivial, rfl, fun h => ?_⟩
  exact (supported_of_reports h).1 rfl

theorem start_of_queuedRun : Sample.queuedRun.Reports Sample.opening Sample.event2 .start :=
  (reports_iff_supported Sample.queuedRun Sample.opening Sample.event2 .start trivial).mpr
    ⟨by decide, by decide⟩

end Run
end Zhiyi
