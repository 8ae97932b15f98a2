import Zhiyi.Domain.Aggregate

set_option autoImplicit false

/-! What an operation that returns has done, stated once for all operations. -/
namespace Zhiyi
open Python

namespace Run

/-- One change applied to `run`: the next run and its one event. -/
structure Changed (run : Run) (change : Change) (effectiveAt : DateTime) (eventId : EventId)
    (m : RunMutation) : Prop where
  next : ∃ result, run.resultFor change (change.usage.getD run.usage) = .ok result ∧
    m.run.toRunFields = run.changedFields change effectiveAt result
  event : ∃ event, m.events = [event] ∧
    event.toRunEventFields = run.eventFields change effectiveAt eventId

def Allows (run : Run) (change : Change) : Prop :=
  change.target ∈ allowedTransitions run.status ∨
    (change.allowRunningSelfTransition = true ∧ run.status = .running ∧ change.target = .running)

theorem changeAt_eq_ok {run : Run} {c : Change} {effectiveAt : DateTime} {eventId : EventId}
    {m : RunMutation} (h : run.changeAt c effectiveAt eventId = .ok m) :
    run.Changed c effectiveAt eventId m := by
  obtain ⟨result, hresult, h⟩ := bind_eq_ok.mp h
  obtain ⟨updated, hupdated, h⟩ := bind_eq_ok.mp h
  obtain ⟨event, hevent, h⟩ := bind_eq_ok.mp h
  cases h
  exact ⟨⟨result, hresult, new_eq_ok hupdated⟩, event, rfl, RunEvent.new_eq_ok hevent⟩

theorem change_eq (run : Run) (c : Change) (observedAt : DateTime) (eventId : EventId)
    [Decidable (run.Allows c)] :
    run.change c observedAt eventId =
      if run.Allows c then raising (run.changeAt c (run.effectiveTime observedAt) eventId)
      else .error (.lifecycle .illegalTransition) := by
  unfold change assertTransition
  by_cases hself : c.allowRunningSelfTransition = true ∧ run.status = .running ∧ c.target = .running
  · obtain ⟨h1, h2, h3⟩ := hself
    rw [if_pos (show run.Allows c from .inr ⟨h1, h2, h3⟩)]
    simp [h1, h2, h3]
  · by_cases hmem : c.target ∈ allowedTransitions run.status
    · rw [if_pos (show run.Allows c from .inl hmem)]
      split_ifs <;> simp [hmem, bind, Except.bind]
    · rw [if_neg (show ¬ run.Allows c from fun h => h.elim hmem hself), if_pos]
      · simp [hmem, bind, Except.bind]
      · simp only [Bool.not_eq_true', Bool.and_eq_false_iff, beq_eq_false_iff_ne]
        by_contra hcon
        simp only [not_or, Bool.not_eq_false, not_not] at hcon
        obtain ⟨⟨h1, h2⟩, h3⟩ := hcon
        exact hself ⟨h1, h2.trans h3, h3⟩

theorem change_eq_ok {run : Run} {c : Change} {observedAt : DateTime} {eventId : EventId}
    {m : RunMutation} (h : run.change c observedAt eventId = .ok m) :
    run.Allows c ∧ run.Changed c (run.effectiveTime observedAt) eventId m := by
  classical
  rw [change_eq] at h
  split_ifs at h with ha
  exact ⟨ha, changeAt_eq_ok (raising_eq_ok.mp h)⟩

@[simp] theorem effectiveTime_idem (run : Run) (observedAt : DateTime) :
    run.effectiveTime (run.effectiveTime observedAt) = run.effectiveTime observedAt := by
  simp [effectiveTime]

def cancelError (correlationId : Option CorrelationId) : SafeRunError :=
  ⟨⟨.cancelled, correlationId, none⟩, rfl⟩

def limitError (dimension : BudgetDimension) : SafeRunError :=
  ⟨⟨.budgetLimit, none, some dimension⟩, rfl⟩

theorem cancel_eq (run : Run) (correlationId : Option CorrelationId) (observedAt : DateTime)
    (eventId : EventId) : run.cancel correlationId observedAt eventId =
      run.change (cancelChange correlationId (cancelError correlationId)) observedAt eventId := rfl

theorem limit_eq (run : Run) (dimension : BudgetDimension) (observedAt : DateTime)
    (eventId : EventId) : run.limit dimension observedAt eventId =
      run.change (limitChange dimension (limitError dimension)) observedAt eventId := rfl

/-- The changes each operation can make, with what it checked on the way. -/
inductive Makes (run : Run) (observedAt : DateTime) : Operation → Change → Prop
  | start : Makes run observedAt .start run.startChange
  | waitForApproval (referenceId : ReferenceId) (h : run.status = .running) :
    Makes run observedAt (.waitForApproval referenceId)
      (run.waitChange .waitingApproval .runWaitingApproval referenceId)
  | waitForResolution (referenceId : ReferenceId) (h : run.status = .running) :
    Makes run observedAt (.waitForResolution referenceId)
      (run.waitChange .waitingResolution .runWaitingResolution referenceId)
  | resume (h : run.status = .waitingApproval ∨ run.status = .waitingResolution) :
    Makes run observedAt .resume run.resumeChange
  | succeed (draft : RunResultDraft) (h : run.status = .running) :
    Makes run observedAt (.succeed draft) (succeedChange draft)
  | fail (draft : RunResultDraft) (error : SafeRunError) (h : run.status = .running)
    (hcode : error.code = .failed) :
    Makes run observedAt (.fail draft error) (failChange draft error)
  | cancel (correlationId : Option CorrelationId) :
    Makes run observedAt (.cancel correlationId)
      (cancelChange correlationId (cancelError correlationId))
  | overdue (charge : BudgetCharge) (h : run.status = .running)
    (hfresh : run.usage.chargeFingerprints.get? charge.chargeId = none)
    (hcount : run.usage.Countable charge)
    (hlate : run.budget.deadlineAt ≤ run.effectiveTime observedAt) :
    Makes run observedAt (.consumeBudget charge) (limitChange .deadline (limitError .deadline))
  | exceeded (charge : BudgetCharge) (next : BudgetSnapshot) (dimension : BudgetDimension)
    (h : run.status = .running)
    (hfresh : run.usage.chargeFingerprints.get? charge.chargeId = none)
    (hnext : run.usage.candidate charge = .ok next)
    (hdim : next.exceeded run.budget = some dimension)
    (hearly : run.effectiveTime observedAt < run.budget.deadlineAt) :
    Makes run observedAt (.consumeBudget charge) (limitChange dimension (limitError dimension))
  | consumed (charge : BudgetCharge) (next : BudgetSnapshot) (h : run.status = .running)
    (hfresh : run.usage.chargeFingerprints.get? charge.chargeId = none)
    (hnext : run.usage.candidate charge = .ok next)
    (hdim : next.exceeded run.budget = none)
    (hearly : run.effectiveTime observedAt < run.budget.deadlineAt) :
    Makes run observedAt (.consumeBudget charge) (consumeChange charge next)
  | expired (h : run.status.isTerminal = false)
    (hlate : run.budget.deadlineAt ≤ run.effectiveTime observedAt) :
    Makes run observedAt .enforceDeadline (limitChange .deadline (limitError .deadline))

/-- The operations that return the run as it is, without an event. -/
inductive Keeps (run : Run) (observedAt : DateTime) : Operation → Prop
  | repeated (charge : BudgetCharge) (fingerprint : String) (h : run.status = .running)
    (hcounted : run.usage.chargeFingerprints.get? charge.chargeId = some fingerprint)
    (hsame : charge.fingerprint = .ok fingerprint) : Keeps run observedAt (.consumeBudget charge)
  | terminal (h : run.status.isTerminal = true) : Keeps run observedAt .enforceDeadline
  | early (h : run.effectiveTime observedAt < run.budget.deadlineAt) :
    Keeps run observedAt .enforceDeadline

theorem waitFor_eq_ok {run : Run} {target : RunStatus} {eventType : RunEventType}
    {referenceId : ReferenceId} {observedAt : DateTime} {eventId : EventId} {m : RunMutation}
    (h : run.waitFor target eventType referenceId observedAt eventId = .ok m) :
    run.status = .running ∧
      run.change (run.waitChange target eventType referenceId) observedAt eventId = .ok m := by
  unfold waitFor at h
  split_ifs at h with hs
  exact ⟨not_not.mp hs, h⟩

theorem countable_of_candidate {usage next : BudgetSnapshot} {charge : BudgetCharge}
    (h : usage.candidate charge = .ok next) : usage.Countable charge := by
  by_contra hn
  rw [BudgetSnapshot.candidate_of_not_countable hn] at h
  cases h

theorem consumeBudget_eq_ok {run : Run} {charge : BudgetCharge} {observedAt : DateTime}
    {eventId : EventId} {m : RunMutation} (h : run.consumeBudget charge observedAt eventId = .ok m) :
    (m = ⟨run, []⟩ ∧ run.Keeps observedAt (.consumeBudget charge)) ∨
      ∃ c, run.Makes observedAt (.consumeBudget charge) c ∧
        run.change c (run.effectiveTime observedAt) eventId = .ok m := by
  unfold consumeBudget at h
  split_ifs at h with hs
  have hs := not_not.mp hs
  obtain ⟨decision, hdecision, h⟩ := bind_eq_ok.mp h
  rcases BudgetSnapshot.apply_eq_ok hdecision with
    ⟨fingerprint, hcounted, hsame, rfl⟩ | ⟨hfresh, next, hnext, ⟨dimension, hdim, rfl⟩ | ⟨hdim, rfl⟩⟩
  · exact .inl ⟨(Except.ok.inj h).symm, .repeated charge fingerprint hs hcounted hsame⟩
  all_goals
    right
    simp only [Bool.false_eq_true, if_false] at h
    split_ifs at h with hlate
    · exact ⟨_, .overdue charge hs hfresh (countable_of_candidate hnext) hlate, h⟩
  · exact ⟨_, .exceeded charge next dimension hs hfresh hnext hdim (not_le.mp hlate), h⟩
  · exact ⟨_, .consumed charge next hs hfresh hnext hdim (not_le.mp hlate), h⟩

theorem enforceDeadline_eq_ok {run : Run} {observedAt : DateTime} {eventId : EventId}
    {m : RunMutation} (h : run.enforceDeadline observedAt eventId = .ok m) :
    (m = ⟨run, []⟩ ∧ run.Keeps observedAt .enforceDeadline) ∨
      ∃ c, run.Makes observedAt .enforceDeadline c ∧
        run.change c (run.effectiveTime observedAt) eventId = .ok m := by
  simp only [enforceDeadline] at h
  split_ifs at h with ht he
  · exact .inl ⟨(Except.ok.inj h).symm, .terminal ht⟩
  · exact .inl ⟨(Except.ok.inj h).symm, .early he⟩
  · exact .inr ⟨_, .expired (by simpa using ht) (not_lt.mp he), h⟩

/-- Everything an operation that returns can do: it keeps the run, or it makes
    one allowed change at the effective time. -/
theorem perform_eq_ok {run : Run} {observedAt : DateTime} {eventId : EventId} {op : Operation}
    {m : RunMutation} (h : run.perform observedAt eventId op = .ok m) :
    (m = ⟨run, []⟩ ∧ run.Keeps observedAt op) ∨
      ∃ c, run.Makes observedAt op c ∧ run.Allows c ∧
        run.Changed c (run.effectiveTime observedAt) eventId m := by
  have made : ∀ {at' : DateTime} {c : Change}, run.effectiveTime at' = run.effectiveTime observedAt →
      run.Makes observedAt op c → run.change c at' eventId = .ok m →
      ∃ c, run.Makes observedAt op c ∧ run.Allows c ∧
        run.Changed c (run.effectiveTime observedAt) eventId m := by
    intro at' c hat hmakes hchange
    obtain ⟨hallows, hchanged⟩ := change_eq_ok hchange
    exact ⟨c, hmakes, hallows, hat ▸ hchanged⟩
  cases op with
  | start => exact .inr (made rfl .start h)
  | waitForApproval referenceId =>
    obtain ⟨hs, h⟩ := waitFor_eq_ok h
    exact .inr (made rfl (.waitForApproval referenceId hs) h)
  | waitForResolution referenceId =>
    obtain ⟨hs, h⟩ := waitFor_eq_ok h
    exact .inr (made rfl (.waitForResolution referenceId hs) h)
  | resume =>
    simp only [perform, resume] at h
    split_ifs at h with hs
    exact .inr (made rfl (.resume (by tauto)) h)
  | succeed draft =>
    simp only [perform, succeed] at h
    split_ifs at h with hs
    exact .inr (made rfl (.succeed draft (not_not.mp hs)) h)
  | fail draft error =>
    simp only [perform, fail] at h
    split_ifs at h with hs hcode
    exact .inr (made rfl (.fail draft error (not_not.mp hs) (not_not.mp hcode)) h)
  | cancel correlationId =>
    simp only [perform, cancel_eq] at h
    exact .inr (made rfl (.cancel correlationId) h)
  | consumeBudget charge =>
    rcases consumeBudget_eq_ok h with ⟨hm, hk⟩ | ⟨c, hmakes, h⟩
    · exact .inl ⟨hm, hk⟩
    · exact .inr (made (effectiveTime_idem run observedAt) hmakes h)
  | enforceDeadline =>
    rcases enforceDeadline_eq_ok h with ⟨hm, hk⟩ | ⟨c, hmakes, h⟩
    · exact .inl ⟨hm, hk⟩
    · exact .inr (made (effectiveTime_idem run observedAt) hmakes h)

/-- The runs the aggregate's operations lead to from a created one. -/
inductive Reachable : Run → Prop
  | created (tenantId : TenantId) (runId : RunId) (taskId : TaskId) (agentVersion : AgentVersionRef)
    (budget : RunBudget) (observedAt : DateTime) (eventId : EventId) (run : Run)
    (h : (create tenantId runId taskId agentVersion budget observedAt eventId).map RunMutation.run =
      .ok run) : Reachable run
  | performed (before run : Run) (observedAt : DateTime) (eventId : EventId) (op : Operation)
    (hbefore : Reachable before)
    (h : (before.perform observedAt eventId op).map RunMutation.run = .ok run) : Reachable run

end Run
end Zhiyi
