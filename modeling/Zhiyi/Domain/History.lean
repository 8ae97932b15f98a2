import Zhiyi.Domain.Operations

set_option autoImplicit false

/-! The event log of a run. A run with the log of all events its operations
returned is a path of the transition table, told by the events themselves. -/
namespace Zhiyi
open Python

namespace Run

theorem create_eq_ok {tenantId : TenantId} {runId : RunId} {taskId : TaskId}
    {agentVersion : AgentVersionRef} {budget : RunBudget} {observedAt : DateTime} {eventId : EventId}
    {m : RunMutation}
    (h : create tenantId runId taskId agentVersion budget observedAt eventId = .ok m) :
    m.run.toRunFields = {
        tenantId := tenantId, runId := runId, taskId := taskId, agentVersion := agentVersion
        status := .queued, version := 1, budget := budget, usage := BudgetSnapshot.initial
        createdAt := observedAt, updatedAt := observedAt, lastObservedAt := observedAt
        nextEventSequence := 2, result := none } ∧
      ∃ event, m.events = [event] ∧ event.toRunEventFields = {
        eventId := eventId, tenantId := tenantId, runId := runId, sequence := 1
        type := .runCreated, occurredAt := observedAt, payloadVersion := 1
        payload := Mapping.ofEntries [
          ("agent_version_id", .str agentVersion.versionId.value),
          ("run_version", .int 1),
          ("status", .str RunStatus.queued.value)] } := by
  obtain ⟨run, hrun, h⟩ := bind_eq_ok.mp (raising_eq_ok.mp h)
  obtain ⟨event, hevent, h⟩ := bind_eq_ok.mp h
  cases h
  exact ⟨new_eq_ok hrun, event, rfl, RunEvent.new_eq_ok hevent⟩

structure SameOrigin (before run : Run) : Prop where
  tenantId : run.tenantId = before.tenantId
  runId : run.runId = before.runId
  taskId : run.taskId = before.taskId
  agentVersion : run.agentVersion = before.agentVersion
  budget : run.budget = before.budget
  createdAt : run.createdAt = before.createdAt

theorem SameOrigin.refl (run : Run) : SameOrigin run run := ⟨rfl, rfl, rfl, rfl, rfl, rfl⟩

theorem SameOrigin.trans {a b c : Run} (h : SameOrigin a b) (k : SameOrigin b c) :
    SameOrigin a c :=
  ⟨k.1.trans h.1, k.2.trans h.2, k.3.trans h.3, k.4.trans h.4, k.5.trans h.5, k.6.trans h.6⟩

theorem Changed.sameOrigin {run : Run} {c : Change} {effectiveAt : DateTime} {eventId : EventId}
    {m : RunMutation} (h : run.Changed c effectiveAt eventId m) : SameOrigin run m.run := by
  obtain ⟨result, -, hnext⟩ := h.next
  constructor
  all_goals rw [hnext]; rfl

theorem perform_sameOrigin {run : Run} {observedAt : DateTime} {eventId : EventId} {op : Operation}
    {m : RunMutation} (h : run.perform observedAt eventId op = .ok m) : SameOrigin run m.run := by
  rcases perform_eq_ok h with ⟨rfl, -⟩ | ⟨c, -, -, hchanged⟩
  · exact .refl run
  · exact hchanged.sameOrigin

theorem terminal_kept {run : Run} (ht : run.status.isTerminal = true) {observedAt : DateTime}
    {eventId : EventId} {op : Operation} {m : RunMutation}
    (h : run.perform observedAt eventId op = .ok m) : m = ⟨run, []⟩ := by
  rcases perform_eq_ok h with ⟨rfl, -⟩ | ⟨c, -, hallows, -⟩
  · rfl
  · rcases hallows with hmem | ⟨-, hs, -⟩
    · have hnone : allowedTransitions run.status = [] := by
        generalize run.status = status at ht
        cases status <;> first | rfl | cases ht
      simp [hnone] at hmem
    · rw [hs] at ht
      cases ht

end Run

inductive History : Run → List RunEvent → Prop
  | created (tenantId : TenantId) (runId : RunId) (taskId : TaskId) (agentVersion : AgentVersionRef)
    (budget : RunBudget) (observedAt : DateTime) (eventId : EventId) (m : RunMutation)
    (h : Run.create tenantId runId taskId agentVersion budget observedAt eventId = .ok m) :
    History m.run m.events
  | performed (before : Run) (log : List RunEvent) (observedAt : DateTime) (eventId : EventId)
    (op : Operation) (m : RunMutation) (hbefore : History before log)
    (h : before.perform observedAt eventId op = .ok m) : History m.run (log ++ m.events)

def RunEvent.statusAfter (event : RunEvent) : RunStatus := event.type.expectedStatus

/-- `event` may come right after `before` in a log. -/
structure RunEvent.Follows (before event : RunEvent) : Prop where
  legal : event.statusAfter ∈ allowedTransitions before.statusAfter ∨
    (event.type = .runBudgetConsumed ∧ before.statusAfter = .running ∧ event.statusAfter = .running)
  previous : ∀ value, event.payload.get? "previous_status" = some value →
    value = .str before.statusAfter.value
  time : before.occurredAt ≤ event.occurredAt

def Run.ResultAgrees (run : Run) : Prop :=
  if run.status.isTerminal then
    ∃ result, run.result = some result ∧ result.status = run.status ∧ result.usage = run.usage ∧
      result.tenantId = run.tenantId ∧ result.runId = run.runId ∧
      result.agentVersion = run.agentVersion
  else run.result = none

/-- What a log tells about its run. -/
structure Faithful (run : Run) (log : List RunEvent) : Prop where
  opens : ∃ first rest, log = first :: rest ∧ first.type = .runCreated ∧
    first.statusAfter = .queued ∧ first.payload.get? "previous_status" = none
  path : log.IsChain RunEvent.Follows
  status : ∀ event ∈ log, event.payload.get? "status" = some (.str event.statusAfter.value)
  version : ∀ event ∈ log, event.payload.get? "run_version" = some (.int event.sequence)
  last : ∃ event, log.getLast? = some event ∧ event.statusAfter = run.status ∧
    event.occurredAt = run.lastObservedAt
  result : run.ResultAgrees

namespace Run

theorem Makes.payload_common {run : Run} {observedAt : DateTime} {op : Operation} {c : Change}
    (h : run.Makes observedAt op c) : ∀ p ∈ c.payload, p.1 ≠ "status" ∧ p.1 ≠ "run_version" := by
  cases h
  case' cancel correlationId => cases correlationId
  all_goals simp [startChange, waitChange, resumeChange, succeedChange, failChange, cancelChange,
    limitChange, consumeChange]

theorem Makes.payload_previous {run : Run} {observedAt : DateTime} {op : Operation} {c : Change}
    (h : run.Makes observedAt op c) :
    ∀ p ∈ c.payload, p.1 = "previous_status" → p.2 = .str run.status.value := by
  cases h
  case' cancel correlationId => cases correlationId
  all_goals simp [startChange, waitChange, resumeChange, succeedChange, failChange, cancelChange,
    limitChange, consumeChange]

theorem Makes.self_loop {run : Run} {observedAt : DateTime} {op : Operation} {c : Change}
    (h : run.Makes observedAt op c) (hself : c.allowRunningSelfTransition = true) :
    c.eventType = .runBudgetConsumed := by
  cases h <;> first | rfl | cases hself

section
variable {run : Run} {observedAt effectiveAt : DateTime} {op : Operation} {c : Change}
  {eventId : EventId} {event : RunEvent}

theorem Makes.event_status (h : run.Makes observedAt op c)
    (he : event.toRunEventFields = run.eventFields c effectiveAt eventId) :
    event.statusAfter = c.target := by
  have hpayload : event.payload.get? "status" = some (.str c.target.value) := by
    rw [he]
    refine (Mapping.get?_update_of_ne fun p hp => (h.payload_common p hp).1).trans ?_
    simp [Mapping.ofEntries, Mapping.get?_insert, FrozenJson.str]
  have hstatus := event.status
  rw [hpayload, Option.some.injEq, Json.str.injEq] at hstatus
  exact (RunStatus.value_injective hstatus).symm

theorem Makes.event_version (h : run.Makes observedAt op c)
    (he : event.toRunEventFields = run.eventFields c effectiveAt eventId) :
    event.payload.get? "run_version" = some (.int event.sequence) := by
  rw [he]
  refine (Mapping.get?_update_of_ne fun p hp => (h.payload_common p hp).2).trans ?_
  have hseq := run.sound.sequence
  simp [Mapping.ofEntries, Mapping.get?_insert, FrozenJson.int, eventFields, hseq]

theorem Makes.event_previous (h : run.Makes observedAt op c)
    (he : event.toRunEventFields = run.eventFields c effectiveAt eventId) {value : Json}
    (hget : event.payload.get? "previous_status" = some value) : value = .str run.status.value := by
  rw [he] at hget
  rcases Mapping.get?_update_eq_some hget with ⟨p, hp, hkey, rfl⟩ | hnone
  · rw [h.payload_previous p hp hkey]
    rfl
  · simp [Mapping.ofEntries, Mapping.get?_insert] at hnone

/-- A new event may follow any event that set the run's status before. -/
theorem Makes.follows (h : run.Makes observedAt op c) (hallows : run.Allows c)
    (he : event.toRunEventFields = run.eventFields c (run.effectiveTime observedAt) eventId)
    {before : RunEvent} (hstatus : before.statusAfter = run.status)
    (htime : before.occurredAt = run.lastObservedAt) : before.Follows event where
  legal := by
    rw [h.event_status he, hstatus]
    rcases hallows with hmem | ⟨hself, hs, ht⟩
    · exact .inl hmem
    · refine .inr ⟨?_, hs, ht⟩
      rw [he]
      exact h.self_loop hself
  previous value hget := by
    rw [hstatus]
    exact h.event_previous he hget
  time := by
    rw [htime, he]
    exact le_max_left _ _

end

theorem Changed.resultAgrees {run : Run} {c : Change} {effectiveAt : DateTime} {eventId : EventId}
    {m : RunMutation} (h : run.Changed c effectiveAt eventId m) : m.run.ResultAgrees := by
  obtain ⟨result, hresult, hnext⟩ := h.next
  unfold resultFor at hresult
  unfold ResultAgrees
  simp only [hnext, changedFields]
  split_ifs at hresult ⊢ with ht
  · obtain ⟨made, hmade, hresult⟩ := bind_eq_ok.mp hresult
    cases hresult
    have hfields := RunResult.new_eq_ok hmade
    refine ⟨made, rfl, ?_⟩
    simp [hfields]
  · exact (Except.ok.inj hresult).symm

end Run

namespace History

/-- Created runs: one event, with the status of the run. -/
theorem faithful_created {tenantId : TenantId} {runId : RunId} {taskId : TaskId}
    {agentVersion : AgentVersionRef} {budget : RunBudget} {observedAt : DateTime} {eventId : EventId}
    {m : RunMutation}
    (h : Run.create tenantId runId taskId agentVersion budget observedAt eventId = .ok m) :
    Faithful m.run m.events := by
  obtain ⟨hrun, event, hevents, hevent⟩ := Run.create_eq_ok h
  have hstatus : event.statusAfter = .queued := by
    simp [RunEvent.statusAfter, hevent, RunEventType.expectedStatus]
  rw [hevents]
  constructor
  case opens =>
    exact ⟨event, [], rfl, by rw [hevent], hstatus,
      by simp [hevent, Mapping.ofEntries, Mapping.get?_insert]⟩
  case path => exact List.isChain_singleton event
  case status =>
    simp only [List.mem_singleton, forall_eq]
    exact event.status
  case version =>
    simp only [List.mem_singleton, forall_eq]
    simp [hevent, Mapping.ofEntries, Mapping.get?_insert, FrozenJson.int]
  case last => exact ⟨event, rfl, by rw [hstatus, hrun], by rw [hevent, hrun]⟩
  case result => simp [Run.ResultAgrees, hrun, RunStatus.isTerminal]

/-- One operation keeps the log faithful: nothing is added, or an event that
    follows the last one. -/
theorem faithful_performed {before : Run} {log : List RunEvent} {observedAt : DateTime}
    {eventId : EventId} {op : Operation} {m : RunMutation} (hbefore : Faithful before log)
    (h : before.perform observedAt eventId op = .ok m) : Faithful m.run (log ++ m.events) := by
  rcases Run.perform_eq_ok h with ⟨rfl, -⟩ | ⟨c, hmakes, hallows, hchanged⟩
  · rw [List.append_nil]
    exact hbefore
  obtain ⟨result, -, hnext⟩ := hchanged.next
  obtain ⟨event, hevents, hevent⟩ := hchanged.event
  obtain ⟨last, hlast, hstatus, htime⟩ := hbefore.last
  rw [hevents]
  constructor
  case opens =>
    obtain ⟨first, rest, rfl, hfirst⟩ := hbefore.opens
    exact ⟨first, rest ++ [event], rfl, hfirst⟩
  case path =>
    refine List.isChain_append.mpr ⟨hbefore.path, List.isChain_singleton event, ?_⟩
    intro x hx y hy
    cases Option.some.inj (hlast.symm.trans hx)
    cases Option.some.inj hy
    exact hmakes.follows hallows hevent hstatus htime
  case status => exact fun e _ => e.status
  case version =>
    intro e he
    rcases List.mem_append.mp he with he | he
    · exact hbefore.version e he
    · rw [List.mem_singleton.mp he]
      exact hmakes.event_version hevent
  case last =>
    refine ⟨event, by simp, ?_, ?_⟩
    · rw [hmakes.event_status hevent, hnext]
      rfl
    · rw [hevent, hnext]
      rfl
  case result => exact hchanged.resultAgrees

/-- Every log of a history is faithful, by induction on the operations. -/
theorem faithful {run : Run} {log : List RunEvent} (h : History run log) : Faithful run log := by
  induction h with
  | created _ _ _ _ _ _ _ m h => exact faithful_created h
  | performed before log _ _ _ m _ h ih => exact faithful_performed ih h

end History
end Zhiyi
