import Zhiyi.Application.RunRepository
import Zhiyi.Domain.History
import Zhiyi.Domain.Transitions
import Zhiyi.Library.Machine

set_option autoImplicit false

/-! The run lifecycle service over any repository. Each repository call is one
step; what the service computes between two calls belongs to the step of the
first. Clock readings, generated names and the repository's environment are the
inputs of a step. -/
namespace Zhiyi
open Python Interleaving

/-- A repository with states `σ`. The environment of each access is a `κ`; other
    clients of the same storage act in the background. -/
structure Repository (σ κ : Type) where
  initial : σ
  load : σ → κ → TenantId → RunId → Except Failure (Option Run)
  findCommand : σ → κ → TenantId → CommandId → String → Except Failure (Option CommitOutcome)
  commit : σ → κ → Candidate → σ × Except Failure CommitOutcome
  background : σ → κ → σ

/-- What a service method returns: `CommitOutcome`, or `DeadlineOutcome`. -/
inductive CallResult where
  | committed (outcome : CommitOutcome)
  | deadline (run : Run) (commandOutcome : Option CommitOutcome)

/-- Where a call stands: the next repository call and the local variables it
    needs, or its result. -/
inductive Phase where
  | begun
  | looked
  | prepared (current : Option Run) (mutation : RunMutation) (candidate : Candidate)
  | replaying (outcome : CommitOutcome)
  | finished (result : Except Failure CallResult)

structure Call where
  command : Command
  phase : Phase

structure Choice (κ : Type) where
  observedAt : DateTime
  runName : String
  eventName : String
  context : κ

namespace RunLifecycle

def receipt (command : Command) (mutation : RunMutation) (createdAt : DateTime) :
    Except PyError CommandReceipt := do
  let intentFingerprint ← command.intentFingerprint
  CommandReceipt.new {
    tenantId := command.tenantId
    commandId := command.commandId
    runId := mutation.run.runId
    commandType := command.commandType
    intentFingerprint := intentFingerprint
    resultingStatus := mutation.run.status
    resultingVersion := mutation.run.version
    eventIds := mutation.events.map (·.eventId)
    createdAt := createdAt }

def candidate (command : Command) (mutation : RunMutation) (createdAt : DateTime) :
    Except Failure Candidate := do
  let receipt ← raising (receipt command mutation createdAt)
  return {
    expectedVersion := command.expectedVersion
    updatedRun := mutation.run
    newEvents := mutation.events
    receipt := receipt }

def settle {α : Type} (x : Except Failure α) (next : α → Phase) : Phase :=
  match x with
  | .error e => .finished (.error e)
  | .ok a => next a

section
variable {κ : Type}

/-- `create_run` after the lookup. -/
def createMutation (command : CreateRunCommand) (choice : Choice κ) : Except Failure RunMutation := do
  let runId ← raising (Identifier.new choice.runName)
  let eventId ← raising (Identifier.new choice.eventName)
  Run.create command.tenantId runId command.taskId command.agentVersion command.budget
    choice.observedAt eventId

def prepareCreate (command : CreateRunCommand) (choice : Choice κ) : Phase :=
  settle (createMutation command choice) fun mutation =>
    settle (candidate (.create command) mutation choice.observedAt) fun c =>
      .prepared none mutation c

def mutationOf (command : ExistingRunCommand) (current : Run) (choice : Choice κ) :
    Except Failure RunMutation := do
  let eventId ← raising (Identifier.new choice.eventName)
  current.perform choice.observedAt eventId command.operation

/-- An existing command after the load. `enforce_deadline` stops here when
    there is nothing to enforce. -/
def prepareExisting (command : ExistingRunCommand) (loaded : Option Run) (choice : Choice κ) : Phase :=
  match loaded with
  | none => .finished (.error (.lifecycle .notFound))
  | some current =>
    if current.version ≠ command.expectedVersion then
      .finished (.error (.lifecycle .versionConflict))
    else
      settle (mutationOf command current choice) fun mutation =>
        if command.operation = .enforceDeadline ∧ mutation.events = [] then
          .finished (.ok (.deadline mutation.run none))
        else settle (candidate (.existing command) mutation choice.observedAt) fun c =>
          .prepared (some current) mutation c

def isDeadline : Command → Bool
  | .existing c => decide (c.operation = .enforceDeadline)
  | .create _ => false

/-- A call after `find_command`. -/
def afterFind (command : Command) (found : Option CommitOutcome) (choice : Choice κ) : Phase :=
  match found with
  | some outcome =>
    if isDeadline command then .replaying outcome else .finished (.ok (.committed outcome))
  | none =>
    match command with
    | .create c => prepareCreate c choice
    | .existing _ => .looked

/-- `get_run` of a replayed deadline command. -/
def afterReplayLoad (outcome : CommitOutcome) (loaded : Option Run) : Phase :=
  match loaded with
  | none => .finished (.error (.lifecycle .notFound))
  | some run => .finished (.ok (.deadline run (some outcome)))

def afterCommit (command : Command) (mutation : RunMutation) (outcome : CommitOutcome) : Phase :=
  .finished (.ok (if isDeadline command then .deadline mutation.run (some outcome)
    else .committed outcome))

/-- One repository call of one service call. -/
def advance {σ : Type} (repository : Repository σ κ) (s : σ) (call : Call) (choice : Choice κ) :
    σ × Phase :=
  match call.phase with
  | .begun =>
    (s, settle (raising call.command.intentFingerprint) fun intentFingerprint =>
      settle (repository.findCommand s choice.context call.command.tenantId call.command.commandId
        intentFingerprint) fun found => afterFind call.command found choice)
  | .looked =>
    match call.command with
    | .existing command =>
      (s, settle (repository.load s choice.context command.tenantId command.runId) fun loaded =>
        prepareExisting command loaded choice)
    | .create _ => (s, call.phase)
  | .replaying outcome =>
    (s, settle (repository.load s choice.context call.command.tenantId outcome.receipt.runId)
      fun loaded => afterReplayLoad outcome loaded)
  | .prepared _ mutation c =>
    let (next, result) := repository.commit s choice.context c
    (next, settle result fun outcome => afterCommit call.command mutation outcome)
  | .finished _ => (s, call.phase)

end

structure System (σ : Type) where
  store : σ
  calls : List Call

/-- A new call, one repository call of the `index`-th call, or a step of the
    storage's other clients. -/
inductive Label (κ : Type) where
  | invoke (command : Command)
  | advance (index : ℕ) (choice : Choice κ)
  | background (context : κ)

variable {σ κ : Type}

def step (repository : Repository σ κ) (s : System σ) (label : Label κ) : System σ :=
  match label with
  | .invoke command => { s with calls := s.calls ++ [⟨command, .begun⟩] }
  | .advance index choice =>
    match s.calls[index]? with
    | none => s
    | some call =>
      let (store, phase) := RunLifecycle.advance repository s.store call choice
      { store := store, calls := s.calls.set index { call with phase := phase } }
  | .background context => { s with store := repository.background s.store context }

def machine (repository : Repository σ κ) : Machine (System σ) (Label κ) where
  start := ⟨repository.initial, []⟩
  step := step repository

theorem settle_eq_prepared {α : Type} {x : Except Failure α} {next : α → Phase}
    {current : Option Run} {mutation : RunMutation} {c : Candidate}
    (h : settle x next = .prepared current mutation c) :
    ∃ a, x = .ok a ∧ next a = .prepared current mutation c := by
  cases x with
  | error e => cases h
  | ok a => exact ⟨a, rfl, h⟩

theorem candidate_eq_ok {command : Command} {mutation : RunMutation} {createdAt : DateTime}
    {c : Candidate} (h : candidate command mutation createdAt = .ok c) :
    ∃ intentFingerprint, command.intentFingerprint = .ok intentFingerprint ∧
      c.expectedVersion = command.expectedVersion ∧ c.updatedRun = mutation.run ∧
      c.newEvents = mutation.events ∧
      c.receipt.toCommandReceiptFields = {
        tenantId := command.tenantId
        commandId := command.commandId
        runId := mutation.run.runId
        commandType := command.commandType
        intentFingerprint := intentFingerprint
        resultingStatus := mutation.run.status
        resultingVersion := mutation.run.version
        eventIds := mutation.events.map (·.eventId)
        createdAt := createdAt } := by
  obtain ⟨r, hr, h⟩ := bind_eq_ok.mp h
  obtain ⟨intentFingerprint, hf, hnew⟩ := bind_eq_ok.mp (raising_eq_ok.mp hr)
  cases h
  exact ⟨intentFingerprint, hf, rfl, rfl, rfl, CommandReceipt.new_eq_ok hnew⟩

/-- A prepared call holds a mutation of the aggregate and the candidate built
    from it: a creation, or an operation on the run the call loaded. -/
inductive Prepared (command : Command) : Option Run → RunMutation → Candidate → Prop
  | create (c : CreateRunCommand) (hcommand : command = .create c) (runId : RunId)
    (eventId : EventId) (observedAt : DateTime) (mutation : RunMutation) (cand : Candidate)
    (hmutation : Run.create c.tenantId runId c.taskId c.agentVersion c.budget observedAt eventId =
      .ok mutation)
    (hcandidate : candidate command mutation observedAt = .ok cand) :
    Prepared command none mutation cand
  | existing (c : ExistingRunCommand) (hcommand : command = .existing c) (current : Run)
    (eventId : EventId) (observedAt : DateTime) (mutation : RunMutation) (cand : Candidate)
    (hversion : current.version = c.expectedVersion)
    (hmutation : current.perform observedAt eventId c.operation = .ok mutation)
    (hevents : c.operation = .enforceDeadline → mutation.events ≠ [])
    (hcandidate : candidate command mutation observedAt = .ok cand) :
    Prepared command (some current) mutation cand

theorem Prepared.candidate_ok {command : Command} {current : Option Run} {mutation : RunMutation}
    {cand : Candidate} (h : Prepared command current mutation cand) :
    ∃ createdAt, candidate command mutation createdAt = .ok cand := by
  rcases h with ⟨_, _, _, _, createdAt, _, _, _, hc⟩ | ⟨_, _, _, _, createdAt, _, _, _, _, _, hc⟩
  · exact ⟨createdAt, hc⟩
  · exact ⟨createdAt, hc⟩

theorem Prepared.consistent {command : Command} {current : Option Run} {mutation : RunMutation}
    {cand : Candidate} (h : Prepared command current mutation cand)
    (htenant : mutation.run.tenantId = command.tenantId) : cand.Consistent := by
  obtain ⟨createdAt, hc⟩ := h.candidate_ok
  obtain ⟨_, -, -, hrun, hevents, hreceipt⟩ := candidate_eq_ok hc
  constructor
  all_goals simp [hreceipt, hrun, hevents, htenant]

/-- A prepared candidate passes the validation against the run it was computed
    from, as long as its event id is unused. -/
theorem Prepared.shape {command : Command} {current : Option Run} {mutation : RunMutation}
    {cand : Candidate} (h : Prepared command current mutation cand) {occupied : EventId → Bool}
    (hfree : ∀ event ∈ mutation.events, occupied event.eventId = false) :
    cand.Shape occupied current := by
  obtain ⟨createdAt, hc⟩ := h.candidate_ok
  obtain ⟨_, -, hexpected, hrun, hevents, -⟩ := candidate_eq_ok hc
  cases h with
  | create c hcommand runId eventId observedAt _ _ hmutation _ =>
    obtain ⟨hfields, event, hone, hevent⟩ := Run.create_eq_ok hmutation
    refine .create event (hevents.trans hone) (by rw [hexpected, hcommand]; rfl) ?_ ?_ ?_ ?_
      (hfree event (by simp [hone]))
    all_goals simp [hrun, hfields, hevent]
  | existing c hcommand before eventId observedAt _ _ hversion hmutation _ _ =>
    have hbase : cand.expectedVersion = before.version := by
      rw [hexpected, hcommand, hversion]
      rfl
    have hpositive := before.sound.version
    rcases Run.perform_eq_ok hmutation with ⟨rfl, -⟩ | ⟨change, -, -, hchanged⟩
    · exact .record before hevents (by omega) (by rw [hrun]; exact Run.eq_refl before) (by rw [hrun])
    · obtain ⟨result, -, hnext⟩ := hchanged.next
      obtain ⟨event, hone, hevent⟩ := hchanged.event
      refine .update before event (hevents.trans hone) (by omega) ?_ ?_ ?_ ?_ ?_
        (hfree event (by simp [hone]))
      all_goals simp [hrun, hnext, hevent, hbase, Run.changedFields, Run.eventFields]

theorem prepared_of_create {c : CreateRunCommand} {choice : Choice κ} {current : Option Run}
    {mutation : RunMutation} {cand : Candidate}
    (h : prepareCreate c choice = .prepared current mutation cand) :
    current = none ∧ Prepared (.create c) none mutation cand := by
  obtain ⟨m, hm, h⟩ := settle_eq_prepared h
  obtain ⟨cand', hcand, h⟩ := settle_eq_prepared h
  cases h
  obtain ⟨runId, -, hm⟩ := bind_eq_ok.mp hm
  obtain ⟨eventId, -, hm⟩ := bind_eq_ok.mp hm
  exact ⟨rfl, .create c rfl runId eventId choice.observedAt mutation cand hm hcand⟩

theorem prepared_of_existing {c : ExistingRunCommand} {loaded : Option Run} {choice : Choice κ}
    {current : Option Run} {mutation : RunMutation} {cand : Candidate}
    (h : prepareExisting c loaded choice = .prepared current mutation cand) :
    current = loaded ∧ Prepared (.existing c) current mutation cand := by
  unfold prepareExisting at h
  cases loaded with
  | none => cases h
  | some run =>
    simp only at h
    split_ifs at h with hversion
    obtain ⟨m, hm, h⟩ := settle_eq_prepared h
    split_ifs at h with hkeep
    obtain ⟨cand', hcand, h⟩ := settle_eq_prepared h
    cases h
    obtain ⟨eventId, -, hm⟩ := bind_eq_ok.mp hm
    exact ⟨rfl, .existing c rfl run eventId choice.observedAt mutation cand (not_not.mp hversion) hm
      (fun hop he => hkeep ⟨hop, he⟩) hcand⟩

/-- How a call can become prepared: from its lookup as a creation, or from its
    load as an operation on the loaded run. -/
theorem advance_prepared {repository : Repository σ κ} {s t : σ} {call : Call} {choice : Choice κ}
    {current : Option Run} {mutation : RunMutation} {cand : Candidate}
    (h : advance repository s call choice = (t, .prepared current mutation cand)) :
    t = s ∧ Prepared call.command current mutation cand ∧
      ∀ run, current = some run → ∃ command, call.command = .existing command ∧
        repository.load s choice.context command.tenantId command.runId = .ok (some run) := by
  unfold advance at h
  obtain ⟨command, phase⟩ := call
  cases phase with
  | begun =>
    simp only [Prod.mk.injEq] at h
    obtain ⟨rfl, h⟩ := h
    obtain ⟨fingerprint, -, h⟩ := settle_eq_prepared h
    obtain ⟨found, -, h⟩ := settle_eq_prepared h
    unfold afterFind at h
    cases found with
    | some outcome =>
      simp only at h
      split_ifs at h
    | none =>
      cases command with
      | existing c => cases h
      | create c =>
        obtain ⟨rfl, hp⟩ := prepared_of_create h
        exact ⟨rfl, hp, by simp⟩
  | looked =>
    cases command with
    | create c => simp at h
    | existing c =>
      simp only [Prod.mk.injEq] at h
      obtain ⟨rfl, h⟩ := h
      obtain ⟨loaded, hload, h⟩ := settle_eq_prepared h
      obtain ⟨rfl, hp⟩ := prepared_of_existing h
      exact ⟨rfl, hp, fun run hrun => ⟨c, rfl, hrun ▸ hload⟩⟩
  | replaying outcome =>
    simp only [Prod.mk.injEq] at h
    obtain ⟨loaded, -, h⟩ := settle_eq_prepared h.2
    unfold afterReplayLoad at h
    cases loaded <;> cases h
  | prepared _ m c =>
    simp only [Prod.mk.injEq] at h
    obtain ⟨outcome, -, h⟩ := settle_eq_prepared h.2
    cases h
  | finished result =>
    simp at h

theorem advance_store (repository : Repository σ κ) (s : σ) (call : Call) (choice : Choice κ) :
    (advance repository s call choice).1 = s ∨
      ∃ current mutation cand, call.phase = .prepared current mutation cand ∧
        (advance repository s call choice).1 = (repository.commit s choice.context cand).1 := by
  obtain ⟨command, phase⟩ := call
  cases phase with
  | prepared current mutation cand => exact .inr ⟨current, mutation, cand, rfl, rfl⟩
  | looked => cases command <;> exact .inl rfl
  | _ => exact .inl rfl

/-- The calls after a step: the old ones, a new one that begins, or one that
    advanced. -/
theorem mem_calls_step {repository : Repository σ κ} {s : System σ} {label : Label κ} {call : Call}
    (h : call ∈ (step repository s label).calls) :
    call ∈ s.calls ∨ call.phase = .begun ∨
      ∃ index choice old, label = .advance index choice ∧ s.calls[index]? = some old ∧
        call = { old with phase := (advance repository s.store old choice).2 } := by
  cases label with
  | invoke command =>
    rcases List.mem_append.mp h with h | h
    · exact .inl h
    · rw [List.mem_singleton.mp h]
      exact .inr (.inl rfl)
  | background context => exact .inl h
  | advance index choice =>
    cases hget : s.calls[index]? with
    | none =>
      simp only [step, hget] at h
      exact .inl h
    | some old =>
      simp only [step, hget] at h
      rcases List.mem_or_eq_of_mem_set h with h | h
      · exact .inl h
      · exact .inr (.inr ⟨index, choice, old, rfl, hget, h⟩)

section
variable {repository : Repository σ κ} {s t : σ} {choice : Choice κ} {intentFingerprint : String}
  {mutation : RunMutation} {cand : Candidate}

theorem advance_create {command : CreateRunCommand}
    (hf : command.intentFingerprint = .ok intentFingerprint)
    (hfind : repository.findCommand s choice.context command.tenantId command.commandId
      intentFingerprint = .ok none)
    (hmutation : createMutation command choice = .ok mutation)
    (hcand : candidate (.create command) mutation choice.observedAt = .ok cand) :
    advance repository s ⟨.create command, .begun⟩ choice = (s, .prepared none mutation cand) := by
  simp only [advance, Command.intentFingerprint, Command.tenantId, Command.commandId, hf, raising_ok,
    settle, hfind, afterFind, prepareCreate, hmutation, hcand]

theorem advance_lookup {command : ExistingRunCommand}
    (hf : command.intentFingerprint = .ok intentFingerprint)
    (hfind : repository.findCommand s choice.context command.tenantId command.commandId
      intentFingerprint = .ok none) :
    advance repository s ⟨.existing command, .begun⟩ choice = (s, .looked) := by
  simp only [advance, Command.intentFingerprint, Command.tenantId, Command.commandId, hf, raising_ok,
    settle, hfind, afterFind]

theorem advance_load {command : ExistingRunCommand} {current : Run}
    (hload : repository.load s choice.context command.tenantId command.runId = .ok (some current))
    (hversion : current.version = command.expectedVersion)
    (hmutation : mutationOf command current choice = .ok mutation)
    (hevents : ¬ (command.operation = .enforceDeadline ∧ mutation.events = []))
    (hcand : candidate (.existing command) mutation choice.observedAt = .ok cand) :
    advance repository s ⟨.existing command, .looked⟩ choice =
      (s, .prepared (some current) mutation cand) := by
  simp only [advance, hload, settle, prepareExisting, hversion, ne_eq, not_true_eq_false, if_false,
    hmutation, if_neg hevents, hcand]

theorem advance_commit {command : Command} {current : Option Run} {outcome : CommitOutcome}
    (hcommit : repository.commit s choice.context cand = (t, .ok outcome)) :
    advance repository s ⟨command, .prepared current mutation cand⟩ choice =
      (t, afterCommit command mutation outcome) := by
  simp only [advance, hcommit, settle]

end

theorem calls_prepared (repository : Repository σ κ) (history : List (Label κ)) :
    ∀ call ∈ ((machine repository).run history).calls, ∀ current mutation cand,
      call.phase = .prepared current mutation cand →
        Prepared call.command current mutation cand := by
  have invariant : (machine repository).Invariant fun s =>
      ∀ call ∈ s.calls, ∀ current mutation cand, call.phase = .prepared current mutation cand →
        Prepared call.command current mutation cand := by
    refine ⟨by simp [machine], ?_⟩
    intro s label hs call hcall current mutation cand hphase
    rcases mem_calls_step hcall with hold | hbegun | ⟨index, choice, old, -, -, rfl⟩
    · exact hs call hold current mutation cand hphase
    · rw [hbegun] at hphase
      cases hphase
    · exact (advance_prepared (Prod.ext rfl hphase)).2.1
  exact invariant.run history

end RunLifecycle
end Zhiyi
