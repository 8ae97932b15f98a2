import Zhiyi.Memory.StoreInvariant

set_option autoImplicit false

/-! Idempotent commands under interleaving. A duplicate that commits between the
lookup and the load of a call is seen by the load only, and the service then
reports what it finds there instead of the stored outcome. -/
namespace Zhiyi
open Python Interleaving RunLifecycle

abbrev MemorySystem := System MemoryStore

/-- The outcome stored for a command: same tenant, command id and fingerprint. -/
def MemoryStore.outcomeOf (s : MemoryStore) (command : Command) : Option CommitOutcome :=
  match command.intentFingerprint with
  | .error _ => none
  | .ok fingerprint =>
    (s.commands.get? (command.tenantId, command.commandId)).filter
      fun outcome => decide (outcome.receipt.intentFingerprint = fingerprint)

/-- The result carries this receipt and these events, new or replayed. -/
def Returns (result : Except Failure CallResult) (outcome : CommitOutcome) : Prop :=
  ∃ returned : CommitOutcome, returned.receipt = outcome.receipt ∧
    returned.events = outcome.events ∧
    (result = .ok (.committed returned) ∨ ∃ run, result = .ok (.deadline run (some returned)))

namespace MemorySystem

/-- If this step ends the call while the outcome of its command is stored, the
    call returns that outcome. -/
def Answers (s : MemorySystem) (index : ℕ) (choice : Choice (Option Failure)) : Prop :=
  ∀ call, s.calls[index]? = some call → (∀ result, call.phase ≠ .finished result) →
    ∀ result, (advance memoryRepository s.store call choice).2 = .finished result →
      ∀ outcome, (advance memoryRepository s.store call choice).1.outcomeOf call.command =
        some outcome → Returns result outcome

/-- The loaded run lets the command go on to its commit. -/
structure Proceeds (command : ExistingRunCommand) (choice : Choice (Option Failure)) (current : Run) :
    Prop where
  version : current.version = command.expectedVersion
  name : matchesIdentifierPattern choice.eventName = true
  legal : command.operation.legalIn current.status = true
  admissible : command.operation.Admissible current
  supported : command.operation.Supported current
  due : command.operation = .enforceDeadline → current.status.isTerminal = false ∧
    current.budget.deadlineAt ≤ current.effectiveTime choice.observedAt

/-- At its load a call finds no outcome of its own command, or a run it can
    still be carried out on. -/
def Unobstructed (s : MemorySystem) (index : ℕ) (choice : Choice (Option Failure)) : Prop :=
  ∀ command, s.calls[index]? = some ⟨.existing command, .looked⟩ →
    s.store.outcomeOf (.existing command) = none ∨
      ∃ current, s.store.load command.tenantId command.runId = some current ∧
        Proceeds command choice current

theorem commands_kept {s : MemoryStore} {c : Candidate} {t : MemoryStore}
    {result : Except Failure CommitOutcome} (h : s.Commits c t result) {key : CommandKey}
    {outcome : CommitOutcome} (hget : s.commands.get? key = some outcome) :
    t.commands.get? key = some outcome := by
  cases h with
  | raised | replayed => exact hget
  | stored new hfree =>
    rw [MemoryStore.get?_published_commands, if_neg]
    · exact hget
    · rintro rfl
      rw [hfree] at hget
      cases hget

theorem outcomeOf_eq_some {s : MemoryStore} {command : Command} {outcome : CommitOutcome} :
    s.outcomeOf command = some outcome ↔
      command.intentFingerprint = .ok outcome.receipt.intentFingerprint ∧
        s.commands.get? (command.tenantId, command.commandId) = some outcome := by
  unfold MemoryStore.outcomeOf
  cases hf : command.intentFingerprint with
  | error e => simp
  | ok fingerprint =>
    simp only [Option.filter_eq_some_iff, decide_eq_true_eq, Except.ok.injEq]
    constructor
    · rintro ⟨hget, he⟩
      exact ⟨he.symm, hget⟩
    · rintro ⟨he, hget⟩
      exact ⟨hget, he.symm⟩

theorem outcomeOf_kept {s : MemoryStore} {c : Candidate} {t : MemoryStore}
    {result : Except Failure CommitOutcome} (h : s.Commits c t result) {command : Command}
    {outcome : CommitOutcome} (hof : s.outcomeOf command = some outcome) :
    t.outcomeOf command = some outcome := by
  rw [outcomeOf_eq_some] at hof ⊢
  exact ⟨hof.1, commands_kept h hof.2⟩

theorem advance_commits (s : MemoryStore) (call : Call) (choice : Choice (Option Failure)) :
    (advance memoryRepository s call choice).1 = s ∨
      ∃ current mutation cand result, call.phase = .prepared current mutation cand ∧
        s.Commits cand (advance memoryRepository s call choice).1 result := by
  rcases advance_store memoryRepository s call choice with h | ⟨current, mutation, cand, hphase, h⟩
  · exact .inl h
  · have hcommit := s.commit_commits choice.context cand
    exact .inr ⟨current, mutation, cand, _, hphase, h ▸ hcommit⟩

theorem findCommand_eq_ok {s : MemoryStore} {tenantId : TenantId} {commandId : CommandId}
    {fingerprint : String} {found : Option CommitOutcome}
    (h : s.findCommand tenantId commandId fingerprint = .ok found) :
    (found = none ∧ s.commands.get? (tenantId, commandId) = none) ∨
      ∃ existing, s.commands.get? (tenantId, commandId) = some existing ∧
        existing.receipt.intentFingerprint = fingerprint ∧ found = some existing.asReplayed := by
  unfold MemoryStore.findCommand at h
  cases hget : s.commands.get? (tenantId, commandId) with
  | none =>
    rw [hget] at h
    exact .inl ⟨(Except.ok.inj h).symm, rfl⟩
  | some existing =>
    rw [hget] at h
    simp only [CommitOutcome.new_self] at h
    split_ifs at h with hne
    exact .inr ⟨existing, rfl, not_not.mp hne, (Except.ok.inj h).symm⟩

/-- A call that replays has found the stored outcome of its own command. -/
structure Sound (s : MemorySystem) : Prop where
  store : s.store.StoreInvariant
  prepared : ∀ call ∈ s.calls, ∀ current mutation cand,
    call.phase = .prepared current mutation cand → Prepared call.command current mutation cand
  replaying : ∀ call ∈ s.calls, ∀ outcome, call.phase = .replaying outcome →
    ∃ stored, s.store.outcomeOf call.command = some stored ∧ outcome = stored.asReplayed

theorem advance_replaying {s : MemoryStore} {call : Call} {choice : Choice (Option Failure)}
    {outcome : CommitOutcome}
    (h : (advance memoryRepository s call choice).2 = .replaying outcome) :
    isDeadline call.command = true ∧
      ∃ stored, s.outcomeOf call.command = some stored ∧ outcome = stored.asReplayed := by
  obtain ⟨command, phase⟩ := call
  have settled : ∀ {α : Type} {x : Except Failure α} {next : α → Phase},
      settle x next = .replaying outcome → ∃ a, x = .ok a ∧ next a = .replaying outcome := by
    intro α x next hx
    cases x with
    | error e => cases hx
    | ok a => exact ⟨a, rfl, hx⟩
  cases phase with
  | begun =>
    obtain ⟨fingerprint, hf, h⟩ := settled h
    obtain ⟨found, hfound, h⟩ := settled h
    rcases findCommand_eq_ok hfound with ⟨rfl, -⟩ | ⟨existing, hget, hsame, rfl⟩
    · cases command with
      | existing c => cases h
      | create c =>
        obtain ⟨m, -, h⟩ := settled h
        obtain ⟨cand, -, h⟩ := settled h
        cases h
    · simp only [afterFind] at h
      split_ifs at h with hdeadline
      cases h
      refine ⟨hdeadline, existing, outcomeOf_eq_some.mpr ⟨?_, hget⟩, rfl⟩
      rw [hsame]
      exact raising_eq_ok.mp hf
  | looked =>
    cases command with
    | create c => cases h
    | existing c =>
      simp only [advance] at h
      obtain ⟨loaded, -, h⟩ := settled h
      cases loaded with
      | none => cases h
      | some current =>
        simp only [prepareExisting] at h
        split_ifs at h
        obtain ⟨m, -, h⟩ := settled h
        split_ifs at h
        obtain ⟨cand, -, h⟩ := settled h
        cases h
  | replaying o =>
    simp only [advance] at h
    obtain ⟨loaded, -, h⟩ := settled h
    cases loaded <;> cases h
  | prepared current mutation cand =>
    obtain ⟨o, -, h⟩ := settled h
    cases h
  | finished result => cases h

theorem sound_invariant : (machine memoryRepository).Invariant Sound where
  base := ⟨MemoryStore.storeInvariant_empty, by simp [machine], by simp [machine]⟩
  kept s label hs := by
    have hcommits : (step memoryRepository s label).store = s.store ∨
        ∃ cand result, s.store.Commits cand (step memoryRepository s label).store result := by
      cases label with
      | invoke command => exact .inl rfl
      | background context => exact .inl rfl
      | advance index choice =>
        cases hget : s.calls[index]? with
        | none => exact .inl (by simp [step, hget])
        | some call =>
          have hstore : (step memoryRepository s (.advance index choice)).store =
              (advance memoryRepository s.store call choice).1 := by simp [step, hget]
          rw [hstore]
          rcases advance_commits s.store call choice with h | ⟨_, _, cand, result, -, h⟩
          · exact .inl h
          · exact .inr ⟨cand, result, h⟩
    have hkept : ∀ {command : Command} {outcome : CommitOutcome},
        s.store.outcomeOf command = some outcome →
          (step memoryRepository s label).store.outcomeOf command = some outcome := by
      intro command outcome hof
      rcases hcommits with h | ⟨cand, result, h⟩
      · rw [h]
        exact hof
      · exact outcomeOf_kept h hof
    refine ⟨?_, ?_, ?_⟩
    · rcases hcommits with h | ⟨cand, result, h⟩
      · rw [show (machine memoryRepository).step s label = step memoryRepository s label from rfl, h]
        exact hs.store
      · exact h.storeInvariant hs.store
    · intro call hcall current mutation cand hphase
      rcases mem_calls_step hcall with hold | hbegun | ⟨index, choice, old, -, -, rfl⟩
      · exact hs.prepared call hold current mutation cand hphase
      · rw [hbegun] at hphase
        cases hphase
      · exact (advance_prepared (Prod.ext rfl hphase)).2.1
    · intro call hcall outcome hphase
      rcases mem_calls_step hcall with hold | hbegun | ⟨index, choice, old, -, -, rfl⟩
      · obtain ⟨stored, hof, he⟩ := hs.replaying call hold outcome hphase
        exact ⟨stored, hkept hof, he⟩
      · rw [hbegun] at hphase
        cases hphase
      · obtain ⟨-, stored, hof, he⟩ := advance_replaying hphase
        exact ⟨stored, hkept hof, he⟩

theorem returns_error (e : Failure) (outcome : CommitOutcome) : ¬ Returns (.error e) outcome := by
  rintro ⟨_, _, _, h | ⟨_, h⟩⟩ <;> cases h

theorem returns_undue (run : Run) (outcome : CommitOutcome) :
    ¬ Returns (.ok (.deadline run none)) outcome := by
  rintro ⟨_, _, _, h | ⟨_, h⟩⟩ <;> cases h

theorem prepareExisting_cases (command : ExistingRunCommand) (loaded : Option Run)
    (choice : Choice (Option Failure)) :
    (∃ result, prepareExisting command loaded choice = .finished result ∧
      ∀ outcome, ¬ Returns result outcome) ∨
    ∃ current mutation cand, prepareExisting command loaded choice = .prepared current mutation cand := by
  have failed : ∀ e : Failure, ∃ result, Phase.finished (.error e) = .finished result ∧
      ∀ outcome, ¬ Returns result outcome := fun e => ⟨_, rfl, returns_error e⟩
  cases loaded with
  | none => exact .inl (failed _)
  | some current =>
    simp only [prepareExisting]
    split_ifs with hversion
    · exact .inl (failed _)
    cases hm : mutationOf command current choice with
    | error e => exact .inl (failed _)
    | ok mutation =>
      simp only [settle]
      split_ifs with hkeep
      · exact .inl ⟨_, rfl, returns_undue _⟩
      cases hc : candidate (.existing command) mutation choice.observedAt with
      | error e => exact .inl (failed _)
      | ok cand => exact .inr ⟨_, _, _, rfl⟩

theorem proceeds_of_prepared {command : ExistingRunCommand} {loaded current : Option Run}
    {choice : Choice (Option Failure)} {mutation : RunMutation} {cand : Candidate}
    (h : prepareExisting command loaded choice = .prepared current mutation cand) :
    ∃ run, loaded = some run ∧ Proceeds command choice run := by
  cases loaded with
  | none => cases h
  | some run =>
    simp only [prepareExisting] at h
    split_ifs at h with hversion
    obtain ⟨m, hm, h⟩ := settle_eq_prepared h
    split_ifs at h with hkeep
    obtain ⟨eventId, hname, hperform⟩ := bind_eq_ok.mp hm
    have hname := Identifier.new_eq_ok (raising_eq_ok.mp hname)
    obtain ⟨hlegal, hadmissible, hsupported⟩ := (Run.perform_ok_iff _ _ _ _).mp ⟨m, hperform⟩
    refine ⟨run, rfl, not_not.mp hversion, hname ▸ eventId.safe, hlegal, hadmissible, hsupported, ?_⟩
    intro hop
    rw [hop] at hperform
    rcases Run.perform_eq_ok hperform with ⟨rfl, -⟩ | ⟨c, hmakes, -, -⟩
    · exact absurd ⟨hop, rfl⟩ hkeep
    · cases hmakes with
      | expired hlive hlate => exact ⟨hlive, hlate⟩

theorem candidate_ok {command : Command} (mutation : RunMutation) (createdAt : DateTime)
    {fingerprint : String} (hf : command.intentFingerprint = .ok fingerprint) :
    ∃ cand, candidate command mutation createdAt = .ok cand := by
  have hpattern := Command.intentFingerprint_matches hf
  have hversion := mutation.run.sound.version
  unfold candidate receipt
  simp only [hf, bind, Except.bind, CommandReceipt.new]
  rw [construct_of_ok]
  · exact ⟨_, rfl⟩
  · simp [CommandReceiptFields.postInit, hpattern, hversion, bind, Except.bind]

theorem prepared_of_proceeds {command : ExistingRunCommand} {run : Run}
    {choice : Choice (Option Failure)} {fingerprint : String}
    (hf : command.intentFingerprint = .ok fingerprint) (h : Proceeds command choice run) :
    ∃ current mutation cand,
      prepareExisting command (some run) choice = .prepared current mutation cand := by
  obtain ⟨hversion, hname, hlegal, hadmissible, hsupported, hdue⟩ := h
  obtain ⟨m, hm⟩ := (Run.perform_ok_iff run choice.observedAt ⟨choice.eventName, hname⟩
    command.operation).mpr ⟨hlegal, hadmissible, hsupported⟩
  have hmutation : mutationOf command run choice = .ok m := by
    simp only [mutationOf, Identifier.new, dif_pos hname, bind, Except.bind, raising_ok]
    exact hm
  obtain ⟨cand, hcand⟩ := candidate_ok m choice.observedAt
    (show (Command.existing command).intentFingerprint = .ok fingerprint from hf)
  have hkeep : ¬ (command.operation = .enforceDeadline ∧ m.events = []) := by
    rintro ⟨hop, he⟩
    obtain ⟨hlive, hlate⟩ := hdue hop
    rw [hop] at hm
    rcases Run.perform_eq_ok hm with ⟨-, hkeeps⟩ | ⟨c, -, -, -, event, hevents, -⟩
    · cases hkeeps with
      | terminal ht => simp [hlive] at ht
      | early hearly => exact absurd hlate (not_le.mpr hearly)
    · rw [he] at hevents
      cases hevents
  refine ⟨some run, m, cand, ?_⟩
  simp only [prepareExisting, hversion, ne_eq, not_true_eq_false, if_false, hmutation, settle,
    if_neg hkeep, hcand]

/-- The phases other than the load never end a call without its stored outcome. -/
theorem answers_begun {s : MemoryStore} {command : Command} {choice : Choice (Option Failure)}
    {result : Except Failure CallResult}
    (h : (advance memoryRepository s ⟨command, .begun⟩ choice).2 = .finished result)
    {outcome : CommitOutcome} (hof : s.outcomeOf command = some outcome) : Returns result outcome := by
  obtain ⟨hf, hget⟩ := outcomeOf_eq_some.mp hof
  have hfind : s.findCommand command.tenantId command.commandId outcome.receipt.intentFingerprint =
      .ok (some outcome.asReplayed) := by
    simp only [MemoryStore.findCommand, hget, ne_eq, not_true_eq_false, if_false, CommitOutcome.new_self]
    rfl
  simp only [advance, hf, raising_ok, settle, memoryRepository, hfind, afterFind] at h
  split_ifs at h
  cases h
  exact ⟨outcome.asReplayed, rfl, rfl, .inl rfl⟩

theorem answers_replaying {s : MemoryStore} (hs : s.StoreInvariant) {command : Command}
    {choice : Choice (Option Failure)} {stored : CommitOutcome} {result : Except Failure CallResult}
    (h : (advance memoryRepository s ⟨command, .replaying stored.asReplayed⟩ choice).2 =
      .finished result)
    {outcome : CommitOutcome} (hof : s.outcomeOf command = some outcome)
    (hstored : s.outcomeOf command = some stored) : Returns result outcome := by
  obtain rfl : stored = outcome := Option.some.inj (hstored.symm.trans hof)
  obtain ⟨-, hget⟩ := outcomeOf_eq_some.mp hof
  have hbacked := hs.backed _ _ hget
  have hrun : ∃ run, s.load command.tenantId stored.receipt.runId = some run := by
    have hkey : (command.tenantId, stored.receipt.runId) =
        (stored.receipt.tenantId, stored.receipt.runId) := by rw [hbacked.tenant]
    unfold MemoryStore.load
    rw [hkey]
    rcases hbacked.evidence with ⟨_, log, -, hlog, -⟩ | ⟨-, run, hrun, -⟩
    · have hlogs := hs.logs (stored.receipt.tenantId, stored.receipt.runId)
      rw [hlog] at hlogs
      exact Option.isSome_iff_exists.mp hlogs
    · exact ⟨run, hrun⟩
  obtain ⟨run, hload⟩ := hrun
  have hreplay : memoryRepository.load s choice.context command.tenantId
      stored.asReplayed.receipt.runId = .ok (some run) := congrArg Except.ok hload
  simp only [advance, hreplay, settle, afterReplayLoad] at h
  cases h
  exact ⟨stored.asReplayed, rfl, rfl, .inr ⟨run, rfl⟩⟩

theorem candidate_outcome {command : Command} {mutation : RunMutation} {createdAt : DateTime}
    {cand : Candidate} (hc : candidate command mutation createdAt = .ok cand) {t : MemoryStore}
    {outcome : CommitOutcome} : t.outcomeOf command = some outcome ↔
      t.commands.get? (MemoryStore.commandKey cand) = some outcome ∧
        outcome.receipt.intentFingerprint = cand.receipt.intentFingerprint := by
  obtain ⟨fingerprint, hf, -, -, -, hreceipt⟩ := candidate_eq_ok hc
  have hkey : MemoryStore.commandKey cand = (command.tenantId, command.commandId) := by
    simp [MemoryStore.commandKey, hreceipt]
  rw [outcomeOf_eq_some, hf, hkey, hreceipt, Except.ok.injEq]
  exact ⟨fun ⟨he, hget⟩ => ⟨hget, he.symm⟩, fun ⟨hget, he⟩ => ⟨he.symm, hget⟩⟩

theorem answers_commit {s t : MemoryStore} {command : Command} {mutation : RunMutation}
    {createdAt : DateTime} {cand : Candidate} (hc : candidate command mutation createdAt = .ok cand)
    {committed : Except Failure CommitOutcome} (h : s.Commits cand t committed)
    {outcome : CommitOutcome} (hof : t.outcomeOf command = some outcome)
    {result : Except Failure CallResult}
    (hresult : settle committed (afterCommit command mutation) = .finished result) :
    Returns result outcome := by
  obtain ⟨hget, hsame⟩ := (candidate_outcome hc).mp hof
  have returned : ∀ new : CommitOutcome, new.receipt = outcome.receipt → new.events = outcome.events →
      afterCommit command mutation new = .finished result → Returns result outcome := by
    intro new hreceipt hevents he
    cases he
    refine ⟨new, hreceipt, hevents, ?_⟩
    cases isDeadline command with
    | true => exact .inr ⟨mutation.run, rfl⟩
    | false => exact .inl rfl
  cases h with
  | raised e hother => exact absurd hsame (hother _ hget)
  | replayed existing hexisting =>
    cases Option.some.inj (hget.symm.trans hexisting)
    exact returned outcome.asReplayed rfl rfl hresult
  | stored new =>
    rw [MemoryStore.get?_published_commands, if_pos rfl] at hget
    cases hget
    exact returned _ rfl rfl hresult

theorem answers_iff {s : MemorySystem} (hs : Sound s) (index : ℕ) (choice : Choice (Option Failure)) :
    Answers s index choice ↔ Unobstructed s index choice := by
  unfold Answers Unobstructed
  cases hcall : s.calls[index]? with
  | none => simp
  | some call =>
    have hmem : call ∈ s.calls := List.mem_of_getElem? hcall
    obtain ⟨command, phase⟩ := call
    simp only [Option.some.injEq, forall_eq']
    cases phase with
    | begun =>
      exact iff_of_true (fun _ _ h _ hof => answers_begun h hof) (by simp)
    | replaying outcome =>
      obtain ⟨stored, hstored, rfl⟩ := hs.replaying _ hmem _ rfl
      exact iff_of_true (fun _ _ h _ hof => answers_replaying hs.store h hof hstored) (by simp)
    | prepared current mutation cand =>
      obtain ⟨createdAt, hc⟩ := (hs.prepared _ hmem _ _ _ rfl).candidate_ok
      refine iff_of_true (fun _ result h outcome hof => ?_) (by simp)
      exact answers_commit hc (s.store.commit_commits choice.context cand) hof h
    | finished result => exact iff_of_true (fun h => absurd rfl (h result)) (by simp)
    | looked =>
      cases command with
      | create c => exact iff_of_true (fun _ _ h => by cases h) (by simp)
      | existing c =>
        simp only [Call.mk.injEq, Command.existing.injEq, and_true, forall_eq']
        change (_ → ∀ result, prepareExisting c (s.store.load c.tenantId c.runId) choice =
          .finished result → ∀ outcome, s.store.outcomeOf (.existing c) = some outcome → _) ↔ _
        constructor
        · intro hanswers
          rcases prepareExisting_cases c (s.store.load c.tenantId c.runId) choice with
            ⟨result, hfinished, hnone⟩ | ⟨current, mutation, cand, hprepared⟩
          · refine .inl (Option.eq_none_iff_forall_ne_some.mpr fun outcome hof => ?_)
            exact hnone outcome (hanswers (by simp) result hfinished outcome hof)
          · exact .inr (proceeds_of_prepared hprepared)
        · rintro (hfree | ⟨current, hload, hproceeds⟩) - result hfinished outcome hof
          · rw [hfree] at hof
            cases hof
          · obtain ⟨hf, -⟩ := outcomeOf_eq_some.mp hof
            obtain ⟨_, _, _, hprepared⟩ := prepared_of_proceeds hf hproceeds
            rw [hload, hprepared] at hfinished
            cases hfinished

/-- Every step of every call of the history is answered. -/
def Answered (history : List (Label (Option Failure))) : Prop :=
  ∀ earlier index choice later, history = earlier ++ .advance index choice :: later →
    Answers ((machine memoryRepository).run earlier) index choice

/-- No load of the history is obstructed. -/
def NeverObstructed (history : List (Label (Option Failure))) : Prop :=
  ∀ earlier index choice later, history = earlier ++ .advance index choice :: later →
    Unobstructed ((machine memoryRepository).run earlier) index choice

theorem answered_iff_unobstructed (history : List (Label (Option Failure))) :
    Answered history ↔ NeverObstructed history := by
  have step : ∀ earlier index choice,
      Answers ((machine memoryRepository).run earlier) index choice ↔
        Unobstructed ((machine memoryRepository).run earlier) index choice :=
    fun earlier index choice => answers_iff (sound_invariant.run earlier) index choice
  simp only [Answered, NeverObstructed, step]

end MemorySystem

namespace Sample

def startedEvent : RunEvent where
  eventId := event2
  tenantId := tenant
  runId := runId
  sequence := 2
  type := .runStarted
  occurredAt := opening
  payloadVersion := 1
  payload := Mapping.ofEntries [
    ("previous_status", .str "queued"), ("run_version", .int 2), ("status", .str "running")]
  valid := by decide +kernel

def createCommand : CreateRunCommand :=
  ⟨tenant, ⟨"create-1", by decide⟩, taskId, agentVersion, budget, none, rfl⟩

def startCommand : ExistingRunCommand := ⟨tenant, ⟨"start-1", by decide⟩, runId, 1, .start⟩

def choice (event : EventId) : Choice (Option Failure) := ⟨opening, "run-1", event.value, none⟩

theorem startedRun_eq : queuedRun.perform opening event2 .start =
    .ok ⟨runningRun, [startedEvent]⟩ := rfl

theorem createCommand_fingerprint : ∃ s, createCommand.intentFingerprint = .ok s :=
  fingerprint_of_withinStrDigits (by decide +kernel)

theorem startCommand_fingerprint : ∃ s, startCommand.intentFingerprint = .ok s :=
  fingerprint_of_withinStrDigits (by decide +kernel)

end Sample

namespace MemorySystem
open Sample

def createHistory : List (Label (Option Failure)) := [
  .invoke (.create createCommand), .advance 0 (choice event1), .advance 0 (choice event1)]

/-- Two calls of one `start` look it up, and the first one goes on to its commit. -/
def duplicateHistory : List (Label (Option Failure)) := createHistory ++ [
  .invoke (.existing startCommand), .invoke (.existing startCommand),
  .advance 1 (choice event2), .advance 2 (choice event3),
  .advance 1 (choice event2), .advance 1 (choice event2)]

theorem run_createHistory : ∃ created phase,
    (machine memoryRepository).run createHistory = ⟨created, [⟨.create createCommand, phase⟩]⟩ ∧
      created.load tenant runId = some queuedRun ∧
      (∀ id, id ≠ createCommand.commandId → created.commands.get? (tenant, id) = none) ∧
      created.eventIds = {event1} := by
  obtain ⟨_, hf⟩ := createCommand_fingerprint
  obtain ⟨cand, hcand⟩ := candidate_ok (show RunMutation from ⟨queuedRun, [createdEvent]⟩) opening
    (show (Command.create createCommand).intentFingerprint = _ from hf)
  have hp : Prepared (.create createCommand) none ⟨queuedRun, [createdEvent]⟩ cand :=
    .create createCommand rfl runId event1 opening _ _ rfl hcand
  obtain ⟨_, -, hexpected, hrun, hevents, hreceipt⟩ := candidate_eq_ok hcand
  obtain ⟨outcome, -, -, hcommit⟩ := MemoryStore.commit_of_shape
    (show MemoryStore.empty.commands.get? _ = none from rfl)
    (by rw [hexpected]; rfl) (hp.consistent rfl) (hp.shape (by simp [MemoryStore.empty]))
  have hprepare : advance memoryRepository MemoryStore.empty ⟨.create createCommand, .begun⟩
      (choice event1) = (MemoryStore.empty, .prepared none ⟨queuedRun, [createdEvent]⟩ cand) :=
    advance_create hf rfl rfl hcand
  have hstore : advance memoryRepository MemoryStore.empty
      ⟨.create createCommand, .prepared none ⟨queuedRun, [createdEvent]⟩ cand⟩ (choice event1) =
        (MemoryStore.empty.published cand outcome, .finished (.ok (.committed outcome))) :=
    advance_commit hcommit
  have hkey : MemoryStore.runKey cand = (tenant, runId) := by rw [MemoryStore.runKey, hrun]; rfl
  have hid : MemoryStore.commandKey cand = (tenant, createCommand.commandId) := by
    rw [MemoryStore.commandKey, hreceipt]; rfl
  refine ⟨MemoryStore.empty.published cand outcome, .finished (.ok (.committed outcome)), ?_⟩
  refine ⟨?_, ?_, ?_, ?_⟩
  · have hstart : (machine memoryRepository).start = ⟨MemoryStore.empty, []⟩ := rfl
    have hstep : (machine memoryRepository).step = step memoryRepository := rfl
    simp only [createHistory, Machine.run, hstart, hstep, Machine.runFrom_cons, Machine.runFrom_nil,
      step, List.nil_append, List.getElem?_cons_zero, List.set_cons_zero, hprepare, hstore]
  · rw [MemoryStore.load, MemoryStore.get?_published_runs, if_pos hkey.symm, hrun]
  · intro id hne
    rw [MemoryStore.get?_published_commands, if_neg]
    · rfl
    · rw [hid, Prod.mk.injEq]
      exact fun h => hne h.2
  · simp [MemoryStore.published, hevents, MemoryStore.empty, createdEvent]

/-- The second call finds the run at version 2, and the outcome of its own
    command in the store. -/
theorem duplicate_is_obstructed :
    ¬ Unobstructed ((machine memoryRepository).run duplicateHistory) 2 (choice event3) := by
  obtain ⟨created, phase, hrunning, hload, hfree, hids⟩ := run_createHistory
  have hfree := hfree startCommand.commandId (by decide)
  obtain ⟨fs, hf⟩ := startCommand_fingerprint
  obtain ⟨cand, hcand⟩ := candidate_ok (show RunMutation from ⟨runningRun, [startedEvent]⟩) opening
    (show (Command.existing startCommand).intentFingerprint = _ from hf)
  have hp : Prepared (.existing startCommand) (some queuedRun) ⟨runningRun, [startedEvent]⟩ cand :=
    .existing startCommand rfl queuedRun event2 opening _ _ rfl startedRun_eq (by simp) hcand
  obtain ⟨_, hf', hexpected, hrun, hevents, hreceipt⟩ := candidate_eq_ok hcand
  have hkey : MemoryStore.runKey cand = (tenant, runId) := by rw [MemoryStore.runKey, hrun]; rfl
  have hid : MemoryStore.commandKey cand = (tenant, startCommand.commandId) := by
    rw [MemoryStore.commandKey, hreceipt]; rfl
  have hget : created.runs.get? (tenant, runId) = some queuedRun := hload
  obtain ⟨outcome, hsame, -, hcommit⟩ := MemoryStore.commit_of_shape (hid ▸ hfree)
    (by rw [hexpected, hkey, hget]; rfl) (hp.consistent rfl) (by
      rw [hkey, hget]
      refine hp.shape ?_
      simp only [List.mem_singleton, forall_eq, hids, decide_eq_false_iff_not, Finset.mem_singleton]
      decide)
  have hlook : ∀ eventId, advance memoryRepository created ⟨.existing startCommand, .begun⟩
      (choice eventId) = (created, .looked) := by
    intro eventId
    refine advance_lookup hf ?_
    change MemoryStore.findCommand created tenant startCommand.commandId fs = _
    rw [MemoryStore.findCommand, hfree]
  have hprepare : advance memoryRepository created ⟨.existing startCommand, .looked⟩
      (choice event2) =
        (created, .prepared (some queuedRun) ⟨runningRun, [startedEvent]⟩ cand) :=
    advance_load (congrArg Except.ok hload) rfl startedRun_eq (by simp) hcand
  have hstore : advance memoryRepository created
      ⟨.existing startCommand, .prepared (some queuedRun) ⟨runningRun, [startedEvent]⟩ cand⟩
        (choice event2) = (created.published cand outcome, .finished (.ok (.committed outcome))) :=
    advance_commit hcommit
  have hend : ((machine memoryRepository).run duplicateHistory).store =
        created.published cand outcome ∧
      ((machine memoryRepository).run duplicateHistory).calls[2]? =
        some ⟨.existing startCommand, .looked⟩ := by
    have hstep : (machine memoryRepository).step = step memoryRepository := rfl
    simp [duplicateHistory, Machine.run_append, hrunning, hstep, step, hlook, hprepare, hstore]
  obtain ⟨hstarted, hcall⟩ := hend
  intro hfine
  rcases hfine startCommand hcall with hnone | ⟨current, hcurrent, hproceeds⟩
  · have hof : (created.published cand outcome).outcomeOf (.existing startCommand) = some outcome := by
      rw [candidate_outcome hcand, MemoryStore.get?_published_commands, if_pos rfl, hsame]
      exact ⟨rfl, rfl⟩
    rw [hstarted, hof] at hnone
    cases hnone
  · rw [hstarted, MemoryStore.load, MemoryStore.get?_published_runs,
      if_pos (show (startCommand.tenantId, startCommand.runId) = _ from hkey.symm), hrun] at hcurrent
    cases hcurrent
    exact absurd hproceeds.version (by decide)

/-- A history in which a duplicate is answered with an error while the outcome
    of its command is stored. -/
theorem duplicate_not_answered :
    ¬ Answered (duplicateHistory ++ [.advance 2 (choice event3)]) := fun h =>
  duplicate_is_obstructed
    ((answers_iff (sound_invariant.run _) _ _).mp (h duplicateHistory 2 (choice event3) [] rfl))

end MemorySystem
end Zhiyi
