import Zhiyi.Application.IntentFingerprint
import Zhiyi.Memory.History

set_option autoImplicit false

/-! Deadline outcomes. A deadline call computes its run from its own clock reading
before it commits; when a duplicate has won in between, it returns this run with
the receipt of the other call. -/
namespace Zhiyi
open Python Interleaving RunLifecycle

namespace Run

/-- `run` is `before` after its deadline was enforced at `observedAt`. -/
def EnforcedAt (before : Run) (observedAt : DateTime) (run : Run) : Prop :=
  ∃ eventId m, before.perform observedAt eventId .enforceDeadline = .ok m ∧ m.events ≠ [] ∧
    m.run = run

variable {before run run' : Run} {observedAt observedAt' : DateTime}

theorem EnforcedAt.changed (h : before.EnforcedAt observedAt run) :
    ∃ result, before.resultFor (limitChange .deadline (limitError .deadline)) before.usage =
        .ok result ∧
      run.toRunFields = before.changedFields (limitChange .deadline (limitError .deadline))
        (before.effectiveTime observedAt) result := by
  obtain ⟨eventId, m, hperform, hevents, rfl⟩ := h
  rcases perform_eq_ok hperform with ⟨rfl, -⟩ | ⟨c, hmakes, -, hchanged⟩
  · exact absurd rfl hevents
  · cases hmakes
    exact hchanged.next

theorem EnforcedAt.terminal (h : before.EnforcedAt observedAt run) :
    run.status.isTerminal = true := by
  obtain ⟨result, -, hrun⟩ := h.changed
  rw [hrun]
  rfl

theorem EnforcedAt.version (h : before.EnforcedAt observedAt run) :
    run.version = before.version + 1 := by
  obtain ⟨result, -, hrun⟩ := h.changed
  rw [hrun]
  rfl

theorem EnforcedAt.eq_iff (h : before.EnforcedAt observedAt run)
    (h' : before.EnforcedAt observedAt' run') :
    run = run' ↔ before.effectiveTime observedAt = before.effectiveTime observedAt' := by
  obtain ⟨result, hresult, hrun⟩ := h.changed
  obtain ⟨result', hresult', hrun'⟩ := h'.changed
  obtain rfl : result = result' := Except.ok.inj (hresult.symm.trans hresult')
  constructor
  · rintro rfl
    exact congrArg RunFields.lastObservedAt (hrun.symm.trans hrun')
  · intro he
    rw [he, ← hrun'] at hrun
    cases run
    cases run'
    cases hrun
    rfl

end Run

namespace RunLifecycle
variable {σ κ : Type}

theorem settle_eq_deadline {α : Type} {x : Except Failure α} {next : α → Phase} {result : CallResult}
    (h : settle x next = .finished (.ok result)) : ∃ a, x = .ok a ∧ next a = .finished (.ok result) := by
  cases x with
  | error e => cases h
  | ok a => exact ⟨a, rfl, h⟩

/-- How a call comes to return a deadline outcome with a command outcome: it replays
    what its lookup found, or it has committed. -/
theorem advance_deadline {repository : Repository σ κ} {s : σ} {call : Call} {choice : Choice κ}
    {run : Run} {outcome : CommitOutcome} (hopen : ∀ result, call.phase ≠ .finished result)
    (h : (advance repository s call choice).2 = .finished (.ok (.deadline run (some outcome)))) :
    (call.phase = .replaying outcome ∧
      repository.load s choice.context call.command.tenantId outcome.receipt.runId =
        .ok (some run)) ∨
    ∃ current mutation cand, call.phase = .prepared current mutation cand ∧
      isDeadline call.command = true ∧ run = mutation.run ∧
      (repository.commit s choice.context cand).2 = .ok outcome := by
  obtain ⟨command, phase⟩ := call
  cases phase with
  | begun =>
    obtain ⟨fingerprint, -, h⟩ := settle_eq_deadline h
    obtain ⟨found, -, h⟩ := settle_eq_deadline h
    cases found with
    | some stored =>
      simp only [afterFind] at h
      split_ifs at h
      cases h
    | none =>
      cases command with
      | existing c => cases h
      | create c =>
        obtain ⟨m, -, h⟩ := settle_eq_deadline h
        obtain ⟨cand, -, h⟩ := settle_eq_deadline h
        cases h
  | looked =>
    cases command with
    | create c => cases h
    | existing c =>
      simp only [advance] at h
      obtain ⟨loaded, -, h⟩ := settle_eq_deadline h
      cases loaded with
      | none => cases h
      | some current =>
        simp only [prepareExisting] at h
        split_ifs at h
        · cases h
        obtain ⟨m, -, h⟩ := settle_eq_deadline h
        split_ifs at h
        · cases h
        · obtain ⟨cand, -, h⟩ := settle_eq_deadline h
          cases h
  | replaying stored =>
    simp only [advance] at h
    obtain ⟨loaded, hload, h⟩ := settle_eq_deadline h
    cases loaded with
    | none => cases h
    | some current =>
      cases h
      exact .inl ⟨rfl, hload⟩
  | prepared current mutation cand =>
    obtain ⟨committed, hcommit, h⟩ := settle_eq_deadline h
    simp only [afterCommit, Phase.finished.injEq, Except.ok.injEq] at h
    split_ifs at h with hdeadline
    cases h
    exact .inr ⟨current, mutation, cand, rfl, hdeadline, rfl, hcommit⟩
  | finished result => exact absurd rfl (hopen result)

def invoked : List (Label κ) → List Command
  | [] => []
  | .invoke command :: history => command :: invoked history
  | _ :: history => invoked history

theorem invoked_append (history later : List (Label κ)) :
    invoked (history ++ later) = invoked history ++ invoked later := by
  induction history with
  | nil => rfl
  | cons label history ih => cases label <;> simp [invoked, ih]

theorem commands_step (repository : Repository σ κ) (s : System σ) (label : Label κ) :
    (step repository s label).calls.map Call.command =
      s.calls.map Call.command ++ invoked [label] := by
  cases label with
  | invoke command => simp [step, invoked]
  | background context => simp [step, invoked]
  | advance index choice =>
    cases hget : s.calls[index]? with
    | none => simp [step, hget, invoked]
    | some call =>
      obtain ⟨hlt, hcall⟩ := List.getElem?_eq_some_iff.mp hget
      have hsame : (s.calls.map Call.command).get ⟨index, by simpa using hlt⟩ = call.command := by
        simp [hcall]
      simp only [step, hget, invoked, List.map_set, List.append_nil]
      rw [← hsame, List.get_eq_getElem, List.set_getElem_self]

theorem commands_run (repository : Repository σ κ) (history : List (Label κ)) :
    ((machine repository).run history).calls.map Call.command = invoked history := by
  induction history using List.reverseRecOn with
  | nil => rfl
  | append_singleton history label ih =>
    rw [Machine.run_concat, invoked_append, ← ih]
    exact commands_step repository _ label

end RunLifecycle

namespace MemorySystem

theorem step_publishes {s : MemorySystem} (hs : Sound s) (hr : Recorded s)
    (label : Label (Option Failure)) :
    (step memoryRepository s label).store = s.store ∨
      ∃ call ∈ s.calls, ∃ current m cand outcome,
        call.phase = .prepared current m cand ∧ outcome.receipt = cand.receipt ∧ cand.Consistent ∧
          (step memoryRepository s label).store = s.store.published cand outcome ∧
          s.store.Stores cand m := by
  cases label with
  | invoke command => exact .inl rfl
  | background context => exact .inl rfl
  | advance index choice =>
    cases hcall : s.calls[index]? with
    | none => exact .inl (by simp [step, hcall])
    | some call =>
      have hmem : call ∈ s.calls := List.mem_of_getElem? hcall
      have hstore : (step memoryRepository s (.advance index choice)).store =
          (advance memoryRepository s.store call choice).1 := by simp [step, hcall]
      rw [hstore]
      rcases advance_commits s.store call choice with h | ⟨current, m, cand, result, hphase, hcommits⟩
      · exact .inl h
      have hp := hs.prepared call hmem current m cand hphase
      have hbase : ∀ before, current = some before → s.store.Holds before := by
        rintro before rfl
        exact hr.base call hmem before m cand hphase
      have hstores := MemoryStore.stores_of_commits hp hbase hcommits
      generalize (advance memoryRepository s.store call choice).1 = t at hcommits hstores ⊢
      cases hcommits with
      | raised | replayed => exact .inl rfl
      | stored outcome _ _ hconsistent _ hreceipt =>
        rcases hstores with h | ⟨_, -, hstores⟩
        · exact .inl h
        · exact .inr ⟨call, hmem, current, m, cand, outcome, hphase, hreceipt, hconsistent, rfl, hstores⟩

theorem prepared_step {s : MemorySystem} (hs : Sound s) {label : Label (Option Failure)} {call : Call}
    (hcall : call ∈ (step memoryRepository s label).calls) {current : Run} {m : RunMutation}
    {cand : Candidate} (hphase : call.phase = .prepared (some current) m cand) :
    call ∈ s.calls ∨ (s.store.runs.get? (current.tenantId, current.runId) = some current ∧
      ∀ c, call.command = .existing c → (current.tenantId, current.runId) = (c.tenantId, c.runId)) := by
  rcases mem_calls_step hcall with hold | hbegun | ⟨index, choice, old, rfl, hget, rfl⟩
  · exact .inl hold
  · rw [hbegun] at hphase
    cases hphase
  · obtain ⟨-, -, hload⟩ := advance_prepared (Prod.ext rfl hphase)
    obtain ⟨command, hcommand, hload⟩ := hload current rfl
    have hstored : s.store.runs.get? (command.tenantId, command.runId) = some current :=
      Except.ok.inj hload
    have hkey := hs.store.runKeys _ _ hstored
    refine .inr ⟨hkey ▸ hstored, fun c hc => ?_⟩
    obtain rfl := Command.existing.inj (hcommand.symm.trans hc)
    exact hkey

/-- The stored run of a deadline outcome: terminal, at the receipt's version, and what
    the winner's reading makes of the run any prepared call of this version holds. -/
structure Settled (s : MemorySystem) (key : RunKey) (receipt : CommandReceipt) (run : Run) : Prop where
  stored : s.store.runs.get? key = some run
  version : run.version = receipt.resultingVersion
  terminal : run.status.isTerminal = true
  enforced : ∀ call ∈ s.calls, ∀ current m cand, call.phase = .prepared (some current) m cand →
    (current.tenantId, current.runId) = key → current.version + 1 = run.version →
      current.EnforcedAt receipt.createdAt run

/-- The call an outcome was stored by. -/
structure StoredBy (key : CommandKey) (receipt : CommandReceipt) (command : Command) : Prop where
  key : (command.tenantId, command.commandId) = key
  fingerprint : command.intentFingerprint = .ok receipt.intentFingerprint
  type : command.commandType = receipt.commandType
  run : ∀ c, command = .existing c → receipt.runId = c.runId

/-- Prepared calls hold the run of their command, only deadline calls replay, and every
    stored outcome has its call, and as a deadline outcome its run. -/
structure Traced (s : MemorySystem) : Prop where
  replaying : ∀ call ∈ s.calls, ∀ outcome, call.phase = .replaying outcome →
    isDeadline call.command = true
  keyed : ∀ call ∈ s.calls, ∀ current m cand, call.phase = .prepared (some current) m cand →
    ∀ c, call.command = .existing c → (current.tenantId, current.runId) = (c.tenantId, c.runId)
  origin : ∀ key outcome, s.store.commands.get? key = some outcome →
    ∃ command ∈ s.calls.map Call.command, StoredBy key outcome.receipt command
  settled : ∀ key outcome, s.store.commands.get? key = some outcome →
    outcome.receipt.commandType = .enforceDeadline →
      ∃ run, Settled s (key.1, outcome.receipt.runId) outcome.receipt run

theorem keyed_step {s : MemorySystem} (hs : Sound s) (ht : Traced s) {label : Label (Option Failure)}
    {call : Call} (hcall : call ∈ (step memoryRepository s label).calls) {current : Run}
    {m : RunMutation} {cand : Candidate} (hphase : call.phase = .prepared (some current) m cand)
    {c : ExistingRunCommand} (hc : call.command = .existing c) :
    (current.tenantId, current.runId) = (c.tenantId, c.runId) := by
  rcases prepared_step hs hcall hphase with hold | ⟨-, hkey⟩
  · exact ht.keyed call hold current m cand hphase c hc
  · exact hkey c hc

theorem storedBy_of_prepared {s : MemorySystem} (hs : Sound s) (ht : Traced s) {call : Call}
    (hcall : call ∈ s.calls) {current : Option Run} {m : RunMutation} {cand : Candidate}
    (hphase : call.phase = .prepared current m cand) :
    StoredBy (MemoryStore.commandKey cand) cand.receipt call.command := by
  have hp := hs.prepared call hcall current m cand hphase
  obtain ⟨createdAt, hcand⟩ := hp.candidate_ok
  obtain ⟨fingerprint, hf, -, -, -, hreceipt⟩ := candidate_eq_ok hcand
  refine ⟨by simp [MemoryStore.commandKey, hreceipt], by rw [hf, hreceipt], by rw [hreceipt], ?_⟩
  intro c hc
  have hrun : cand.receipt.runId = m.run.runId := by rw [hreceipt]
  cases hp with
  | create c' hcreate =>
    rw [hcreate] at hc
    cases hc
  | existing c' _ before _ _ _ _ _ hperform =>
    have hkey := ht.keyed call hcall before m cand hphase c hc
    rw [hrun, (Run.perform_sameOrigin hperform).runId]
    exact congrArg Prod.snd hkey

/-- A stored deadline outcome stays settled: its run is terminal, and a call that
    loads it now loads the version after the deadline. -/
theorem Settled.step {s : MemorySystem} (hs : Sound s) (hr : Recorded s) {key : RunKey}
    {receipt : CommandReceipt} {run : Run} (h : Settled s key receipt run)
    (label : Label (Option Failure)) : Settled (step memoryRepository s label) key receipt run := by
  have hlogs := hs.store.logs key
  rw [h.stored] at hlogs
  obtain ⟨log, hlog⟩ := Option.isSome_iff_exists.mp hlogs.symm
  obtain ⟨run', log', hrun', -, hgrown⟩ := (step_stores hs hr label).1 key run log h.stored hlog
  obtain ⟨rfl, -⟩ := hgrown.final h.terminal
  refine ⟨hrun', h.version, h.terminal, ?_⟩
  intro call hcall current m cand hphase hkey hversion
  rcases prepared_step hs hcall hphase with hold | ⟨hstored, -⟩
  · exact h.enforced call hold current m cand hphase hkey hversion
  · rw [hkey, h.stored] at hstored
    obtain rfl := Option.some.inj hstored
    omega

/-- The commit of a deadline call settles its outcome: every other prepared call of
    the same version holds the run this call started from. -/
theorem settled_of_published {s : MemorySystem} (hs : Sound s) (hr : Recorded s)
    {label : Label (Option Failure)} {call : Call} (hmem : call ∈ s.calls) {current : Option Run}
    {m : RunMutation} {cand : Candidate} {outcome : CommitOutcome}
    (hphase : call.phase = .prepared current m cand) (hconsistent : cand.Consistent)
    (hstep : (step memoryRepository s label).store = s.store.published cand outcome)
    (hstores : s.store.Stores cand m) (htype : cand.receipt.commandType = .enforceDeadline) :
    Settled (step memoryRepository s label) (MemoryStore.runKey cand) cand.receipt m.run := by
  have hp := hs.prepared call hmem current m cand hphase
  cases hp with
  | create c hcommand _ _ _ _ _ _ hcand =>
    obtain ⟨_, -, -, -, -, hreceipt⟩ := candidate_eq_ok hcand
    rw [hreceipt, hcommand] at htype
    cases htype
  | existing c hcommand before eventId observedAt _ _ _ hperform hevents hcand =>
    obtain ⟨_, -, -, hupdated, -, hreceipt⟩ := candidate_eq_ok hcand
    have hop : c.operation = .enforceDeadline := by
      rw [hreceipt, hcommand] at htype
      revert htype
      change c.operation.commandType = .enforceDeadline → _
      cases c.operation <;> simp [Operation.commandType]
    rw [hop] at hperform
    have henforced : before.EnforcedAt observedAt m.run := ⟨eventId, m, hperform, hevents hop, rfl⟩
    have horigin := Run.perform_sameOrigin hperform
    have hkey : MemoryStore.runKey cand = (before.tenantId, before.runId) := by
      rw [MemoryStore.runKey, hupdated, horigin.tenantId, horigin.runId]
    obtain ⟨stored, hstored, hle, hsame⟩ := hr.base call hmem before m cand hphase
    -- the run the commit found is the one the call loaded
    have hbefore : s.store.runs.get? (MemoryStore.runKey cand) = some before := by
      rw [hkey, hstored]
      have hversion : m.run.version = stored.version + 1 := by
        cases hstores with
        | create hfree =>
          rw [hkey, hstored] at hfree
          cases hfree
        | operate found _ _ _ hfound hperform' =>
          rw [hkey, hstored] at hfound
          obtain rfl := Option.some.inj hfound
          rcases Run.perform_eq_ok hperform' with ⟨rfl, -⟩ | ⟨_, -, -, hchanged⟩
          · exact absurd rfl (hevents hop)
          · exact hchanged.advances.1
      have hafter := henforced.version
      rw [hsame (by omega)]
    refine ⟨?_, ?_, henforced.terminal, ?_⟩
    · rw [hstep, MemoryStore.get?_published_runs, if_pos rfl, hupdated]
    · rw [hconsistent.version, hupdated]
    · intro other hother current' m' cand' hphase' hkey' hversion
      have hcreated : cand.receipt.createdAt = observedAt := by rw [hreceipt]
      have hcurrent : current' = before := by
        have hafter := henforced.version
        rcases prepared_step hs hother hphase' with hold | ⟨hfound, -⟩
        · obtain ⟨run, hrun, -, heq⟩ := hr.base other hold current' m' cand' hphase'
          rw [hkey', hbefore] at hrun
          obtain rfl := Option.some.inj hrun
          exact (heq (by omega)).symm
        · rw [hkey', hbefore] at hfound
          exact (Option.some.inj hfound).symm
      rw [hcurrent, hcreated]
      exact henforced

theorem traced_step {s : MemorySystem} (hs : Sound s) (hr : Recorded s) (ht : Traced s)
    (label : Label (Option Failure)) : Traced (step memoryRepository s label) := by
  have hcommands := commands_step memoryRepository s label
  refine ⟨?_, fun _ hcall _ _ _ hphase _ hc => keyed_step hs ht hcall hphase hc, ?_, ?_⟩
  · intro call hcall outcome hphase
    rcases mem_calls_step hcall with hold | hbegun | ⟨_, _, _, -, -, rfl⟩
    · exact ht.replaying call hold outcome hphase
    · rw [hbegun] at hphase
      cases hphase
    · exact (advance_replaying hphase).1
  · intro key outcome hget
    rw [hcommands]
    have kept : s.store.commands.get? key = some outcome →
        ∃ command ∈ s.calls.map Call.command ++ invoked [label], StoredBy key outcome.receipt command := by
      intro hold
      obtain ⟨command, hmem, hby⟩ := ht.origin key outcome hold
      exact ⟨command, List.mem_append_left _ hmem, hby⟩
    rcases step_publishes hs hr label with h | ⟨call, hmem, current, m, cand, new, hphase, hreceipt, -, h, -⟩
    · exact kept (h ▸ hget)
    · rw [h, MemoryStore.get?_published_commands] at hget
      split_ifs at hget with hkey
      · obtain rfl := Option.some.inj hget
        refine ⟨call.command, List.mem_append_left _ (List.mem_map_of_mem hmem), ?_⟩
        rw [hkey, hreceipt]
        exact storedBy_of_prepared hs ht hmem hphase
      · exact kept hget
  · intro key outcome hget htype
    have kept : s.store.commands.get? key = some outcome →
        ∃ run, Settled (step memoryRepository s label) (key.1, outcome.receipt.runId) outcome.receipt run := by
      intro hold
      obtain ⟨run, hsettled⟩ := ht.settled key outcome hold htype
      exact ⟨run, hsettled.step hs hr label⟩
    rcases step_publishes hs hr label with
      h | ⟨call, hmem, current, m, cand, new, hphase, hreceipt, hconsistent, h, hstores⟩
    · exact kept (h ▸ hget)
    · have hnew := hget
      rw [h, MemoryStore.get?_published_commands] at hnew
      split_ifs at hnew with hkey
      · obtain rfl := Option.some.inj hnew
        have hrun : (key.1, new.receipt.runId) = MemoryStore.runKey cand := by
          rw [hkey, hreceipt]
          exact Prod.ext hconsistent.tenant hconsistent.run
        rw [hrun, hreceipt]
        exact ⟨m.run, settled_of_published hs hr hmem hphase hconsistent h hstores (hreceipt ▸ htype)⟩
      · exact kept hnew

theorem traced_invariant :
    (machine memoryRepository).Invariant fun s => (Sound s ∧ Recorded s) ∧ Traced s :=
  recorded_invariant.strengthen
    ⟨by simp [machine], by simp [machine], by simp [machine, memoryRepository, MemoryStore.empty],
      by simp [machine, memoryRepository, MemoryStore.empty]⟩
    fun _ label hs ht => traced_step hs.1 hs.2 ht label

/-- The repository has stored `run` under the key at this version. -/
def StoredAt (history : List (Label (Option Failure))) (key : RunKey) (version : ℕ) (run : Run) :
    Prop :=
  ∃ earlier, earlier <+: history ∧
    ((machine memoryRepository).run earlier).store.runs.get? key = some run ∧ run.version = version

/-- A deadline outcome with a command outcome has the run of its receipt. -/
def Carries (history : List (Label (Option Failure))) (result : Except Failure CallResult) : Prop :=
  ∀ run outcome, result = .ok (.deadline run (some outcome)) →
    StoredAt history (outcome.receipt.tenantId, outcome.receipt.runId)
      outcome.receipt.resultingVersion run

def StepCarries (earlier : List (Label (Option Failure))) (index : ℕ)
    (choice : Choice (Option Failure)) : Prop :=
  ∀ call, ((machine memoryRepository).run earlier).calls[index]? = some call →
    (∀ result, call.phase ≠ .finished result) →
      ∀ result, (advance memoryRepository ((machine memoryRepository).run earlier).store call
        choice).2 = .finished result → Carries (earlier ++ [.advance index choice]) result

/-- Whenever a deadline call is about to commit and its command is already stored, the
    other call started from the same version, and both readings have one effective time. -/
def SameReading (s : MemorySystem) (index : ℕ) : Prop :=
  ∀ c current m cand, s.calls[index]? = some ⟨.existing c, .prepared (some current) m cand⟩ →
    c.operation = .enforceDeadline → ∀ stored, s.store.outcomeOf (.existing c) = some stored →
      stored.receipt.resultingVersion = current.version + 1 ∧
        current.effectiveTime stored.receipt.createdAt =
          current.effectiveTime cand.receipt.createdAt

/-- No two documents under one tenant and command id have the same digest. -/
def Distinct (history : List (Label (Option Failure))) : Prop :=
  ∀ a ∈ invoked history, ∀ b ∈ invoked history, a.tenantId = b.tenantId → a.commandId = b.commandId →
    ∀ fingerprint, a.intentFingerprint = .ok fingerprint → b.intentFingerprint = .ok fingerprint →
      a.body = b.body

theorem storedAt_iff {history : List (Label (Option Failure))} {key : RunKey} {run run' : Run}
    (hget : ((machine memoryRepository).run history).store.runs.get? key = some run) :
    StoredAt history key run.version run' ↔ run' = run := by
  constructor
  · rintro ⟨earlier, ⟨later, rfl⟩, hearlier, hversion⟩
    have hs := recorded_invariant.run earlier
    have hlogs := hs.1.store.logs key
    rw [hearlier] at hlogs
    obtain ⟨log, hlog⟩ := Option.isSome_iff_exists.mp hlogs.symm
    obtain ⟨_, _, hrun, -, hgrown⟩ := grows_runFrom hs later key run' log hearlier hlog
    rw [← Machine.run_append, hget] at hrun
    obtain rfl := Option.some.inj hrun
    exact (hgrown.same hversion.symm).1.symm
  · rintro rfl
    exact ⟨history, List.prefix_refl _, hget, rfl⟩

/-- A stored outcome with the fingerprint of a deadline command is the outcome of a
    deadline call on the same run. -/
theorem deadline_of_outcome {history : List (Label (Option Failure))} (hdistinct : Distinct history)
    {c : ExistingRunCommand} (hc : .existing c ∈ invoked history) (hop : c.operation = .enforceDeadline)
    {stored : CommitOutcome}
    (hof : ((machine memoryRepository).run history).store.outcomeOf (.existing c) = some stored) :
    ∃ run, Settled ((machine memoryRepository).run history) (c.tenantId, c.runId) stored.receipt run ∧
      (stored.receipt.tenantId, stored.receipt.runId) = (c.tenantId, c.runId) := by
  obtain ⟨⟨hs, hr⟩, ht⟩ := traced_invariant.run history
  obtain ⟨hf, hget⟩ := outcomeOf_eq_some.mp hof
  obtain ⟨command, hmem, hby⟩ := ht.origin _ _ hget
  rw [commands_run] at hmem
  have hkey := Prod.mk.inj hby.key
  have hbody := hdistinct command hmem (.existing c) hc hkey.1 hkey.2 _ hby.fingerprint hf
  cases command with
  | create _ => exact absurd (Command.body_eq_iff.mp hbody) id
  | existing other =>
    obtain ⟨-, hrun, hpayload⟩ := Command.body_eq_iff.mp hbody
    have htype : stored.receipt.commandType = .enforceDeadline := by
      rw [← hby.type]
      exact (Operation.payload_eq_iff.mpr hpayload).1.trans (by rw [hop]; rfl)
    have hid : stored.receipt.runId = c.runId := (hby.run other rfl).trans hrun
    obtain ⟨run, hsettled⟩ := ht.settled _ _ hget htype
    have htenant : stored.receipt.tenantId = c.tenantId := (hs.store.backed _ _ hget).tenant
    refine ⟨run, hid ▸ hsettled, ?_⟩
    rw [htenant, hid]

/-- The commit of a deadline call: replayed, it needs the same reading; stored, it
    returns what it stores. -/
theorem carries_commit {earlier : List (Label (Option Failure))} (hdistinct : Distinct earlier)
    {index : ℕ} {choice : Choice (Option Failure)} {c : ExistingRunCommand} {current : Run}
    {m : RunMutation} {cand : Candidate}
    (hcall : ((machine memoryRepository).run earlier).calls[index]? =
      some ⟨.existing c, .prepared (some current) m cand⟩)
    (hop : c.operation = .enforceDeadline) :
    (∀ outcome, (((machine memoryRepository).run earlier).store.commit choice.context cand).2 =
        .ok outcome →
      StoredAt (earlier ++ [.advance index choice]) (outcome.receipt.tenantId, outcome.receipt.runId)
        outcome.receipt.resultingVersion m.run) ↔
    ∀ stored, ((machine memoryRepository).run earlier).store.outcomeOf (.existing c) = some stored →
      stored.receipt.resultingVersion = current.version + 1 ∧
        current.effectiveTime stored.receipt.createdAt =
          current.effectiveTime cand.receipt.createdAt := by
  have hstore : ((machine memoryRepository).run (earlier ++ [.advance index choice])).store =
      (((machine memoryRepository).run earlier).store.commit choice.context cand).1 := by
    rw [Machine.run_concat]
    change (step memoryRepository _ (.advance index choice)).store = _
    simp only [step, hcall]
    rfl
  obtain ⟨⟨hs, hr⟩, ht⟩ := traced_invariant.run earlier
  have hmem := List.mem_of_getElem? hcall
  have hc : Command.existing c ∈ invoked earlier := by
    rw [← commands_run memoryRepository]
    exact List.mem_map_of_mem hmem
  have hp := hs.prepared _ hmem _ _ _ rfl
  have hkeyed := ht.keyed _ hmem current m cand rfl c rfl
  obtain ⟨createdAt, hcand⟩ := hp.candidate_ok
  obtain ⟨_, -, -, hupdated, -, hreceipt⟩ := candidate_eq_ok hcand
  have henforced : current.EnforcedAt cand.receipt.createdAt m.run := by
    cases hp with
    | existing c' hc' _ eventId observedAt _ _ _ hperform hevents hcand' =>
      obtain rfl := Command.existing.inj hc'
      obtain ⟨_, -, -, -, -, hreceipt'⟩ := candidate_eq_ok hcand'
      have hcreated : cand.receipt.createdAt = observedAt := by rw [hreceipt']
      rw [hcreated]
      exact ⟨eventId, m, hop ▸ hperform, hevents hop, rfl⟩
  have hcommits := ((machine memoryRepository).run earlier).store.commit_commits choice.context cand
  generalize (((machine memoryRepository).run earlier).store.commit choice.context cand).1 = t
    at hstore hcommits
  generalize (((machine memoryRepository).run earlier).store.commit choice.context cand).2 = result
    at hcommits ⊢
  have outcome_iff : ∀ stored,
      ((machine memoryRepository).run earlier).store.outcomeOf (.existing c) = some stored ↔
        ((machine memoryRepository).run earlier).store.commands.get? (MemoryStore.commandKey cand) =
          some stored ∧ stored.receipt.intentFingerprint = cand.receipt.intentFingerprint :=
    fun _ => candidate_outcome hcand
  cases hcommits with
  | raised e hother =>
    refine iff_of_true (by simp) fun stored hof => ?_
    obtain ⟨hget, hsame⟩ := (outcome_iff stored).mp hof
    exact absurd hsame (hother stored hget)
  | stored outcome hfree _ hconsistent _ hsame =>
    refine iff_of_true (fun returned he => ?_) fun stored hof => ?_
    · obtain rfl := Except.ok.inj he
      have hrun : ((machine memoryRepository).run (earlier ++ [.advance index choice])).store.runs.get?
          (MemoryStore.runKey cand) = some m.run := by
        rw [hstore, MemoryStore.get?_published_runs, if_pos rfl, hupdated]
      have hkey : (outcome.receipt.tenantId, outcome.receipt.runId) = MemoryStore.runKey cand := by
        rw [hsame]
        exact Prod.ext hconsistent.tenant hconsistent.run
      rw [hkey, hsame, hconsistent.version, hupdated]
      exact (storedAt_iff hrun).mpr rfl
    · obtain ⟨hget, -⟩ := (outcome_iff stored).mp hof
      rw [hfree] at hget
      cases hget
  | replayed existing hget hsame =>
    have hof := (outcome_iff existing).mpr ⟨hget, hsame⟩
    obtain ⟨run, hsettled, hkey⟩ := deadline_of_outcome hdistinct hc hop hof
    have hrun : ((machine memoryRepository).run (earlier ++ [.advance index choice])).store.runs.get?
        (c.tenantId, c.runId) = some run := by
      rw [hstore]
      exact hsettled.stored
    have hcarries : StoredAt (earlier ++ [.advance index choice])
        (existing.receipt.tenantId, existing.receipt.runId) existing.receipt.resultingVersion m.run ↔
          m.run = run := by
      rw [hkey, ← hsettled.version]
      exact storedAt_iff hrun
    have hversion := henforced.version
    have readings : current.version + 1 = run.version → (m.run = run ↔
        current.effectiveTime existing.receipt.createdAt =
          current.effectiveTime cand.receipt.createdAt) := fun hv =>
      (henforced.eq_iff (hsettled.enforced _ hmem current m cand rfl hkeyed hv)).trans eq_comm
    constructor
    · intro h stored hstored
      obtain rfl := Option.some.inj (hof.symm.trans hstored)
      have heq := hcarries.mp (h existing.asReplayed rfl)
      have hv : current.version + 1 = run.version := by rw [← heq, hversion]
      exact ⟨by rw [← hsettled.version, hv], (readings hv).mp heq⟩
    · intro h outcome he
      obtain rfl := Except.ok.inj he
      obtain ⟨hv, hreading⟩ := h existing hof
      rw [← hsettled.version] at hv
      exact hcarries.mpr ((readings hv.symm).mpr hreading)

theorem stepCarries_iff {earlier : List (Label (Option Failure))} (hdistinct : Distinct earlier)
    (index : ℕ) (choice : Choice (Option Failure)) :
    StepCarries earlier index choice ↔ SameReading ((machine memoryRepository).run earlier) index := by
  obtain ⟨⟨hs, -⟩, ht⟩ := traced_invariant.run earlier
  constructor
  · intro h c current m cand hcall hop
    have hiff := @carries_commit earlier hdistinct index choice c current m cand hcall hop
    refine hiff.mp fun outcome hcommit => ?_
    have hdeadline : isDeadline (.existing c) = true := decide_eq_true hop
    refine h _ hcall (by simp) (.ok (.deadline m.run (some outcome))) ?_ m.run outcome rfl
    change settle (((machine memoryRepository).run earlier).store.commit choice.context cand).2
      (afterCommit (.existing c) m) = _
    simp only [hcommit, settle, afterCommit, hdeadline, if_true]
  · rintro h call hcall hopen result hresult run outcome rfl
    have hmem := List.mem_of_getElem? hcall
    obtain ⟨command, phase⟩ := call
    rcases advance_deadline hopen hresult with
      ⟨hphase, hload⟩ | ⟨current, m, cand, hphase, hdeadline, rfl, hcommit⟩
    · cases hphase
      obtain ⟨stored, hof, rfl⟩ := hs.replaying _ hmem _ rfl
      have hdeadline := ht.replaying _ hmem _ rfl
      cases command with
      | create _ => cases hdeadline
      | existing c =>
        have hop : c.operation = .enforceDeadline := of_decide_eq_true hdeadline
        have hc : Command.existing c ∈ invoked earlier := by
          rw [← commands_run memoryRepository]
          exact List.mem_map_of_mem hmem
        obtain ⟨stopped, hsettled, hkey⟩ := deadline_of_outcome hdistinct hc hop hof
        have hsame : stopped = run := by
          have hget : ((machine memoryRepository).run earlier).store.runs.get?
              (c.tenantId, stored.receipt.runId) = some run := Except.ok.inj hload
          rw [(Prod.mk.inj hkey).2, hsettled.stored] at hget
          exact Option.some.inj hget
        have hrun : ((machine memoryRepository).run (earlier ++ [.advance index choice])).store.runs.get?
            (c.tenantId, c.runId) = some stopped := by
          rw [Machine.run_concat]
          change (step memoryRepository _ (.advance index choice)).store.runs.get? _ = _
          simp only [step, hcall]
          exact hsettled.stored
        change StoredAt _ (stored.receipt.tenantId, stored.receipt.runId)
          stored.receipt.resultingVersion run
        rw [hkey, ← hsettled.version, ← hsame]
        exact (storedAt_iff hrun).mpr rfl
    · cases hphase
      cases command with
      | create _ => cases hdeadline
      | existing c =>
        have hop : c.operation = .enforceDeadline := of_decide_eq_true hdeadline
        have hp := hs.prepared _ hmem _ _ _ rfl
        cases hp with
        | create _ hcreate => cases hcreate
        | existing _ _ before =>
          exact (carries_commit hdistinct hcall hop).mpr (h c before m cand hcall hop) outcome hcommit

/-- Every deadline outcome of the history carries the stored run of its receipt. -/
def CarriesStored (history : List (Label (Option Failure))) : Prop :=
  ∀ earlier index choice later, history = earlier ++ .advance index choice :: later →
    StepCarries earlier index choice

/-- No deadline call of the history commits after a duplicate that read another time. -/
def SameReadings (history : List (Label (Option Failure))) : Prop :=
  ∀ earlier index choice later, history = earlier ++ .advance index choice :: later →
    SameReading ((machine memoryRepository).run earlier) index

theorem deadline_outcomes_iff (history : List (Label (Option Failure)))
    (hdistinct : Distinct history) : CarriesStored history ↔ SameReadings history := by
  have step : ∀ earlier index choice later, history = earlier ++ .advance index choice :: later →
      (StepCarries earlier index choice ↔
        SameReading ((machine memoryRepository).run earlier) index) := by
    rintro earlier index choice later rfl
    refine stepCarries_iff (fun a ha b hb => hdistinct a ?_ b ?_) index choice
    · exact invoked_append earlier _ ▸ List.mem_append_left _ ha
    · exact invoked_append earlier _ ▸ List.mem_append_left _ hb
  constructor
  · intro h earlier index choice later hsplit
    exact (step earlier index choice later hsplit).mp (h earlier index choice later hsplit)
  · intro h earlier index choice later hsplit
    exact (step earlier index choice later hsplit).mpr (h earlier index choice later hsplit)

end MemorySystem

namespace Sample

def deadlineCommand : ExistingRunCommand :=
  ⟨tenant, ⟨"deadline-1", by decide⟩, runId, 1, .enforceDeadline⟩

theorem deadline_atMost : ((1000 : ℕ) : ℤ) * DateTime.second ≤ maxMicros := by
  decide

def onTime : Choice (Option Failure) := ⟨instant 1000 deadline_atMost, "run-1", event2.value, none⟩

def later : Choice (Option Failure) := ⟨instant 1001 (by decide), "run-1", event3.value, none⟩

theorem deadlineCommand_fingerprint : ∃ s, deadlineCommand.intentFingerprint = .ok s :=
  fingerprint_of_withinStrDigits (by decide +kernel)

theorem queuedRun_limited (observedAt : DateTime) (eventId : EventId)
    (hlate : queuedRun.budget.deadlineAt ≤ queuedRun.effectiveTime observedAt) :
    ∃ m event, queuedRun.perform observedAt eventId .enforceDeadline = .ok m ∧
      m.events = [event] ∧ event.eventId = eventId := by
  obtain ⟨m, hm⟩ := queuedRun.enforceDeadline_ok observedAt eventId
  have hperform : queuedRun.perform observedAt eventId .enforceDeadline = .ok m := hm
  rcases Run.perform_eq_ok hperform with ⟨-, hkeeps⟩ | ⟨c, -, -, hchanged⟩
  · cases hkeeps with
    | terminal ht => cases ht
    | early hearly => exact absurd hlate (not_le.mpr hearly)
  · obtain ⟨event, hevents, hevent⟩ := hchanged.event
    exact ⟨m, event, hm, hevents, by rw [hevent]; rfl⟩

end Sample

namespace MemorySystem
open Sample

/-- Two calls of one deadline command load the run at two readings, and the first one
    commits. -/
def deadlineHistory : List (Label (Option Failure)) := createHistory ++ [
  .invoke (.existing deadlineCommand), .invoke (.existing deadlineCommand),
  .advance 1 onTime, .advance 2 later, .advance 1 onTime, .advance 2 later, .advance 1 onTime]

theorem deadlineHistory_distinct : Distinct (deadlineHistory ++ [.advance 2 later]) := by
  have hne : createCommand.commandId ≠ deadlineCommand.commandId := by decide
  intro a ha b hb htenant hcommand fingerprint hfa hfb
  have hinvoked : invoked (deadlineHistory ++ [.advance 2 later]) =
      [.create createCommand, .existing deadlineCommand, .existing deadlineCommand] := rfl
  simp only [hinvoked, List.mem_cons, List.not_mem_nil, or_false, or_self] at ha hb
  rcases ha with rfl | rfl <;> rcases hb with rfl | rfl
  · rfl
  · exact absurd hcommand hne
  · exact absurd hcommand.symm hne
  · rfl

theorem deadline_readings_differ :
    ¬ SameReading ((machine memoryRepository).run deadlineHistory) 2 := by
  obtain ⟨created, phase, hrunning, hload, hfree, hids⟩ := run_createHistory
  have hfree := hfree deadlineCommand.commandId (by decide)
  obtain ⟨fs, hf⟩ := deadlineCommand_fingerprint
  obtain ⟨m, event, hm, hone, hevent⟩ := queuedRun_limited onTime.observedAt event2
    (by decide)
  obtain ⟨m', event', hm', hone', -⟩ := queuedRun_limited later.observedAt event3
    (by decide)
  obtain ⟨cand, hcand⟩ := candidate_ok m onTime.observedAt
    (show (Command.existing deadlineCommand).intentFingerprint = _ from hf)
  obtain ⟨cand', hcand'⟩ := candidate_ok m' later.observedAt
    (show (Command.existing deadlineCommand).intentFingerprint = _ from hf)
  have hp : Prepared (.existing deadlineCommand) (some queuedRun) m cand :=
    .existing deadlineCommand rfl queuedRun event2 onTime.observedAt _ _ rfl hm (by simp [hone]) hcand
  obtain ⟨_, -, hexpected, hrun, hevents, hreceipt⟩ := candidate_eq_ok hcand
  obtain ⟨_, -, -, -, -, hreceipt'⟩ := candidate_eq_ok hcand'
  have horigin := Run.perform_sameOrigin hm
  have hkey : MemoryStore.runKey cand = (tenant, runId) := by
    rw [MemoryStore.runKey, hrun, horigin.tenantId, horigin.runId]
    rfl
  have hid : MemoryStore.commandKey cand = (tenant, deadlineCommand.commandId) := by
    rw [MemoryStore.commandKey, hreceipt]
    rfl
  have hget : created.runs.get? (tenant, runId) = some queuedRun := hload
  obtain ⟨outcome, hsame, -, hcommit⟩ := MemoryStore.commit_of_shape (hid ▸ hfree)
    (by rw [hexpected, hkey, hget]; rfl) (hp.consistent horigin.tenantId) (by
      rw [hkey, hget]
      refine hp.shape ?_
      simp only [hone, List.mem_singleton, forall_eq, hids, hevent, decide_eq_false_iff_not,
        Finset.mem_singleton]
      decide)
  have hlook : ∀ choice, advance memoryRepository created ⟨.existing deadlineCommand, .begun⟩ choice =
      (created, .looked) := by
    intro choice
    refine advance_lookup hf ?_
    change MemoryStore.findCommand created tenant deadlineCommand.commandId fs = _
    rw [MemoryStore.findCommand, hfree]
  have hprepare : advance memoryRepository created ⟨.existing deadlineCommand, .looked⟩ onTime =
      (created, .prepared (some queuedRun) m cand) :=
    advance_load (congrArg Except.ok hload) rfl hm (by simp [hone]) hcand
  have hprepare' : advance memoryRepository created ⟨.existing deadlineCommand, .looked⟩ later =
      (created, .prepared (some queuedRun) m' cand') :=
    advance_load (congrArg Except.ok hload) rfl hm' (by simp [hone']) hcand'
  have hstore : advance memoryRepository created
      ⟨.existing deadlineCommand, .prepared (some queuedRun) m cand⟩ onTime =
        (created.published cand outcome, afterCommit (.existing deadlineCommand) m outcome) :=
    advance_commit hcommit
  have hend : ((machine memoryRepository).run deadlineHistory).store =
        created.published cand outcome ∧
      ((machine memoryRepository).run deadlineHistory).calls[2]? =
        some ⟨.existing deadlineCommand, .prepared (some queuedRun) m' cand'⟩ := by
    have hstep : (machine memoryRepository).step = step memoryRepository := rfl
    simp [deadlineHistory, Machine.run_append, hrunning, hstep, step, hlook, hprepare, hprepare',
      hstore]
  obtain ⟨hstored, hcall⟩ := hend
  intro hfine
  have hof : (created.published cand outcome).outcomeOf (.existing deadlineCommand) = some outcome := by
    rw [candidate_outcome hcand, MemoryStore.get?_published_commands, if_pos rfl, hsame]
    exact ⟨rfl, rfl⟩
  obtain ⟨-, hreading⟩ := hfine deadlineCommand queuedRun m' cand' hcall rfl outcome (hstored ▸ hof)
  rw [hsame, hreceipt, hreceipt'] at hreading
  have hne : queuedRun.effectiveTime onTime.observedAt ≠ queuedRun.effectiveTime later.observedAt := by
    decide
  exact hne hreading

/-- A history in which a deadline outcome pairs the run of one reading with the receipt
    of another. -/
theorem later_reading_not_stored :
    ¬ CarriesStored (deadlineHistory ++ [.advance 2 later]) := by
  intro h
  have hdistinct : Distinct deadlineHistory := fun a ha b hb => deadlineHistory_distinct a
    (invoked_append deadlineHistory _ ▸ List.mem_append_left _ ha) b
    (invoked_append deadlineHistory _ ▸ List.mem_append_left _ hb)
  exact deadline_readings_differ
    ((stepCarries_iff hdistinct 2 later).mp (h deadlineHistory 2 later [] rfl))

theorem deadline_outcomes_of_deadlineHistory :
    Distinct (deadlineHistory ++ [.advance 2 later]) ∧
      (CarriesStored (deadlineHistory ++ [.advance 2 later]) ↔
        SameReadings (deadlineHistory ++ [.advance 2 later])) :=
  ⟨deadlineHistory_distinct, deadline_outcomes_iff _ deadlineHistory_distinct⟩

end MemorySystem
end Zhiyi
