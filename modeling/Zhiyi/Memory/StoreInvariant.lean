import Zhiyi.Domain.Transitions
import Zhiyi.Library.Machine
import Zhiyi.Memory.RunRepository

set_option autoImplicit false

/-! The joint invariant of the four collections, for arbitrary commit
candidates: nothing is assumed about runs, events, receipts or versions beyond
what their constructors check. -/
namespace Zhiyi
open Python Interleaving

/-- One commit call: its arguments, and what the hook would raise. -/
structure CommitCall where
  beforeSwap : Option Failure
  candidate : Candidate

namespace MemoryStore

def machine : Machine MemoryStore CommitCall where
  start := empty
  step s call := (s.commit call.beforeSwap call.candidate).1

def Numbered (run : Run) (log : List RunEvent) : Prop :=
  log.map (·.sequence) = List.range' 1 run.version

/-- What an outcome stored under a key must find in the store. -/
structure Backed (s : MemoryStore) (key : CommandKey) (outcome : CommitOutcome) : Prop where
  tenant : outcome.receipt.tenantId = key.1
  command : outcome.receipt.commandId = key.2
  fresh : outcome.replayed = false
  evidence :
    (∃ event log, outcome.events = [event] ∧
      s.events.get? (outcome.receipt.tenantId, outcome.receipt.runId) = some log ∧ event ∈ log ∧
      event.sequence = outcome.receipt.resultingVersion) ∨
    (outcome.events = [] ∧ ∃ run,
      s.runs.get? (outcome.receipt.tenantId, outcome.receipt.runId) = some run ∧
      outcome.receipt.resultingVersion ≤ run.version)

structure StoreInvariant (s : MemoryStore) : Prop where
  runKeys : ∀ key run, s.runs.get? key = some run → (run.tenantId, run.runId) = key
  logs : ∀ key, (s.runs.get? key).isSome = (s.events.get? key).isSome
  numbered : ∀ key run log, s.runs.get? key = some run → s.events.get? key = some log →
    Numbered run log
  owned : ∀ key log, s.events.get? key = some log →
    ∀ event ∈ log, (event.tenantId, event.runId) = key
  unique : ∀ key log, s.events.get? key = some log → (log.map (·.eventId)).Nodup
  disjoint : ∀ key key' log log', s.events.get? key = some log → s.events.get? key' = some log' →
    ∀ event ∈ log, ∀ event' ∈ log', event.eventId = event'.eventId → key = key'
  index : ∀ id, id ∈ s.eventIds ↔ ∃ key log, s.events.get? key = some log ∧
    ∃ event ∈ log, event.eventId = id
  backed : ∀ key outcome, s.commands.get? key = some outcome → s.Backed key outcome

theorem storeInvariant_empty : StoreInvariant empty := by
  constructor
  all_goals simp [empty]

variable {s : MemoryStore} {c : Candidate} {outcome : CommitOutcome}

/-- What every stored commit adds to the log of its run: nothing, or one event
    with the run's new version as its sequence and an unused id. -/
theorem shape_events (hs : StoreInvariant s)
    (hversion : c.expectedVersion = ((s.runs.get? (runKey c)).map (·.version)).getD 0)
    (hshape : c.Shape (fun id => decide (id ∈ s.eventIds)) (s.runs.get? (runKey c))) :
    Numbered c.updatedRun ((s.events.get? (runKey c)).getD [] ++ c.newEvents) ∧
    (∀ event ∈ c.newEvents, (event.tenantId, event.runId) = runKey c ∧ event.eventId ∉ s.eventIds) ∧
    (c.newEvents = [] ∨ ∃ event, c.newEvents = [event] ∧ event.sequence = c.updatedRun.version) := by
  have hlogs := hs.logs (runKey c)
  generalize hrun : s.runs.get? (runKey c) = current at hversion hshape hlogs
  cases hshape with
  | create event hevents hexpected hone htenant hrunId hsequence hfree =>
    have hnone : s.events.get? (runKey c) = none := by
      simpa using hlogs.symm
    refine ⟨?_, ?_, .inr ⟨event, hevents, hsequence.trans hone.symm⟩⟩
    · simp [Numbered, hnone, hevents, hsequence, hone]
    · simp [hevents, runKey, htenant, hrunId, of_decide_eq_false hfree]
  | update current event hevents hexpected hnew htenant hrunId hsequence hnext hfree =>
    obtain ⟨log, hlog⟩ := Option.isSome_iff_exists.mp (hlogs.symm.trans rfl)
    have hnum := hs.numbered _ _ _ hrun hlog
    have hcurrent : c.expectedVersion = current.version := by simpa using hversion
    have hseq : event.sequence = c.updatedRun.version := by
      rw [hsequence, current.sound.sequence, hnew, hcurrent]
    refine ⟨?_, ?_, .inr ⟨event, hevents, hseq⟩⟩
    · unfold Numbered at hnum ⊢
      rw [hlog, Option.getD_some, hevents, List.map_append, hnum, hnew, hcurrent,
        List.range'_1_concat, List.map_cons, List.map_nil, hsequence, current.sound.sequence,
        Nat.add_comm]
    · simp [hevents, runKey, htenant, hrunId, of_decide_eq_false hfree]
  | record current hevents hexpected hsame hnext =>
    obtain ⟨log, hlog⟩ := Option.isSome_iff_exists.mp (hlogs.symm.trans rfl)
    have hnum := hs.numbered _ _ _ hrun hlog
    have hequal : c.updatedRun.version = current.version := by
      have h1 := c.updatedRun.sound.sequence
      have h2 := current.sound.sequence
      omega
    refine ⟨?_, ?_, .inl hevents⟩
    · unfold Numbered at hnum ⊢
      rw [hlog, Option.getD_some, hevents, List.append_nil, hnum, hequal]
    · simp [hevents]

theorem get?_published_runs (key : RunKey) :
    (s.published c outcome).runs.get? key =
      if key = runKey c then some c.updatedRun else s.runs.get? key :=
  Table.get?_set _ _ _ _

theorem get?_published_events (key : RunKey) :
    (s.published c outcome).events.get? key =
      if key = runKey c then some ((s.events.get? (runKey c)).getD [] ++ c.newEvents)
      else s.events.get? key :=
  Table.get?_set _ _ _ _

theorem get?_published_commands (key : CommandKey) :
    (s.published c outcome).commands.get? key =
      if key = commandKey c then some outcome else s.commands.get? key :=
  Table.get?_set _ _ _ _

/-- Every stored event is still in its log after a commit. -/
theorem log_kept (c : Candidate) (outcome : CommitOutcome) {key : RunKey} {log : List RunEvent}
    (h : s.events.get? key = some log) :
    ∃ log', (s.published c outcome).events.get? key = some (log ++ log') := by
  rw [get?_published_events]
  split_ifs with hk
  · subst hk
    exact ⟨c.newEvents, by rw [h]; rfl⟩
  · exact ⟨[], by rw [h, List.append_nil]⟩

/-- The events of a log are old ones of the same key, or the candidate's. -/
theorem mem_published {key : RunKey} {log : List RunEvent} {event : RunEvent}
    (h : (s.published c outcome).events.get? key = some log) (hmem : event ∈ log) :
    (∃ log', s.events.get? key = some log' ∧ event ∈ log') ∨
      (key = runKey c ∧ event ∈ c.newEvents) := by
  rw [get?_published_events] at h
  split_ifs at h with hk
  · subst hk
    cases Option.some.inj h
    rcases List.mem_append.mp hmem with hmem | hmem
    · cases hold : s.events.get? (runKey c) with
      | none => simp [hold] at hmem
      | some log' => exact .inl ⟨log', rfl, by simpa [hold] using hmem⟩
    · exact .inr ⟨rfl, hmem⟩
  · exact .inl ⟨log, h, hmem⟩

/-- An event that is new to the store shares its id with no stored event. -/
theorem StoreInvariant.apart (hs : StoreInvariant s) {key : RunKey} {log : List RunEvent}
    {event : RunEvent} (hlog : s.events.get? key = some log) (hmem : event ∈ log) {fresh : RunEvent}
    (hfresh : fresh.eventId ∉ s.eventIds) : event.eventId ≠ fresh.eventId := by
  intro he
  exact hfresh ((hs.index _).mpr ⟨key, log, hlog, event, hmem, he⟩)

/-- The candidate's events: none, or one whose id is new to the store. -/
def Appends (s : MemoryStore) (c : Candidate) : Prop :=
  (∀ event ∈ c.newEvents, (event.tenantId, event.runId) = runKey c ∧ event.eventId ∉ s.eventIds) ∧
    (c.newEvents = [] ∨ ∃ event, c.newEvents = [event] ∧ event.sequence = c.updatedRun.version)

theorem Appends.nodup (h : s.Appends c) : (c.newEvents.map (·.eventId)).Nodup := by
  rcases h.2 with he | ⟨event, he, -⟩ <;> simp [he]

theorem StoreInvariant.unique_published (hs : StoreInvariant s) (ha : s.Appends c) {key : RunKey}
    {log : List RunEvent} (hlog : (s.published c outcome).events.get? key = some log) :
    (log.map (·.eventId)).Nodup := by
  rw [get?_published_events] at hlog
  split_ifs at hlog with hk
  · cases Option.some.inj hlog
    rw [List.map_append, List.nodup_append]
    cases hold : s.events.get? (runKey c) with
    | none => exact ⟨by simp, ha.nodup, by simp⟩
    | some log' =>
      refine ⟨hs.unique _ _ hold, ha.nodup, ?_⟩
      intro a hmem b hmem' hab
      obtain ⟨event, hevent, rfl⟩ := List.mem_map.mp hmem
      obtain ⟨fresh, hfresh, rfl⟩ := List.mem_map.mp hmem'
      exact hs.apart hold hevent (ha.1 fresh hfresh).2 hab
  · exact hs.unique _ _ hlog

theorem StoreInvariant.disjoint_published (hs : StoreInvariant s) (ha : s.Appends c)
    {key key' : RunKey} {log log' : List RunEvent}
    (hlog : (s.published c outcome).events.get? key = some log)
    (hlog' : (s.published c outcome).events.get? key' = some log')
    {event event' : RunEvent} (hmem : event ∈ log) (hmem' : event' ∈ log')
    (hid : event.eventId = event'.eventId) : key = key' := by
  rcases mem_published hlog hmem with ⟨old, hold, hmem⟩ | ⟨hk, hmem⟩
  · rcases mem_published hlog' hmem' with ⟨old', hold', hmem'⟩ | ⟨hk', hmem'⟩
    · exact hs.disjoint _ _ _ _ hold hold' event hmem event' hmem' hid
    · exact absurd hid (hs.apart hold hmem (ha.1 event' hmem').2)
  · rcases mem_published hlog' hmem' with ⟨old', hold', hmem'⟩ | ⟨hk', hmem'⟩
    · exact absurd hid.symm (hs.apart hold' hmem' (ha.1 event hmem).2)
    · exact hk.trans hk'.symm

theorem StoreInvariant.index_published (hs : StoreInvariant s) (id : EventId) :
    id ∈ (s.published c outcome).eventIds ↔
      ∃ key log, (s.published c outcome).events.get? key = some log ∧
        ∃ event ∈ log, event.eventId = id := by
  have hunion : id ∈ (s.published c outcome).eventIds ↔
      id ∈ s.eventIds ∨ ∃ event ∈ c.newEvents, event.eventId = id := by
    simp [published]
  rw [hunion, hs.index]
  constructor
  · rintro (⟨key, log, hlog, event, hmem, rfl⟩ | ⟨event, hmem, rfl⟩)
    · obtain ⟨log', hlog'⟩ := log_kept c outcome hlog
      exact ⟨key, _, hlog', event, List.mem_append_left _ hmem, rfl⟩
    · refine ⟨runKey c, _, by rw [get?_published_events, if_pos rfl], event, ?_, rfl⟩
      exact List.mem_append_right _ hmem
  · rintro ⟨key, log, hlog, event, hmem, rfl⟩
    rcases mem_published hlog hmem with ⟨log', hlog', hmem⟩ | ⟨-, hmem⟩
    · exact .inl ⟨key, log', hlog', event, hmem, rfl⟩
    · exact .inr ⟨event, hmem, rfl⟩

/-- A stored outcome stays backed: logs only grow and versions only rise. -/
theorem Backed.published {key : CommandKey} {old : CommitOutcome} (h : s.Backed key old)
    (hrise : ∀ run, s.runs.get? (runKey c) = some run → run.version ≤ c.updatedRun.version) :
    (s.published c outcome).Backed key old := by
  refine ⟨h.tenant, h.command, h.fresh, ?_⟩
  rcases h.evidence with ⟨event, log, hevents, hlog, hmem, hseq⟩ | ⟨hevents, run, hrun, hle⟩
  · obtain ⟨log', hlog'⟩ := log_kept c outcome hlog
    exact .inl ⟨event, _, hevents, hlog', List.mem_append_left _ hmem, hseq⟩
  · refine .inr ⟨hevents, ?_⟩
    rw [get?_published_runs]
    split_ifs with hk
    · exact ⟨c.updatedRun, rfl, hle.trans (hrise run (hk ▸ hrun))⟩
    · exact ⟨run, hrun, hle⟩

theorem shape_rises (hversion : c.expectedVersion = ((s.runs.get? (runKey c)).map (·.version)).getD 0)
    (hshape : c.Shape (fun id => decide (id ∈ s.eventIds)) (s.runs.get? (runKey c))) :
    ∀ run, s.runs.get? (runKey c) = some run → run.version ≤ c.updatedRun.version := by
  intro run hrun
  rw [hrun] at hshape hversion
  have hexpected : c.expectedVersion = run.version := by simpa using hversion
  cases hshape with
  | update _ event hevents _ hnew => omega
  | record _ hevents _ hsame hnext =>
    have h1 := c.updatedRun.sound.sequence
    have h2 := run.sound.sequence
    omega

theorem backed_new (ha : s.Appends c) (hconsistent : c.Consistent)
    (hreceipt : outcome.receipt = c.receipt) (hevents : outcome.events = c.newEvents)
    (hnew : outcome.replayed = false) :
    (s.published c outcome).Backed (commandKey c) outcome := by
  have hkey : (outcome.receipt.tenantId, outcome.receipt.runId) = runKey c := by
    rw [hreceipt, hconsistent.tenant, hconsistent.run]
    rfl
  refine ⟨by rw [hreceipt]; rfl, by rw [hreceipt]; rfl, hnew, ?_⟩
  rw [hkey, hreceipt, hconsistent.version, hevents]
  rcases ha.2 with he | ⟨event, he, hseq⟩
  · exact .inr ⟨he, c.updatedRun, by rw [get?_published_runs, if_pos rfl], le_rfl⟩
  · refine .inl ⟨event, _, he, by rw [get?_published_events, if_pos rfl], ?_, hseq⟩
    exact List.mem_append_right _ (by rw [he]; exact List.mem_singleton_self _)

theorem StoreInvariant.published (hs : StoreInvariant s)
    (hversion : c.expectedVersion = ((s.runs.get? (runKey c)).map (·.version)).getD 0)
    (hconsistent : c.Consistent)
    (hshape : c.Shape (fun id => decide (id ∈ s.eventIds)) (s.runs.get? (runKey c)))
    (hreceipt : outcome.receipt = c.receipt) (hevents : outcome.events = c.newEvents)
    (hnew : outcome.replayed = false) : StoreInvariant (s.published c outcome) := by
  obtain ⟨hnum, hfresh, hone⟩ := shape_events hs hversion hshape
  have ha : s.Appends c := ⟨hfresh, hone⟩
  constructor
  case runKeys =>
    intro key run hrun
    rw [get?_published_runs] at hrun
    split_ifs at hrun with hk
    · cases Option.some.inj hrun
      exact hk.symm
    · exact hs.runKeys key run hrun
  case logs =>
    intro key
    rw [get?_published_runs, get?_published_events]
    split_ifs with hk
    · rfl
    · exact hs.logs key
  case numbered =>
    intro key run log hrun hlog
    rw [get?_published_runs] at hrun
    rw [get?_published_events] at hlog
    split_ifs at hrun hlog with hk
    · cases Option.some.inj hrun
      cases Option.some.inj hlog
      exact hnum
    · exact hs.numbered key run log hrun hlog
  case owned =>
    intro key log hlog event hmem
    rcases mem_published hlog hmem with ⟨log', hlog', hmem⟩ | ⟨hk, hmem⟩
    · exact hs.owned key log' hlog' event hmem
    · exact (hfresh event hmem).1.trans hk.symm
  case unique => exact fun key log hlog => hs.unique_published ha hlog
  case disjoint =>
    exact fun key key' log log' hlog hlog' event hmem event' hmem' hid =>
      hs.disjoint_published ha hlog hlog' hmem hmem' hid
  case index => exact hs.index_published
  case backed =>
    intro key old hold
    rw [get?_published_commands] at hold
    split_ifs at hold with hk
    · cases Option.some.inj hold
      exact hk ▸ backed_new ha hconsistent hreceipt hevents hnew
    · exact (hs.backed key old hold).published (shape_rises hversion hshape)

theorem Commits.storeInvariant (hs : StoreInvariant s) {t : MemoryStore}
    {result : Except Failure CommitOutcome} (h : s.Commits c t result) : StoreInvariant t := by
  cases h with
  | raised e => exact hs
  | replayed existing => exact hs
  | stored outcome hfree hversion hconsistent hshape hreceipt hevents hnew =>
    exact hs.published hversion hconsistent hshape hreceipt hevents hnew

theorem storeInvariant_invariant : machine.Invariant StoreInvariant where
  base := storeInvariant_empty
  kept s call hs := (s.commit_commits call.beforeSwap call.candidate).storeInvariant hs

/-- The store invariant, in the words of the contract. -/
structure Consistent (s : MemoryStore) : Prop where
  /-- A log carries 1, 2, ..., version, and the next sequence follows. -/
  sequences : ∀ key run, s.runs.get? key = some run →
    ∃ log, s.events.get? key = some log ∧ log.map (·.sequence) = List.range' 1 run.version ∧
      run.nextEventSequence = run.version + 1
  /-- Every log belongs to a stored run. -/
  owners : ∀ key log, s.events.get? key = some log → ∃ run, s.runs.get? key = some run
  /-- Event ids are unique, within a log and between logs. -/
  uniqueIds : ∀ key key' log log', s.events.get? key = some log → s.events.get? key' = some log' →
    ∀ (i j : ℕ) (event event' : RunEvent), log[i]? = some event → log'[j]? = some event' →
      event.eventId = event'.eventId → key = key' ∧ i = j
  /-- The index is the set of stored event ids. -/
  index : ∀ id, id ∈ s.eventIds ↔
    ∃ key log, s.events.get? key = some log ∧ ∃ event ∈ log, event.eventId = id
  /-- A receipt with an event names one of its own run's log, at its version. -/
  receiptEvents : ∀ key outcome, s.commands.get? key = some outcome →
    ∀ id ∈ outcome.receipt.eventIds, ∃ log event,
      s.events.get? (outcome.receipt.tenantId, outcome.receipt.runId) = some log ∧ event ∈ log ∧
        event.eventId = id ∧ event.sequence = outcome.receipt.resultingVersion
  /-- A receipt without an event names a stored run of at least its version. -/
  receiptRuns : ∀ key outcome, s.commands.get? key = some outcome →
    outcome.receipt.eventIds = [] → ∃ run,
      s.runs.get? (outcome.receipt.tenantId, outcome.receipt.runId) = some run ∧
        outcome.receipt.resultingVersion ≤ run.version
  /-- A tenant and command id have at most one outcome. -/
  oneOutcome : ∀ key key' outcome outcome', s.commands.get? key = some outcome →
    s.commands.get? key' = some outcome' → outcome.receipt.tenantId = outcome'.receipt.tenantId →
    outcome.receipt.commandId = outcome'.receipt.commandId → key = key' ∧ outcome = outcome'

theorem StoreInvariant.consistent (hs : StoreInvariant s) : s.Consistent where
  sequences key run hrun := by
    have hlog := hs.logs key
    rw [hrun] at hlog
    obtain ⟨log, hlog⟩ := Option.isSome_iff_exists.mp hlog.symm
    exact ⟨log, hlog, hs.numbered key run log hrun hlog, run.sound.sequence⟩
  owners key log hlog := by
    have h := hs.logs key
    rw [hlog] at h
    exact Option.isSome_iff_exists.mp h
  uniqueIds key key' log log' hlog hlog' i j event event' hi hj hid := by
    have hkey := hs.disjoint key key' log log' hlog hlog' event (List.mem_of_getElem? hi) event'
      (List.mem_of_getElem? hj) hid
    subst hkey
    cases hlog.symm.trans hlog'
    refine ⟨rfl, ?_⟩
    have hnodup := hs.unique key log hlog
    have hlt : i < (log.map (·.eventId)).length := by
      rw [List.length_map]
      exact (List.getElem?_eq_some_iff.mp hi).1
    exact (List.getElem?_inj hlt hnodup).mp (by simp [hi, hj, hid])
  index := hs.index
  receiptEvents key outcome hget id hid := by
    rcases (hs.backed key outcome hget).evidence with ⟨event, log, hevents, hlog, hmem, hseq⟩ | ⟨hevents, -⟩
    · rw [outcome.valid, hevents, List.map_cons, List.map_nil, List.mem_singleton] at hid
      exact ⟨log, event, hlog, hmem, hid.symm, hseq⟩
    · rw [outcome.valid, hevents] at hid
      cases hid
  receiptRuns key outcome hget hnone := by
    rcases (hs.backed key outcome hget).evidence with ⟨event, log, hevents, -⟩ | ⟨-, hrun⟩
    · rw [outcome.valid, hevents] at hnone
      cases hnone
    · exact hrun
  oneOutcome key key' outcome outcome' hget hget' htenant hcommand := by
    have h := hs.backed key outcome hget
    have h' := hs.backed key' outcome' hget'
    have hkey : key = key' := Prod.ext
      (h.tenant.symm.trans (htenant.trans h'.tenant))
      (h.command.symm.trans (hcommand.trans h'.command))
    subst hkey
    exact ⟨rfl, Option.some.inj (hget.symm.trans hget')⟩

/-- Every store reached by commits with arbitrary candidates is consistent, and a
    commit that raises leaves the store as it was. -/
theorem commits_keep_store_consistent (calls : List CommitCall) :
    (machine.run calls).Consistent ∧
      ∀ call e, ((machine.run calls).commit call.beforeSwap call.candidate).2 = .error e →
        machine.step (machine.run calls) call = machine.run calls :=
  ⟨(storeInvariant_invariant.run calls).consistent, fun _ _ h => commit_error h⟩

end MemoryStore
end Zhiyi
