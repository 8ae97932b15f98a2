import Zhiyi.Memory.StoreInvariant
import Zhiyi.Postgres.CommandReplay

set_option autoImplicit false

/-! The PostgreSQL and the in-memory repository decide a commit alike. The tables hold the rows of
the collections after every history of commits, and the answers are the same but in two cases: an
invalid creation of a run that is there, and a replay whose event the PostgreSQL repository refuses. -/
namespace Zhiyi
open Python Interleaving

@[simp] theorem BudgetSnapshot.eq_stored (a b : BudgetSnapshot) : a.eq b.stored = a.eq b := by
  simp [BudgetSnapshot.eq, BudgetSnapshot.stored]

@[simp] theorem RunResult.eq_stored (a b : RunResult) : a.eq b.stored = a.eq b := by
  simp only [RunResult.eq, RunResult.stored, BudgetSnapshot.eq_stored]

theorem Run.eq_stored (a b : Run) : a.eq b.stored = a.eq b := by
  simp only [Run.eq, Run.stored, RunFields.stored, RunBudget.stored, BudgetSnapshot.eq_stored,
    beq_storedDecimal]
  cases a.result <;> cases b.result <;> simp

theorem BudgetSnapshot.document_of_eq {a b : BudgetSnapshot} (h : a.eq b = true) :
    usageDocument a = usageDocument b := by
  simp only [BudgetSnapshot.eq, Bool.and_eq_true, beq_iff_eq, Decimal.beq_iff] at h
  obtain ⟨⟨⟨⟨⟨⟨hsteps, hmodel⟩, htool⟩, hinput⟩, houtput⟩, hcost⟩, hcharges⟩ := h
  rw [usageDocument, usageDocument, hsteps, hmodel, htool, hinput, houtput, hcharges,
    canonicalDecimal_of_value_eq hcost]

theorem RunResult.document_of_eq {a b : RunResult} (h : a.eq b = true) :
    resultDocument (some a) = resultDocument (some b) := by
  simp only [RunResult.eq, Bool.and_eq_true, beq_iff_eq] at h
  obtain ⟨⟨⟨⟨⟨⟨⟨hversion, htenant⟩, hrun⟩, hagent⟩, hstatus⟩, hdraft⟩, husage⟩, herror⟩ := h
  rw [resultDocument, resultDocument, hversion, htenant, hrun, hagent, hstatus, hdraft, herror,
    BudgetSnapshot.document_of_eq husage]

theorem Run.row_of_eq {a b : Run} (h : a.eq b = true) : a.row = b.row := by
  simp only [Run.eq, Bool.and_eq_true, beq_iff_eq, Decimal.beq_iff] at h
  obtain ⟨⟨⟨⟨⟨⟨⟨⟨⟨⟨⟨⟨htenant, hrun⟩, htask⟩, hagent⟩, hstatus⟩, hversion⟩, hbudget⟩, husage⟩, hcreated⟩,
    hupdated⟩, hobserved⟩, hsequence⟩, hresult⟩ := h
  obtain ⟨⟨⟨⟨⟨⟨⟨⟨hdeadline, hsteps⟩, hmodel⟩, htool⟩, hinput⟩, houtput⟩, htotal⟩, hcost⟩, hcurrency⟩ := hbudget
  have hbudget : budgetDocument a.budget = budgetDocument b.budget := by
    rw [budgetDocument, budgetDocument, hdeadline, hsteps, hmodel, htool, hinput, houtput, htotal, hcurrency,
      canonicalDecimal_of_value_eq hcost]
  have hresult : resultDocument a.result = resultDocument b.result := by
    cases ha : a.result with
    | none =>
      cases hb : b.result with
      | none => rfl
      | some result =>
        rw [ha, hb] at hresult
        cases hresult
    | some result =>
      cases hb : b.result with
      | none =>
        rw [ha, hb] at hresult
        cases hresult
      | some other =>
        rw [ha, hb] at hresult
        exact RunResult.document_of_eq hresult
  have hsnapshot : snapshotDocument a = snapshotDocument b := by
    rw [snapshotDocument, snapshotDocument, htenant, hrun, htask, hagent, hstatus, hversion, hbudget,
      BudgetSnapshot.document_of_eq husage, hcreated, hupdated, hobserved, hsequence, hresult]
  have hrecord : encodeRun a = encodeRun b := by
    rw [encodeRun, encodeRun, htenant, hrun, htask, hagent, hstatus, hversion, hcreated, hupdated, hobserved,
      hsequence, hsnapshot]
  rw [Run.row, Run.row, hrecord]

theorem firstSequence_error {c : Candidate} {current : Option Run} {e : Failure}
    (h : firstSequence c current = .error e) : e = invariantViolation := by
  unfold firstSequence at h
  split_ifs at h
  · exact (Except.error.inj h).symm
  · cases current with
    | none => exact (Except.error.inj h).symm
    | some run => cases h

theorem validateVersion_error {c : Candidate} {current : Option Run} {e : Failure}
    (h : validateVersion c current = .error e) : e = invariantViolation := by
  unfold validateVersion at h
  split_ifs at h
  · cases current with
    | none => exact (Except.error.inj h).symm
    | some run => exact (require_eq_error.mp h).2.symm
  · exact (require_eq_error.mp h).2.symm

theorem validateEvents_error {run : Run} {occupied : EventId → Bool} {events : List RunEvent}
    {seen : List EventId} {expected : ℕ} {e : Failure}
    (h : validateEvents run occupied events seen expected = .error e) : e = invariantViolation := by
  induction events generalizing seen expected with
  | nil => cases h
  | cons event events ih =>
    unfold validateEvents at h
    split_ifs at h
    · exact (Except.error.inj h).symm
    · exact ih h

theorem validateCommitCandidate_error {c : Candidate} {current : Option Run} {occupied : EventId → Bool}
    {e : Failure} (h : validateCommitCandidate c current occupied = .error e) : e = invariantViolation := by
  rcases bind_eq_error.mp h with h | ⟨_, -, h⟩
  · exact (require_eq_error.mp h).2.symm
  rcases bind_eq_error.mp h with h | ⟨_, -, h⟩
  · exact (require_eq_error.mp h).2.symm
  rcases bind_eq_error.mp h with h | ⟨_, -, h⟩
  · exact firstSequence_error h
  rcases bind_eq_error.mp h with h | ⟨_, -, h⟩
  · exact validateVersion_error h
  rcases bind_eq_error.mp h with h | ⟨_, -, h⟩
  · exact validateEvents_error h
  · exact (require_eq_error.mp h).2.symm

theorem validateCommitCandidate_stored (c : Candidate) (current : Option Run) (occupied : EventId → Bool) :
    validateCommitCandidate c (current.map Run.stored) occupied =
      validateCommitCandidate c current occupied := by
  cases current with
  | none => rfl
  | some run =>
    have hversion : validateVersion c (some run.stored) = validateVersion c (some run) := by
      simp only [validateVersion, Run.eq_stored]
    have hsequence : firstSequence c (some run.stored) = firstSequence c (some run) := rfl
    unfold validateCommitCandidate
    rw [Option.map_some, hversion, hsequence]

theorem validateCommitCandidate_occupied {c : Candidate} {current : Option Run} {occupied : EventId → Bool} :
    validateCommitCandidate c current occupied = .ok () ↔
      validateCommitCandidate c current (fun _ => false) = .ok () ∧
        ∀ event ∈ c.newEvents, occupied event.eventId = false := by
  constructor
  · intro h
    obtain ⟨hconsistent, hshape⟩ := validateCommitCandidate_eq_ok h
    cases hshape with
    | create event hevents hexpected hversion htenant hrun hsequence hfree =>
      refine ⟨validateCommitCandidate_of_shape hconsistent
        (.create event hevents hexpected hversion htenant hrun hsequence rfl), ?_⟩
      rw [hevents]
      exact List.forall_mem_singleton.mpr hfree
    | update run event hevents hexpected hversion htenant hrun hsequence hnext hfree =>
      refine ⟨validateCommitCandidate_of_shape hconsistent
        (.update run event hevents hexpected hversion htenant hrun hsequence hnext rfl), ?_⟩
      rw [hevents]
      exact List.forall_mem_singleton.mpr hfree
    | record run hevents hexpected hsame hnext =>
      refine ⟨validateCommitCandidate_of_shape hconsistent (.record run hevents hexpected hsame hnext), ?_⟩
      rw [hevents]
      exact fun _ h => (by cases h)
  · rintro ⟨h, hfree⟩
    obtain ⟨hconsistent, hshape⟩ := validateCommitCandidate_eq_ok h
    refine validateCommitCandidate_of_shape hconsistent ?_
    cases hshape with
    | create event hevents hexpected hversion htenant hrun hsequence =>
      rw [hevents, List.forall_mem_singleton] at hfree
      exact .create event hevents hexpected hversion htenant hrun hsequence hfree
    | update run event hevents hexpected hversion htenant hrun hsequence hnext =>
      rw [hevents, List.forall_mem_singleton] at hfree
      exact .update run event hevents hexpected hversion htenant hrun hsequence hnext hfree
    | record run hevents hexpected hsame hnext => exact .record run hevents hexpected hsame hnext

namespace Database
variable {db : Database} {s : MemoryStore} {c : Candidate}

/-- The tables hold the rows of the collections. -/
structure Represents (db : Database) (s : MemoryStore) : Prop where
  runs : ∀ tenantId runId, db.runs.get? (rowKey tenantId runId) =
    (s.runs.get? (tenantId, runId)).map Run.row
  events : ∀ eventId row, db.runEvents.get? eventId = some row ↔ ∃ key log event,
    s.events.get? key = some log ∧ event ∈ log ∧ event.eventId = eventId ∧ event.row = row
  free : ∀ tenantId commandId, s.commands.get? (tenantId, commandId) = none →
    db.runCommandReceipts.get? (receiptRowKey tenantId commandId) = none
  stored : ∀ key outcome, s.commands.get? key = some outcome → db.Recorded outcome

theorem represents_empty : empty.Represents MemoryStore.empty where
  runs _ _ := rfl
  events eventId row := by
    constructor
    · intro h
      cases h
    · rintro ⟨key, log, event, hlog, -⟩
      cases hlog
  free _ _ _ := rfl
  stored _ _ h := (by cases h)

theorem Represents.hasRun (h : db.Represents s) (tenantId : TenantId) (runId : RunId) :
    db.hasRun tenantId runId = (s.runs.get? (tenantId, runId)).isSome := by
  rw [Database.hasRun, h.runs, Option.isSome_map]

theorem Represents.load (h : db.Represents s) (hs : s.StoreInvariant) (tenantId : TenantId) (runId : RunId) :
    db.load tenantId runId = .ok ((s.load tenantId runId).map Run.stored) := by
  unfold Database.load selectRun MemoryStore.load
  rw [h.runs]
  cases hrun : s.runs.get? (tenantId, runId) with
  | none => rfl
  | some run =>
    obtain ⟨rfl, rfl⟩ := Prod.mk.inj (hs.runKeys _ run hrun)
    simp only [Option.map_some, Run.record_row, decodeRun_encodeRun, bind, Except.bind]
    rfl

theorem Represents.event_used (h : db.Represents s) (hs : s.StoreInvariant) (eventId : EventId) :
    db.runEvents.get? eventId ≠ none ↔ eventId ∈ s.eventIds := by
  rw [hs.index, ← Option.isSome_iff_ne_none, Option.isSome_iff_exists]
  constructor
  · rintro ⟨row, hrow⟩
    obtain ⟨key, log, event, hlog, hevent, hid, -⟩ := (h.events eventId row).mp hrow
    exact ⟨key, log, hlog, event, hevent, hid⟩
  · rintro ⟨key, log, hlog, event, hevent, hid⟩
    exact ⟨event.row, (h.events eventId event.row).mpr ⟨key, log, event, hlog, hevent, hid, rfl⟩⟩

end Database

namespace MemoryStore
variable {s : MemoryStore} {c : Candidate}

theorem commit_stale (hfree : s.commands.get? (commandKey c) = none)
    (hversion : c.expectedVersion ≠ ((s.runs.get? (runKey c)).map (·.version)).getD 0) :
    s.commit none c = (s, .error (.lifecycle .versionConflict)) := by
  have hother : (c.expectedVersion == ((s.runs.get? (runKey c)).map (·.version)).getD 0) = false :=
    beq_false_of_ne hversion
  simp only [commit, decideCommit, hfree, hother, require_false, bind, Except.bind]

theorem commit_invalid (hfree : s.commands.get? (commandKey c) = none)
    (hversion : c.expectedVersion = ((s.runs.get? (runKey c)).map (·.version)).getD 0) {e : Failure}
    (hinvalid : validateCommitCandidate c (s.runs.get? (runKey c))
      (fun id => decide (id ∈ s.eventIds)) = .error e) :
    s.commit none c = (s, .error e) := by
  have hsame : (c.expectedVersion == ((s.runs.get? (runKey c)).map (·.version)).getD 0) = true :=
    beq_iff_eq.mpr hversion
  simp only [commit, decideCommit, hfree, hsame, require_true, hinvalid, bind, Except.bind]

theorem commit_stores (hfree : s.commands.get? (commandKey c) = none)
    (hversion : c.expectedVersion = ((s.runs.get? (runKey c)).map (·.version)).getD 0)
    (hvalid : validateCommitCandidate c (s.runs.get? (runKey c)) (fun id => decide (id ∈ s.eventIds)) = .ok ())
    {outcome : CommitOutcome} (houtcome : CommitOutcome.new c.receipt c.newEvents false = .ok outcome) :
    s.commit none c = (s.published c outcome, .ok outcome) := by
  have hsame : (c.expectedVersion == ((s.runs.get? (runKey c)).map (·.version)).getD 0) = true :=
    beq_iff_eq.mpr hversion
  simp only [commit, decideCommit, hfree, hsame, require_true, hvalid, houtcome, raising_ok, bind, Except.bind,
    pure, Except.pure]

theorem commit_again {outcome : CommitOutcome} (hget : s.commands.get? (commandKey c) = some outcome) :
    s.commit none c = (s, if outcome.receipt.intentFingerprint ≠ c.receipt.intentFingerprint then
      .error (.lifecycle .idempotencyConflict) else .ok outcome.asReplayed) := by
  unfold commit
  rw [decideCommit_replay hget]
  split_ifs <;> rfl

/-- A creation of a run that is there, which is no valid creation at all. -/
def InvalidCreate (s : MemoryStore) (c : Candidate) : Prop :=
  s.commands.get? (commandKey c) = none ∧ Database.isStructuralCreate c = true ∧
    (s.runs.get? (runKey c)).isSome = true ∧ validateCommitCandidate c none (fun _ => false) ≠ .ok ()

/-- A replay of an outcome whose events the PostgreSQL repository refuses. -/
def RefusedReplay (s : MemoryStore) (c : Candidate) (outcome : CommitOutcome) : Prop :=
  s.commands.get? (commandKey c) = some outcome ∧
    outcome.receipt.intentFingerprint = c.receipt.intentFingerprint ∧ ¬ outcome.Replayable

end MemoryStore

namespace Database
open MemoryStore (runKey commandKey)
variable {db : Database} {s : MemoryStore} {c : Candidate}

theorem isStructuralCreate_iff : isStructuralCreate c = true ↔
    c.expectedVersion = 0 ∧ c.updatedRun.version = 1 ∧ c.newEvents.length = 1 := by
  simp only [isStructuralCreate, Bool.and_eq_true, beq_iff_eq, and_assoc]

/-- The run that a commit reads is the stored one, unless the commit is a creation of a run that is
there. -/
theorem Represents.loadCurrent (h : db.Represents s) (hs : s.StoreInvariant)
    (hcreate : ¬ (isStructuralCreate c = true ∧ (s.runs.get? (runKey c)).isSome = true)) :
    db.loadCurrent c = .ok ((s.runs.get? (runKey c)).map Run.stored) := by
  unfold Database.loadCurrent
  split_ifs with hstructural
  · have hnone : s.runs.get? (runKey c) = none := by
      rw [← Option.not_isSome_iff_eq_none]
      exact fun hsome => hcreate ⟨hstructural, hsome⟩
    rw [hnone]
    rfl
  · exact h.load hs _ _

/-- A valid event finds no row in its place. -/
theorem Represents.hasRoom (h : db.Represents s) (hs : s.StoreInvariant)
    (hversion : c.expectedVersion = ((s.runs.get? (runKey c)).map (·.version)).getD 0)
    (hshape : c.Shape (fun id => decide (id ∈ s.eventIds)) (s.runs.get? (runKey c))) :
    ∀ event ∈ c.newEvents, db.HasRoom event := by
  obtain ⟨hnumbered, hfresh, hone⟩ := MemoryStore.shape_events hs hversion hshape
  intro event hevent
  obtain ⟨hkey, hunused⟩ := hfresh event hevent
  constructor
  · by_contra hused
    exact hunused ((h.event_used hs event.eventId).mp hused)
  · intro id row hrow htenant hrunId hsequence
    obtain ⟨key, log, old, hlog, hold, rfl, rfl⟩ := (h.events id row).mp hrow
    have hown : key = runKey c := by
      rw [← hs.owned key log hlog old hold, ← hkey]
      exact Prod.ext htenant hrunId
    subst hown
    have hsame : old.sequence = event.sequence := by
      exact_mod_cast encodeCanonicalInteger_injective hsequence
    -- The sequences of the log and of the new event are 1, 2, ..., so none is there twice.
    have hnodup : ((log ++ c.newEvents).map (·.sequence)).Nodup := by
      have hrange : (log ++ c.newEvents).map (·.sequence) = List.range' 1 c.updatedRun.version := by
        rwa [MemoryStore.Numbered, hlog, Option.getD_some] at hnumbered
      rw [hrange]
      exact List.nodup_range'
    rw [List.map_append, List.nodup_append] at hnodup
    exact hnodup.2.2 _ (List.mem_map_of_mem hold) _ (List.mem_map_of_mem hevent) hsame

section
variable {outcome : CommitOutcome} {event : RunEvent} {record : ReceiptRecord}

theorem withRun_event (hevents : c.newEvents = [event]) :
    db.withRun c = (db.putRun c.updatedRun).withEvent event := by
  simp only [withRun, hevents]

theorem withRun_record (hevents : c.newEvents = []) : db.withRun c = db := by
  simp only [withRun, hevents]

theorem withRun_receipts : (db.withRun c).runCommandReceipts = db.runCommandReceipts := by
  unfold withRun
  cases c.newEvents <;> rfl

theorem Represents.runs_of_event (h : db.Represents s) (hevents : c.newEvents = [event]) (tenantId : TenantId)
    (runId : RunId) : ((db.withReceipt c.receipt record).withRun c).runs.get? (rowKey tenantId runId) =
      ((s.published c outcome).runs.get? (tenantId, runId)).map Run.row := by
  have hkey : rowKey tenantId runId = rowKey c.updatedRun.tenantId c.updatedRun.runId ↔
      (tenantId, runId) = runKey c := by
    rw [rowKey_inj, MemoryStore.runKey, Prod.mk.injEq]
  rw [withRun_event hevents, MemoryStore.get?_published_runs]
  change (db.runs.insert _ _).get? _ = _
  rw [Dict.get?_insert]
  by_cases hsame : (tenantId, runId) = runKey c
  · rw [if_pos hsame, if_pos (hkey.mpr hsame)]
    rfl
  · rw [if_neg hsame, if_neg fun heq => hsame (hkey.mp heq)]
    exact h.runs tenantId runId

theorem Represents.runs_of_record (h : db.Represents s) {current : Run} (hevents : c.newEvents = [])
    (hcurrent : s.runs.get? (runKey c) = some current) (hsame : c.updatedRun.eq current = true)
    (tenantId : TenantId) (runId : RunId) :
    ((db.withReceipt c.receipt record).withRun c).runs.get? (rowKey tenantId runId) =
      ((s.published c outcome).runs.get? (tenantId, runId)).map Run.row := by
  rw [withRun_record hevents, MemoryStore.get?_published_runs]
  change db.runs.get? _ = _
  rw [h.runs]
  split_ifs with hkey
  · rw [hkey, hcurrent, Option.map_some, Option.map_some, Run.row_of_eq hsame]
  · rfl

theorem Represents.events_of_event (h : db.Represents s) (hevents : c.newEvents = [event])
    (hunused : db.runEvents.get? event.eventId = none) (eventId : EventId) (row : EventRow) :
    ((db.withReceipt c.receipt record).withRun c).runEvents.get? eventId = some row ↔ ∃ key log old,
      (s.published c outcome).events.get? key = some log ∧ old ∈ log ∧
        old.eventId = eventId ∧ old.row = row := by
  rw [withRun_event hevents]
  change (db.runEvents.insert _ _).get? _ = _ ↔ _
  rw [Dict.get?_insert]
  constructor
  · intro hrow
    split_ifs at hrow with hid
    · refine ⟨runKey c, (s.events.get? (runKey c)).getD [] ++ c.newEvents, event, ?_, ?_, hid.symm,
        Option.some.inj hrow⟩
      · rw [MemoryStore.get?_published_events, if_pos rfl]
      · rw [hevents]
        exact List.mem_append_right _ (List.mem_singleton_self event)
    · obtain ⟨key, log, old, hlog, hold, holdId, holdRow⟩ := (h.events eventId row).mp hrow
      obtain ⟨more, hmore⟩ := MemoryStore.log_kept c outcome hlog
      exact ⟨key, log ++ more, old, hmore, List.mem_append_left _ hold, holdId, holdRow⟩
  · rintro ⟨key, log, old, hlog, hold, rfl, rfl⟩
    rcases MemoryStore.mem_published hlog hold with ⟨before, hbefore, hmem⟩ | ⟨-, hmem⟩
    · have hrow := (h.events old.eventId old.row).mpr ⟨key, before, old, hbefore, hmem, rfl, rfl⟩
      rw [if_neg, hrow]
      intro hid
      rw [hid, hunused] at hrow
      cases hrow
    · rw [hevents, List.mem_singleton] at hmem
      rw [hmem, if_pos rfl]

theorem Represents.events_of_record (h : db.Represents s) (hevents : c.newEvents = []) (eventId : EventId)
    (row : EventRow) : ((db.withReceipt c.receipt record).withRun c).runEvents.get? eventId = some row ↔
      ∃ key log old,
      (s.published c outcome).events.get? key = some log ∧ old ∈ log ∧
        old.eventId = eventId ∧ old.row = row := by
  rw [withRun_record hevents]
  change db.runEvents.get? _ = _ ↔ _
  rw [h.events]
  constructor
  · rintro ⟨key, log, old, hlog, hold, hid, hrow⟩
    obtain ⟨more, hmore⟩ := MemoryStore.log_kept c outcome hlog
    exact ⟨key, log ++ more, old, hmore, List.mem_append_left _ hold, hid, hrow⟩
  · rintro ⟨key, log, old, hlog, hold, hid, hrow⟩
    rcases MemoryStore.mem_published hlog hold with ⟨before, hbefore, hmem⟩ | ⟨-, hmem⟩
    · exact ⟨key, before, old, hbefore, hmem, hid, hrow⟩
    · rw [hevents] at hmem
      cases hmem

theorem Represents.withReceipt (h : db.Represents s) (receipt : CommandReceipt) :
    ∀ tenantId commandId, s.commands.get? (tenantId, commandId) = none →
      (tenantId, commandId) ≠ (receipt.tenantId, receipt.commandId) →
      (db.withReceipt receipt record).runCommandReceipts.get? (receiptRowKey tenantId commandId) = none := by
  intro tenantId commandId hfree hother
  rw [Database.withReceipt, Dict.get?_insert, if_neg]
  · exact h.free tenantId commandId hfree
  · rw [receiptRowKey_inj]
    rintro ⟨rfl, rfl⟩
    exact hother rfl

theorem Represents.published (h : db.Represents s)
    (hroom : ∀ event ∈ c.newEvents, db.HasRoom event)
    (hshape : c.Shape (fun id => decide (id ∈ s.eventIds)) (s.runs.get? (runKey c)))
    (houtcome : CommitOutcome.new c.receipt c.newEvents false = .ok outcome)
    (hcommit : db.commit c = ((db.withReceipt c.receipt record).withRun c, .ok outcome)) :
    ((db.withReceipt c.receipt record).withRun c).Represents (s.published c outcome) := by
  have hnew := (CommitOutcome.new_eq_ok houtcome).2.2
  have hstored : db.Stored c _ outcome := commitUnder_stored (show db.commitUnder none c = _ from hcommit) hnew
  generalize hcurrent : s.runs.get? (runKey c) = current at hshape
  constructor
  · intro tenantId runId
    cases hshape with
    | create event hevents | update run event hevents => exact h.runs_of_event hevents tenantId runId
    | record run hevents _ hsame => exact h.runs_of_record hevents hcurrent hsame tenantId runId
  · intro eventId row
    cases hshape with
    | create event hevents | update run event hevents =>
      have hunused := (hroom event (by rw [hevents]; exact List.mem_singleton_self event)).unused
      exact h.events_of_event hevents hunused eventId row
    | record run hevents => exact h.events_of_record hevents eventId row
  · intro tenantId commandId hfree
    rw [MemoryStore.get?_published_commands] at hfree
    split_ifs at hfree with hkey
    rw [withRun_receipts]
    exact h.withReceipt c.receipt tenantId commandId hfree hkey
  · intro key other hother
    rw [MemoryStore.get?_published_commands] at hother
    split_ifs at hother with hkey
    · cases Option.some.inj hother
      exact hstored.records
    · have hkept := (h.stored key other hother).commit (db.commit_commits c)
      rwa [hcommit] at hkept

end

theorem events_of_input {event : RunEvent} (hinput : validateCommitInput c = .ok ())
    (hevent : event ∈ c.newEvents) :
    c.newEvents = [event] := by
  have hboth := require_eq_ok.mp hinput
  simp only [Bool.and_eq_true, decide_eq_true_eq] at hboth
  cases hevents : c.newEvents with
  | nil =>
    rw [hevents] at hevent
    cases hevent
  | cons first events =>
    rw [hevents, List.length_cons] at hboth
    have hnil : events = [] := List.length_eq_zero_iff.mp (by omega)
    subst hnil
    rw [hevents, List.mem_singleton] at hevent
    rw [hevent]

section
variable (h : db.Represents s) (hinput : validateCommitInput c = .ok ())
  (hfree : s.commands.get? (commandKey c) = none) (hs : s.StoreInvariant)
include h hinput

theorem Represents.commit_used (hs : s.StoreInvariant) {outcome : CommitOutcome}
    (hget : s.commands.get? (commandKey c) = some outcome) :
    db.commit c = (db, outcome.replay c.receipt.intentFingerprint) := by
  have hbacked := hs.backed _ outcome hget
  exact (h.stored _ outcome hget).commit_again ⟨hbacked.tenant.symm, hbacked.command.symm⟩ hinput

include hfree

theorem Represents.commit_create (hcreate : isStructuralCreate c = true)
    (hrun : (s.runs.get? (runKey c)).isSome = true) :
    s.commit none c = (s, .error (.lifecycle .versionConflict)) ∧
      db.commit c = (db, .error (if validateCommitCandidate c none (fun _ => false) = .ok () then
        .lifecycle .versionConflict else invariantViolation)) := by
  obtain ⟨hexpected, -, -⟩ := isStructuralCreate_iff.mp hcreate
  have hload : db.loadCurrent c = .ok none := by
    unfold Database.loadCurrent
    rw [hcreate]
    rfl
  have hfreeRow : db.FreeCommand c := h.free _ _ hfree
  have hversion : ((none : Option Run).map (·.version)).getD 0 = c.expectedVersion := hexpected.symm
  constructor
  · refine MemoryStore.commit_stale hfree ?_
    obtain ⟨run, hget⟩ := Option.isSome_iff_exists.mp hrun
    rw [hget, hexpected, Option.map_some, Option.getD_some]
    have hpositive := run.sound.version
    omega
  · cases hvalid : validateCommitCandidate c none (fun _ => false) with
    | ok _ =>
      rw [if_pos rfl]
      exact commit_taken hinput hfreeRow hload hversion hvalid rfl ((h.hasRun _ _).trans hrun)
    | error e =>
      rw [if_neg fun hok => (by cases hok), ← validateCommitCandidate_error hvalid]
      exact commit_invalid hinput hfreeRow hload hversion hvalid

include hs

theorem Represents.commit_other
    (hcreate : ¬ (isStructuralCreate c = true ∧ (s.runs.get? (runKey c)).isSome = true)) :
    (db.commit c).2 = (s.commit none c).2 ∧ (db.commit c).1.Represents (s.commit none c).1 := by
  have hload := h.loadCurrent hs hcreate
  have hfreeRow : db.FreeCommand c := h.free _ _ hfree
  have hmap : (((s.runs.get? (runKey c)).map Run.stored).map (·.version)).getD 0 =
      ((s.runs.get? (runKey c)).map (·.version)).getD 0 := by
    cases s.runs.get? (runKey c) <;> rfl
  by_cases hversion : c.expectedVersion = ((s.runs.get? (runKey c)).map (·.version)).getD 0
  · have hread := hmap.trans hversion.symm
    have hjudged := validateCommitCandidate_stored c (s.runs.get? (runKey c)) fun _ => false
    cases hvalid : validateCommitCandidate c (s.runs.get? (runKey c)) (fun id => decide (id ∈ s.eventIds)) with
    | ok _ =>
      have hfits := (validateCommitCandidate_occupied.mp hvalid).1
      obtain ⟨hconsistent, hshape⟩ := validateCommitCandidate_eq_ok hvalid
      have hroom := h.hasRoom hs hversion hshape
      obtain ⟨record, outcome, -, houtcome, hcommit⟩ := commit_stores hinput hfreeRow hload hread
        (hjudged.trans hfits) (by rw [Option.isSome_map]; exact h.hasRun _ _) hroom
      rw [MemoryStore.commit_stores hfree hversion hvalid houtcome, hcommit]
      exact ⟨rfl, h.published hroom hshape houtcome hcommit⟩
    | error e =>
      have he := validateCommitCandidate_error hvalid
      subst he
      rw [MemoryStore.commit_invalid hfree hversion hvalid]
      cases hfits : validateCommitCandidate c (s.runs.get? (runKey c)) (fun _ => false) with
      | error e =>
        have he := validateCommitCandidate_error hfits
        subst he
        rw [commit_invalid hinput hfreeRow hload hread (hjudged.trans hfits)]
        exact ⟨rfl, h⟩
      | ok _ =>
        -- Only an event id that is used tells the two validations apart.
        have hused : ∃ event ∈ c.newEvents, event.eventId ∈ s.eventIds := by
          by_contra hnone
          have hunused : ∀ event ∈ c.newEvents, decide (event.eventId ∈ s.eventIds) = false :=
            fun event hevent => decide_eq_false fun hmem => hnone ⟨event, hevent, hmem⟩
          have hok : validateCommitCandidate c (s.runs.get? (runKey c)) (fun id => decide (id ∈ s.eventIds)) =
              .ok () := validateCommitCandidate_occupied.mpr ⟨hfits, hunused⟩
          rw [hok] at hvalid
          cases hvalid
        obtain ⟨event, hevent, hmem⟩ := hused
        rw [Database.commit_used hinput hfreeRow hload hread (hjudged.trans hfits)
          (by rw [Option.isSome_map]; exact h.hasRun _ _) (events_of_input hinput hevent)
          ((h.event_used hs event.eventId).mpr hmem)]
        exact ⟨rfl, h⟩
  · rw [MemoryStore.commit_stale hfree hversion,
      commit_stale hinput hfreeRow hload fun heq => hversion (heq.symm.trans hmap)]
    exact ⟨rfl, h⟩

end

/-- How the two repositories answer a commit, with the two cases in which they differ. -/
structure Agrees (db : Database) (s : MemoryStore) (c : Candidate) : Prop where
  same : (db.commit c).2 = (s.commit none c).2 ↔
    ¬ s.InvalidCreate c ∧ ∀ outcome, ¬ s.RefusedReplay c outcome
  invalidCreate : s.InvalidCreate c → (s.commit none c).2 = .error (.lifecycle .versionConflict) ∧
    (db.commit c).2 = .error (.lifecycle .invariantViolation)
  refusedReplay : ∀ outcome, s.RefusedReplay c outcome → (s.commit none c).2 = .ok outcome.asReplayed ∧
    (db.commit c).2 = .error (.repository .dataCorruption)

theorem Agrees.of_same (hsame : (db.commit c).2 = (s.commit none c).2) (hcreate : ¬ s.InvalidCreate c)
    (hreplay : ∀ outcome, ¬ s.RefusedReplay c outcome) : db.Agrees s c where
  same := iff_of_true hsame ⟨hcreate, hreplay⟩
  invalidCreate h := absurd h hcreate
  refusedReplay outcome h := absurd h (hreplay outcome)

theorem Represents.agrees_used (h : db.Represents s) (hs : s.StoreInvariant)
    (hinput : validateCommitInput c = .ok ()) {stored : CommitOutcome}
    (hget : s.commands.get? (commandKey c) = some stored) : db.Agrees s c := by
  have hdb := congrArg Prod.snd (h.commit_used hinput hs hget)
  have hmemory := congrArg Prod.snd (MemoryStore.commit_again hget)
  have hcreate : ¬ s.InvalidCreate c := by
    rintro ⟨hfree, -⟩
    rw [hfree] at hget
    cases hget
  have hstored : ∀ outcome, s.RefusedReplay c outcome → outcome = stored := fun outcome hrefused =>
    Option.some.inj (hrefused.1.symm.trans hget)
  simp only [CommitOutcome.replay] at hdb
  by_cases hfingerprint : stored.receipt.intentFingerprint = c.receipt.intentFingerprint
  · rw [if_neg (not_not.mpr hfingerprint)] at hdb hmemory
    by_cases hreplayable : stored.Replayable
    · rw [if_pos hreplayable] at hdb
      refine .of_same (hdb.trans hmemory.symm) hcreate fun outcome hrefused => ?_
      have hsame := hstored outcome hrefused
      subst hsame
      exact hrefused.2.2 hreplayable
    · rw [if_neg hreplayable] at hdb
      refine ⟨iff_of_false ?_ fun hno => hno.2 stored ⟨hget, hfingerprint, hreplayable⟩,
        fun hinvalid => absurd hinvalid hcreate, ?_⟩
      · rw [hdb, hmemory]
        exact fun heq => (by cases heq)
      · intro outcome hrefused
        have hsame := hstored outcome hrefused
        subst hsame
        exact ⟨hmemory, hdb⟩
  · rw [if_pos hfingerprint] at hdb hmemory
    refine .of_same (hdb.trans hmemory.symm) hcreate fun outcome hrefused => ?_
    have hsame := hstored outcome hrefused
    subst hsame
    exact hfingerprint hrefused.2.1

theorem Represents.agrees_create (h : db.Represents s) (hinput : validateCommitInput c = .ok ())
    (hfree : s.commands.get? (commandKey c) = none) (hcreate : isStructuralCreate c = true)
    (hrun : (s.runs.get? (runKey c)).isSome = true) : db.Agrees s c := by
  obtain ⟨hmemory, hdb⟩ := h.commit_create hinput hfree hcreate hrun
  have hmemory := congrArg Prod.snd hmemory
  have hdb := congrArg Prod.snd hdb
  have hreplay : ∀ outcome, ¬ s.RefusedReplay c outcome := by
    rintro outcome ⟨hget, -⟩
    rw [hfree] at hget
    cases hget
  by_cases hvalid : validateCommitCandidate c none (fun _ => false) = .ok ()
  · simp only [hvalid, if_true] at hdb
    exact .of_same (hdb.trans hmemory.symm) (fun hinvalid => hinvalid.2.2.2 hvalid) hreplay
  · simp only [hvalid, if_false] at hdb
    refine ⟨iff_of_false ?_ fun hno => hno.1 ⟨hfree, hcreate, hrun, hvalid⟩, fun _ => ⟨hmemory, hdb⟩,
      fun outcome hrefused => absurd hrefused (hreplay outcome)⟩
    rw [hdb, hmemory]
    exact fun heq => (by cases heq)

theorem Represents.commit (h : db.Represents s) (hs : s.StoreInvariant)
    (hinput : validateCommitInput c = .ok ()) :
    db.Agrees s c ∧ (db.commit c).1.Represents (s.commit none c).1 := by
  cases hget : s.commands.get? (commandKey c) with
  | some stored =>
    refine ⟨h.agrees_used hs hinput hget, ?_⟩
    rw [h.commit_used hinput hs hget, MemoryStore.commit_again hget]
    exact h
  | none =>
    by_cases hcreate : isStructuralCreate c = true ∧ (s.runs.get? (runKey c)).isSome = true
    · refine ⟨h.agrees_create hinput hget hcreate.1 hcreate.2, ?_⟩
      obtain ⟨hmemory, hdb⟩ := h.commit_create hinput hget hcreate.1 hcreate.2
      rw [hmemory, hdb]
      exact h
    · obtain ⟨hsame, hnext⟩ := h.commit_other hinput hget hs hcreate
      refine ⟨.of_same hsame (fun hinvalid => hcreate ⟨hinvalid.2.1, hinvalid.2.2.1⟩) ?_, hnext⟩
      rintro outcome ⟨hused, -⟩
      rw [hget] at hused
      cases hused

theorem input_of_shape {occupied : EventId → Bool} {current : Option Run} (hconsistent : c.Consistent)
    (hshape : c.Shape occupied current) : validateCommitInput c = .ok () := by
  have hlength : c.newEvents.length ≤ 1 := by
    cases hshape with
    | create event hevents | update run event hevents =>
      rw [hevents]
      exact le_rfl
    | record run hevents =>
      rw [hevents]
      exact Nat.zero_le 1
  simp only [validateCommitInput, hconsistent.eventIds, List.length_map, hlength, decide_true, Bool.and_self,
    require_true]

/-- A candidate of more events than one is stored on neither side. -/
theorem commit_oversized (db : Database) (s : MemoryStore) (hinput : validateCommitInput c ≠ .ok ()) :
    (db.commit c).1 = db ∧ (s.commit none c).1 = s := by
  constructor
  · cases herror : validateCommitInput c with
    | ok _ => exact absurd herror hinput
    | error e =>
      unfold Database.commit
      rw [herror]
      rfl
  · have hcommits := s.commit_commits none c
    generalize s.commit none c = result at hcommits ⊢
    obtain ⟨next, answer⟩ := result
    cases hcommits with
    | raised | replayed => rfl
    | stored _ _ _ hconsistent hshape => exact absurd (input_of_shape hconsistent hshape) hinput

def lockstep : Machine (Database × MemoryStore) Candidate where
  start := (empty, MemoryStore.empty)
  step pair c := ((pair.1.commit c).1, (pair.2.commit none c).1)

theorem lockstep_invariant :
    lockstep.Invariant fun pair => pair.1.Represents pair.2 ∧ pair.2.StoreInvariant where
  base := ⟨represents_empty, MemoryStore.storeInvariant_empty⟩
  kept := by
    rintro ⟨db, s⟩ c ⟨hrepresents, hinvariant⟩
    refine ⟨?_, (s.commit_commits none c).storeInvariant hinvariant⟩
    by_cases hinput : validateCommitInput c = .ok ()
    · exact (hrepresents.commit hinvariant hinput).2
    · obtain ⟨hdb, hs⟩ := commit_oversized db s hinput
      change (db.commit c).1.Represents (s.commit none c).1
      rw [hdb, hs]
      exact hrepresents

/-- After every history of commits the tables hold the rows of the collections and loads agree, and
the next commit of at most one event is answered alike but in two cases. -/
theorem repositories_agree (history : List Candidate) :
    (lockstep.run history).1.Represents (lockstep.run history).2 ∧
      (∀ tenantId runId, (lockstep.run history).1.load tenantId runId =
        .ok (((lockstep.run history).2.load tenantId runId).map Run.stored)) ∧
      ∀ c, validateCommitInput c = .ok () →
        (lockstep.run history).1.Agrees (lockstep.run history).2 c := by
  obtain ⟨hrepresents, hinvariant⟩ := lockstep_invariant.run history
  exact ⟨hrepresents, hrepresents.load hinvariant, fun c hc => (hrepresents.commit hinvariant hc).1⟩

end Database

open Sample RunLifecycle Database in
/-- A second creation of the run whose receipt names another run: the answers differ. -/
theorem invalid_create_differs : ∃ c d : Candidate,
    ((lockstep.run [c]).2.commit none d).2 = .error (.lifecycle .versionConflict) ∧
      ((lockstep.run [c]).1.commit d).2 = .error (.lifecycle .invariantViolation) := by
  obtain ⟨_, hf⟩ := createCommand_fingerprint
  obtain ⟨c, hcand⟩ := MemorySystem.candidate_ok (show RunMutation from ⟨queuedRun, [createdEvent]⟩) opening
    (show (Command.create createCommand).intentFingerprint = _ from hf)
  have hprepared : Prepared (.create createCommand) none ⟨queuedRun, [createdEvent]⟩ c :=
    .create createCommand rfl runId event1 opening _ _ rfl hcand
  obtain ⟨_, -, hexpected, hrun, hevents, hreceipt⟩ := candidate_eq_ok hcand
  obtain ⟨outcome, -, -, hcommit⟩ := MemoryStore.commit_of_shape
    (show MemoryStore.empty.commands.get? _ = none from rfl) (by rw [hexpected]; rfl)
    (hprepared.consistent rfl) (hprepared.shape (by simp [MemoryStore.empty]))
  -- The receipt of the second creation: another command, and another run.
  let other : CommandReceipt := {
    toCommandReceiptFields := {
      c.receipt.toCommandReceiptFields with
      commandId := startCommand.commandId
      runId := ⟨"run-2", by decide⟩ }
    valid := c.receipt.valid }
  let d : Candidate := { c with receipt := other }
  have hkey : MemoryStore.runKey d = MemoryStore.runKey c := rfl
  have hstore : (lockstep.run [c]).2 = MemoryStore.empty.published c outcome := congrArg Prod.fst hcommit
  have hinvalid : (lockstep.run [c]).2.InvalidCreate d := by
    rw [hstore]
    refine ⟨?_, ?_, ?_, ?_⟩
    · rw [MemoryStore.get?_published_commands, if_neg]
      · rfl
      · simp only [MemoryStore.commandKey, d, other, hreceipt, Prod.mk.injEq, not_and]
        decide
    · exact isStructuralCreate_iff.mpr ⟨by rw [show d.expectedVersion = _ from hexpected]; rfl,
        by rw [show d.updatedRun = _ from hrun]; rfl, by rw [show d.newEvents = _ from hevents]; rfl⟩
    · rw [hkey, MemoryStore.get?_published_runs, if_pos rfl]
      rfl
    · intro hvalid
      have hrunId := (validateCommitCandidate_eq_ok hvalid).1.run
      rw [show d.updatedRun = _ from hrun] at hrunId
      have hvalue : "run-2" = "run-1" := congrArg Identifier.value hrunId
      exact absurd hvalue (by decide)
  have hinput : validateCommitInput d = .ok () := by
    simp [validateCommitInput, d, other, hevents, hreceipt]
  obtain ⟨-, -, hagrees⟩ := repositories_agree [c]
  exact ⟨c, d, (hagrees d hinput).invalidCreate hinvalid⟩

end Zhiyi
