import Zhiyi.Postgres.EventPages
import Zhiyi.Postgres.Transactions

set_option autoImplicit false

/-! What a commit of the PostgreSQL repository decides under a command id that is free: its checks
in their order, and the rows of a candidate that passes them. -/
namespace Zhiyi
open Python

namespace Database
variable {db : Database} {c : Candidate} {current : Option Run} {event : RunEvent}

def withReceipt (db : Database) (receipt : CommandReceipt) (record : ReceiptRecord) : Database :=
  { db with
    runCommandReceipts := db.runCommandReceipts.insert (receiptRowKey receipt.tenantId receipt.commandId)
      (receipt.row record) }

def withEvent (db : Database) (event : RunEvent) : Database :=
  { db with runEvents := db.runEvents.insert event.eventId event.row }

/-- The run and the event of a candidate, or neither. -/
def withRun (db : Database) (c : Candidate) : Database :=
  match c.newEvents with
  | [] => db
  | event :: _ => (db.putRun c.updatedRun).withEvent event

/-- No row of another event has the id or the sequence of this one. -/
structure HasRoom (db : Database) (event : RunEvent) : Prop where
  unused : db.runEvents.get? event.eventId = none
  sequence : ∀ id row, db.runEvents.get? id = some row → row.tenantId = event.tenantId →
    row.runId = event.runId → row.sequenceValue ≠ event.row.sequenceValue

theorem insertEvent_ok (h : db.HasRoom event) (hrun : db.hasRun event.tenantId event.runId = true) :
    db.insertEvent event = .ok (db.withEvent event) := by
  have hunused : (db.runEvents.get? event.eventId).isNone = true := by
    rw [h.unused]
    rfl
  have hall : ((db.eventsOf event.tenantId event.runId).all fun p =>
      p.2.sequenceValue != event.row.sequenceValue) = true := by
    refine List.all_eq_true.mpr fun p hp => ?_
    obtain ⟨hrow, htenant, hrunId⟩ := mem_eventsOf.mp hp
    exact bne_iff_ne.mpr (h.sequence p.1 p.2 hrow htenant hrunId)
  unfold insertEvent
  rw [hunused, hall, hrun]
  rfl

theorem insertEvent_used (hused : db.runEvents.get? event.eventId ≠ none) :
    db.insertEvent event = .error (.integrity "pk_run_events") := by
  have hsome : (db.runEvents.get? event.eventId).isNone = false :=
    Option.isNone_eq_false_iff.mpr (Option.isSome_iff_ne_none.mpr hused)
  unfold insertEvent
  rw [hsome]
  rfl

theorem hasRun_putRun_self (run : Run) : (db.putRun run).hasRun run.tenantId run.runId = true := by
  unfold hasRun putRun
  rw [Dict.get?_insert, if_pos rfl]
  rfl

theorem writeRun_event (hevents : c.newEvents = [event])
    (hrow : db.hasRun c.updatedRun.tenantId c.updatedRun.runId = current.isSome) :
    db.writeRun c current = .ok (db.putRun c.updatedRun) := by
  cases current with
  | none =>
    simp only [writeRun, insertRun, hrow, Option.isSome_none, Bool.not_false, require_true, bind, Except.bind]
    rfl
  | some run =>
    simp only [writeRun, updateRun, hevents, hrow, Option.isSome_some, List.isEmpty_cons, Bool.false_eq_true,
      if_false, require_true, bind, Except.bind]
    rfl

theorem writeRun_taken (hrow : db.hasRun c.updatedRun.tenantId c.updatedRun.runId = true) :
    db.writeRun c none = .error (.integrity "pk_runs") := by
  simp only [writeRun, insertRun, hrow, Bool.not_true, require_false, bind, Except.bind]

theorem exists_outcome (h : c.Consistent) : ∃ outcome : CommitOutcome,
    CommitOutcome.new c.receipt c.newEvents false = .ok outcome ∧ outcome.receipt = c.receipt ∧
      outcome.events = c.newEvents ∧ outcome.replayed = false :=
  ⟨⟨c.receipt, c.newEvents, false, h.eventIds⟩, dif_pos h.eventIds, rfl, rfl, rfl⟩

theorem write_event (hevents : c.newEvents = [event]) (hconsistent : c.Consistent)
    (htenant : event.tenantId = c.updatedRun.tenantId) (hrunId : event.runId = c.updatedRun.runId)
    (hrow : db.hasRun c.updatedRun.tenantId c.updatedRun.runId = current.isSome)
    (hroom : db.HasRoom event) {outcome : CommitOutcome}
    (houtcome : CommitOutcome.new c.receipt c.newEvents false = .ok outcome) :
    db.write c current = .ok (db.withRun c, outcome) := by
  have hwith : db.withRun c = (db.putRun c.updatedRun).withEvent event := by
    simp only [withRun, hevents]
  have hinsert : (db.putRun c.updatedRun).insertEvent event =
      .ok ((db.putRun c.updatedRun).withEvent event) := by
    refine insertEvent_ok ⟨hroom.unused, hroom.sequence⟩ ?_
    rw [htenant, hrunId]
    exact hasRun_putRun_self c.updatedRun
  have hkeys : ((db.putRun c.updatedRun).withEvent event).checkReceiptKeys c.receipt = .ok () := by
    have hrun :
        ((db.putRun c.updatedRun).withEvent event).hasRun c.receipt.tenantId c.receipt.runId = true := by
      rw [hconsistent.tenant, hconsistent.run]
      exact hasRun_putRun_self c.updatedRun
    have hselect : (((db.putRun c.updatedRun).withEvent event).selectEvent event.eventId c.receipt.tenantId
        c.receipt.runId).isSome = true := by
      have hget : ((db.putRun c.updatedRun).withEvent event).runEvents.get? event.eventId = some event.row := by
        unfold withEvent
        rw [Dict.get?_insert, if_pos rfl]
      have hown : event.row.tenantId = c.receipt.tenantId ∧ event.row.runId = c.receipt.runId :=
        ⟨htenant.trans hconsistent.tenant.symm, hrunId.trans hconsistent.run.symm⟩
      unfold selectEvent
      simp only [hget, hown, and_self, if_true, Option.isSome_some]
    have hids : c.receipt.eventIds = [event.eventId] := by
      rw [hconsistent.eventIds, hevents]
      rfl
    unfold checkReceiptKeys
    rw [hrun, hids, List.all_cons, List.all_nil, hselect]
    rfl
  unfold write
  simp only [writeRun_event hevents hrow, hwith, houtcome, raising_ok, raised_ok, bind, Except.bind]
  rw [hevents, List.foldlM_cons, hinsert]
  simp only [List.foldlM_nil, bind, Except.bind, pure, Except.pure, hkeys]

theorem write_record {run : Run} (hevents : c.newEvents = []) (hconsistent : c.Consistent)
    (hrow : db.hasRun c.updatedRun.tenantId c.updatedRun.runId = true) {outcome : CommitOutcome}
    (houtcome : CommitOutcome.new c.receipt c.newEvents false = .ok outcome) :
    db.write c (some run) = .ok (db.withRun c, outcome) := by
  have hwith : db.withRun c = db := by
    simp only [withRun, hevents]
  have hids : c.receipt.eventIds = [] := by
    rw [hconsistent.eventIds, hevents]
    rfl
  have hkeys : db.checkReceiptKeys c.receipt = .ok () := by
    unfold checkReceiptKeys
    rw [hconsistent.tenant, hconsistent.run, hrow, hids]
    rfl
  unfold write
  simp only [writeRun, hevents, List.isEmpty_nil, if_true, List.foldlM_nil, hkeys, hwith, bind, Except.bind,
    pure, Except.pure]
  rw [← hevents, houtcome]
  rfl

theorem encodeReceipt_of_input (h : validateCommitInput c = .ok ()) :
    ∃ record, encodeReceipt c.receipt = .ok record := by
  have hboth := require_eq_ok.mp h
  simp only [Bool.and_eq_true, decide_eq_true_eq] at hboth
  exact (encodeReceipt_eq_ok c.receipt).mpr hboth.2

def FreeCommand (db : Database) (c : Candidate) : Prop :=
  db.runCommandReceipts.get? (receiptRowKey c.receipt.tenantId c.receipt.commandId) = none

theorem commit_of_free (hinput : validateCommitInput c = .ok ()) (hfree : db.FreeCommand c)
    (hload : db.loadCurrent c = .ok current) : ∃ record, encodeReceipt c.receipt = .ok record ∧
      db.commit c = db.settle commitFailure (do
        require (((current.map (·.version)).getD 0) == c.expectedVersion)
          (.failure (.lifecycle .versionConflict))
        raised (validateCommitCandidate c current fun _ => false)
        (db.withReceipt c.receipt record).write c current) := by
  obtain ⟨record, hrecord⟩ := encodeReceipt_of_input hinput
  have hinsert : db.insertReceipt c.receipt record = some (db.withReceipt c.receipt record) := by
    have hnone : db.runCommandReceipts.get? (receiptRowKey c.receipt.tenantId c.receipt.commandId) =
      none := hfree
    unfold insertReceipt withReceipt
    simp only [hnone]
  have hloaded : (db.withReceipt c.receipt record).loadCurrent c = .ok current := hload
  refine ⟨record, hrecord, ?_⟩
  unfold commit commitTransaction
  simp only [hinput, raised_ok, hrecord, raising_ok, hinsert, hloaded, bind, Except.bind]

variable (hinput : validateCommitInput c = .ok ()) (hfree : db.FreeCommand c)
  (hload : db.loadCurrent c = .ok current)
include hinput hfree hload

theorem commit_stale (hversion : (current.map (·.version)).getD 0 ≠ c.expectedVersion) :
    db.commit c = (db, .error (.lifecycle .versionConflict)) := by
  obtain ⟨record, -, hcommit⟩ := commit_of_free hinput hfree hload
  rw [hcommit, beq_false_of_ne hversion, require_false]
  rfl

variable (hversion : (current.map (·.version)).getD 0 = c.expectedVersion)
include hversion

theorem commit_invalid {e : Failure}
    (hinvalid : validateCommitCandidate c current (fun _ => false) = .error e) :
    db.commit c = (db, .error e) := by
  obtain ⟨record, -, hcommit⟩ := commit_of_free hinput hfree hload
  rw [hcommit, hversion, beq_self_eq_true, require_true, hinvalid]
  rfl

variable (hvalid : validateCommitCandidate c current (fun _ => false) = .ok ())
include hvalid

theorem commit_of_valid : ∃ record, encodeReceipt c.receipt = .ok record ∧
    db.commit c = db.settle commitFailure ((db.withReceipt c.receipt record).write c current) := by
  obtain ⟨record, hrecord, hcommit⟩ := commit_of_free hinput hfree hload
  refine ⟨record, hrecord, ?_⟩
  rw [hcommit, hversion, beq_self_eq_true, require_true, hvalid]
  rfl

theorem commit_taken (hnone : current = none)
    (hrow : db.hasRun c.updatedRun.tenantId c.updatedRun.runId = true) :
    db.commit c = (db, .error (.lifecycle .versionConflict)) := by
  obtain ⟨record, -, hcommit⟩ := commit_of_valid hinput hfree hload hversion hvalid
  have hrun : (db.withReceipt c.receipt record).writeRun c none = .error (.integrity "pk_runs") :=
    writeRun_taken hrow
  have hwrite : (db.withReceipt c.receipt record).write c none = .error (.integrity "pk_runs") := by
    unfold write
    rw [hrun]
    rfl
  rw [hcommit, hnone, hwrite]
  rfl

variable (hrow : db.hasRun c.updatedRun.tenantId c.updatedRun.runId = current.isSome)
include hrow

/-- An event id that is used. -/
theorem commit_used (hevents : c.newEvents = [event]) (hused : db.runEvents.get? event.eventId ≠ none) :
    db.commit c = (db, .error invariantViolation) := by
  obtain ⟨record, -, hcommit⟩ := commit_of_valid hinput hfree hload hversion hvalid
  have hinsert : ((db.withReceipt c.receipt record).putRun c.updatedRun).insertEvent event =
      .error (.integrity "pk_run_events") := insertEvent_used hused
  have hrun : (db.withReceipt c.receipt record).writeRun c current =
      .ok ((db.withReceipt c.receipt record).putRun c.updatedRun) := writeRun_event hevents hrow
  have hloop : c.newEvents.foldlM insertEvent ((db.withReceipt c.receipt record).putRun c.updatedRun) =
      .error (.integrity "pk_run_events") := by
    rw [hevents, List.foldlM_cons, hinsert]
    rfl
  have hwrite : (db.withReceipt c.receipt record).write c current = .error (.integrity "pk_run_events") := by
    unfold write
    simp only [hrun, hloop, bind, Except.bind]
  rw [hcommit, hwrite]
  rfl

/-- A valid candidate with room for its event is stored. -/
theorem commit_stores (hroom : ∀ event ∈ c.newEvents, db.HasRoom event) : ∃ record outcome,
    encodeReceipt c.receipt = .ok record ∧ CommitOutcome.new c.receipt c.newEvents false = .ok outcome ∧
      db.commit c = ((db.withReceipt c.receipt record).withRun c, .ok outcome) := by
  obtain ⟨record, hrecord, hcommit⟩ := commit_of_valid hinput hfree hload hversion hvalid
  obtain ⟨hconsistent, hshape⟩ := validateCommitCandidate_eq_ok hvalid
  obtain ⟨outcome, houtcome, -⟩ := exists_outcome hconsistent
  have hrow : (db.withReceipt c.receipt record).hasRun c.updatedRun.tenantId c.updatedRun.runId =
      current.isSome := hrow
  have hwrite : (db.withReceipt c.receipt record).write c current =
      .ok ((db.withReceipt c.receipt record).withRun c, outcome) := by
    cases hshape with
    | create event hevents _ _ htenant hrunId | update run event hevents _ _ htenant hrunId =>
      obtain ⟨hunused, hsequence⟩ := hroom event (by rw [hevents]; exact List.mem_singleton_self event)
      exact write_event hevents hconsistent htenant hrunId hrow ⟨hunused, hsequence⟩ houtcome
    | record run hevents => exact write_record hevents hconsistent hrow houtcome
  refine ⟨record, outcome, hrecord, houtcome, ?_⟩
  rw [hcommit, hwrite]
  rfl

end Database
end Zhiyi
