import Zhiyi.Library.Noninterference
import Zhiyi.Postgres.ClaimReplay

set_option autoImplicit false

/-! Tenants share the tables of the PostgreSQL repositories and nothing else. What a tenant
sees of a database is its restriction to his rows, his transactions work on the restriction as
they work on the whole, and those of others leave it. -/
namespace Zhiyi
open Python Interleaving

theorem bind_congr_ok {ε α β : Type} {x : Except ε α} {f g : α → Except ε β}
    (h : ∀ a, x = .ok a → f a = g a) : x >>= f = x >>= g := by
  cases x with
  | error e => rfl
  | ok a => exact h a rfl

namespace Database

section Keys
variable {κ α : Type} [LinearOrder κ]

def owns (t : TenantId) (key : TenantId ×ₗ κ) (_ : α) : Bool := (ofLex key).1 == t

variable (rows : Dict (TenantId ×ₗ κ) α) {t : TenantId} {key : TenantId ×ₗ κ}

theorem get?_owned (hkey : (ofLex key).1 = t) : (rows.filter (owns t)).get? key = rows.get? key :=
  Dict.get?_filter_of fun _ _ => beq_iff_eq.mpr hkey

theorem insert_owned (hkey : (ofLex key).1 = t) (row : α) :
    (rows.insert key row).filter (owns t) = (rows.filter (owns t)).insert key row :=
  rows.filter_insert_of (beq_iff_eq.mpr hkey)

theorem insert_unowned (hkey : (ofLex key).1 ≠ t) (row : α) :
    (rows.insert key row).filter (owns t) = rows.filter (owns t) :=
  rows.filter_insert_of_not (beq_false_of_ne hkey) fun _ _ => beq_false_of_ne hkey

end Keys

/-- The rows of one tenant. -/
def restrict (t : TenantId) (db : Database) : Database where
  runs := db.runs.filter (owns t)
  runEvents := db.runEvents.filter fun _ row => row.tenantId == t
  runCommandReceipts := db.runCommandReceipts.filter (owns t)
  workerLeases := db.workerLeases.filter (owns t)
  workerLeaseClaimReceipts := db.workerLeaseClaimReceipts.filter (owns t)

/-- What a transaction leaves, as the tenant sees it. -/
def seenBy {α : Type} (t : TenantId) (result : Database × α) : Database × α := (result.1.restrict t, result.2)

/-- The events of the candidate take no id of another tenant. -/
def Free (db : Database) (t : TenantId) (events : List RunEvent) : Prop :=
  ∀ event ∈ events, ∀ row, db.runEvents.get? event.eventId = some row → row.tenantId = t

variable (db : Database) (t : TenantId)

@[simp] theorem restrict_restrict : (db.restrict t).restrict t = db.restrict t := by
  simp [restrict]

theorem restrict_runAt {key : RunRowKey} (hkey : (ofLex key).1 = t) :
    (db.restrict t).runs.get? key = db.runs.get? key := get?_owned db.runs hkey

theorem restrict_leaseAt {key : RunRowKey} (hkey : (ofLex key).1 = t) :
    (db.restrict t).workerLeases.get? key = db.workerLeases.get? key := get?_owned db.workerLeases hkey

@[simp] theorem restrict_run (runId : RunId) :
    (db.restrict t).runs.get? (rowKey t runId) = db.runs.get? (rowKey t runId) :=
  restrict_runAt db t rfl

@[simp] theorem restrict_lease (runId : RunId) :
    (db.restrict t).workerLeases.get? (rowKey t runId) = db.workerLeases.get? (rowKey t runId) :=
  restrict_leaseAt db t rfl

@[simp] theorem restrict_receipt (commandId : CommandId) :
    (db.restrict t).runCommandReceipts.get? (receiptRowKey t commandId) =
      db.runCommandReceipts.get? (receiptRowKey t commandId) :=
  get?_owned db.runCommandReceipts rfl

@[simp] theorem restrict_claimReceipt (claimId : LeaseClaimId) :
    (db.restrict t).workerLeaseClaimReceipts.get? (claimRowKey t claimId) =
      db.workerLeaseClaimReceipts.get? (claimRowKey t claimId) :=
  get?_owned db.workerLeaseClaimReceipts rfl

@[simp] theorem selectRun_restrict (runId : RunId) :
    (db.restrict t).selectRun t runId = db.selectRun t runId := by
  rw [selectRun, restrict_run]
  rfl

@[simp] theorem hasRun_restrict (runId : RunId) : (db.restrict t).hasRun t runId = db.hasRun t runId := by
  rw [hasRun, restrict_run]
  rfl

@[simp] theorem selectReceipt_restrict (commandId : CommandId) :
    (db.restrict t).selectReceipt t commandId = db.selectReceipt t commandId := by
  rw [selectReceipt, restrict_receipt]
  rfl

@[simp] theorem load_restrict (runId : RunId) : (db.restrict t).load t runId = db.load t runId := by
  rw [load, selectRun_restrict]
  rfl

@[simp] theorem loadLease_restrict (runId : RunId) :
    (db.restrict t).loadLease t runId = db.loadLease t runId := by
  rw [loadLease, restrict_lease]
  rfl

@[simp] theorem selectEvent_restrict (eventId : EventId) (runId : RunId) :
    (db.restrict t).selectEvent eventId t runId = db.selectEvent eventId t runId := by
  have hget : (db.restrict t).runEvents.get? eventId =
      (db.runEvents.get? eventId).filter fun row => row.tenantId == t := Dict.get?_filter _ _ _
  rw [selectEvent, hget, selectEvent]
  cases db.runEvents.get? eventId with
  | none => rfl
  | some row =>
    by_cases htenant : row.tenantId = t
    · rw [Option.filter_some_pos (by simpa using htenant)]
    · rw [Option.filter_some_neg (by simpa using htenant)]
      simp [htenant]

@[simp] theorem eventsOf_restrict (runId : RunId) : (db.restrict t).eventsOf t runId = db.eventsOf t runId := by
  have hitems : (db.restrict t).runEvents.items = db.runEvents.items.filter fun p => p.2.tenantId == t := rfl
  rw [eventsOf, hitems, List.filter_filter, eventsOf]
  apply List.filter_congr
  intro p _
  cases p.2.tenantId == t <;> simp

theorem listEvents_restrict (runId : RunId) (afterSequence limit : ℕ) :
    (db.restrict t).listEvents t runId afterSequence limit = db.listEvents t runId afterSequence limit := by
  have hpage : ∀ cursor,
      (db.restrict t).eventPage t runId cursor limit = db.eventPage t runId cursor limit := by
    intro cursor
    rw [eventPage, eventsOf_restrict]
    rfl
  rw [listEvents, hpage, hasRun_restrict]
  rfl

theorem replayEvents_restrict (receipt : CommandReceipt) (htenant : receipt.tenantId = t) :
    (db.restrict t).replayEvents receipt = db.replayEvents receipt := by
  subst htenant
  rw [replayEvents, replayEvents]
  cases receipt.eventIds.head? with
  | none => rfl
  | some eventId =>
    simp only
    rw [selectEvent_restrict]

theorem decodeReceipt_tenant {record : ReceiptRecord} {receipt : CommandReceipt}
    (h : decodeReceipt record = .ok receipt) : receipt.tenantId.value = record.tenantId := by
  obtain ⟨_, -, h⟩ := bind_eq_ok.mp (mapError_eq_ok.mp h)
  obtain ⟨tenantId, htenant, h⟩ := bind_eq_ok.mp h
  obtain ⟨_, -, h⟩ := bind_eq_ok.mp h
  obtain ⟨_, -, h⟩ := bind_eq_ok.mp h
  obtain ⟨_, -, h⟩ := bind_eq_ok.mp h
  obtain ⟨_, -, h⟩ := bind_eq_ok.mp h
  obtain ⟨_, -, h⟩ := bind_eq_ok.mp h
  cases hevent : record.eventId with
  | none =>
    simp only [hevent] at h
    obtain ⟨_, -, h⟩ := bind_eq_ok.mp h
    obtain ⟨_, -, h⟩ := bind_eq_ok.mp h
    rw [CommandReceipt.new_eq_ok h]
    exact Identifier.new_eq_ok htenant
  | some eventId =>
    simp only [hevent] at h
    obtain ⟨_, -, h⟩ := bind_eq_ok.mp h
    obtain ⟨_, -, h⟩ := bind_eq_ok.mp h
    obtain ⟨_, -, h⟩ := bind_eq_ok.mp h
    rw [CommandReceipt.new_eq_ok h]
    exact Identifier.new_eq_ok htenant

theorem replayCommand_restrict (commandId : CommandId) (intentFingerprint : String) :
    (db.restrict t).replayCommand t commandId intentFingerprint =
      db.replayCommand t commandId intentFingerprint := by
  rw [replayCommand, selectReceipt_restrict, replayCommand]
  cases hrecord : db.selectReceipt t commandId with
  | none => rfl
  | some record =>
    apply bind_congr_ok
    intro receipt hreceipt
    have htenant : receipt.tenantId = t := by
      apply Identifier.value_injective
      rw [decodeReceipt_tenant hreceipt]
      obtain ⟨row, -, hrow⟩ := Option.map_eq_some_iff.mp hrecord
      rw [← hrow]
      rfl
    rw [replayEvents_restrict db t receipt htenant]

theorem findCommand_restrict (commandId : CommandId) (intentFingerprint : String) :
    (db.restrict t).findCommand t commandId intentFingerprint =
      db.findCommand t commandId intentFingerprint := by
  rw [findCommand, replayCommand_restrict]
  rfl

theorem putRun_restrict (run : Run) (htenant : run.tenantId = t) :
    (db.restrict t).putRun run = (db.putRun run).restrict t := by
  have hkey : (ofLex (rowKey run.tenantId run.runId)).1 = t := htenant
  rw [putRun, putRun, restrict, restrict, insert_owned db.runs hkey]

theorem insertReceipt_restrict (receipt : CommandReceipt) (record : ReceiptRecord)
    (htenant : receipt.tenantId = t) :
    (db.restrict t).insertReceipt receipt record = (db.insertReceipt receipt record).map (restrict t) := by
  subst htenant
  have hkey : (ofLex (receiptRowKey receipt.tenantId receipt.commandId)).1 = receipt.tenantId := rfl
  simp only [insertReceipt]
  rw [restrict_receipt]
  cases db.runCommandReceipts.get? (receiptRowKey receipt.tenantId receipt.commandId) with
  | some row => rfl
  | none =>
    simp only [Option.map_some, Option.some.injEq]
    rw [restrict, restrict, insert_owned db.runCommandReceipts hkey]

theorem insertEvent_restrict (event : RunEvent) (htenant : event.tenantId = t)
    (hfree : ∀ row, db.runEvents.get? event.eventId = some row → row.tenantId = t) :
    (db.restrict t).insertEvent event = restrict t <$> db.insertEvent event := by
  subst htenant
  have hget : (db.restrict event.tenantId).runEvents.get? event.eventId =
      db.runEvents.get? event.eventId := Dict.get?_filter_of fun row hrow => by simpa using hfree row hrow
  have hrow : (event.row.tenantId == event.tenantId) = true := beq_iff_eq.mpr rfl
  rw [insertEvent, hget, eventsOf_restrict, hasRun_restrict, insertEvent]
  simp only [map_bind, map_pure]
  rw [restrict, restrict, db.runEvents.filter_insert_of (p := fun _ row => row.tenantId == event.tenantId) hrow]

theorem free_insertEvent {db : Database} {events : List RunEvent} {event : RunEvent} {next : Database}
    (hfree : db.Free t events) (htenant : event.tenantId = t) (h : db.insertEvent event = .ok next) :
    next.Free t events := by
  rw [(insertEvent_eq_ok h).2]
  intro other hother row hrow
  simp only [Dict.get?_insert] at hrow
  split_ifs at hrow with hsame
  · cases Option.some.inj hrow
    exact htenant
  · exact hfree other hother row hrow

theorem insertEvents_restrict (events : List RunEvent) (htenant : ∀ event ∈ events, event.tenantId = t)
    (hfree : db.Free t events) :
    events.foldlM insertEvent (db.restrict t) = restrict t <$> events.foldlM insertEvent db := by
  induction events generalizing db with
  | nil => rfl
  | cons event events ih =>
    have hevent := htenant event List.mem_cons_self
    have hlater := fun e he => htenant e (List.mem_cons_of_mem event he)
    rw [List.foldlM_cons, List.foldlM_cons,
      insertEvent_restrict db t event hevent (hfree event List.mem_cons_self), bind_map_left, map_bind]
    apply bind_congr_ok
    intro next hnext
    exact ih next hlater (free_insertEvent t (fun e he => hfree e (List.mem_cons_of_mem event he)) hevent hnext)

theorem writeRun_restrict (c : Candidate) (current : Option Run) (htenant : c.updatedRun.tenantId = t) :
    (db.restrict t).writeRun c current = restrict t <$> db.writeRun c current := by
  subst htenant
  unfold writeRun
  cases current with
  | none =>
    simp only
    rw [insertRun, hasRun_restrict, putRun_restrict db _ _ rfl, insertRun, map_bind]
    rfl
  | some run =>
    simp only
    split_ifs
    · rfl
    · rw [updateRun, hasRun_restrict, putRun_restrict db _ _ rfl, updateRun, map_bind]
      rfl

theorem checkReceiptKeys_restrict (receipt : CommandReceipt) (htenant : receipt.tenantId = t) :
    (db.restrict t).checkReceiptKeys receipt = db.checkReceiptKeys receipt := by
  subst htenant
  rw [checkReceiptKeys, hasRun_restrict]
  simp only [selectEvent_restrict]
  rfl

structure About (c : Candidate) : Prop where
  run : c.updatedRun.tenantId = t
  receipt : c.receipt.tenantId = t

theorem write_restrict (c : Candidate) (current : Option Run) (habout : About t c) (hscoped : Scoped c)
    (hfree : db.Free t c.newEvents) :
    (db.restrict t).write c current = seenBy t <$> db.write c current := by
  have hevents : ∀ event ∈ c.newEvents, event.tenantId = t := fun event hevent =>
    (hscoped.events event hevent).trans habout.run
  rw [write, writeRun_restrict db t c current habout.run, write, bind_map_left, map_bind]
  apply bind_congr_ok
  intro afterRun hrun
  have hstill : afterRun.Free t c.newEvents := by
    intro event hevent row hrow
    rw [writeRun_events hrun] at hrow
    exact hfree event hevent row hrow
  rw [insertEvents_restrict afterRun t c.newEvents hevents hstill, bind_map_left, map_bind]
  apply bind_congr_ok
  intro afterEvents _
  rw [checkReceiptKeys_restrict afterEvents t c.receipt habout.receipt]
  simp only [map_bind]
  rfl

theorem replayReceipt_restrict (receipt : CommandReceipt) (htenant : receipt.tenantId = t) :
    (db.restrict t).replayReceipt receipt = seenBy t <$> db.replayReceipt receipt := by
  subst htenant
  rw [replayReceipt, replayCommand_restrict, replayReceipt, map_bind]
  apply bind_congr_ok
  intro replay _
  cases replay <;> rfl

theorem loadCurrent_restrict (c : Candidate) (htenant : c.updatedRun.tenantId = t) :
    (db.restrict t).loadCurrent c = db.loadCurrent c := by
  subst htenant
  rw [loadCurrent, load_restrict]
  rfl

theorem free_insertReceipt {db : Database} {events : List RunEvent} {receipt : CommandReceipt}
    {record : ReceiptRecord} {next : Database} (hfree : db.Free t events)
    (h : db.insertReceipt receipt record = some next) : next.Free t events := by
  rw [(insertReceipt_eq_some h).2]
  exact hfree

theorem commitTransaction_restrict (c : Candidate) (record : ReceiptRecord) (habout : About t c)
    (hfree : db.Free t c.newEvents) :
    (db.restrict t).commitTransaction c record = seenBy t <$> db.commitTransaction c record := by
  rw [commitTransaction, insertReceipt_restrict db t c.receipt record habout.receipt, commitTransaction]
  cases hinsert : db.insertReceipt c.receipt record with
  | none => exact replayReceipt_restrict db t c.receipt habout.receipt
  | some inserted =>
    simp only [Option.map_some]
    rw [loadCurrent_restrict inserted t c habout.run]
    simp only [map_bind]
    apply bind_congr_ok
    intro current _
    apply bind_congr_ok
    intro _ _
    apply bind_congr_ok
    intro _ hvalid
    exact write_restrict inserted t c current habout (scoped_of_valid (raised_eq_ok.mp hvalid))
      (free_insertReceipt t hfree hinsert)

theorem settle_restrict {α : Type} (toFailure : Raised → Failure) (x : Except Raised (Database × α)) :
    (db.restrict t).settle toFailure (seenBy t <$> x) = seenBy t (db.settle toFailure x) := by
  cases x <;> rfl

theorem commit_restrict (c : Candidate) (habout : About t c) (hfree : db.Free t c.newEvents) :
    (db.restrict t).commit c = seenBy t (db.commit c) := by
  rw [commit, commit, ← settle_restrict]
  simp only [map_bind, commitTransaction_restrict db t c _ habout hfree]

theorem guardedWrite_restrict (proof : LeaseAuthorityProof) (platformNow : DateTime) (c : Candidate)
    (hproof : proof.tenantId = t) (habout : About t c) (hfree : db.Free t c.newEvents) :
    (db.restrict t).guardedWrite proof platformNow c = seenBy t <$> db.guardedWrite proof platformNow c := by
  rw [guardedWrite, habout.run, hproof, load_restrict, loadLease_restrict, guardedWrite, habout.run,
    hproof, map_bind]
  apply bind_congr_ok
  intro current _
  cases current with
  | none => rfl
  | some current =>
    simp only [map_bind]
    apply bind_congr_ok
    intro lease _
    apply bind_congr_ok
    intro _ _
    apply bind_congr_ok
    intro _ _
    apply bind_congr_ok
    intro _ hvalid
    exact write_restrict db t c (some current) habout (scoped_of_valid (raised_eq_ok.mp hvalid)) hfree

theorem commitWithLease_restrict (proof : LeaseAuthorityProof) (platformNow : DateTime) (c : Candidate)
    (hproof : proof.tenantId = t) (habout : About t c) (hfree : db.Free t c.newEvents) :
    (db.restrict t).commitWithLease proof platformNow c =
      seenBy t (db.commitWithLease proof platformNow c) := by
  have htransaction : ∀ record, (db.restrict t).commitWithLeaseTransaction proof platformNow c record =
      seenBy t <$> db.commitWithLeaseTransaction proof platformNow c record := by
    intro record
    rw [commitWithLeaseTransaction, insertReceipt_restrict db t c.receipt record habout.receipt,
      commitWithLeaseTransaction]
    cases hinsert : db.insertReceipt c.receipt record with
    | none => exact replayReceipt_restrict db t c.receipt habout.receipt
    | some inserted =>
      exact guardedWrite_restrict inserted t proof platformNow c hproof habout
        (free_insertReceipt t hfree hinsert)
  rw [commitWithLease, commitWithLease, ← settle_restrict]
  simp only [map_bind, htransaction]

theorem loadAuthorityState_restrict (proof : LeaseAuthorityProof) (htenant : proof.tenantId = t) :
    (db.restrict t).loadAuthorityState proof = db.loadAuthorityState proof := by
  subst htenant
  rw [loadAuthorityState, restrict_lease, restrict_run]
  rfl

theorem getAuthority_restrict (proof : LeaseAuthorityProof) (platformNow : DateTime)
    (htenant : proof.tenantId = t) :
    (db.restrict t).getAuthority proof platformNow = db.getAuthority proof platformNow := by
  rw [getAuthority, loadAuthorityState_restrict db t proof htenant]
  rfl

theorem isRunning_restrict {key : RunRowKey} (hkey : (ofLex key).1 = t) :
    (db.restrict t).isRunning key = db.isRunning key := by
  rw [isRunning, restrict_runAt db t hkey]
  rfl

theorem getInactiveRunning_restrict (runId : RunId) (asOf : DateTime) :
    (db.restrict t).getInactiveRunning t runId asOf = db.getInactiveRunning t runId asOf := by
  rw [getInactiveRunning, restrict_lease, isRunning_restrict db t rfl]
  rfl

/-- A filter over leases that keeps rows of the tenant only needs his rows only. -/
theorem filter_leases_restrict {p q : RunRowKey × WorkerLeaseRow → Bool}
    (hsame : ∀ e, (ofLex e.1).1 = t → p e = q e) (howned : ∀ e, q e = true → (ofLex e.1).1 = t) :
    (db.restrict t).workerLeases.items.filter p = db.workerLeases.items.filter q := by
  have hitems : (db.restrict t).workerLeases.items =
      db.workerLeases.items.filter fun e => (ofLex e.1).1 == t := rfl
  rw [hitems, List.filter_filter]
  apply List.filter_congr
  intro e _
  by_cases htenant : (ofLex e.1).1 = t
  · simp [htenant, hsame e htenant]
  · cases hq : q e with
    | true => exact absurd (howned e hq) htenant
    | false => simp [htenant]

theorem inactiveRows_restrict (asOf : DateTime) (cursor : Option InactiveRunningCursor) (limit : ℕ) :
    (db.restrict t).inactiveRows t asOf cursor limit = db.inactiveRows t asOf cursor limit := by
  unfold inactiveRows
  rw [filter_leases_restrict db t (fun e he => ?_) (fun e he => ?_)]
  · rw [isRunning_restrict db t he]
  · simp only [Bool.and_eq_true, beq_iff_eq] at he
    exact he.1.1.2

theorem listInactiveRunning_restrict (cursor : Option InactiveRunningCursor) (limit : ℕ)
    (platformNow : DateTime) :
    (db.restrict t).listInactiveRunning t cursor limit platformNow =
      db.listInactiveRunning t cursor limit platformNow := by
  unfold listInactiveRunning
  simp only [inactiveRows_restrict]

theorem putLease_restrict (runId : RunId) (row : WorkerLeaseRow) :
    (db.restrict t).putLease t runId row = (db.putLease t runId row).restrict t := by
  have hkey : (ofLex (rowKey t runId)).1 = t := rfl
  rw [putLease, putLease, restrict, restrict, insert_owned db.workerLeases hkey]

theorem updateLease_restrict (proof : LeaseAuthorityProof) (leaseVersion : LeaseVersion)
    (change : WorkerLeaseColumns DateTime → WorkerLeaseColumns DateTime) (htenant : proof.tenantId = t) :
    (db.restrict t).updateLease proof leaseVersion change =
      restrict t <$> db.updateLease proof leaseVersion change := by
  subst htenant
  rw [updateLease, restrict_lease, updateLease]
  cases db.workerLeases.get? (rowKey proof.tenantId proof.runId) with
  | none => rfl
  | some row =>
    simp only [map_bind, putLease_restrict]
    rfl

theorem renewMatched_restrict (command : RenewLeaseCommand) (lease : WorkerLeaseRecord)
    (authority : LeaseAuthority) (platformNow : DateTime) (htenant : command.proof.tenantId = t) :
    (db.restrict t).renewMatched command lease authority platformNow =
      seenBy t <$> db.renewMatched command lease authority platformNow := by
  unfold renewMatched
  split_ifs
  · rfl
  · simp only [updateLease_restrict db t _ _ _ htenant, map_bind, bind_map_left]
    rfl

theorem releaseMatched_restrict (command : ReleaseLeaseCommand) (lease : WorkerLeaseRecord)
    (authority : LeaseAuthority) (runStatus : String) (platformNow : DateTime)
    (htenant : command.proof.tenantId = t) :
    (db.restrict t).releaseMatched command lease authority runStatus platformNow =
      seenBy t <$> db.releaseMatched command lease authority runStatus platformNow := by
  unfold releaseMatched
  split_ifs
  · rfl
  · rfl
  · simp only [updateLease_restrict db t _ _ _ htenant, map_bind, bind_map_left]
    rfl

theorem conditionalMutation_restrict (proof : LeaseAuthorityProof) (platformNow : DateTime)
    {matched alone : WorkerLeaseRecord → LeaseAuthority → String →
      Except Raised (Database × ConditionalLeaseOutcome)} (htenant : proof.tenantId = t)
    (hmatched : ∀ lease authority runStatus,
      alone lease authority runStatus = seenBy t <$> matched lease authority runStatus) :
    (db.restrict t).conditionalMutation proof platformNow alone =
      seenBy t <$> db.conditionalMutation proof platformNow matched := by
  subst htenant
  rw [conditionalMutation, restrict_run, loadAuthorityState_restrict db _ proof rfl, conditionalMutation]
  cases db.runs.get? (rowKey proof.tenantId proof.runId) with
  | none => rfl
  | some run =>
    simp only [map_bind]
    apply bind_congr_ok
    rintro ⟨lease, joinedStatus⟩ _
    apply bind_congr_ok
    intro _ _
    cases lease with
    | none => rfl
    | some lease =>
      simp only
      split_ifs
      · rfl
      · exact hmatched _ _ _

theorem renew_restrict (command : RenewLeaseCommand) (platformNow : DateTime)
    (htenant : command.proof.tenantId = t) :
    (db.restrict t).renew command platformNow = seenBy t (db.renew command platformNow) := by
  rw [renew, renew, ← settle_restrict, conditionalMutation_restrict db t _ _ htenant]
  intro lease authority runStatus
  exact renewMatched_restrict db t command lease authority platformNow htenant

theorem release_restrict (command : ReleaseLeaseCommand) (platformNow : DateTime)
    (htenant : command.proof.tenantId = t) :
    (db.restrict t).release command platformNow = seenBy t (db.release command platformNow) := by
  rw [release, release, ← settle_restrict, conditionalMutation_restrict db t _ _ htenant]
  intro lease authority runStatus
  exact releaseMatched_restrict db t command lease authority runStatus platformNow htenant

theorem decodeClaimReceipt_tenant {record : ClaimReceiptMapping} {receipt : WorkerLeaseClaimReceiptRecord}
    (h : decodeClaimReceipt record = .ok receipt) : receipt.tenantId.value = record.tenantId := by
  obtain ⟨_, -, h⟩ := bind_eq_ok.mp (mapError_eq_ok.mp h)
  obtain ⟨_, -, h⟩ := bind_eq_ok.mp h
  obtain ⟨tenantId, htenant, h⟩ := bind_eq_ok.mp h
  obtain ⟨_, -, h⟩ := bind_eq_ok.mp h
  obtain ⟨_, -, h⟩ := bind_eq_ok.mp h
  obtain ⟨_, -, h⟩ := bind_eq_ok.mp h
  obtain ⟨_, -, h⟩ := bind_eq_ok.mp h
  obtain ⟨_, -, h⟩ := bind_eq_ok.mp h
  obtain ⟨_, -, h⟩ := bind_eq_ok.mp h
  obtain ⟨_, -, h⟩ := bind_eq_ok.mp h
  obtain ⟨_, -, h⟩ := bind_eq_ok.mp h
  obtain ⟨_, -, h⟩ := bind_eq_ok.mp h
  obtain ⟨_, -, h⟩ := bind_eq_ok.mp h
  obtain ⟨_, -, h⟩ := bind_eq_ok.mp h
  obtain ⟨_, -, h⟩ := bind_eq_ok.mp h
  obtain ⟨_, -, h⟩ := bind_eq_ok.mp h
  obtain ⟨_, rfl⟩ := construct_eq_ok h
  exact Identifier.new_eq_ok htenant

theorem loadReceipt_restrict (command : ClaimLeaseCommand) (htenant : command.tenantId = t) :
    (db.restrict t).loadReceipt command = db.loadReceipt command := by
  subst htenant
  rw [loadReceipt, restrict_claimReceipt]
  rfl

theorem loadReceipt_tenant {db : Database} {command : ClaimLeaseCommand}
    {receipt : WorkerLeaseClaimReceiptRecord} (h : db.loadReceipt command = .ok (some receipt)) :
    receipt.tenantId = command.tenantId := by
  unfold loadReceipt at h
  cases hrow : db.workerLeaseClaimReceipts.get? (claimRowKey command.tenantId command.claimId) with
  | none =>
    simp only [hrow] at h
    cases h
  | some columns =>
    simp only [hrow] at h
    obtain ⟨decoded, hdecoded, h⟩ := bind_eq_ok.mp h
    obtain ⟨_, -, h⟩ := bind_eq_ok.mp h
    obtain ⟨_, -, h⟩ := bind_eq_ok.mp h
    cases Except.ok.inj h
    exact Identifier.value_injective (decodeClaimReceipt_tenant hdecoded)

theorem outcomeFromReceipt_restrict (receipt : WorkerLeaseClaimReceiptRecord) (platformNow : DateTime)
    (htenant : receipt.tenantId = t) :
    (db.restrict t).outcomeFromReceipt receipt platformNow = db.outcomeFromReceipt receipt platformNow := by
  subst htenant
  have hcurrent : ∀ result, (db.restrict receipt.tenantId).receiptIsCurrent receipt result platformNow =
      db.receiptIsCurrent receipt result platformNow := by
    intro result
    rw [receiptIsCurrent, restrict_lease, restrict_run]
    rfl
  unfold outcomeFromReceipt
  simp only [hcurrent]

theorem receiptLookup_restrict (command : ClaimLeaseCommand) (requestNow : DateTime)
    (htenant : command.tenantId = t) :
    (db.restrict t).receiptLookup command requestNow = db.receiptLookup command requestNow := by
  rw [receiptLookup, loadReceipt_restrict db t command htenant, receiptLookup]
  apply bind_congr_ok
  intro receipt hreceipt
  cases receipt with
  | none => rfl
  | some receipt =>
    simp only
    rw [outcomeFromReceipt_restrict db t receipt requestNow ((loadReceipt_tenant hreceipt).trans htenant)]

theorem claimLookup_restrict (command : ClaimLeaseCommand) (requestNow : DateTime)
    (htenant : command.tenantId = t) :
    (db.restrict t).claimLookup command requestNow = db.claimLookup command requestNow := by
  rw [claimLookup, receiptLookup_restrict db t command requestNow htenant, claimLookup]

theorem isEligible_restrict {key : RunRowKey} (run : RunRow) (platformNow : DateTime)
    (hkey : (ofLex key).1 = t) :
    (db.restrict t).isEligible key run platformNow = db.isEligible key run platformNow := by
  rw [isEligible, restrict_leaseAt db t hkey]
  rfl

theorem selectEligibleRun_restrict (platformNow : DateTime) :
    (db.restrict t).selectEligibleRun t platformNow = db.selectEligibleRun t platformNow := by
  have hitems : (db.restrict t).runs.items = db.runs.items.filter fun e => (ofLex e.1).1 == t := rfl
  have heligible : ((db.restrict t).runs.items.filter fun p =>
      (ofLex p.1).1 == t && (db.restrict t).isEligible p.1 p.2 platformNow) =
      db.runs.items.filter fun p => (ofLex p.1).1 == t && db.isEligible p.1 p.2 platformNow := by
    rw [hitems, List.filter_filter]
    apply List.filter_congr
    intro e _
    by_cases htenant : (ofLex e.1).1 = t
    · simp [htenant, isEligible_restrict db t e.2 platformNow htenant]
    · simp [beq_false_of_ne htenant]
  rw [selectEligibleRun, heligible]
  rfl

theorem isClaimable_restrict (runId : RunId) (lease : Option WorkerLeaseRecord) (mutationNow : DateTime) :
    (db.restrict t).isClaimable t runId lease mutationNow = db.isClaimable t runId lease mutationNow := by
  rw [isClaimable, restrict_run]
  rfl

theorem claimLoop_restrict (selected : Option RunId) (clock : List DateTime) :
    (db.restrict t).claimLoop t selected clock = db.claimLoop t selected clock := by
  induction clock generalizing selected with
  | nil => cases selected <;> rfl
  | cons mutationNow clock ih =>
    cases selected with
    | none => rfl
    | some runId =>
      simp only [claimLoop, loadLease_restrict, isClaimable_restrict, selectEligibleRun_restrict, ih]

theorem insertClaimReceipt_restrict (record : WorkerLeaseClaimReceiptRecord) (htenant : record.tenantId = t) :
    (db.restrict t).insertClaimReceipt record = restrict t <$> db.insertClaimReceipt record := by
  subst htenant
  unfold insertClaimReceipt
  simp only [restrict_claimReceipt, hasRun_restrict]
  cases db.workerLeaseClaimReceipts.get? (claimRowKey record.tenantId record.claimId) with
  | some columns => rfl
  | none =>
    have hkey : (ofLex (claimRowKey record.tenantId record.claimId)).1 = record.tenantId := rfl
    simp only [map_bind, map_pure]
    rw [restrict, restrict, insert_owned db.workerLeaseClaimReceipts hkey]

theorem claimIdTaken_restrict (lease : WorkerLeaseRecord) (htenant : lease.tenantId = t) :
    (db.restrict t).claimIdTaken lease = db.claimIdTaken lease := by
  have hitems : (db.restrict t).workerLeases.items =
      db.workerLeases.items.filter fun e => (ofLex e.1).1 == t := rfl
  rw [claimIdTaken, hitems, List.any_filter, claimIdTaken, htenant]
  congr 1
  funext e
  cases (ofLex e.1).1 == t <;> simp

theorem storeLease_restrict (lease : WorkerLeaseRecord) (current : Option WorkerLeaseRecord)
    (htenant : lease.tenantId = t) :
    (db.restrict t).storeLease lease current = restrict t <$> db.storeLease lease current := by
  unfold storeLease
  simp only [claimIdTaken_restrict db t lease htenant]
  subst htenant
  simp only [restrict_lease, hasRun_restrict, putLease_restrict]
  cases current <;> simp only [map_bind] <;> rfl

theorem claimWrite_restrict (command : ClaimLeaseCommand) (token : LeaseToken)
    (selected : Option (RunId × Option WorkerLeaseRecord)) (mutationNow : DateTime)
    (htenant : command.tenantId = t) :
    (db.restrict t).claimWrite command token selected mutationNow =
      seenBy t <$> db.claimWrite command token selected mutationNow := by
  have hreceipts : ∀ {result receipt},
    claiming (raising (claimReceipt command result mutationNow)) = .ok receipt →
      receipt.tenantId = t := by
    intro result receipt h
    rw [claiming_eq_ok, raising_eq_ok] at h
    obtain ⟨issuedAt, replayExpiresAt, hfields⟩ := claimReceipt_fields h
    rw [hfields]
    exact htenant
  cases selected with
  | none =>
    simp only [claimWrite, map_bind]
    apply bind_congr_ok
    intro receipt hreceipt
    rw [insertClaimReceipt_restrict db t receipt (hreceipts hreceipt), bind_map_left]
    rfl
  | some found =>
    obtain ⟨runId, current⟩ := found
    simp only [claimWrite, map_bind]
    apply bind_congr_ok
    intro lease hlease
    apply bind_congr_ok
    intro receipt hreceipt
    have hlease : lease.tenantId = t := by
      rw [claiming_eq_ok, raising_eq_ok] at hlease
      rw [(nextLease_fields hlease).2.1]
      exact htenant
    rw [storeLease_restrict db t lease current hlease, bind_map_left]
    apply bind_congr_ok
    intro stored _
    rw [insertClaimReceipt_restrict stored t receipt (hreceipts hreceipt), bind_map_left]
    rfl

theorem claimFresh_restrict (command : ClaimLeaseCommand) (token : LeaseToken) (requestNow : DateTime)
    (clock : List DateTime) (htenant : command.tenantId = t) :
    (db.restrict t).claimFresh command token requestNow clock =
      (db.claimFresh command token requestNow clock).map (seenBy t <$> ·) := by
  have hwrite := fun selected mutationNow => claimWrite_restrict db t command token selected mutationNow htenant
  unfold claimFresh
  rw [htenant, selectEligibleRun_restrict, claimLoop_restrict]
  rcases db.claimLoop t (db.selectEligibleRun t requestNow) clock.tail with _ | (e | ⟨selected, mutationNow⟩)
  · rfl
  · rfl
  · simp only [Option.map_some, hwrite]

theorem claim_restrict (command : ClaimLeaseCommand) (token : LeaseToken) (requestNow : DateTime)
    (clock : List DateTime) (raceNow : DateTime) (htenant : command.tenantId = t) :
    (db.restrict t).claim command token requestNow clock raceNow =
      (db.claim command token requestNow clock raceNow).map (seenBy t) := by
  have hreplay : (db.restrict t).replayAfterRace command raceNow = db.replayAfterRace command raceNow := by
    rw [replayAfterRace, claimLookup_restrict db t command raceNow htenant]
    rfl
  have hfresh := claimFresh_restrict db t command token requestNow clock htenant
  rw [claim_eq_across, claim_eq_across, claimAcross, claimAcross,
    claimLookup_restrict db t command requestNow htenant, hfresh, hreplay]
  generalize db.claimLookup command requestNow = found
  generalize db.claimFresh command token requestNow clock = fresh
  rcases found with e | (_ | outcome)
  · rfl
  · rcases fresh with _ | ((_ | _) | ⟨next, outcome⟩) <;> rfl
  · rfl

theorem putRun_others (run : Run) (hother : run.tenantId ≠ t) : (db.putRun run).restrict t = db.restrict t := by
  have hkey : (ofLex (rowKey run.tenantId run.runId)).1 ≠ t := hother
  rw [putRun, restrict, restrict, insert_unowned db.runs hkey]

theorem putLease_others {u : TenantId} (runId : RunId) (row : WorkerLeaseRow) (hother : u ≠ t) :
    (db.putLease u runId row).restrict t = db.restrict t := by
  have hkey : (ofLex (rowKey u runId)).1 ≠ t := hother
  rw [putLease, restrict, restrict, insert_unowned db.workerLeases hkey]

theorem putClaimReceipt_others (record : WorkerLeaseClaimReceiptRecord) (hother : record.tenantId ≠ t) :
    (db.putClaimReceipt record).restrict t = db.restrict t := by
  have hkey : (ofLex (claimRowKey record.tenantId record.claimId)).1 ≠ t := hother
  simp only [putClaimReceipt]
  rw [restrict, restrict, insert_unowned db.workerLeaseClaimReceipts hkey]

variable {db t}

theorem keptByWrites_others {c : Candidate} (hscoped : Scoped c) (hother : c.updatedRun.tenantId ≠ t) :
    KeptByWrites c fun next => next.restrict t = db.restrict t where
  putRun next h := (putRun_others next t c.updatedRun hother).trans h
  insertEvent before next event hevent h hinsert := by
    obtain ⟨hfree, rfl⟩ := insertEvent_eq_ok hinsert
    have htenant : (event.row.tenantId == t) = false := by
      apply beq_false_of_ne
      rw [← hscoped.events event hevent] at hother
      exact hother
    rw [← h, restrict, restrict, before.runEvents.filter_insert_of_not (p := fun _ row => row.tenantId == t)
      htenant fun old hold => by rw [hfree] at hold; cases hold]
  insertReceipt before next record h hinsert := by
    obtain ⟨-, rfl⟩ := insertReceipt_eq_some hinsert
    have hkey : (ofLex (receiptRowKey c.receipt.tenantId c.receipt.commandId)).1 ≠ t :=
      hscoped.receipt ▸ hother
    rw [← h, restrict, restrict, insert_unowned before.runCommandReceipts hkey]

theorem Commits.others {c : Candidate} {guard : Prop} {result : Database × Except Failure CommitOutcome}
    (h : db.Commits c guard result) (hothers : guard → Scoped c → c.updatedRun.tenantId ≠ t) :
    result.1.restrict t = db.restrict t := by
  cases h with
  | rejected | replayed => rfl
  | stored next outcome hguard hstored =>
    exact hstored.kept _ (keptByWrites_others hstored.scoped (hothers hguard hstored.scoped)) rfl

theorem Mutates.others {proof : LeaseAuthorityProof} {expectedVersion : LeaseVersion} {now : DateTime}
    {result : Database × Except Failure ConditionalLeaseOutcome}
    (h : db.Mutates proof expectedVersion now result) (hother : proof.tenantId ≠ t) :
    result.1.restrict t = db.restrict t := by
  cases h with
  | refused => rfl
  | applied row next => exact putLease_others db t proof.runId next hother

theorem claim_others {command : ClaimLeaseCommand} (token : LeaseToken) (requestNow : DateTime)
    (clock : List DateTime) (raceNow : DateTime) (hother : command.tenantId ≠ t) :
    (db.perform (.claim command token requestNow clock raceNow)).restrict t = db.restrict t := by
  have hclaims := db.claim_claims command token requestNow clock raceNow
  have hreceipts : ∀ {result now receipt}, claimReceipt command result now = .ok receipt →
      receipt.tenantId ≠ t := by
    intro result now receipt h
    obtain ⟨issuedAt, replayExpiresAt, hfields⟩ := claimReceipt_fields h
    rw [hfields]
    exact hother
  simp only [perform]
  generalize db.claim command token requestNow clock raceNow = result at hclaims
  cases hclaims with
  | unanswered | failed | replayed => rfl
  | noWork now receipt _ hreceipt => exact putClaimReceipt_others db t receipt (hreceipts hreceipt)
  | granted now runId row receipt grant current lease _ hgrants =>
    exact (putClaimReceipt_others _ t receipt (hreceipts hgrants.receipted)).trans
      (putLease_others db t runId row hother)

/-- A request to one of the repositories: a transaction, or a read. -/
inductive Request where
  | call (call : Call)
  | load (tenantId : TenantId) (runId : RunId)
  | listEvents (tenantId : TenantId) (runId : RunId) (afterSequence limit : ℕ)
  | findCommand (tenantId : TenantId) (commandId : CommandId) (intentFingerprint : String)
  | getAuthority (proof : LeaseAuthorityProof) (platformNow : DateTime)
  | getInactiveRunning (tenantId : TenantId) (runId : RunId) (asOf : DateTime)
  | listInactiveRunning (tenantId : TenantId) (cursor : Option InactiveRunningCursor) (limit : ℕ)
    (platformNow : DateTime)

inductive Answer where
  | committed (answer : Except Failure CommitOutcome)
  | claimed (answer : Option (Except Failure LeaseClaimOutcome))
  | changed (answer : Except Failure ConditionalLeaseOutcome)
  | run (answer : Except Failure (Option Run))
  | events (answer : Except Failure (List RunEvent))
  | found (answer : Except Failure (Option CommitOutcome))
  | authority (answer : Except Failure LeaseAuthority)
  | inactive (answer : Except Failure (Option InactiveRunningLease))
  | page (answer : Except Failure InactiveRunningPage)

def serve (db : Database) : Request → Database
  | .call call => db.perform call
  | _ => db

def answer (db : Database) : Request → Answer
  | .call (.commit c) => .committed (db.commit c).2
  | .call (.commitWithLease proof platformNow c) => .committed (db.commitWithLease proof platformNow c).2
  | .call (.claim command token requestNow clock raceNow) =>
    .claimed ((db.claim command token requestNow clock raceNow).map Prod.snd)
  | .call (.renew command platformNow) => .changed (db.renew command platformNow).2
  | .call (.release command platformNow) => .changed (db.release command platformNow).2
  | .load tenantId runId => .run (db.load tenantId runId)
  | .listEvents tenantId runId afterSequence limit =>
    .events (db.listEvents tenantId runId afterSequence limit)
  | .findCommand tenantId commandId intentFingerprint =>
    .found (db.findCommand tenantId commandId intentFingerprint)
  | .getAuthority proof platformNow => .authority (db.getAuthority proof platformNow)
  | .getInactiveRunning tenantId runId asOf => .inactive (db.getInactiveRunning tenantId runId asOf)
  | .listInactiveRunning tenantId cursor limit platformNow =>
    .page (db.listInactiveRunning tenantId cursor limit platformNow)

def server : Machine Database Request := ⟨empty, serve⟩

/-- The request names this tenant and no other. -/
def ownedBy (t : TenantId) : Request → Bool
  | .call (.commit c) => c.updatedRun.tenantId == t && c.receipt.tenantId == t
  | .call (.commitWithLease proof _ c) =>
    proof.tenantId == t && (c.updatedRun.tenantId == t && c.receipt.tenantId == t)
  | .call (.claim command _ _ _ _) => command.tenantId == t
  | .call (.renew command _) => command.proof.tenantId == t
  | .call (.release command _) => command.proof.tenantId == t
  | .load tenantId _ => tenantId == t
  | .listEvents tenantId _ _ _ => tenantId == t
  | .findCommand tenantId _ _ => tenantId == t
  | .getAuthority proof _ => proof.tenantId == t
  | .getInactiveRunning tenantId _ _ => tenantId == t
  | .listInactiveRunning tenantId _ _ _ => tenantId == t

def newEventsOf : Request → List RunEvent
  | .call (.commit c) => c.newEvents
  | .call (.commitWithLease _ _ c) => c.newEvents
  | _ => []

/-- The request stores no event under an id that another tenant has. -/
def Admits (t : TenantId) (db : Database) (request : Request) : Prop := db.Free t (newEventsOf request)

theorem serve_others {request : Request} (hother : ownedBy t request = false) :
    (db.serve request).restrict t = db.restrict t := by
  cases request with
  | call call =>
    cases call with
    | commit c =>
      apply (db.commit_commits c).others
      intro _ hscoped hrun
      simp [ownedBy, hscoped.receipt, hrun] at hother
    | commitWithLease proof platformNow c =>
      apply (db.commitWithLease_commits proof platformNow c).others
      intro hguard hscoped hrun
      have hproof := hguard.1
      simp [ownedBy, hproof, hscoped.receipt, hrun] at hother
    | claim command token requestNow clock raceNow =>
      exact claim_others token requestNow clock raceNow (by simpa [ownedBy] using hother)
    | renew command platformNow =>
      exact (db.renew_mutates command platformNow).others (by simpa [ownedBy] using hother)
    | release command platformNow =>
      exact (db.release_mutates command platformNow).others (by simpa [ownedBy] using hother)
  | load | listEvents | findCommand | getAuthority | getInactiveRunning | listInactiveRunning => rfl

theorem serve_restrict {request : Request} (howned : ownedBy t request = true) (hadmits : Admits t db request) :
    (db.restrict t).serve request = (db.serve request).restrict t ∧
      (db.restrict t).answer request = db.answer request := by
  cases request with
  | call call =>
    cases call with
    | commit c =>
      simp only [ownedBy, Bool.and_eq_true, beq_iff_eq] at howned
      have hcommit := commit_restrict db t c ⟨howned.1, howned.2⟩ hadmits
      simp only [serve, perform, answer, hcommit, seenBy, and_self]
    | commitWithLease proof platformNow c =>
      simp only [ownedBy, Bool.and_eq_true, beq_iff_eq] at howned
      have hcommit := commitWithLease_restrict db t proof platformNow c howned.1
        ⟨howned.2.1, howned.2.2⟩ hadmits
      simp only [serve, perform, answer, hcommit, seenBy, and_self]
    | claim command token requestNow clock raceNow =>
      have hclaim := claim_restrict db t command token requestNow clock raceNow
        (by simpa [ownedBy] using howned)
      simp only [serve, perform, answer, hclaim]
      cases db.claim command token requestNow clock raceNow with
      | none => exact ⟨rfl, rfl⟩
      | some result => exact ⟨rfl, rfl⟩
    | renew command platformNow =>
      have hrenew := renew_restrict db t command platformNow (by simpa [ownedBy] using howned)
      simp only [serve, perform, answer, hrenew, seenBy, and_self]
    | release command platformNow =>
      have hrelease := release_restrict db t command platformNow (by simpa [ownedBy] using howned)
      simp only [serve, perform, answer, hrelease, seenBy, and_self]
  | load tenantId runId =>
    simp only [ownedBy, beq_iff_eq] at howned
    simp [serve, answer, howned]
  | listEvents tenantId runId afterSequence limit =>
    simp only [ownedBy, beq_iff_eq] at howned
    simp [serve, answer, howned, listEvents_restrict]
  | findCommand tenantId commandId intentFingerprint =>
    simp only [ownedBy, beq_iff_eq] at howned
    simp [serve, answer, howned, findCommand_restrict]
  | getAuthority proof platformNow =>
    simp only [ownedBy, beq_iff_eq] at howned
    simp [serve, answer, getAuthority_restrict db t proof platformNow howned]
  | getInactiveRunning tenantId runId asOf =>
    simp only [ownedBy, beq_iff_eq] at howned
    simp [serve, answer, howned, getInactiveRunning_restrict]
  | listInactiveRunning tenantId cursor limit platformNow =>
    simp only [ownedBy, beq_iff_eq] at howned
    simp [serve, answer, howned, listInactiveRunning_restrict]

theorem tenant_observes (t : TenantId) : server.Observes answer (ownedBy t) (restrict t) (Admits t) where
  ignores _ _ := serve_others
  steps _ _ howned hadmits := (serve_restrict howned hadmits).1
  answers _ _ howned hadmits := (serve_restrict howned hadmits).2

/-- A commit of an event whose id is stored already, for whichever tenant, stores nothing. -/
theorem commit_of_taken {c : Candidate} {guard : Prop} {result : Database × Except Failure CommitOutcome}
    (h : db.Commits c guard result) (htaken : ¬ db.Free t c.newEvents) : result.1 = db := by
  cases h with
  | rejected | replayed => rfl
  | stored next outcome _ hstored =>
    refine absurd (fun event hevent row hrow => ?_) htaken
    rw [hstored.unused event hevent] at hrow
    cases hrow

/-- Tenants are isolated. From databases with the same rows of a tenant, histories with the same
    requests of the tenant give him the same answers and leave him the same rows, whatever the others
    store and ask for, as long as his new events take no id of an event of another tenant. Requests of
    others leave his rows, and a commit that takes a stored id stores nothing. -/
theorem tenants_are_isolated (t : TenantId) :
    (∀ (db other : Database) (requests others : List Request), db.restrict t = other.restrict t →
      requests.filter (ownedBy t) = others.filter (ownedBy t) →
      server.Throughout (fun db request => ownedBy t request = true → Admits t db request) db requests →
      server.Throughout (fun db request => ownedBy t request = true → Admits t db request) other others →
      (server.runFrom db requests).restrict t = (server.runFrom other others).restrict t ∧
        ((server.answers answer db requests).filter fun p => ownedBy t p.1) =
          (server.answers answer other others).filter fun p => ownedBy t p.1) ∧
    (∀ (db : Database) (request : Request), ownedBy t request = false →
      (db.serve request).restrict t = db.restrict t) ∧
    ∀ (db : Database) (c : Candidate), ¬ db.Free t c.newEvents →
      (db.commit c).1 = db ∧ ∀ proof platformNow, (db.commitWithLease proof platformNow c).1 = db :=
  ⟨fun _ _ _ _ hrows hsame hadmits hothers => (tenant_observes t).alike hrows hsame hadmits hothers,
    fun _ _ hother => serve_others hother, fun db c htaken => ⟨commit_of_taken (db.commit_commits c) htaken,
      fun proof platformNow => commit_of_taken (db.commitWithLease_commits proof platformNow c) htaken⟩⟩

end Database
end Zhiyi
