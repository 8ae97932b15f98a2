import Zhiyi.Library.Machine
import Zhiyi.Postgres.Claims
import Zhiyi.Postgres.RoundTrip

set_option autoImplicit false

/-! What each transaction of the PostgreSQL repositories can do, said once: the writes of a
commit, the guard of a guarded commit, and the changes of lease rows and claim receipts. -/
namespace Zhiyi
open Python Interleaving

theorem raised_eq_ok {α : Type} {x : Except Failure α} {a : α} : raised x = .ok a ↔ x = .ok a :=
  mapError_eq_ok

namespace Database

/-- Kept by each write that the commit of a candidate can make. -/
structure KeptByWrites (c : Candidate) (P : Database → Prop) : Prop where
  putRun : ∀ db, P db → P (db.putRun c.updatedRun)
  insertEvent : ∀ db next, ∀ event ∈ c.newEvents, P db → db.insertEvent event = .ok next → P next
  insertReceipt : ∀ db next record, P db → db.insertReceipt c.receipt record = some next → P next

namespace KeptByWrites
variable {c : Candidate} {P : Database → Prop} {db next : Database}

theorem writeRun (h : KeptByWrites c P) (hdb : P db) {current : Option Run}
    (hwrite : db.writeRun c current = .ok next) : P next := by
  unfold Database.writeRun at hwrite
  cases current with
  | none =>
    obtain ⟨_, -, hput⟩ := bind_eq_ok.mp hwrite
    cases Except.ok.inj hput
    exact h.putRun db hdb
  | some run =>
    simp only at hwrite
    split_ifs at hwrite
    · cases Except.ok.inj hwrite
      exact hdb
    · obtain ⟨_, -, hput⟩ := bind_eq_ok.mp hwrite
      cases Except.ok.inj hput
      exact h.putRun db hdb

theorem insertEvents {events : List RunEvent} (h : ∀ db next, ∀ event ∈ events, P db →
    db.insertEvent event = .ok next → P next) (hdb : P db)
    (hinsert : events.foldlM Database.insertEvent db = .ok next) : P next := by
  induction events generalizing db with
  | nil =>
    cases Except.ok.inj hinsert
    exact hdb
  | cons event events ih =>
    rw [List.foldlM_cons] at hinsert
    obtain ⟨middle, hmiddle, hrest⟩ := bind_eq_ok.mp hinsert
    exact ih (fun db next e he => h db next e (List.mem_cons_of_mem _ he))
      (h db middle event List.mem_cons_self hdb hmiddle) hrest

theorem write (h : KeptByWrites c P) (hdb : P db) {current : Option Run} {result : Database × CommitOutcome}
    (hwrite : db.write c current = .ok result) : P result.1 := by
  obtain ⟨afterRun, hrun, hwrite⟩ := bind_eq_ok.mp hwrite
  obtain ⟨afterEvents, hevents, hwrite⟩ := bind_eq_ok.mp hwrite
  obtain ⟨_, -, hwrite⟩ := bind_eq_ok.mp hwrite
  obtain ⟨_, -, hwrite⟩ := bind_eq_ok.mp hwrite
  cases Except.ok.inj hwrite
  exact insertEvents h.insertEvent (h.writeRun hdb hrun) hevents

end KeptByWrites

variable {db : Database}

structure Scoped (c : Candidate) : Prop where
  receipt : c.receipt.tenantId = c.updatedRun.tenantId
  events : ∀ event ∈ c.newEvents, event.tenantId = c.updatedRun.tenantId

theorem scoped_of_valid {c : Candidate} {current : Option Run} {occupied : EventId → Bool} {u : Unit}
    (h : validateCommitCandidate c current occupied = .ok u) : Scoped c := by
  obtain ⟨hconsistent, hshape⟩ := validateCommitCandidate_eq_ok h
  refine ⟨hconsistent.tenant, fun event hevent => ?_⟩
  cases hshape with
  | create only hevents _ _ htenant =>
    rw [hevents, List.mem_singleton] at hevent
    exact hevent ▸ htenant
  | update current only hevents _ _ htenant =>
    rw [hevents, List.mem_singleton] at hevent
    exact hevent ▸ htenant
  | record current hevents =>
    rw [hevents] at hevent
    cases hevent

/-- What a commit that stores something new leaves. -/
structure Stored (db : Database) (c : Candidate) (next : Database) (outcome : CommitOutcome) : Prop where
  replayed : outcome.replayed = false
  receipt : outcome.receipt = c.receipt
  events : outcome.events = c.newEvents
  valid : ∃ current, validateCommitCandidate c current (fun _ => false) = .ok ()
  free : db.runCommandReceipts.get? (receiptRowKey c.receipt.tenantId c.receipt.commandId) = none
  unused : ∀ event ∈ c.newEvents, db.runEvents.get? event.eventId = none
  recorded : ∃ record, encodeReceipt c.receipt = .ok record ∧ next.runCommandReceipts.get?
    (receiptRowKey c.receipt.tenantId c.receipt.commandId) = some (c.receipt.row record)
  logged : ∀ event ∈ c.newEvents, next.runEvents.get? event.eventId = some event.row
  kept : ∀ P, KeptByWrites c P → P db → P next

theorem Stored.scoped {c : Candidate} {next : Database} {outcome : CommitOutcome}
    (h : db.Stored c next outcome) : Scoped c :=
  h.valid.elim fun _ => scoped_of_valid

/-- How a commit ends: rejected or replayed, which leave the database, or stored. -/
inductive Commits (db : Database) (c : Candidate) (guard : Prop) :
    Database × Except Failure CommitOutcome → Prop
  | rejected (e : Failure) : Commits db c guard (db, .error e)
  | replayed (outcome : CommitOutcome) (hreplayed : outcome.replayed = true) :
    Commits db c guard (db, .ok outcome)
  | stored (next : Database) (outcome : CommitOutcome) (hguard : guard)
    (hstored : db.Stored c next outcome) : Commits db c guard (next, .ok outcome)

theorem replayReceipt_eq_ok {receipt : CommandReceipt} {result : Database × CommitOutcome}
    (h : db.replayReceipt receipt = .ok result) : result.1 = db ∧ result.2.replayed = true := by
  obtain ⟨replay, hreplay, h⟩ := bind_eq_ok.mp h
  rw [raised_eq_ok, replayCommand] at hreplay
  split at hreplay
  · cases Except.ok.inj hreplay
    cases h
  · obtain ⟨stored, -, hreplay⟩ := bind_eq_ok.mp hreplay
    obtain ⟨_, -, hreplay⟩ := bind_eq_ok.mp hreplay
    obtain ⟨events, -, hreplay⟩ := bind_eq_ok.mp hreplay
    obtain ⟨outcome, houtcome, hreplay⟩ := bind_eq_ok.mp hreplay
    cases Except.ok.inj hreplay
    cases Except.ok.inj h
    obtain ⟨-, -, hreplayed⟩ := CommitOutcome.new_eq_ok (raising_eq_ok.mp houtcome)
    exact ⟨rfl, hreplayed⟩

theorem insertReceipt_eq_some {receipt : CommandReceipt} {record : ReceiptRecord} {next : Database}
    (h : db.insertReceipt receipt record = some next) :
    db.runCommandReceipts.get? (receiptRowKey receipt.tenantId receipt.commandId) = none ∧
      next = { db with runCommandReceipts := (db.runCommandReceipts.insert
        (receiptRowKey receipt.tenantId receipt.commandId) (receipt.row record)) } := by
  unfold insertReceipt at h
  simp only at h
  split at h
  · cases h
  · next hfree => exact ⟨hfree, (Option.some.inj h).symm⟩

theorem insertEvent_eq_ok {event : RunEvent} {next : Database} (h : db.insertEvent event = .ok next) :
    db.runEvents.get? event.eventId = none ∧
      next = { db with runEvents := db.runEvents.insert event.eventId event.row } := by
  obtain ⟨_, hfree, h⟩ := bind_eq_ok.mp h
  obtain ⟨_, -, h⟩ := bind_eq_ok.mp h
  obtain ⟨_, -, h⟩ := bind_eq_ok.mp h
  rw [require_eq_ok, Option.isNone_iff_eq_none] at hfree
  exact ⟨hfree, (Except.ok.inj h).symm⟩

theorem writeRun_events {c : Candidate} {current : Option Run} {next : Database}
    (h : db.writeRun c current = .ok next) : next.runEvents = db.runEvents := by
  unfold writeRun at h
  cases current with
  | none =>
    obtain ⟨_, -, hput⟩ := bind_eq_ok.mp h
    cases Except.ok.inj hput
    rfl
  | some run =>
    simp only at h
    split_ifs at h
    · cases Except.ok.inj h
      rfl
    · obtain ⟨_, -, hput⟩ := bind_eq_ok.mp h
      cases Except.ok.inj hput
      rfl

/-- Inserted events had no row before. -/
theorem insertEvents_unused {events : List RunEvent} {next : Database}
    (h : events.foldlM insertEvent db = .ok next) :
    ∀ event ∈ events, db.runEvents.get? event.eventId = none := by
  induction events generalizing db with
  | nil =>
    intro event hevent
    cases hevent
  | cons first events ih =>
    rw [List.foldlM_cons] at h
    obtain ⟨middle, hmiddle, hrest⟩ := bind_eq_ok.mp h
    obtain ⟨hfree, rfl⟩ := insertEvent_eq_ok hmiddle
    intro event hevent
    rcases List.mem_cons.mp hevent with rfl | hlater
    · exact hfree
    · have hunused := ih hrest event hlater
      simp only [Dict.get?_insert] at hunused
      split_ifs at hunused
      exact hunused

theorem keptByWrites_receipt (c : Candidate) (key : ReceiptRowKey) (row : CommandReceiptRow) :
    KeptByWrites c fun next => next.runCommandReceipts.get? key = some row where
  putRun _ h := h
  insertEvent _ next event _ h hinsert := by
    rw [(insertEvent_eq_ok hinsert).2]
    exact h
  insertReceipt _ next record h hinsert := by
    obtain ⟨hfree, rfl⟩ := insertReceipt_eq_some hinsert
    simp only
    rw [Dict.get?_insert_ne _ _ fun hkey => by rw [hkey, hfree] at h; cases h]
    exact h

theorem insertEvent_keeps {event : RunEvent} {next : Database} (h : db.insertEvent event = .ok next)
    {eventId : EventId} {row : EventRow} (hrow : db.runEvents.get? eventId = some row) :
    next.runEvents.get? eventId = some row := by
  obtain ⟨hfree, rfl⟩ := insertEvent_eq_ok h
  simp only
  rw [Dict.get?_insert_ne _ _ fun hid => by rw [hid, hfree] at hrow; cases hrow]
  exact hrow

/-- A stored event stays as it is. -/
theorem keptByWrites_event (c : Candidate) (eventId : EventId) (row : EventRow) :
    KeptByWrites c fun next => next.runEvents.get? eventId = some row where
  putRun _ h := h
  insertEvent _ _ _ _ h hinsert := insertEvent_keeps hinsert h
  insertReceipt _ next record h hinsert := by
    rw [(insertReceipt_eq_some hinsert).2]
    exact h

theorem insertEvents_logged {events : List RunEvent} {next : Database}
    (h : events.foldlM insertEvent db = .ok next) :
    ∀ event ∈ events, next.runEvents.get? event.eventId = some event.row := by
  induction events generalizing db with
  | nil =>
    intro event hevent
    cases hevent
  | cons first events ih =>
    rw [List.foldlM_cons] at h
    obtain ⟨middle, hmiddle, hrest⟩ := bind_eq_ok.mp h
    intro event hevent
    rcases List.mem_cons.mp hevent with rfl | hlater
    · have hhere : middle.runEvents.get? event.eventId = some event.row := by
        rw [(insertEvent_eq_ok hmiddle).2]
        exact Dict.get?_insert_self _ _ _
      exact KeptByWrites.insertEvents (fun _ _ _ _ hrow hinsert => insertEvent_keeps hinsert hrow) hhere hrest
    · exact ih hrest event hlater

theorem commits_of_write {c : Candidate} {guard : Prop} {record : ReceiptRecord} {inserted : Database}
    {current : Option Run} {result : Database × CommitOutcome} (hrecord : encodeReceipt c.receipt = .ok record)
    (hinsert : db.insertReceipt c.receipt record = some inserted)
    (hvalid : validateCommitCandidate c current (fun _ => false) = .ok ())
    (hwrite : inserted.write c current = .ok result) (hguard : guard) :
    db.Commits c guard (result.1, .ok result.2) := by
  obtain ⟨hfree, hinserted⟩ := insertReceipt_eq_some hinsert
  have hrow : inserted.runCommandReceipts.get? (receiptRowKey c.receipt.tenantId c.receipt.commandId) =
      some (c.receipt.row record) := by
    rw [hinserted]
    exact Dict.get?_insert_self _ _ _
  have hkept := (keptByWrites_receipt c _ _).write hrow hwrite
  have hall : ∀ P, KeptByWrites c P → P db → P result.1 := fun P h hdb =>
    h.write (h.insertReceipt db inserted record hdb hinsert) hwrite
  obtain ⟨afterRun, hrun, hwrite⟩ := bind_eq_ok.mp hwrite
  obtain ⟨afterEvents, hevents, hwrite⟩ := bind_eq_ok.mp hwrite
  obtain ⟨_, -, hwrite⟩ := bind_eq_ok.mp hwrite
  obtain ⟨outcome, houtcome, hwrite⟩ := bind_eq_ok.mp hwrite
  cases Except.ok.inj hwrite
  rw [raised_eq_ok, raising_eq_ok] at houtcome
  obtain ⟨hreceipt, hsame, hnew⟩ := CommitOutcome.new_eq_ok houtcome
  have hbefore := writeRun_events hrun
  rw [hinserted] at hbefore
  exact .stored afterEvents outcome hguard {
    replayed := hnew
    receipt := hreceipt
    events := hsame
    valid := ⟨current, hvalid⟩
    free := hfree
    unused := fun event hevent => hbefore ▸ insertEvents_unused hevents event hevent
    recorded := ⟨record, hrecord, hkept⟩
    logged := insertEvents_logged hevents
    kept := hall }

theorem commit_commits (db : Database) (c : Candidate) : db.Commits c True (db.commit c) := by
  unfold commit
  cases hresult : (do
    raised (validateCommitInput c)
    let record ← raised (raising (encodeReceipt c.receipt))
    db.commitTransaction c record) with
  | error e => exact .rejected _
  | ok result =>
    obtain ⟨_, -, hresult⟩ := bind_eq_ok.mp hresult
    obtain ⟨record, hrecord, hresult⟩ := bind_eq_ok.mp hresult
    rw [raised_eq_ok, raising_eq_ok] at hrecord
    unfold commitTransaction at hresult
    split at hresult
    · obtain ⟨hsame, hreplayed⟩ := replayReceipt_eq_ok hresult
      rw [settle, hsame]
      exact .replayed result.2 hreplayed
    · next inserted hinsert =>
      obtain ⟨_, -, hresult⟩ := bind_eq_ok.mp hresult
      obtain ⟨_, -, hresult⟩ := bind_eq_ok.mp hresult
      obtain ⟨_, hvalid, hresult⟩ := bind_eq_ok.mp hresult
      exact commits_of_write hrecord hinsert (raised_eq_ok.mp hvalid) hresult trivial

/-- The state in which a guarded commit stores: the lease of the run is that of the proof, held
    and unexpired, and the run is queued or running at the expected version. -/
def Guards (db : Database) (proof : LeaseAuthorityProof) (now : DateTime) (c : Candidate) : Prop :=
  proof.tenantId = c.updatedRun.tenantId ∧ proof.runId = c.updatedRun.runId ∧ ∃ current lease,
    db.load proof.tenantId proof.runId = .ok (some current) ∧
    db.loadLease proof.tenantId proof.runId = .ok (some lease) ∧
    lease.matchesProof proof = true ∧ lease.releasedAt = none ∧ now < lease.leaseExpiresAt ∧
    isOwnable current.status.value = true ∧ current.version = c.expectedVersion

theorem guards_of_guardedWrite {proof : LeaseAuthorityProof} {now : DateTime} {c : Candidate}
    {result : Database × CommitOutcome} (htenant : proof.tenantId = c.updatedRun.tenantId)
    (hrun : proof.runId = c.updatedRun.runId) (h : db.guardedWrite proof now c = .ok result) :
    db.Guards proof now c ∧ ∃ current, validateCommitCandidate c current (fun _ => false) = .ok () ∧
      db.write c current = .ok result := by
  obtain ⟨current, hload, h⟩ := bind_eq_ok.mp h
  rw [raised_eq_ok, ← htenant, ← hrun] at hload
  cases current with
  | none => cases h
  | some current =>
    obtain ⟨lease, hlease, h⟩ := bind_eq_ok.mp h
    obtain ⟨_, hvalid, h⟩ := bind_eq_ok.mp h
    obtain ⟨_, hversion, h⟩ := bind_eq_ok.mp h
    obtain ⟨_, hcandidate, hwrite⟩ := bind_eq_ok.mp h
    rw [raised_eq_ok] at hlease hvalid hcandidate
    rw [require_eq_ok, beq_iff_eq] at hversion
    rw [validateCurrentLease_eq_guard, LeaseAuthority.guard_eq_ok] at hvalid
    refine ⟨⟨htenant, hrun, current, ?_⟩, some current, hcandidate, hwrite⟩
    cases lease with
    | none => cases hvalid
    | some lease =>
      obtain ⟨hmatches, hreleased, howned, hlive⟩ := evaluateAuthority_eq_true.mp hvalid
      exact ⟨lease, hload, hlease, hmatches, hreleased, hlive, howned, hversion⟩

theorem commitWithLease_commits (db : Database) (proof : LeaseAuthorityProof) (now : DateTime)
    (c : Candidate) : db.Commits c (db.Guards proof now c) (db.commitWithLease proof now c) := by
  unfold commitWithLease
  cases hresult : (do
    raised (validateCommitInput c)
    require (proof.tenantId == c.updatedRun.tenantId && proof.runId == c.updatedRun.runId &&
      c.receipt.tenantId == proof.tenantId && c.receipt.runId == proof.runId)
      (.failure (.lease .invalidInput))
    let record ← raised (raising (encodeReceipt c.receipt))
    db.commitWithLeaseTransaction proof now c record) with
  | error e => exact .rejected _
  | ok result =>
    obtain ⟨_, -, hresult⟩ := bind_eq_ok.mp hresult
    obtain ⟨_, hscope, hresult⟩ := bind_eq_ok.mp hresult
    obtain ⟨record, hrecord, hresult⟩ := bind_eq_ok.mp hresult
    rw [raised_eq_ok, raising_eq_ok] at hrecord
    simp only [require_eq_ok, Bool.and_eq_true, beq_iff_eq] at hscope
    obtain ⟨⟨⟨htenant, hrun⟩, -⟩, -⟩ := hscope
    unfold commitWithLeaseTransaction at hresult
    split at hresult
    · obtain ⟨hsame, hreplayed⟩ := replayReceipt_eq_ok hresult
      rw [settle, hsame]
      exact .replayed result.2 hreplayed
    · next inserted hinsert =>
      obtain ⟨hguards, current, hvalid, hwrite⟩ := guards_of_guardedWrite htenant hrun hresult
      have hsame : db.Guards proof now c := by
        rw [(insertReceipt_eq_some hinsert).2] at hguards
        exact hguards
      exact commits_of_write hrecord hinsert hvalid hwrite hsame

theorem Commits.kept {c : Candidate} {guard : Prop} {result : Database × Except Failure CommitOutcome}
    (h : db.Commits c guard result) {P : Database → Prop} (hkept : KeptByWrites c P) (hdb : P db) :
    P result.1 := by
  cases h with
  | rejected | replayed => exact hdb
  | stored next outcome _ hstored => exact hstored.kept P hkept hdb

theorem settle_cases {α : Type} (db : Database) (toFailure : Raised → Failure)
    (x : Except Raised (Database × α)) :
    (∃ result, x = .ok result ∧ db.settle toFailure x = (result.1, .ok result.2)) ∨
      ∃ e, x = .error e ∧ db.settle toFailure x = (db, .error (toFailure e)) := by
  cases x with
  | ok result => exact .inl ⟨result, rfl, rfl⟩
  | error e => exact .inr ⟨e, rfl, rfl⟩

structure Updates (row next : WorkerLeaseRow) (now : DateTime) : Prop where
  worker : next.workerId = row.workerId
  claim : next.claimId = row.claimId
  digest : next.tokenDigest = row.tokenDigest
  attempt : next.attemptNo = row.attemptNo
  version : next.leaseVersion = row.leaseVersion + 1
  acquired : next.acquiredAt = row.acquiredAt
  held : row.releasedAt = none
  ends : (now < row.leaseExpiresAt ∧ now < next.leaseExpiresAt ∧ next.releasedAt = none) ∨
    next.leaseExpiresAt = row.leaseExpiresAt ∧ next.releasedAt = some now

/-- What a renewal or release does: nothing, or one update from the version it expects. -/
inductive Mutates (db : Database) (proof : LeaseAuthorityProof) (expectedVersion : LeaseVersion)
    (now : DateTime) : Database × Except Failure ConditionalLeaseOutcome → Prop
  | refused (answer : Except Failure ConditionalLeaseOutcome)
    (hanswer : ∀ outcome, answer = .ok outcome → outcome.applied = false) :
    Mutates db proof expectedVersion now (db, answer)
  | applied (row next : WorkerLeaseRow) (outcome : ConditionalLeaseOutcome)
    (hrow : db.workerLeases.get? (rowKey proof.tenantId proof.runId) = some row)
    (hnames : Names row proof) (hversion : row.leaseVersion = expectedVersion.value)
    (hupdates : Updates row next now) (happlied : outcome.applied = true) :
    Mutates db proof expectedVersion now (db.putLease proof.tenantId proof.runId next, .ok outcome)

theorem updateLease_eq_ok {proof : LeaseAuthorityProof} {leaseVersion : LeaseVersion}
    {change : WorkerLeaseColumns DateTime → WorkerLeaseColumns DateTime} {row : WorkerLeaseRow}
    {next : Database} (hrow : db.workerLeases.get? (rowKey proof.tenantId proof.runId) = some row)
    (h : db.updateLease proof leaseVersion change = .ok next) :
    ∃ changed : WorkerLeaseRow, changed.toWorkerLeaseColumns = change row.toWorkerLeaseColumns ∧
      next = db.putLease proof.tenantId proof.runId changed := by
  unfold updateLease at h
  simp only [hrow] at h
  obtain ⟨_, -, h⟩ := bind_eq_ok.mp h
  obtain ⟨changed, hchecked, h⟩ := bind_eq_ok.mp h
  unfold checkedRow at hchecked
  split_ifs at hchecked with hchecks
  cases Except.ok.inj hchecked
  exact ⟨_, rfl, (Except.ok.inj h).symm⟩

theorem conditionalMutation_cases {proof : LeaseAuthorityProof} {now : DateTime}
    {matched : WorkerLeaseRecord → LeaseAuthority → String →
      Except Raised (Database × ConditionalLeaseOutcome)}
    {next : Database} {outcome : ConditionalLeaseOutcome}
    (h : db.conditionalMutation proof now matched = .ok (next, outcome)) :
    (next = db ∧ outcome.applied = false) ∨ ∃ row run lease,
      db.workerLeases.get? (rowKey proof.tenantId proof.runId) = some row ∧
      row.Stores proof.tenantId proof.runId lease ∧ lease.matchesProof proof = true ∧
      matched lease (evaluateAuthority proof (some lease) (some run) now) run = .ok (next, outcome) := by
  cases hrun : db.runs.get? (rowKey proof.tenantId proof.runId) with
  | none =>
    rw [conditionalMutation_of_noRun hrun] at h
    cases Except.ok.inj h
    exact .inl ⟨rfl, rfl⟩
  | some run =>
    cases hrow : db.workerLeases.get? (rowKey proof.tenantId proof.runId) with
    | none =>
      rw [conditionalMutation_of_unclaimed ⟨by rw [hrun]; rfl, hrow⟩] at h
      cases h
    | some row =>
      obtain ⟨lease, hlease, hstores⟩ := row.exists_lease proof.tenantId proof.runId
      rw [conditionalMutation_of_rows hrow hrun hlease] at h
      split_ifs at h with hmatches
      · exact .inr ⟨row, run.runStatus, lease, rfl, hstores, hmatches, h⟩
      · cases Except.ok.inj h
        exact .inl ⟨rfl, rfl⟩

theorem renew_mutates (db : Database) (command : RenewLeaseCommand) (now : DateTime) :
    db.Mutates command.proof command.expectedVersion now (db.renew command now) := by
  unfold renew
  rcases settle_cases db mutationFailure (db.conditionalMutation command.proof now fun lease authority _ =>
    db.renewMatched command lease authority now) with ⟨⟨next, outcome⟩, hresult, hsettle⟩ | ⟨e, -, hsettle⟩
  · rw [hsettle]
    rcases conditionalMutation_cases hresult with
      ⟨rfl, happlied⟩ | ⟨row, run, lease, hrow, hstores, hmatches, h⟩
    · exact .refused _ fun other hother => Except.ok.inj hother ▸ happlied
    · unfold renewMatched at h
      split_ifs at h with hrefused
      · cases Except.ok.inj h
        exact .refused _ fun other hother => Except.ok.inj hother ▸ rfl
      · simp only [Bool.or_eq_true, Bool.not_eq_true', bne_iff_ne, ne_eq, not_or, not_not,
          Bool.not_eq_false] at hrefused
        obtain ⟨hauthoritative, hexpected⟩ := hrefused
        obtain ⟨-, hreleased, -, hlive⟩ := evaluateAuthority_eq_true.mp hauthoritative
        obtain ⟨nextVersion, hnext, h⟩ := bind_eq_ok.mp h
        obtain ⟨leaseExpiresAt, hexpires, h⟩ := bind_eq_ok.mp h
        obtain ⟨updated, hupdate, h⟩ := bind_eq_ok.mp h
        obtain ⟨metadata, -, h⟩ := bind_eq_ok.mp h
        obtain ⟨renewBy, -, h⟩ := bind_eq_ok.mp h
        cases Except.ok.inj h
        obtain ⟨changed, hchanged, rfl⟩ := updateLease_eq_ok hrow hupdate
        rw [raised_eq_ok, raising_eq_ok] at hnext hexpires
        have hmicros := DateTime.add_eq_ok hexpires
        have hpositive := command.duration.micros_pos
        have hlate : now < leaseExpiresAt := by
          rw [DateTime.lt_iff, hmicros]
          omega
        have hheld : row.releasedAt = none := by rw [← hstores.released, hreleased]
        have hnextVersion : nextVersion.value = row.leaseVersion + 1 := by
          rw [← hstores.version]
          exact PositiveCounter.next_eq_ok hnext
        have hupdates : Updates row changed now := {
          worker := by rw [hchanged]
          claim := by rw [hchanged]
          digest := by rw [hchanged]
          attempt := by rw [hchanged]
          version := (congrArg WorkerLeaseColumns.leaseVersion hchanged).trans hnextVersion
          acquired := by rw [hchanged]
          held := hheld
          ends := .inl (by rw [hchanged]; exact ⟨hstores.expires ▸ hlive, hlate, hheld⟩) }
        exact .applied row changed _ hrow ((matchesProof_iff hstores).mp hmatches)
          (by rw [hexpected, hstores.version]) hupdates rfl
  · rw [hsettle]
    exact .refused _ fun _ hother => (by cases hother)

theorem release_mutates (db : Database) (command : ReleaseLeaseCommand) (now : DateTime) :
    db.Mutates command.proof command.expectedVersion now (db.release command now) := by
  unfold release
  rcases settle_cases db mutationFailure (db.conditionalMutation command.proof now
    fun lease authority runStatus => db.releaseMatched command lease authority runStatus now) with
    ⟨⟨next, outcome⟩, hresult, hsettle⟩ | ⟨e, -, hsettle⟩
  · rw [hsettle]
    rcases conditionalMutation_cases hresult with
      ⟨rfl, happlied⟩ | ⟨row, run, lease, hrow, hstores, hmatches, h⟩
    · exact .refused _ fun other hother => Except.ok.inj hother ▸ happlied
    · unfold releaseMatched at h
      split_ifs at h with hreleased hrefused
      · cases Except.ok.inj h
        exact .refused _ fun other hother => Except.ok.inj hother ▸ rfl
      · cases Except.ok.inj h
        exact .refused _ fun other hother => Except.ok.inj hother ▸ rfl
      · simp only [Bool.or_eq_true, bne_iff_ne, ne_eq, not_or, not_not] at hrefused
        obtain ⟨hexpected, -⟩ := hrefused
        obtain ⟨nextVersion, hnext, h⟩ := bind_eq_ok.mp h
        obtain ⟨updated, hupdate, h⟩ := bind_eq_ok.mp h
        obtain ⟨released, -, h⟩ := bind_eq_ok.mp h
        cases Except.ok.inj h
        obtain ⟨changed, hchanged, rfl⟩ := updateLease_eq_ok hrow hupdate
        rw [raised_eq_ok, raising_eq_ok] at hnext
        have hnextVersion : nextVersion.value = row.leaseVersion + 1 := by
          rw [← hstores.version]
          exact PositiveCounter.next_eq_ok hnext
        have hupdates : Updates row changed now := {
          worker := by rw [hchanged]
          claim := by rw [hchanged]
          digest := by rw [hchanged]
          attempt := by rw [hchanged]
          version := (congrArg WorkerLeaseColumns.leaseVersion hchanged).trans hnextVersion
          acquired := by rw [hchanged]
          held := by rw [← hstores.released]; simpa using hreleased
          ends := .inr (by rw [hchanged]; exact ⟨rfl, rfl⟩) }
        exact .applied row changed _ hrow ((matchesProof_iff hstores).mp hmatches)
          (by rw [hexpected, hstores.version]) hupdates rfl
  · rw [hsettle]
    exact .refused _ fun _ hother => (by cases hother)

def putClaimReceipt (db : Database) (record : WorkerLeaseClaimReceiptRecord) : Database :=
  let key := claimRowKey record.tenantId record.claimId
  let columns := (encodeClaimReceipt record).toClaimReceiptColumns.map ZonedDateTime.instant
  { db with workerLeaseClaimReceipts := db.workerLeaseClaimReceipts.insert key columns }

/-- What the loop of a claim finds: a run whose lease is free at this time, or nothing. -/
def SelectsAt (db : Database) (command : ClaimLeaseCommand) (requestNow : DateTime) (clock : List DateTime)
    (selected : Option (RunId × Option WorkerLeaseRecord)) (now : DateTime) : Prop :=
  db.claimLookup command requestNow = .ok none ∧ db.claimLoop command.tenantId
    (db.selectEligibleRun command.tenantId requestNow) clock.tail = some (.ok (selected, now))

structure Grants (db : Database) (command : ClaimLeaseCommand) (token : LeaseToken) (now : DateTime)
    (runId : RunId) (row : WorkerLeaseRow) (receipt : WorkerLeaseClaimReceiptRecord) (grant : LeaseGrant)
    (current : Option WorkerLeaseRecord) (lease : WorkerLeaseRecord) : Prop where
  load : db.loadLease command.tenantId runId = .ok current
  claimable : db.isClaimable command.tenantId runId current now = true
  next : nextLease command token runId current now = .ok lease
  stored : row.toWorkerLeaseColumns = (encodeWorkerLease lease).toWorkerLeaseColumns.map ZonedDateTime.instant
  unclaimed : db.claimIdTaken lease = false
  receipted : claimReceipt command (some (resultOf lease token)) now = .ok receipt
  granted : grantFromReceipt receipt true = .ok grant

/-- What a claim does: nothing, or one receipt, with the lease it grants. -/
inductive Claims (db : Database) (command : ClaimLeaseCommand) (token : LeaseToken) (requestNow : DateTime)
    (clock : List DateTime) : Option (Database × Except Failure LeaseClaimOutcome) → Prop
  | unanswered : Claims db command token requestNow clock none
  | failed (e : Failure) : Claims db command token requestNow clock (some (db, .error e))
  | replayed (now : DateTime) (outcome : LeaseClaimOutcome)
    (hlookup : db.claimLookup command now = .ok (some outcome)) :
    Claims db command token requestNow clock (some (db, .ok outcome))
  | noWork (now : DateTime) (receipt : WorkerLeaseClaimReceiptRecord)
    (hselects : db.SelectsAt command requestNow clock none now)
    (hreceipt : claimReceipt command none now = .ok receipt)
    (hfree : db.workerLeaseClaimReceipts.get? (claimRowKey command.tenantId command.claimId) = none) :
    Claims db command token requestNow clock (some (db.putClaimReceipt receipt, .ok ⟨none, false⟩))
  | granted (now : DateTime) (runId : RunId) (row : WorkerLeaseRow)
    (receipt : WorkerLeaseClaimReceiptRecord) (grant : LeaseGrant) (current : Option WorkerLeaseRecord)
    (lease : WorkerLeaseRecord)
    (hselects : db.SelectsAt command requestNow clock (some (runId, current)) now)
    (hgrants : db.Grants command token now runId row receipt grant current lease)
    (hfree : db.workerLeaseClaimReceipts.get? (claimRowKey command.tenantId command.claimId) = none) :
    Claims db command token requestNow clock
      (some ((db.putLease command.tenantId runId row).putClaimReceipt receipt, .ok ⟨some grant, false⟩))

theorem claiming_eq_ok {α : Type} {x : Except Failure α} {a : α} : claiming x = .ok a ↔ x = .ok a :=
  mapError_eq_ok

theorem claimLoop_selects {tenantId : TenantId} {selected : Option RunId} {clock : List DateTime}
    {runId : RunId} {current : Option WorkerLeaseRecord} {now : DateTime}
    (h : db.claimLoop tenantId selected clock = some (.ok (some (runId, current), now))) :
    db.loadLease tenantId runId = .ok current ∧ db.isClaimable tenantId runId current now = true := by
  induction clock generalizing selected with
  | nil => cases selected <;> simp [claimLoop] at h
  | cons reading clock ih =>
    cases selected with
    | none => simp [claimLoop] at h
    | some candidate =>
      simp only [claimLoop] at h
      split at h
      · simp at h
      · next lease hload =>
        split_ifs at h with hclaimable
        · simp only [Option.some.injEq, Except.ok.injEq, Prod.mk.injEq] at h
          obtain ⟨⟨rfl, rfl⟩, rfl⟩ := h
          exact ⟨hload, hclaimable⟩
        · exact ih h

theorem claimReceipt_fields {command : ClaimLeaseCommand} {result : Option ClaimedResult} {now : DateTime}
    {receipt : WorkerLeaseClaimReceiptRecord} (h : claimReceipt command result now = .ok receipt) :
    ∃ issuedAt replayExpiresAt, receipt.toWorkerLeaseClaimReceiptFields = {
      tenantId := command.tenantId
      claimId := command.claimId
      claimIssuedAt := issuedAt
      replayExpiresAt := replayExpiresAt
      workerId := command.workerId
      duration := command.duration
      intentFingerprint := command.intentFingerprint
      outcome := if result.isSome then .claimed else .noWork
      runId := result.map (·.runId)
      attemptNo := result.map (·.attemptNo)
      initialLeaseVersion := result.map (·.initialLeaseVersion)
      leaseAcquiredAt := result.map (·.leaseAcquiredAt)
      leaseExpiresAt := result.map (·.leaseExpiresAt)
      replayToken := result.map (·.replayToken)
      createdAt := now } := by
  obtain ⟨issuedAt, -, h⟩ := bind_eq_ok.mp h
  obtain ⟨replayExpiresAt, -, h⟩ := bind_eq_ok.mp h
  obtain ⟨_, rfl⟩ := construct_eq_ok h
  exact ⟨issuedAt, replayExpiresAt, rfl⟩

theorem insertClaimReceipt_eq_ok {record : WorkerLeaseClaimReceiptRecord} {next : Database}
    (h : db.insertClaimReceipt record = .ok next) :
    db.workerLeaseClaimReceipts.get? (claimRowKey record.tenantId record.claimId) = none ∧
      next = db.putClaimReceipt record := by
  unfold insertClaimReceipt at h
  simp only at h
  split at h
  · cases h
  · next hfree =>
    obtain ⟨_, -, h⟩ := bind_eq_ok.mp h
    obtain ⟨_, -, h⟩ := bind_eq_ok.mp h
    cases Except.ok.inj h
    exact ⟨hfree, rfl⟩

theorem nextLease_fields {command : ClaimLeaseCommand} {token : LeaseToken} {runId : RunId}
    {current : Option WorkerLeaseRecord} {now : DateTime} {lease : WorkerLeaseRecord}
    (h : nextLease command token runId current now = .ok lease) :
    NextCounters current lease.attemptNo lease.leaseVersion ∧ lease.toWorkerLeaseFields = {
        tenantId := command.tenantId
        runId := runId
        workerId := command.workerId
        claimId := command.claimId
        tokenDigest := digestLeaseToken token
        attemptNo := lease.attemptNo
        leaseVersion := lease.leaseVersion
        duration := command.duration
        acquiredAt := now
        heartbeatAt := now
        leaseExpiresAt := lease.leaseExpiresAt
        releasedAt := none } ∧
      now.add command.duration.micros = .ok lease.leaseExpiresAt := by
  cases current with
  | none =>
    obtain ⟨attemptNo, hattempt, h⟩ := bind_eq_ok.mp h
    obtain ⟨leaseVersion, hversion, h⟩ := bind_eq_ok.mp h
    obtain ⟨leaseExpiresAt, hexpires, h⟩ := bind_eq_ok.mp h
    cases Except.ok.inj hattempt
    cases Except.ok.inj hversion
    obtain ⟨_, rfl⟩ := construct_eq_ok h
    exact ⟨.first, rfl, hexpires⟩
  | some current =>
    obtain ⟨attemptNo, hattempt, h⟩ := bind_eq_ok.mp h
    obtain ⟨leaseVersion, hversion, h⟩ := bind_eq_ok.mp h
    obtain ⟨leaseExpiresAt, hexpires, h⟩ := bind_eq_ok.mp h
    obtain ⟨_, rfl⟩ := construct_eq_ok h
    exact ⟨.next current hattempt hversion, rfl, hexpires⟩

theorem storeLease_eq_ok {lease : WorkerLeaseRecord} {current : Option WorkerLeaseRecord} {next : Database}
    (h : db.storeLease lease current = .ok next) :
    ∃ row : WorkerLeaseRow, db.claimIdTaken lease = false ∧
      row.toWorkerLeaseColumns = (encodeWorkerLease lease).toWorkerLeaseColumns.map ZonedDateTime.instant ∧
      next = db.putLease lease.tenantId lease.runId row := by
  have hparts : ∃ row, require (!db.claimIdTaken lease) ClaimRaised.raceLost = .ok () ∧
      (checkedRow ((encodeWorkerLease lease).toWorkerLeaseColumns.map ZonedDateTime.instant)).mapError
        ClaimRaised.raised = .ok row ∧ db.putLease lease.tenantId lease.runId row = next := by
    cases current <;>
    · obtain ⟨_, -, h⟩ := bind_eq_ok.mp h
      obtain ⟨_, htaken, h⟩ := bind_eq_ok.mp h
      obtain ⟨_, -, h⟩ := bind_eq_ok.mp h
      obtain ⟨row, hrow, h⟩ := bind_eq_ok.mp h
      exact ⟨row, htaken, hrow, Except.ok.inj h⟩
  obtain ⟨row, htaken, hrow, rfl⟩ := hparts
  rw [require_eq_ok, Bool.not_eq_true'] at htaken
  unfold checkedRow at hrow
  split_ifs at hrow with hchecks
  · cases Except.ok.inj hrow
    exact ⟨_, htaken, rfl, rfl⟩
  · cases hrow

theorem claimWrite_claims {command : ClaimLeaseCommand} {token : LeaseToken} {requestNow now : DateTime}
    {clock : List DateTime} {selected : Option (RunId × Option WorkerLeaseRecord)}
    (hselects : db.SelectsAt command requestNow clock selected now)
    {next : Database} {outcome : LeaseClaimOutcome}
    (h : db.claimWrite command token selected now = .ok (next, outcome)) :
    db.Claims command token requestNow clock (some (next, .ok outcome)) := by
  cases selected with
  | none =>
    obtain ⟨receipt, hreceipt, h⟩ := bind_eq_ok.mp h
    obtain ⟨inserted, hinsert, h⟩ := bind_eq_ok.mp h
    cases Except.ok.inj h
    rw [claiming_eq_ok, raising_eq_ok] at hreceipt
    obtain ⟨hfree, rfl⟩ := insertClaimReceipt_eq_ok hinsert
    obtain ⟨issuedAt, replayExpiresAt, hfields⟩ := claimReceipt_fields hreceipt
    rw [hfields] at hfree
    exact .noWork now receipt hselects hreceipt hfree
  | some found =>
    obtain ⟨runId, current⟩ := found
    obtain ⟨lease, hlease, h⟩ := bind_eq_ok.mp h
    obtain ⟨receipt, hreceipt, h⟩ := bind_eq_ok.mp h
    obtain ⟨stored, hstore, h⟩ := bind_eq_ok.mp h
    obtain ⟨inserted, hinsert, h⟩ := bind_eq_ok.mp h
    obtain ⟨grant, hgrant, h⟩ := bind_eq_ok.mp h
    cases Except.ok.inj h
    rw [claiming_eq_ok] at hgrant
    rw [claiming_eq_ok, raising_eq_ok] at hlease hreceipt
    have htenant : lease.tenantId = command.tenantId := by rw [(nextLease_fields hlease).2.1]
    have hrun : lease.runId = runId := by rw [(nextLease_fields hlease).2.1]
    obtain ⟨row, htaken, hrow, rfl⟩ := storeLease_eq_ok hstore
    obtain ⟨hfree, rfl⟩ := insertClaimReceipt_eq_ok hinsert
    obtain ⟨issuedAt, replayExpiresAt, hfields⟩ := claimReceipt_fields hreceipt
    rw [hfields] at hfree
    obtain ⟨hload, hclaimable⟩ := claimLoop_selects hselects.2
    rw [htenant, hrun]
    exact .granted now runId row receipt grant current lease hselects
      ⟨hload, hclaimable, hlease, hrow, htaken, hreceipt, hgrant⟩ hfree

theorem replayAfterRace_eq_ok {command : ClaimLeaseCommand} {now : DateTime} {outcome : LeaseClaimOutcome}
    (h : db.replayAfterRace command now = .ok outcome) :
    db.claimLookup command now = .ok (some outcome) := by
  obtain ⟨found, hfound, h⟩ := bind_eq_ok.mp h
  cases found with
  | none => cases h
  | some found =>
    cases Except.ok.inj h
    exact hfound

theorem claim_claims (db : Database) (command : ClaimLeaseCommand) (token : LeaseToken)
    (requestNow : DateTime) (clock : List DateTime) (raceNow : DateTime) :
    db.Claims command token requestNow clock (db.claim command token requestNow clock raceNow) := by
  rw [claim, claimTransaction_def]
  simp only
  cases hlookup : db.claimLookup command requestNow with
  | error e => exact .failed _
  | ok found =>
    cases found with
    | some outcome => exact .replayed requestNow outcome hlookup
    | none =>
      simp only [claimFresh]
      cases hloop : db.claimLoop command.tenantId (db.selectEligibleRun command.tenantId requestNow)
        clock.tail with
      | none => exact .unanswered
      | some result =>
        cases result with
        | error e => exact .failed _
        | ok selection =>
          obtain ⟨selected, now⟩ := selection
          simp only [Option.map_some]
          cases hwrite : db.claimWrite command token selected now with
          | ok written => exact claimWrite_claims ⟨hlookup, hloop⟩ hwrite
          | error raised =>
            cases raised with
            | raised e => exact .failed _
            | raceLost =>
              simp only
              cases hreplay : db.replayAfterRace command raceNow with
              | error e => exact .failed e
              | ok outcome => exact .replayed raceNow outcome (replayAfterRace_eq_ok hreplay)

/-- A transaction of the repositories, with its readings of the clock. -/
inductive Call where
  | commit (c : Candidate)
  | commitWithLease (proof : LeaseAuthorityProof) (platformNow : DateTime) (c : Candidate)
  | claim (command : ClaimLeaseCommand) (token : LeaseToken) (requestNow : DateTime)
    (clock : List DateTime) (raceNow : DateTime)
  | renew (command : RenewLeaseCommand) (platformNow : DateTime)
  | release (command : ReleaseLeaseCommand) (platformNow : DateTime)

/-- A claim whose readings run out is rolled back. -/
def perform (db : Database) : Call → Database
  | .commit c => (db.commit c).1
  | .commitWithLease proof platformNow c => (db.commitWithLease proof platformNow c).1
  | .claim command token requestNow clock raceNow =>
    ((db.claim command token requestNow clock raceNow).map Prod.fst).getD db
  | .renew command platformNow => (db.renew command platformNow).1
  | .release command platformNow => (db.release command platformNow).1

def repositories : Machine Database Call := ⟨empty, perform⟩

theorem run_cons (db : Database) (call : Call) (calls : List Call) :
    repositories.runFrom db (call :: calls) = repositories.runFrom (db.perform call) calls := rfl

end Database
end Zhiyi
