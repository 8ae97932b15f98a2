import Zhiyi.Memory.Idempotency
import Zhiyi.Postgres.CommitDecision
import Zhiyi.Postgres.LeaseHistory

set_option autoImplicit false

/-! What a stored command is answered when it comes again. No transaction removes or changes a
receipt or an event, so the answer depends on the first outcome alone: it is that outcome again,
unless the check of a replayed event refuses what the commit has accepted. The service makes such
an outcome in one case, a budget consumption that runs into a limit. -/
namespace Zhiyi
open Python Interleaving

namespace CommitOutcome

/-- The events of the outcome pass the check of a replay. -/
def Replayable (outcome : CommitOutcome) : Prop :=
  ∀ event ∈ outcome.events, validateReplayEvent outcome.receipt event = .ok ()

instance (outcome : CommitOutcome) : Decidable outcome.Replayable :=
  inferInstanceAs (Decidable (∀ event ∈ outcome.events, _))

def replay (outcome : CommitOutcome) (intentFingerprint : String) : Except Failure CommitOutcome :=
  if outcome.receipt.intentFingerprint ≠ intentFingerprint then .error (.lifecycle .idempotencyConflict)
  else if outcome.Replayable then .ok outcome.asReplayed
  else .error (.repository .dataCorruption)

end CommitOutcome

namespace Database
variable {db : Database} {outcome : CommitOutcome}

structure Recorded (db : Database) (outcome : CommitOutcome) : Prop where
  receipt : ∃ record, encodeReceipt outcome.receipt = .ok record ∧ db.runCommandReceipts.get?
    (receiptRowKey outcome.receipt.tenantId outcome.receipt.commandId) = some (outcome.receipt.row record)
  events : ∀ event ∈ outcome.events, db.runEvents.get? event.eventId = some event.row
  own : ∀ event ∈ outcome.events, event.tenantId = outcome.receipt.tenantId ∧
    event.runId = outcome.receipt.runId

theorem own_of_valid {c : Candidate} {current : Option Run} {occupied : EventId → Bool}
    (h : validateCommitCandidate c current occupied = .ok ()) :
    ∀ event ∈ c.newEvents, event.tenantId = c.receipt.tenantId ∧ event.runId = c.receipt.runId := by
  obtain ⟨hconsistent, hshape⟩ := validateCommitCandidate_eq_ok h
  intro event hevent
  cases hshape with
  | create only hevents _ _ htenant hrun | update current only hevents _ _ htenant hrun =>
    rw [hevents, List.mem_singleton] at hevent
    subst hevent
    exact ⟨htenant.trans hconsistent.tenant.symm, hrun.trans hconsistent.run.symm⟩
  | record current hevents =>
    rw [hevents] at hevent
    cases hevent

theorem Stored.records {c : Candidate} {next : Database} (h : db.Stored c next outcome) :
    next.Recorded outcome := by
  obtain ⟨current, hvalid⟩ := h.valid
  constructor
  · rw [h.receipt]
    exact h.recorded
  · rw [h.events]
    exact h.logged
  · rw [h.events, h.receipt]
    exact own_of_valid hvalid

/-- Only the tables of command receipts and events count. -/
theorem Recorded.congr {next : Database} (h : db.Recorded outcome)
    (hreceipts : next.runCommandReceipts = db.runCommandReceipts) (hevents : next.runEvents = db.runEvents) :
    next.Recorded outcome where
  receipt := by rw [hreceipts]; exact h.receipt
  events := by rw [hevents]; exact h.events
  own := h.own

theorem Recorded.commit {c : Candidate} {guard : Prop} {result : Database × Except Failure CommitOutcome}
    (h : db.Recorded outcome) (hcommits : db.Commits c guard result) : result.1.Recorded outcome where
  receipt := by
    obtain ⟨record, hrecord, hrow⟩ := h.receipt
    exact ⟨record, hrecord, hcommits.kept (keptByWrites_receipt c _ _) hrow⟩
  events event hevent := hcommits.kept (keptByWrites_event c _ _) (h.events event hevent)
  own := h.own

/-- No transaction removes or changes a receipt or an event. -/
theorem Recorded.perform (h : db.Recorded outcome) (call : Call) : (db.perform call).Recorded outcome := by
  cases call with
  | commit c => exact h.commit (db.commit_commits c)
  | commitWithLease proof now c => exact h.commit (db.commitWithLease_commits proof now c)
  | renew command now =>
    have hmutates := db.renew_mutates command now
    simp only [Database.perform]
    generalize db.renew command now = result at hmutates
    cases hmutates with
    | refused => exact h
    | applied => exact h.congr rfl rfl
  | release command now =>
    have hmutates := db.release_mutates command now
    simp only [Database.perform]
    generalize db.release command now = result at hmutates
    cases hmutates with
    | refused => exact h
    | applied => exact h.congr rfl rfl
  | claim command token requestNow clock raceNow =>
    have hclaims := db.claim_claims command token requestNow clock raceNow
    simp only [Database.perform]
    generalize db.claim command token requestNow clock raceNow = result at hclaims
    cases hclaims with
    | unanswered | failed | replayed => exact h
    | noWork => exact h.congr rfl rfl
    | granted => exact h.congr rfl rfl

theorem validateReplayEvent_error {receipt : CommandReceipt} {event : RunEvent} {e : Failure}
    (h : validateReplayEvent receipt event = .error e) : e = .repository .dataCorruption :=
  (require_eq_error.mp h).2.symm

theorem Recorded.length_le_one (h : db.Recorded outcome) : outcome.events.length ≤ 1 := by
  obtain ⟨record, hrecord, -⟩ := h.receipt
  have hlength := (encodeReceipt_eq_ok outcome.receipt).mp ⟨record, hrecord⟩
  rwa [outcome.valid, List.length_map] at hlength

theorem Recorded.replayEvents (h : db.Recorded outcome) :
    db.replayEvents outcome.receipt =
      if outcome.Replayable then .ok outcome.events else .error (.repository .dataCorruption) := by
  have hlength := h.length_le_one
  unfold Database.replayEvents
  rw [outcome.valid]
  cases hevents : outcome.events with
  | nil =>
    have hreplayable : outcome.Replayable := by
      intro event hevent
      rw [hevents] at hevent
      cases hevent
    rw [if_pos hreplayable]
    rfl
  | cons event events =>
    rw [hevents, List.length_cons] at hlength
    have hnil : events = [] := List.length_eq_zero_iff.mp (by omega)
    subst hnil
    have hmem : event ∈ outcome.events := by
      rw [hevents]
      exact List.mem_singleton_self event
    have hselect : db.selectEvent event.eventId outcome.receipt.tenantId outcome.receipt.runId =
        some (encodeEvent event) := by
      unfold selectEvent
      simp only [h.events event hmem]
      exact if_pos (h.own event hmem)
    have hreplayable : outcome.Replayable ↔ validateReplayEvent outcome.receipt event = .ok () := by
      simp only [CommitOutcome.Replayable, hevents, List.forall_mem_singleton]
    simp only [List.map_cons, List.map_nil, List.head?_cons, hselect, decodeEvent_encodeEvent, bind,
      Except.bind, hreplayable]
    cases hcheck : validateReplayEvent outcome.receipt event with
    | ok _ => rfl
    | error e =>
      rw [validateReplayEvent_error hcheck]
      rfl

theorem Recorded.replayCommand (h : db.Recorded outcome) (intentFingerprint : String) :
    db.replayCommand outcome.receipt.tenantId outcome.receipt.commandId intentFingerprint =
      (outcome.replay intentFingerprint).map some := by
  obtain ⟨record, hrecord, hrow⟩ := h.receipt
  have hselect : db.selectReceipt outcome.receipt.tenantId outcome.receipt.commandId = some record := by
    rw [selectReceipt, hrow, Option.map_some, CommandReceipt.record_row hrecord]
  unfold Database.replayCommand CommitOutcome.replay
  simp only [hselect, decodeReceipt_encodeReceipt hrecord, bind, Except.bind]
  by_cases hsame : outcome.receipt.intentFingerprint = intentFingerprint
  · have hequal : (outcome.receipt.intentFingerprint == intentFingerprint) = true := beq_iff_eq.mpr hsame
    rw [hequal, require_true, if_neg (not_not.mpr hsame), h.replayEvents]
    split_ifs
    · simp only [CommitOutcome.new_self]
      rfl
    · rfl
  · have hother : (outcome.receipt.intentFingerprint == intentFingerprint) = false := beq_false_of_ne hsame
    rw [hother, require_false, if_pos hsame]
    rfl

theorem Recorded.findCommand (h : db.Recorded outcome) (intentFingerprint : String) :
    db.findCommand outcome.receipt.tenantId outcome.receipt.commandId intentFingerprint =
      if matchesDigestPattern intentFingerprint then (outcome.replay intentFingerprint).map some
      else .error (.python (.valueError "intent_fingerprint must be a SHA-256 digest")) := by
  unfold Database.findCommand
  rw [h.replayCommand]
  cases matchesDigestPattern intentFingerprint <;> rfl

/-- The candidate is one of the command of the outcome, as the key of the receipts sees it. -/
structure SameCommand (outcome : CommitOutcome) (c : Candidate) : Prop where
  tenant : c.receipt.tenantId = outcome.receipt.tenantId
  command : c.receipt.commandId = outcome.receipt.commandId

theorem Recorded.insertReceipt (h : db.Recorded outcome) {c : Candidate} (hsame : SameCommand outcome c)
    (record : ReceiptRecord) : db.insertReceipt c.receipt record = none := by
  obtain ⟨stored, -, hrow⟩ := h.receipt
  unfold Database.insertReceipt
  simp only [hsame.tenant, hsame.command, hrow]

theorem Recorded.replayReceipt (h : db.Recorded outcome) {c : Candidate} (hsame : SameCommand outcome c) :
    db.replayReceipt c.receipt =
      (raised (outcome.replay c.receipt.intentFingerprint)).map fun replay => (db, replay) := by
  unfold Database.replayReceipt
  rw [hsame.tenant, hsame.command, h.replayCommand]
  cases outcome.replay c.receipt.intentFingerprint <;> rfl

theorem Recorded.commit_again (h : db.Recorded outcome) {c : Candidate} (hsame : SameCommand outcome c)
    (hinput : validateCommitInput c = .ok ()) :
    db.commit c = (db, outcome.replay c.receipt.intentFingerprint) := by
  obtain ⟨record, hrecord⟩ := encodeReceipt_of_input hinput
  unfold Database.commit commitTransaction
  simp only [hinput, raised_ok, bind, Except.bind, hrecord, raising_ok, h.insertReceipt hsame record,
    h.replayReceipt hsame]
  cases outcome.replay c.receipt.intentFingerprint <;> rfl

structure NamesRun (proof : LeaseAuthorityProof) (c : Candidate) : Prop where
  tenant : proof.tenantId = c.updatedRun.tenantId
  run : proof.runId = c.updatedRun.runId
  receiptTenant : c.receipt.tenantId = proof.tenantId
  receiptRun : c.receipt.runId = proof.runId

theorem Recorded.commitWithLease_again (h : db.Recorded outcome) {c : Candidate}
    (hsame : SameCommand outcome c) (hinput : validateCommitInput c = .ok ()) {proof : LeaseAuthorityProof}
    (hnames : NamesRun proof c) (now : DateTime) :
    db.commitWithLease proof now c = (db, outcome.replay c.receipt.intentFingerprint) := by
  obtain ⟨record, hrecord⟩ := encodeReceipt_of_input hinput
  have hrequire : (proof.tenantId == c.updatedRun.tenantId && proof.runId == c.updatedRun.runId &&
      c.receipt.tenantId == proof.tenantId && c.receipt.runId == proof.runId) = true := by
    simp [← hnames.tenant, ← hnames.run, hnames.receiptTenant, hnames.receiptRun]
  unfold Database.commitWithLease commitWithLeaseTransaction
  simp only [hinput, raised_ok, bind, Except.bind, hrequire, require_true, hrecord, raising_ok,
    h.insertReceipt hsame record, h.replayReceipt hsame]
  cases outcome.replay c.receipt.intentFingerprint <;> rfl

theorem validateReplayEvent_eq_ok {receipt : CommandReceipt} {event : RunEvent} :
    validateReplayEvent receipt event = .ok () ↔ event.type = commandEventType receipt.commandType ∧
      event.sequence = receipt.resultingVersion ∧
      event.payload.get? "status" = some (.str receipt.resultingStatus.value) ∧
      event.payload.get? "run_version" = some (.int receipt.resultingVersion) := by
  simp only [validateReplayEvent, require_eq_ok, Bool.and_eq_true, beq_iff_eq, and_assoc]

end Database

/-- The type of the event of a change is the one that the replay expects, but for a budget
consumption that runs into a limit. -/
theorem Run.Makes.eventType {run : Run} {observedAt : DateTime} {op : Operation} {change : Run.Change}
    (h : run.Makes observedAt op change) : change.eventType = commandEventType op.commandType ∨
      (op.commandType = .consumeBudget ∧ change.eventType = .runLimitExceeded) := by
  cases h with
  | overdue | exceeded => exact .inr ⟨rfl, rfl⟩
  | _ => exact .inl rfl

/-- A budget consumption that ran into a limit. -/
def CommitOutcome.LimitedCharge (outcome : CommitOutcome) : Prop :=
  outcome.receipt.commandType = .consumeBudget ∧ ∃ event ∈ outcome.events, event.type = .runLimitExceeded

namespace RunLifecycle

/-- What the events of a prepared candidate tell is what its receipt tells, and only the type of an
event may be another than the replay expects. -/
theorem Prepared.tells {command : Command} {current : Option Run} {mutation : RunMutation} {c : Candidate}
    (h : Prepared command current mutation c) : ∀ event ∈ c.newEvents,
      event.sequence = c.receipt.resultingVersion ∧
      event.payload.get? "status" = some (.str c.receipt.resultingStatus.value) ∧
      event.payload.get? "run_version" = some (.int c.receipt.resultingVersion) ∧
      (event.type = commandEventType c.receipt.commandType ∨
        (c.receipt.commandType = .consumeBudget ∧ event.type = .runLimitExceeded)) := by
  intro event hevent
  cases h with
  | create command hcommand runId eventId observedAt mutation _ hmutation hcandidate =>
    obtain ⟨_, -, -, -, hevents, hreceipt⟩ := candidate_eq_ok hcandidate
    obtain ⟨hfields, only, hone, honly⟩ := Run.create_eq_ok hmutation
    rw [hevents, hone, List.mem_singleton] at hevent
    subst hevent
    have htype : event.type = .runCreated := by rw [honly]
    have hstatus := event.status
    rw [htype] at hstatus
    refine ⟨?_, ?_, ?_, .inl ?_⟩
    · rw [hreceipt, hfields, honly]
    · rw [hstatus, hreceipt, hfields]
      rfl
    · rw [hreceipt, hfields, honly]
      simp [Mapping.ofEntries, Mapping.get?_insert, FrozenJson.int]
    · rw [htype, hreceipt, hcommand]
      rfl
  | existing command hcommand run eventId observedAt mutation _ _ hmutation _ hcandidate =>
    obtain ⟨_, -, -, -, hevents, hreceipt⟩ := candidate_eq_ok hcandidate
    rcases Run.perform_eq_ok hmutation with ⟨rfl, -⟩ | ⟨change, hmakes, -, hchanged⟩
    · rw [hevents] at hevent
      cases hevent
    · obtain ⟨result, -, hnext⟩ := hchanged.next
      obtain ⟨only, hone, honly⟩ := hchanged.event
      rw [hevents, hone, List.mem_singleton] at hevent
      subst hevent
      have hsequence : event.sequence = c.receipt.resultingVersion := by
        rw [hreceipt, hnext, honly]
        exact run.sound.sequence
      have hstatus := event.status
      have hafter := hmakes.event_status honly
      have htype : event.type = change.eventType := by rw [honly]; rfl
      have hcommandType : c.receipt.commandType = command.operation.commandType := by
        rw [hreceipt, hcommand]
        rfl
      refine ⟨hsequence, ?_, ?_, ?_⟩
      · rw [hstatus, hreceipt, hnext]
        exact congrArg (fun status : RunStatus => some (Json.str status.value)) hafter
      · rw [← hsequence]
        exact hmakes.event_version honly
      · rw [htype, hcommandType]
        exact hmakes.eventType

theorem Prepared.replayable_iff {command : Command} {current : Option Run} {mutation : RunMutation}
    {c : Candidate} (h : Prepared command current mutation c) {outcome : CommitOutcome}
    (hreceipt : outcome.receipt = c.receipt) (hevents : outcome.events = c.newEvents) :
    outcome.Replayable ↔ ¬ outcome.LimitedCharge := by
  unfold CommitOutcome.Replayable CommitOutcome.LimitedCharge
  rw [hreceipt, hevents]
  constructor
  · rintro hall ⟨hcommand, event, hevent, htype⟩
    obtain ⟨hexpected, -⟩ := Database.validateReplayEvent_eq_ok.mp (hall event hevent)
    rw [hcommand, htype] at hexpected
    cases hexpected
  · intro hnot event hevent
    obtain ⟨hsequence, hstatus, hversion, htype | ⟨hcommand, htype⟩⟩ := h.tells event hevent
    · exact Database.validateReplayEvent_eq_ok.mpr ⟨htype, hsequence, hstatus, hversion⟩
    · exact absurd ⟨hcommand, event, hevent, htype⟩ hnot

end RunLifecycle

/-- An access to the database: what a commit proves its authority by, if it is a guarded one, and a
transaction of another client. -/
structure Access where
  authority : Option (LeaseAuthorityProof × DateTime)
  other : Database.Call

namespace Database

def commitUnder (db : Database) (authority : Option (LeaseAuthorityProof × DateTime)) (c : Candidate) :
    Database × Except Failure CommitOutcome :=
  match authority with
  | none => db.commit c
  | some (proof, platformNow) => db.commitWithLease proof platformNow c

end Database

def postgresRepository : Repository Database Access where
  initial := Database.empty
  load db _ := db.load
  findCommand db _ := db.findCommand
  commit db access c := db.commitUnder access.authority c
  background db access := db.perform access.other

namespace Database
open RunLifecycle
variable {db : Database} {outcome : CommitOutcome}

theorem Recorded.commitUnder (h : db.Recorded outcome) (authority : Option (LeaseAuthorityProof × DateTime))
    (c : Candidate) : (db.commitUnder authority c).1.Recorded outcome := by
  cases authority with
  | none => exact h.commit (db.commit_commits c)
  | some guard => exact h.commit (db.commitWithLease_commits guard.1 guard.2 c)

theorem commitUnder_stored {authority : Option (LeaseAuthorityProof × DateTime)} {c : Candidate}
    {next : Database} (hcommit : db.commitUnder authority c = (next, .ok outcome))
    (hnew : outcome.replayed = false) : db.Stored c next outcome := by
  have hcommits : ∃ guard, db.Commits c guard (db.commitUnder authority c) := by
    cases authority with
    | none => exact ⟨True, db.commit_commits c⟩
    | some guard => exact ⟨_, db.commitWithLease_commits guard.1 guard.2 c⟩
  rw [hcommit] at hcommits
  obtain ⟨guard, hcommits⟩ := hcommits
  cases hcommits with
  | replayed _ hreplayed => exact absurd (hnew.symm.trans hreplayed) (by decide)
  | stored _ _ _ hstored => exact hstored

theorem Recorded.step {s : System Database} (h : s.store.Recorded outcome) (label : Label Access) :
    (RunLifecycle.step postgresRepository s label).store.Recorded outcome := by
  cases label with
  | invoke command => exact h
  | background access => exact h.perform access.other
  | advance index choice =>
    simp only [RunLifecycle.step]
    cases hcall : s.calls[index]? with
    | none => exact h
    | some call =>
      rcases advance_store postgresRepository s.store call choice with hkept | ⟨_, _, c, -, hcommit⟩
      · simp only [hkept]
        exact h
      · simp only [hcommit]
        exact h.commitUnder choice.context.authority c

/-- The database answers a command with what it stored for it. -/
structure ReplaysCommand (db : Database) (outcome : CommitOutcome) : Prop where
  found : ∀ intentFingerprint, matchesDigestPattern intentFingerprint = true →
    db.findCommand outcome.receipt.tenantId outcome.receipt.commandId intentFingerprint =
      (outcome.replay intentFingerprint).map some
  committed : ∀ (c : Candidate), SameCommand outcome c → validateCommitInput c = .ok () →
    db.commit c = (db, outcome.replay c.receipt.intentFingerprint) ∧
      ∀ (proof : LeaseAuthorityProof), NamesRun proof c → ∀ platformNow,
        db.commitWithLease proof platformNow c = (db, outcome.replay c.receipt.intentFingerprint)

theorem Recorded.replays (h : db.Recorded outcome) : db.ReplaysCommand outcome where
  found intentFingerprint hdigest := by rw [h.findCommand, if_pos hdigest]
  committed c hsame hinput :=
    ⟨h.commit_again hsame hinput, fun _ hnames now => h.commitWithLease_again hsame hinput hnames now⟩

end Database

abbrev DatabaseSystem := RunLifecycle.System Database

namespace DatabaseSystem
open RunLifecycle Database

theorem step_commit {s : DatabaseSystem} {index : ℕ} {choice : Choice Access} {command : Command}
    {current : Option Run} {mutation : RunMutation} {c : Candidate}
    (hcall : s.calls[index]? = some ⟨command, .prepared current mutation c⟩) :
    (step postgresRepository s (.advance index choice)).store =
      (s.store.commitUnder choice.context.authority c).1 := by
  simp only [step, hcall]
  rfl

theorem recorded_run {s : DatabaseSystem} {outcome : CommitOutcome} (h : s.store.Recorded outcome)
    (history : List (Label Access)) :
    ((RunLifecycle.machine postgresRepository).runFrom s history).store.Recorded outcome :=
  Machine.Invariant.runFrom (P := fun t : DatabaseSystem => t.store.Recorded outcome)
    (fun _ label hrecorded => hrecorded.step label) h history

/-- A command that the service has stored is answered with its first outcome, whatever follows, but
for a budget consumption that ran into a limit, which is answered as corrupt data. -/
theorem stored_commands_replay (history later : List (Label Access)) (index : ℕ) (choice : Choice Access)
    (command : Command) (current : Option Run) (mutation : RunMutation) (c : Candidate)
    (hcall : ((RunLifecycle.machine postgresRepository).run history).calls[index]? =
      some ⟨command, .prepared current mutation c⟩)
    (next : Database) (outcome : CommitOutcome)
    (hcommit : ((RunLifecycle.machine postgresRepository).run history).store.commitUnder
      choice.context.authority c = (next, .ok outcome))
    (hnew : outcome.replayed = false) :
    outcome.receipt.tenantId = command.tenantId ∧ outcome.receipt.commandId = command.commandId ∧
      ((RunLifecycle.machine postgresRepository).run
        (history ++ .advance index choice :: later)).store.ReplaysCommand outcome ∧
      (outcome.Replayable ↔ ¬ outcome.LimitedCharge) := by
  have hprepared : Prepared command current mutation c :=
    calls_prepared postgresRepository history _ (List.mem_of_getElem? hcall) _ _ _ rfl
  have hstored := commitUnder_stored hcommit hnew
  obtain ⟨_, hcandidate⟩ := hprepared.candidate_ok
  obtain ⟨_, -, -, -, -, hreceipt⟩ := candidate_eq_ok hcandidate
  have hstep : (step postgresRepository ((RunLifecycle.machine postgresRepository).run history)
      (.advance index choice)).store = next := by
    rw [step_commit hcall, hcommit]
  have hrecorded := recorded_run (hstep ▸ hstored.records) later
  refine ⟨?_, ?_, ?_, hprepared.replayable_iff hstored.receipt hstored.events⟩
  · rw [hstored.receipt, hreceipt]
  · rw [hstored.receipt, hreceipt]
  · rw [Machine.run_append, Machine.runFrom_cons]
    exact hrecorded.replays

end DatabaseSystem

namespace Sample

/-- The accesses of a client that commits without a lease. -/
def access : Access := ⟨none, .renew renewal opening⟩

def accessChoice : Choice Access := ⟨opening, "run-1", event1.value, access⟩

def createCalled : List (RunLifecycle.Label Access) :=
  [.invoke (.create createCommand), .advance 0 accessChoice]

end Sample

open Sample RunLifecycle Database in
/-- The create command is answered with its event again. -/
theorem create_command_replays : ∃ outcome : CommitOutcome, outcome.events = [createdEvent] ∧
    ((RunLifecycle.machine postgresRepository).run
      (createCalled ++ .advance 0 accessChoice :: [])).store.ReplaysCommand outcome ∧
    (outcome.Replayable ↔ ¬ outcome.LimitedCharge) := by
  obtain ⟨_, hf⟩ := createCommand_fingerprint
  obtain ⟨cand, hcand⟩ := MemorySystem.candidate_ok (show RunMutation from ⟨queuedRun, [createdEvent]⟩) opening
    (show (Command.create createCommand).intentFingerprint = _ from hf)
  have hprepared : Prepared (.create createCommand) none ⟨queuedRun, [createdEvent]⟩ cand :=
    .create createCommand rfl runId event1 opening _ _ rfl hcand
  obtain ⟨_, -, hexpected, -, hevents, hreceipt⟩ := candidate_eq_ok hcand
  have hlookup : advance postgresRepository Database.empty ⟨.create createCommand, .begun⟩ accessChoice =
      (Database.empty, .prepared none ⟨queuedRun, [createdEvent]⟩ cand) := by
    refine advance_create hf ?_ rfl hcand
    have hdigest := Command.intentFingerprint_matches
      (show (Command.create createCommand).intentFingerprint = _ from hf)
    change Database.empty.findCommand _ _ _ = _
    rw [Database.findCommand, hdigest]
    rfl
  have hrun : (RunLifecycle.machine postgresRepository).run createCalled =
      ⟨Database.empty, [⟨.create createCommand, .prepared none ⟨queuedRun, [createdEvent]⟩ cand⟩]⟩ := by
    have hstart : (RunLifecycle.machine postgresRepository).start = ⟨Database.empty, []⟩ := rfl
    have hstep : (RunLifecycle.machine postgresRepository).step = step postgresRepository := rfl
    simp only [createCalled, Machine.run, hstart, hstep, Machine.runFrom_cons, Machine.runFrom_nil, step,
      List.nil_append, List.getElem?_cons_zero, List.set_cons_zero, hlookup]
  have hinput : validateCommitInput cand = .ok () := by
    simp [validateCommitInput, hevents, hreceipt]
  have hload : Database.empty.loadCurrent cand = .ok none := by
    unfold loadCurrent
    split_ifs <;> rfl
  have hvalid : validateCommitCandidate cand none (fun _ => false) = .ok () :=
    validateCommitCandidate_of_shape (hprepared.consistent rfl) (hprepared.shape fun _ _ => rfl)
  have hfree : Database.empty.FreeCommand cand := rfl
  have hroom : ∀ event ∈ cand.newEvents, Database.empty.HasRoom event :=
    fun event _ => ⟨rfl, fun _ _ h => (by cases h)⟩
  obtain ⟨record, outcome, -, houtcome, hcommit⟩ :=
    commit_stores hinput hfree hload (by rw [hexpected]; rfl) hvalid rfl hroom
  obtain ⟨-, hstored, hnew⟩ := CommitOutcome.new_eq_ok houtcome
  obtain ⟨-, -, hreplays, hreplayable⟩ := DatabaseSystem.stored_commands_replay createCalled [] 0 accessChoice
    (.create createCommand) none ⟨queuedRun, [createdEvent]⟩ cand (by rw [hrun]; rfl) _ outcome
    (by rw [hrun]; exact hcommit) hnew
  exact ⟨outcome, hstored.trans hevents, hreplays, hreplayable⟩

end Zhiyi
