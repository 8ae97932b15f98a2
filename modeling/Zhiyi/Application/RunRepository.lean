import Zhiyi.Application.Commands

set_option autoImplicit false

/-! Atomic persistence contract for run snapshots, events and command receipts,
and the validation of commit candidates the adapters share. -/
namespace Zhiyi
open Python

structure CommandReceiptFields where
  tenantId : TenantId
  commandId : CommandId
  runId : RunId
  commandType : CommandType
  intentFingerprint : String
  resultingStatus : RunStatus
  resultingVersion : ℕ
  eventIds : List EventId
  createdAt : DateTime
  deriving DecidableEq

def CommandReceiptFields.postInit (f : CommandReceiptFields) : Except PyError Unit := do
  require (matchesDigestPattern f.intentFingerprint)
    (.valueError "intent_fingerprint must be a SHA-256 digest")
  require (1 ≤ f.resultingVersion) (.valueError "resulting_version must be positive")

structure CommandReceipt extends CommandReceiptFields where
  valid : toCommandReceiptFields.postInit = .ok ()
  deriving DecidableEq

namespace CommandReceipt

def new (f : CommandReceiptFields) : Except PyError CommandReceipt :=
  construct f.postInit fun valid => ⟨f, valid⟩

theorem new_eq_ok {f : CommandReceiptFields} {receipt : CommandReceipt} (h : new f = .ok receipt) :
    receipt.toCommandReceiptFields = f := by
  obtain ⟨_, rfl⟩ := construct_eq_ok h
  rfl

theorem fingerprint_matches (receipt : CommandReceipt) :
    matchesDigestPattern receipt.intentFingerprint = true := by
  obtain ⟨_, h, _⟩ := bind_eq_ok.mp receipt.valid
  exact require_eq_ok.mp h

theorem version_pos (receipt : CommandReceipt) : 1 ≤ receipt.resultingVersion := by
  obtain ⟨_, _, h⟩ := bind_eq_ok.mp receipt.valid
  simpa using h

end CommandReceipt

structure CommitOutcome where
  receipt : CommandReceipt
  events : List RunEvent
  replayed : Bool
  valid : receipt.eventIds = events.map (·.eventId)
  deriving DecidableEq

namespace CommitOutcome

def new (receipt : CommandReceipt) (events : List RunEvent) (replayed : Bool) :
    Except PyError CommitOutcome :=
  if h : receipt.eventIds = events.map (·.eventId) then .ok ⟨receipt, events, replayed, h⟩
  else .error (.valueError "receipt event ids must match outcome events")

def asReplayed (outcome : CommitOutcome) : CommitOutcome := { outcome with replayed := true }

theorem new_self (outcome : CommitOutcome) (replayed : Bool) :
    new outcome.receipt outcome.events replayed = .ok { outcome with replayed := replayed } :=
  dif_pos outcome.valid

theorem new_eq_ok {receipt : CommandReceipt} {events : List RunEvent} {replayed : Bool}
    {outcome : CommitOutcome} (h : new receipt events replayed = .ok outcome) :
    outcome.receipt = receipt ∧ outcome.events = events ∧ outcome.replayed = replayed := by
  unfold new at h
  split_ifs at h
  cases h
  exact ⟨rfl, rfl, rfl⟩

end CommitOutcome

/-- The arguments of one `commit`. -/
structure Candidate where
  expectedVersion : ℕ
  updatedRun : Run
  newEvents : List RunEvent
  receipt : CommandReceipt
  deriving DecidableEq

def invariantViolation : Failure := .lifecycle .invariantViolation

/-- The event loop of `validate_commit_candidate`: the sequence that follows. -/
def validateEvents (updatedRun : Run) (occupied : EventId → Bool) :
    List RunEvent → List EventId → ℕ → Except Failure ℕ
  | [], _, expectedSequence => .ok expectedSequence
  | event :: events, seen, expectedSequence =>
    if event.tenantId ≠ updatedRun.tenantId ∨ event.runId ≠ updatedRun.runId ∨
        event.sequence ≠ expectedSequence ∨ occupied event.eventId = true ∨
        event.eventId ∈ seen then
      .error invariantViolation
    else validateEvents updatedRun occupied events (event.eventId :: seen) (expectedSequence + 1)

def firstSequence (c : Candidate) (current : Option Run) : Except Failure ℕ :=
  if c.expectedVersion = 0 then
    if current.isSome || c.updatedRun.version != 1 || c.newEvents.length != 1 then
      .error invariantViolation
    else .ok 1
  else
    match current with
    | none => .error invariantViolation
    | some current => .ok current.nextEventSequence

/-- Without events the run must be the stored one, else its version is the next. -/
def validateVersion (c : Candidate) (current : Option Run) : Except Failure Unit :=
  if c.newEvents.isEmpty then
    match current with
    | none => .error invariantViolation
    | some current => require (c.updatedRun.eq current) invariantViolation
  else require (c.updatedRun.version == c.expectedVersion + 1) invariantViolation

def validateCommitCandidate (c : Candidate) (current : Option Run) (occupied : EventId → Bool) :
    Except Failure Unit := do
  require (c.newEvents.length ≤ 1) invariantViolation
  require (c.receipt.tenantId == c.updatedRun.tenantId && c.receipt.runId == c.updatedRun.runId &&
      c.receipt.resultingStatus == c.updatedRun.status &&
      c.receipt.resultingVersion == c.updatedRun.version &&
      c.receipt.eventIds == c.newEvents.map (·.eventId)) invariantViolation
  let expectedSequence ← firstSequence c current
  validateVersion c current
  let expectedSequence ← validateEvents c.updatedRun occupied c.newEvents [] expectedSequence
  require (c.updatedRun.nextEventSequence == expectedSequence) invariantViolation

/-- The receipt describes the candidate's run and events. -/
structure Candidate.Consistent (c : Candidate) : Prop where
  tenant : c.receipt.tenantId = c.updatedRun.tenantId
  run : c.receipt.runId = c.updatedRun.runId
  status : c.receipt.resultingStatus = c.updatedRun.status
  version : c.receipt.resultingVersion = c.updatedRun.version
  eventIds : c.receipt.eventIds = c.newEvents.map (·.eventId)

/-- The three shapes of a valid candidate: a creation, an update by one event, or
    a receipt for the run as it is. -/
inductive Candidate.Shape (c : Candidate) (occupied : EventId → Bool) : Option Run → Prop
  | create (event : RunEvent) (hevents : c.newEvents = [event]) (hexpected : c.expectedVersion = 0)
    (hversion : c.updatedRun.version = 1) (htenant : event.tenantId = c.updatedRun.tenantId)
    (hrun : event.runId = c.updatedRun.runId) (hsequence : event.sequence = 1)
    (hfree : occupied event.eventId = false) : Shape c occupied none
  | update (current : Run) (event : RunEvent) (hevents : c.newEvents = [event])
    (hexpected : c.expectedVersion ≠ 0) (hversion : c.updatedRun.version = c.expectedVersion + 1)
    (htenant : event.tenantId = c.updatedRun.tenantId) (hrun : event.runId = c.updatedRun.runId)
    (hsequence : event.sequence = current.nextEventSequence)
    (hnext : c.updatedRun.nextEventSequence = current.nextEventSequence + 1)
    (hfree : occupied event.eventId = false) : Shape c occupied (some current)
  | record (current : Run) (hevents : c.newEvents = []) (hexpected : c.expectedVersion ≠ 0)
    (hsame : c.updatedRun.eq current = true)
    (hnext : c.updatedRun.nextEventSequence = current.nextEventSequence) :
    Shape c occupied (some current)

theorem validateEvents_single {updatedRun : Run} {occupied : EventId → Bool} {event : RunEvent}
    {expected next : ℕ} (h : validateEvents updatedRun occupied [event] [] expected = .ok next) :
    event.tenantId = updatedRun.tenantId ∧ event.runId = updatedRun.runId ∧
      event.sequence = expected ∧ occupied event.eventId = false ∧ next = expected + 1 := by
  unfold validateEvents at h
  split_ifs at h with hbad
  simp only [not_or, not_not, Bool.not_eq_true] at hbad
  obtain ⟨h1, h2, h3, h4, -⟩ := hbad
  exact ⟨h1, h2, h3, h4, (Except.ok.inj h).symm⟩

theorem validateCommitCandidate_eq_ok {c : Candidate} {current : Option Run}
    {occupied : EventId → Bool} {u : Unit}
    (h : validateCommitCandidate c current occupied = .ok u) :
    c.Consistent ∧ c.Shape occupied current := by
  obtain ⟨_, hlength, h⟩ := bind_eq_ok.mp h
  obtain ⟨_, hreceipt, h⟩ := bind_eq_ok.mp h
  obtain ⟨expected, hexpected, h⟩ := bind_eq_ok.mp h
  obtain ⟨_, hversion, h⟩ := bind_eq_ok.mp h
  obtain ⟨next, hevents, hnext⟩ := bind_eq_ok.mp h
  simp only [require_eq_ok, Bool.and_eq_true, beq_iff_eq, decide_eq_true_eq] at hlength hreceipt hnext
  obtain ⟨⟨⟨⟨htenant, hrun⟩, hstatus⟩, hresult⟩, hids⟩ := hreceipt
  refine ⟨⟨htenant, hrun, hstatus, hresult, hids⟩, ?_⟩
  cases hlist : c.newEvents with
  | nil =>
    simp only [validateVersion, firstSequence, hlist, List.isEmpty_nil, if_true] at hversion hevents hexpected
    have hnexteq : next = expected := (Except.ok.inj hevents).symm
    split_ifs at hexpected with hzero hcreate
    · simp at hcreate
    · cases current with
      | none => cases hversion
      | some current =>
        have hseq : current.nextEventSequence = expected := Except.ok.inj hexpected
        exact .record current hlist hzero (require_eq_ok.mp hversion) (by rw [hnext, hnexteq, hseq])
  | cons event events =>
    have hnil : events = [] := by
      rw [hlist, List.length_cons] at hlength
      exact List.length_eq_zero_iff.mp (by omega)
    subst hnil
    simp only [validateVersion, firstSequence, hlist, List.isEmpty_cons, Bool.false_eq_true, if_false,
      require_eq_ok, beq_iff_eq] at hversion hevents hexpected
    obtain ⟨h1, h2, h3, h4, h5⟩ := validateEvents_single hevents
    split_ifs at hexpected with hzero hcreate
    · simp only [List.length_cons, List.length_nil, Bool.or_eq_true, not_or,
        Option.not_isSome_iff_eq_none, bne_iff_ne, ne_eq, not_not] at hcreate
      obtain ⟨⟨rfl, hone⟩, -⟩ := hcreate
      have hexp : expected = 1 := (Except.ok.inj hexpected).symm
      exact .create event hlist hzero hone h1 h2 (h3.trans hexp) h4
    · cases current with
      | none => cases hexpected
      | some current =>
        have hseq : current.nextEventSequence = expected := Except.ok.inj hexpected
        exact .update current event hlist hzero hversion h1 h2 (h3.trans hseq.symm)
          (by rw [hnext, h5, hseq]) h4

theorem validateCommitCandidate_of_shape {c : Candidate} {current : Option Run}
    {occupied : EventId → Bool} (hc : c.Consistent) (hs : c.Shape occupied current) :
    validateCommitCandidate c current occupied = .ok () := by
  obtain ⟨htenant, hrun, hstatus, hversion, hids⟩ := hc
  have hsound := c.updatedRun.sound.sequence
  cases hs with
  | create event hevents hexpected hone h1 h2 h3 h4 =>
    simp [validateCommitCandidate, firstSequence, validateVersion, validateEvents, hevents, htenant,
      hrun, hstatus, hversion,
      hids, hexpected, hone, h1, h2, h3, h4, hsound, bind, Except.bind]
  | update current event hevents hexpected hnew h1 h2 h3 hnext h4 =>
    simp [validateCommitCandidate, firstSequence, validateVersion, validateEvents, hevents, htenant,
      hrun, hstatus, hversion,
      hids, hexpected, hnew, h1, h2, h3, h4, hnext, bind, Except.bind]
  | record current hevents hexpected hsame hnext =>
    simp [validateCommitCandidate, firstSequence, validateVersion, validateEvents, hevents, htenant,
      hrun, hstatus, hversion,
      hids, hexpected, hsame, hnext, bind, Except.bind]

end Zhiyi
