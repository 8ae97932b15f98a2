import Zhiyi.Domain.Transitions
import Zhiyi.Postgres.LeaseCodecs
import Zhiyi.Postgres.RoundTrip

set_option autoImplicit false

/-! Rows read through a session that is not in UTC. The driver delivers the same
instants in the zone of the session, and the decoders look at the offset. -/
namespace Zhiyi
open Python

def shownAt (offset : ℤ) (d : DateTime) : ZonedDateTime := ⟨d, offset⟩

/-- The row of a run, its timestamps in the zone of the session. -/
def runRecordShown (offset : ℤ) (run : Run) : RunRecord :=
  { encodeRun run with
    createdAt := shownAt offset run.createdAt
    updatedAt := shownAt offset run.updatedAt
    lastObservedAt := shownAt offset run.lastObservedAt }

/-- What a driver delivers for an instant: a datetime, or its ISO text when the row is
    delivered as a JSON document. -/
inductive Shows (d : DateTime) (offset : ℤ) : TimestampValue → Prop
  | datetime : Shows d offset (.datetime (shownAt offset d))
  | text (s : String) (shown : DateTime)
    (hread : DateTime.fromisoformat (replaceZulu s) = .ok (shown, some offset))
    (hinstant : shown.micros = d.micros + offset) : Shows d offset (.text s)

def eventRecordShown (occurredAt : TimestampValue) (event : RunEvent) : EventRecord :=
  { encodeEvent event with occurredAt := occurredAt }

def receiptRecordShown (offset : ℤ) (record : ReceiptRecord) : ReceiptRecord :=
  { record with createdAt := shownAt offset record.createdAt.instant }

def workerLeaseMappingShown (offset : ℤ) (record : WorkerLeaseRecord) : WorkerLeaseMapping :=
  { encodeWorkerLease record with
    acquiredAt := shownAt offset record.acquiredAt
    heartbeatAt := shownAt offset record.heartbeatAt
    leaseExpiresAt := shownAt offset record.leaseExpiresAt
    releasedAt := record.releasedAt.map (shownAt offset) }

theorem shownAt_zero (d : DateTime) : shownAt 0 d = utc d := rfl

theorem readTimestamp_shownAt {offset : ℤ} (hne : offset ≠ 0) (d : DateTime) :
    readTimestamp (.datetime (shownAt offset d)) =
      .error (.valueError "timestamp record is not UTC") := by
  simp [readTimestamp, shownAt, beq_false_of_ne hne, bind, Except.bind]

theorem requireUtc_shownAt {offset : ℤ} (hne : offset ≠ 0) (name : String) (d : DateTime) :
    requireUtc name (shownAt offset d) = .error (.valueError (name ++ " must be an aware UTC datetime")) := by
  simp [requireUtc, shownAt, beq_false_of_ne hne, bind, Except.bind]

theorem Shows.readTimestamp_of_ne {d : DateTime} {offset : ℤ} {v : TimestampValue} (h : Shows d offset v)
    (hne : offset ≠ 0) : readTimestamp v = .error (.valueError "timestamp record is not UTC") := by
  cases h with
  | datetime => exact readTimestamp_shownAt hne d
  | text s shown hread =>
    have hsome : (some offset == some 0) = false := beq_false_of_ne (by simpa using hne)
    simp [readTimestamp, hread, hsome, bind, Except.bind]

theorem Shows.readTimestamp_zero {d : DateTime} {v : TimestampValue} (h : Shows d 0 v) :
    readTimestamp v = .ok d := by
  cases h with
  | datetime => rfl
  | text s shown hread hinstant =>
    have hshown : shown = d := DateTime.ext_micros (by omega)
    subst hshown
    simp [readTimestamp, hread, bind, Except.bind, pure, Except.pure]

theorem decodeRun_shown_of_ne {offset : ℤ} (hne : offset ≠ 0) (run : Run) :
    decodeRun (runRecordShown offset run) = .error (.repository .dataCorruption) := by
  have hdocument := decode_encodeCanonicalJson (canonical_snapshotDocument run)
  unfold decodeRun
  simp only [runRecordShown, encodeRun, beq_self_eq_true, Bool.and_self, require_true, bind, Except.bind,
    hdocument, decodeSnapshot_document, checkProjections, readTimestamp_shownAt hne]
  rfl

theorem decodeEvent_shown {event : RunEvent} {offset : ℤ} {v : TimestampValue}
    (h : Shows event.occurredAt offset v) :
    decodeEvent (eventRecordShown v event) =
      if offset = 0 then .ok event else .error (.repository .dataCorruption) := by
  have hdocument := decode_encodeCanonicalJson event.payload.canonical
  have hmapping : mappingOfJson (.obj event.payload.fields) = .ok event.payload :=
    dif_pos event.payload.canonical
  unfold decodeEvent
  simp only [eventRecordShown, encodeEvent, beq_self_eq_true, require_true, bind, Except.bind, hdocument,
    hmapping, Identifier.new_value, counterOfText_encoded, enumOf_eventType]
  split_ifs with hzero
  · subst hzero
    simp only [h.readTimestamp_zero]
    rw [RunEvent.new_fields]
    rfl
  · simp only [h.readTimestamp_of_ne hzero]
    rfl

theorem decodeReceipt_shown_of_ne {offset : ℤ} (hne : offset ≠ 0) {receipt : CommandReceipt}
    {record : ReceiptRecord} (h : encodeReceipt receipt = .ok record) :
    decodeReceipt (receiptRecordShown offset record) = .error (.repository .dataCorruption) := by
  obtain ⟨_, -, hrecord⟩ := bind_eq_ok.mp h
  cases Except.ok.inj hrecord
  unfold decodeReceipt
  simp only [receiptRecordShown, beq_self_eq_true, require_true, bind, Except.bind, Identifier.new_value,
    enumOf_commandType, enumOf_status, counterOfText_encoded, readTimestamp_shownAt hne]
  cases receipt.eventIds.head? with
  | none => rfl
  | some eventId =>
    simp only [Option.map_some, Identifier.new_value]
    rfl

theorem decodeWorkerLease_shown_of_ne {offset : ℤ} (hne : offset ≠ 0) (record : WorkerLeaseRecord) :
    decodeWorkerLease (workerLeaseMappingShown offset record) = .error (.lease .dataCorruption) := by
  unfold decodeWorkerLease
  simp only [workerLeaseMappingShown, encodeWorkerLease, beq_self_eq_true, require_true, bind, Except.bind,
    Identifier.new_value, LeaseClaimId.new_value, PositiveCounter.new_value, LeaseDurationSeconds.new_value,
    requireUtc_shownAt hne]
  rfl

/-- A decoder does with the row of another zone what it does with the row in UTC, and
    finds nothing corrupt. -/
def SameAsUtc {α : Type} (shown inUtc : Except Failure α) : Prop :=
  shown = inUtc ∧ shown ≠ .error (.repository .dataCorruption) ∧ shown ≠ .error (.lease .dataCorruption)

theorem sameAsUtc_of_ok {α : Type} {x : Except Failure α} {a : α} (h : x = .ok a) : SameAsUtc x x := by
  subst h
  exact ⟨rfl, by simp, by simp⟩

theorem runRecordShown_zero (run : Run) : runRecordShown 0 run = encodeRun run := rfl

theorem receiptRecordShown_zero {receipt : CommandReceipt} {record : ReceiptRecord}
    (h : encodeReceipt receipt = .ok record) : receiptRecordShown 0 record = record := by
  obtain ⟨_, -, hrecord⟩ := bind_eq_ok.mp h
  cases Except.ok.inj hrecord
  rfl

theorem workerLeaseMappingShown_zero (record : WorkerLeaseRecord) :
    workerLeaseMappingShown 0 record = encodeWorkerLease record := rfl

/-- The rows of a session are decoded as in UTC if and only if its offset is zero. -/
theorem decoding_same_iff_utc (offset : ℤ) :
    (∀ run, SameAsUtc (decodeRun (runRecordShown offset run)) (decodeRun (encodeRun run)) ↔ offset = 0) ∧
    (∀ event v, Shows event.occurredAt offset v →
      (SameAsUtc (decodeEvent (eventRecordShown v event)) (decodeEvent (encodeEvent event)) ↔
        offset = 0)) ∧
    (∀ receipt record, encodeReceipt receipt = .ok record →
      (SameAsUtc (decodeReceipt (receiptRecordShown offset record)) (decodeReceipt record) ↔
        offset = 0)) ∧
    (∀ record, SameAsUtc (decodeWorkerLease (workerLeaseMappingShown offset record))
        (decodeWorkerLease (encodeWorkerLease record)) ↔ offset = 0) := by
  refine ⟨fun run => ⟨fun h => ?_, fun hzero => ?_⟩, fun event v hv => ⟨fun h => ?_, fun hzero => ?_⟩,
    fun receipt record hrecord => ⟨fun h => ?_, fun hzero => ?_⟩,
    fun record => ⟨fun h => ?_, fun hzero => ?_⟩⟩
  · by_contra hne
    exact h.2.1 (decodeRun_shown_of_ne hne run)
  · subst hzero
    exact sameAsUtc_of_ok (decodeRun_encodeRun run)
  · by_contra hne
    exact h.2.1 ((decodeEvent_shown hv).trans (if_neg hne))
  · have hshown := (decodeEvent_shown hv).trans (if_pos hzero)
    rw [hshown, decodeEvent_encodeEvent]
    exact sameAsUtc_of_ok rfl
  · by_contra hne
    exact h.2.1 (decodeReceipt_shown_of_ne hne hrecord)
  · subst hzero
    rw [receiptRecordShown_zero hrecord]
    exact sameAsUtc_of_ok (decodeReceipt_encodeReceipt hrecord)
  · by_contra hne
    exact h.2.2 (decodeWorkerLease_shown_of_ne hne record)
  · subst hzero
    exact sameAsUtc_of_ok (decodeWorkerLease_encodeWorkerLease record)

def eightHours : ℤ := 28800000000

theorem stored_run_refused_eight_hours :
    decodeRun (runRecordShown eightHours Sample.queuedRun) = .error (.repository .dataCorruption) ∧
    decodeRun (runRecordShown eightHours Sample.queuedRun) ≠ decodeRun (encodeRun Sample.queuedRun) := by
  have hrefused := decodeRun_shown_of_ne (show eightHours ≠ 0 by decide) Sample.queuedRun
  refine ⟨hrefused, ?_⟩
  rw [hrefused, decodeRun_encodeRun]
  simp

end Zhiyi
