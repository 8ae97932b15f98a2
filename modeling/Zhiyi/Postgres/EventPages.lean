import Zhiyi.Library.Paging
import Zhiyi.Memory.StoreInvariant
import Zhiyi.Postgres.IntegerConversions
import Zhiyi.Postgres.Transactions

set_option autoImplicit false

/-! Event pages of both repositories. The rows of a run are its log in some order,
their text keys ascend with the sequences, and every row is read back, so the
query returns the slice of the log. -/
namespace Zhiyi
open Python Interleaving

theorem digits_lt_of_value_lt {a b : List Char} (ha : Digits.AllDigits a) (hb : Digits.AllDigits b)
    (hlength : a.length = b.length) (h : Digits.value a < Digits.value b) : a < b := by
  induction a generalizing b with
  | nil =>
    rw [List.length_eq_zero_iff.mp hlength.symm] at h
    exact absurd h (lt_irrefl _)
  | cons c a ih =>
    obtain ⟨d, b, rfl⟩ : ∃ d b', b = d :: b' := by
      cases b with
      | nil => simp at hlength
      | cons d b => exact ⟨d, b, rfl⟩
    have ha' : Digits.AllDigits a := fun e he => ha e (List.mem_cons_of_mem _ he)
    have hb' : Digits.AllDigits b := fun e he => hb e (List.mem_cons_of_mem _ he)
    have hc := ha c List.mem_cons_self
    have hd := hb d List.mem_cons_self
    have hlength : a.length = b.length := by simpa using hlength
    rw [Digits.value_cons, Digits.value_cons, hlength] at h
    have hlow := Digits.value_lt ha'
    rw [hlength] at hlow
    rcases lt_trichotomy (Digits.digit c) (Digits.digit d) with hlt | heq | hgt
    · refine List.cons_lt_cons_iff.mpr (.inl ?_)
      obtain ⟨hcge, -⟩ := Digits.digit_bounds hc
      have hzero : '0'.toNat = 48 := rfl
      unfold Digits.digit at hlt
      exact Char.lt_def.mpr (UInt32.lt_iff_toNat_lt.mpr (show c.toNat < d.toNat by omega))
    · rw [heq] at h
      refine List.cons_lt_cons_iff.mpr (.inr ⟨Digits.digit_inj hc hd heq, ih ha' hb' hlength (by omega)⟩)
    · have hvalue := Digits.value_lt hb'
      have hmul : (Digits.digit d + 1) * 10 ^ b.length ≤ Digits.digit c * 10 ^ b.length :=
        Nat.mul_le_mul_right _ hgt
      rw [Nat.add_mul, Nat.one_mul] at hmul
      omega

/-- `(sequence_digits, sequence_value)` of a sequence. -/
def textKey (n : ℕ) : ℕ ×ₗ String :=
  toLex ((encodeCanonicalInteger n).length, encodeCanonicalInteger n)

theorem encodeCanonicalInteger_nat (n : ℕ) :
    encodeCanonicalInteger n = String.ofList (Nat.toDigits 10 n) := by
  rw [encodeCanonicalInteger_eq, Json.printInt, if_neg (by omega), Int.natAbs_natCast]

theorem textKey_strictMono : StrictMono textKey := by
  intro m n h
  simp only [textKey, encodeCanonicalInteger_nat, String.length_ofList]
  have hm := Digits.allDigits_toDigits m
  have hn := Digits.allDigits_toDigits n
  have hpos : 0 < (Nat.toDigits 10 n).length := Nat.length_toDigits_pos
  have hle : (Nat.toDigits 10 m).length ≤ (Nat.toDigits 10 n).length := by
    rw [Nat.length_toDigits_le_iff (by norm_num) hpos]
    exact h.trans ((Nat.length_toDigits_le_iff (by norm_num) hpos).mp le_rfl)
  rcases hle.lt_or_eq with hlt | heq
  · exact Prod.Lex.toLex_lt_toLex.mpr (.inl hlt)
  · refine Prod.Lex.toLex_lt_toLex.mpr (.inr ⟨heq, ?_⟩)
    rw [String.lt_iff_toList_lt, String.toList_ofList, String.toList_ofList]
    refine digits_lt_of_value_lt hm hn heq ?_
    simpa only [Digits.value, Nat.ofDigitChars_ten_toDigits] using h

theorem value_zeros {cs : List Char} (h : ∀ c ∈ cs, c = '0') : Digits.value cs = 0 := by
  induction cs with
  | nil => rfl
  | cons c cs ih =>
    rw [Digits.value_cons, ih fun d hd => h d (List.mem_cons_of_mem _ hd), h c List.mem_cons_self]
    simp [Digits.digit]

def strippedFraction (d : DateTime) : List Char :=
  ((DateTime.padded 6 d.fraction).reverse.dropWhile (· = '0')).reverse

theorem readFraction_stripped (d : DateTime) :
    DateTime.readFraction ((if strippedFraction d = [] then [] else '.' :: strippedFraction d) ++
      "+00:00".toList) = some (d.fraction, "+00:00".toList) := by
  have hlt : d.fraction < 10 ^ 6 := Nat.mod_lt _ (by norm_num)
  have hlength := DateTime.padded_length (by norm_num : 0 < 6) hlt
  obtain ⟨zeros, hzeros, hsplit⟩ : ∃ zeros : List Char, (∀ c ∈ zeros, c = '0') ∧
      DateTime.padded 6 d.fraction = strippedFraction d ++ zeros := by
    refine ⟨((DateTime.padded 6 d.fraction).reverse.takeWhile (· = '0')).reverse, fun c hc => ?_, ?_⟩
    · simpa using List.mem_takeWhile_imp (List.mem_reverse.mp hc)
    · rw [strippedFraction, ← List.reverse_append, List.takeWhile_append_dropWhile, List.reverse_reverse]
  have hvalue : Digits.value (strippedFraction d) * 10 ^ zeros.length = d.fraction := by
    have happend := Digits.value_append (strippedFraction d) zeros
    rw [← hsplit, value_zeros hzeros, Nat.add_zero] at happend
    rw [← happend]
    exact DateTime.ofDigitChars_padded 6 d.fraction
  have hsum : (strippedFraction d).length + zeros.length = 6 := by
    rw [← List.length_append, ← hsplit, hlength]
  split_ifs with hnil
  · rw [hnil] at hvalue
    simp only [Digits.value, Nat.ofDigitChars_nil, Nat.zero_mul] at hvalue
    rw [← hvalue]
    rfl
  · have hdigits : ∀ c ∈ strippedFraction d, c.isDigit = true := fun c hc =>
      DateTime.isDigit_of_mem_padded c (hsplit ▸ List.mem_append_left _ hc)
    rw [DateTime.readFraction_digits hdigits hnil (by omega)]
    rw [show 6 - (strippedFraction d).length = zeros.length by omega]
    rw [show Nat.ofDigitChars 10 (strippedFraction d) 0 = Digits.value (strippedFraction d) from rfl, hvalue]

theorem jsonTimestamp_eq (d : DateTime) : Database.jsonTimestamp d = String.ofList (d.isoSeconds ++
    (if strippedFraction d = [] then [] else '.' :: strippedFraction d) ++ "+00:00".toList) := rfl

theorem replaceZulu_jsonTimestamp (d : DateTime) :
    replaceZulu (Database.jsonTimestamp d) = Database.jsonTimestamp d := by
  refine replaceZulu_of_absent fun c hc => ?_
  rw [jsonTimestamp_eq, String.toList_ofList] at hc
  rintro rfl
  rcases List.mem_append.mp hc with hc | hc
  · rcases List.mem_append.mp hc with hc | hc
    · exact d.ne_zulu_of_mem_isoSeconds _ hc rfl
    · split_ifs at hc
      · cases hc
      · rcases List.mem_cons.mp hc with hc | hc
        · revert hc
          decide
        · have hpadded : 'Z' ∈ DateTime.padded 6 d.fraction :=
            List.mem_reverse.mp ((List.dropWhile_sublist _).mem (List.mem_reverse.mp hc))
          exact absurd (DateTime.isDigit_of_mem_padded _ hpadded) (by decide)
  · revert hc
    decide

theorem readTimestamp_jsonTimestamp (d : DateTime) :
    readTimestamp (.text (Database.jsonTimestamp d)) = .ok d := by
  have hread : DateTime.fromisoformat (Database.jsonTimestamp d) = .ok (d, some 0) := by
    rw [jsonTimestamp_eq]
    exact d.fromisoformat_isoSeconds (readFraction_stripped d)
  unfold readTimestamp
  simp only [replaceZulu_jsonTimestamp, hread, bind, Except.bind]
  rfl

def pageRecord (event : RunEvent) : EventRecord :=
  event.row.recordAt event.eventId (.text (Database.jsonTimestamp event.occurredAt))

theorem decodeEvent_pageRecord (event : RunEvent) : decodeEvent (pageRecord event) = .ok event := by
  have hdocument := decode_encodeCanonicalJson event.payload.canonical
  have hmapping : mappingOfJson (.obj event.payload.fields) = .ok event.payload :=
    dif_pos event.payload.canonical
  unfold decodeEvent
  simp only [pageRecord, EventRow.recordAt, RunEvent.row, encodeEvent, beq_self_eq_true, require_true, bind,
    Except.bind, hdocument, hmapping, Identifier.new_value, counterOfText_encoded, enumOf_eventType,
    readTimestamp_jsonTimestamp]
  rw [RunEvent.new_fields]
  rfl

theorem mapM_decodeEvent (events : List RunEvent) :
    (events.map pageRecord).mapM decodeEvent = .ok events := by
  induction events with
  | nil => rfl
  | cons event events ih =>
    simp only [List.map_cons, List.mapM_cons, decodeEvent_pageRecord, ih, bind, Except.bind]
    rfl

namespace Database

/-- The rows of a run are those of a log with ascending sequences. -/
structure Logs (db : Database) (tenantId : TenantId) (runId : RunId) (log : List RunEvent) : Prop where
  ascending : Paging.Ascending (·.sequence) log
  rows : (db.eventsOf tenantId runId).Perm (log.map fun event => (event.eventId, event.row))
  present : log ≠ [] → db.hasRun tenantId runId = true

variable {db : Database} {tenantId : TenantId} {runId : RunId} {log : List RunEvent}

theorem sequenceKey_row (event : RunEvent) : sequenceKey event.row = textKey event.sequence := rfl

theorem Logs.eventPage (h : db.Logs tenantId runId log) (afterSequence limit : ℕ) :
    db.eventPage tenantId runId (encodeCanonicalInteger afterSequence) limit =
      (Paging.page (·.sequence) log afterSequence limit).map pageRecord := by
  have hsorted : Paging.Ascending (fun p : EventId × EventRow => sequenceKey p.2)
      (log.map fun event => (event.eventId, event.row)) :=
    h.ascending.map fun a b hlt => textKey_strictMono hlt
  have hpage : Paging.sortedPage (fun p : EventId × EventRow => sequenceKey p.2)
      (db.eventsOf tenantId runId) (textKey afterSequence) limit =
      (Paging.page (·.sequence) log afterSequence limit).map fun event => (event.eventId, event.row) := by
    rw [hsorted.sortedPage h.rows]
    exact Paging.page_map log afterSequence limit fun event _ => textKey_strictMono.lt_iff_lt
  calc db.eventPage tenantId runId (encodeCanonicalInteger afterSequence) limit
      = (Paging.sortedPage (fun p : EventId × EventRow => sequenceKey p.2)
          (db.eventsOf tenantId runId) (textKey afterSequence) limit).map fun p =>
            p.2.recordAt p.1 (.text (jsonTimestamp p.2.occurredAt)) := rfl
    _ = (Paging.page (·.sequence) log afterSequence limit).map pageRecord := by
        rw [hpage, List.map_map]
        rfl

theorem Logs.listEvents (h : db.Logs tenantId runId log) (hrun : db.hasRun tenantId runId = true)
    (afterSequence : ℕ) {limit : ℕ} (hlimit : 1 ≤ limit ∧ limit ≤ 1000) :
    db.listEvents tenantId runId afterSequence limit =
      .ok (Paging.page (·.sequence) log afterSequence limit) := by
  have hbounds : (1 ≤ limit && limit ≤ 1000) = true := by simpa using hlimit
  unfold Database.listEvents
  simp only [hbounds, hrun, h.eventPage, Bool.or_true, require_true, bind, Except.bind, mapM_decodeEvent]

theorem Logs.listEvents_eq (h : db.Logs tenantId runId log) {s : MemoryStore}
    (hstored : s.events.get? (tenantId, runId) = if db.hasRun tenantId runId then some log else none)
    (afterSequence limit : ℕ) :
    db.listEvents tenantId runId afterSequence limit = s.listEvents tenantId runId afterSequence limit := by
  by_cases hlimit : 1 ≤ limit ∧ limit ≤ 1000
  · by_cases hrun : db.hasRun tenantId runId = true
    · rw [if_pos hrun] at hstored
      rw [h.listEvents hrun afterSequence hlimit]
      unfold MemoryStore.listEvents
      simp only [hlimit, hstored]
      rfl
    · rw [if_neg hrun] at hstored
      have hnil : log = [] := by
        by_contra hne
        exact hrun (h.present hne)
      have hpage := h.eventPage afterSequence limit
      subst hnil
      unfold Database.listEvents MemoryStore.listEvents
      simp only [hpage, hstored, hrun, hlimit, Paging.page, List.filter_nil, List.take_nil, List.map_nil,
        List.isEmpty_nil, bind, Except.bind]
      simp
  · have hbounds : (decide (1 ≤ limit) && decide (limit ≤ 1000)) = false := by
      rw [← Bool.not_eq_true]
      simpa using hlimit
    unfold Database.listEvents MemoryStore.listEvents
    simp only [hbounds, decide_eq_false hlimit, require_false]
    rfl

/-- Every event row is the row of an event of a run that is there, and no two rows of a run have
    one sequence. -/
structure EventsStored (db : Database) : Prop where
  encoded : ∀ id row, db.runEvents.get? id = some row → ∃ event : RunEvent, event.eventId = id ∧ event.row = row
  present : ∀ id row, db.runEvents.get? id = some row → db.hasRun row.tenantId row.runId = true
  distinct : ∀ id row id' row', db.runEvents.get? id = some row → db.runEvents.get? id' = some row' →
    row.tenantId = row'.tenantId → row.runId = row'.runId → row.sequenceValue = row'.sequenceValue → id = id'

theorem eventsStored_empty : EventsStored empty := by
  constructor
  all_goals simp [empty]

/-- Only the tables of runs and events count, and runs do not go away. -/
theorem EventsStored.of_tables {db' : Database} (h : db.EventsStored)
    (hevents : db'.runEvents = db.runEvents)
    (hruns : ∀ t r, db.hasRun t r = true → db'.hasRun t r = true) : db'.EventsStored where
  encoded id row hrow := h.encoded id row (hevents ▸ hrow)
  present id row hrow := hruns _ _ (h.present id row (hevents ▸ hrow))
  distinct id row id' row' hrow hrow' := h.distinct id row id' row' (hevents ▸ hrow) (hevents ▸ hrow')

theorem hasRun_putRun {run : Run} {t : TenantId} {r : RunId} (h : db.hasRun t r = true) :
    (db.putRun run).hasRun t r = true := by
  unfold hasRun putRun at *
  rw [Dict.get?_insert]
  split_ifs
  · rfl
  · exact h

theorem EventsStored.putRun (h : db.EventsStored) (run : Run) : (db.putRun run).EventsStored :=
  h.of_tables rfl fun _ _ => hasRun_putRun

theorem mem_eventsOf {id : EventId} {row : EventRow} :
    (id, row) ∈ db.eventsOf tenantId runId ↔
      db.runEvents.get? id = some row ∧ row.tenantId = tenantId ∧ row.runId = runId := by
  simp [eventsOf, Dict.mem_items_iff]

/-- The constraints of `run_events` keep the sequences of a run apart. -/
theorem EventsStored.insertEvent {db' : Database} {event : RunEvent} (h : db.EventsStored)
    (hinsert : db.insertEvent event = .ok db') : db'.EventsStored := by
  obtain ⟨_, -, hinsert⟩ := bind_eq_ok.mp hinsert
  obtain ⟨_, hunique, hinsert⟩ := bind_eq_ok.mp hinsert
  obtain ⟨_, hrun, hinsert⟩ := bind_eq_ok.mp hinsert
  cases Except.ok.inj hinsert
  rw [require_eq_ok] at hunique hrun
  have hother : ∀ id row, db.runEvents.get? id = some row → row.tenantId = event.tenantId →
      row.runId = event.runId → row.sequenceValue ≠ event.row.sequenceValue := by
    intro id row hrow htenant hrunId
    simpa using List.all_eq_true.mp hunique (id, row) (mem_eventsOf.mpr ⟨hrow, htenant, hrunId⟩)
  constructor
  · intro id row hrow
    rw [Dict.get?_insert] at hrow
    split_ifs at hrow with hid
    · exact ⟨event, hid.symm, Option.some.inj hrow⟩
    · exact h.encoded id row hrow
  · intro id row hrow
    rw [Dict.get?_insert] at hrow
    split_ifs at hrow with hid
    · cases Option.some.inj hrow
      exact hrun
    · exact h.present id row hrow
  · intro id row id' row' hrow hrow' htenant hrunId hsequence
    rw [Dict.get?_insert] at hrow hrow'
    split_ifs at hrow with hid <;> split_ifs at hrow' with hid'
    · exact hid.trans hid'.symm
    · cases Option.some.inj hrow
      exact absurd hsequence.symm (hother id' row' hrow' htenant.symm hrunId.symm)
    · cases Option.some.inj hrow'
      exact absurd hsequence (hother id row hrow htenant hrunId)
    · exact h.distinct id row id' row' hrow hrow' htenant hrunId hsequence

theorem keptByWrites_eventsStored (c : Candidate) : KeptByWrites c EventsStored where
  putRun _ h := h.putRun _
  insertEvent _ _ _ _ h hinsert := h.insertEvent hinsert
  insertReceipt _ _ _ h hinsert := by
    rw [(insertReceipt_eq_some hinsert).2]
    exact h.of_tables rfl fun _ _ hrun => hrun

theorem EventsStored.mutates {proof : LeaseAuthorityProof} {expectedVersion : LeaseVersion} {now : DateTime}
    {result : Database × Except Failure ConditionalLeaseOutcome} (h : db.EventsStored)
    (hmutates : db.Mutates proof expectedVersion now result) : result.1.EventsStored := by
  cases hmutates with
  | refused | applied => exact h.of_tables rfl fun _ _ hrun => hrun

theorem EventsStored.claims {command : ClaimLeaseCommand} {token : LeaseToken} {requestNow : DateTime}
    {clock : List DateTime} {result : Option (Database × Except Failure LeaseClaimOutcome)}
    (h : db.EventsStored) (hclaims : db.Claims command token requestNow clock result) :
    ((result.map Prod.fst).getD db).EventsStored := by
  cases hclaims with
  | unanswered | failed | replayed | noWork | granted => exact h.of_tables rfl fun _ _ hrun => hrun

theorem EventsStored.perform (h : db.EventsStored) (call : Call) : (db.perform call).EventsStored := by
  cases call with
  | commit c => exact (db.commit_commits c).kept (keptByWrites_eventsStored c) h
  | commitWithLease proof platformNow c =>
    exact (db.commitWithLease_commits proof platformNow c).kept (keptByWrites_eventsStored c) h
  | claim command token requestNow clock raceNow =>
    exact h.claims (db.claim_claims command token requestNow clock raceNow)
  | renew command platformNow => exact h.mutates (db.renew_mutates command platformNow)
  | release command platformNow => exact h.mutates (db.release_mutates command platformNow)

/-- A transaction on the database: a call of the repositories, or any other write of the two lease
    tables, on which no event depends. -/
inductive Transaction where
  | call (call : Call)
  | leases (workerLeases : Dict RunRowKey WorkerLeaseRow)
    (claimReceipts : Dict ClaimRowKey (ClaimReceiptColumns DateTime))

def machine : Machine Database Transaction where
  start := empty
  step db
    | .call call => db.perform call
    | .leases workerLeases claimReceipts =>
      { db with workerLeases := workerLeases, workerLeaseClaimReceipts := claimReceipts }

theorem eventsStored_invariant : machine.Invariant EventsStored where
  base := eventsStored_empty
  kept db transaction h := by
    cases transaction with
    | call call => exact h.perform call
    | leases => exact h.of_tables rfl fun _ _ hrun => hrun

/-- Stored rows are those of events. -/
theorem EventsStored.exists_events (h : db.EventsStored) (tenantId : TenantId) (runId : RunId) :
    ∃ events : List RunEvent,
      db.eventsOf tenantId runId = events.map fun event => (event.eventId, event.row) := by
  have hmem : ∀ p ∈ db.eventsOf tenantId runId, ∃ event : RunEvent, (event.eventId, event.row) = p := by
    rintro ⟨id, row⟩ hp
    obtain ⟨event, hid, hrow⟩ := h.encoded id row (mem_eventsOf.mp hp).1
    exact ⟨event, by rw [hid, hrow]⟩
  generalize db.eventsOf tenantId runId = rows at hmem
  induction rows with
  | nil => exact ⟨[], rfl⟩
  | cons p rows ih =>
    obtain ⟨event, hevent⟩ := hmem p List.mem_cons_self
    obtain ⟨events, hevents⟩ := ih fun q hq => hmem q (List.mem_cons_of_mem _ hq)
    exact ⟨event :: events, by rw [List.map_cons, hevent, hevents]⟩

theorem EventsStored.exists_log (h : db.EventsStored) (tenantId : TenantId) (runId : RunId) :
    ∃ log, db.Logs tenantId runId log := by
  obtain ⟨events, hevents⟩ := h.exists_events tenantId runId
  have hperm := List.perm_insertionSort (fun a b : RunEvent => a.sequence ≤ b.sequence) events
  have hmem : ∀ event ∈ events, db.runEvents.get? event.eventId = some event.row ∧
      event.row.tenantId = tenantId ∧ event.row.runId = runId := by
    intro event hevent
    rw [← mem_eventsOf, hevents]
    exact List.mem_map_of_mem hevent
  have hids : (events.map (·.eventId)).Nodup := by
    have hitems : (db.eventsOf tenantId runId).Pairwise fun p q => p.1 < q.1 :=
      db.runEvents.ascending.sublist List.filter_sublist
    rw [hevents, List.pairwise_map] at hitems
    exact List.pairwise_map.mpr (hitems.imp ne_of_lt)
  have hsequences : events.Pairwise fun a b => a.sequence ≠ b.sequence := by
    refine (List.pairwise_map.mp hids).imp_of_mem fun ha hb hne hsequence => hne ?_
    obtain ⟨hrow, htenant, hrunId⟩ := hmem _ ha
    obtain ⟨hrow', htenant', hrunId'⟩ := hmem _ hb
    exact h.distinct _ _ _ _ hrow hrow' (htenant.trans htenant'.symm) (hrunId.trans hrunId'.symm)
      (congrArg (fun n : ℕ => encodeCanonicalInteger n) hsequence)
  have : Std.Total fun a b : RunEvent => a.sequence ≤ b.sequence := ⟨fun a b => le_total _ _⟩
  have : IsTrans RunEvent fun a b => a.sequence ≤ b.sequence := ⟨fun _ _ _ => le_trans⟩
  refine ⟨events.insertionSort fun a b => a.sequence ≤ b.sequence, ?_, ?_, fun hne => ?_⟩
  · have hsorted := List.pairwise_insertionSort (fun a b : RunEvent => a.sequence ≤ b.sequence) events
    have hne : (events.insertionSort fun a b => a.sequence ≤ b.sequence).Pairwise
        fun a b => a.sequence ≠ b.sequence :=
      hperm.symm.pairwise hsequences fun h => h.symm
    exact (hsorted.and hne).imp fun hab => lt_of_le_of_ne hab.1 hab.2
  · rw [hevents]
    exact (hperm.map _).symm
  · obtain ⟨event, hevent⟩ := List.exists_mem_of_ne_nil _ hne
    obtain ⟨hrow, htenant, hrunId⟩ := hmem event (hperm.mem_iff.mp hevent)
    exact htenant ▸ hrunId ▸ h.present _ _ hrow

end Database

/-- What a reader of a log gets who follows its pages from the beginning. -/
def ReadsToEnd (list : ℕ → ℕ → Except Failure (List RunEvent)) (log : List RunEvent) : Prop :=
  ∀ limits : List ℕ, (∀ limit ∈ limits, 1 ≤ limit ∧ limit ≤ 1000) →
    ∃ pages, Paging.follow (·.sequence) list 0 limits = .ok pages ∧ Paging.Reads pages log limits.length

theorem readsToEnd_of_pages {list : ℕ → ℕ → Except Failure (List RunEvent)} {log : List RunEvent}
    (hlog : Paging.Ascending (·.sequence) log)
    (hlist : ∀ after limit, 1 ≤ limit ∧ limit ≤ 1000 →
      list after limit = .ok (Paging.page (·.sequence) log after limit)) : ReadsToEnd list log := by
  intro limits hlimits
  exact Paging.follow_reads hlog limits (fun after limit hmem => hlist after limit (hlimits limit hmem))
    (fun limit hmem => (hlimits limit hmem).1) (List.nil_append log).symm (by simp)
    fun event _ => event.sequence_pos

/-- A stored log ascends, because its sequences are 1, 2, ... -/
theorem MemoryStore.StoreInvariant.ascending {s : MemoryStore} (hs : s.StoreInvariant) {key : RunKey}
    {log : List RunEvent} (hlog : s.events.get? key = some log) : Paging.Ascending (·.sequence) log := by
  have hlogs := hs.logs key
  rw [hlog] at hlogs
  obtain ⟨run, hrun⟩ := Option.isSome_iff_exists.mp hlogs
  have hnumbered : log.map (·.sequence) = List.range' 1 run.version := hs.numbered key run log hrun hlog
  have hrange := List.pairwise_lt_range' (s := 1) (n := run.version)
  rw [← hnumbered] at hrange
  exact List.pairwise_map.mp hrange

theorem MemoryStore.listEvents_of_log {s : MemoryStore} {tenantId : TenantId} {runId : RunId}
    {log : List RunEvent} (hlog : s.events.get? (tenantId, runId) = some log) (afterSequence : ℕ) {limit : ℕ}
    (hlimit : 1 ≤ limit ∧ limit ≤ 1000) :
    s.listEvents tenantId runId afterSequence limit =
      .ok (Paging.page (·.sequence) log afterSequence limit) := by
  unfold MemoryStore.listEvents
  simp only [hlimit, hlog]
  rfl

/-- The text keys are ordered as the sequences; every stored log is read to its end, in order
    and without a repetition, by any sequence of limits; and the query returns what the in-memory
    repository returns for the same log and the same arguments. -/
theorem event_pages :
    (∀ m n : ℕ, textKey m < textKey n ↔ m < n) ∧
    (∀ (calls : List CommitCall) (tenantId : TenantId) (runId : RunId) (log : List RunEvent),
      (MemoryStore.machine.run calls).events.get? (tenantId, runId) = some log →
      Paging.Ascending (·.sequence) log ∧
      ReadsToEnd ((MemoryStore.machine.run calls).listEvents tenantId runId) log) ∧
    (∀ (transactions : List Database.Transaction) (tenantId : TenantId) (runId : RunId),
      ∃ log, (Database.machine.run transactions).Logs tenantId runId log ∧
        ((Database.machine.run transactions).hasRun tenantId runId = true →
          ReadsToEnd ((Database.machine.run transactions).listEvents tenantId runId) log) ∧
        ∀ s : MemoryStore, s.events.get? (tenantId, runId) =
            (if (Database.machine.run transactions).hasRun tenantId runId then some log else none) →
          ∀ afterSequence limit,
            (Database.machine.run transactions).listEvents tenantId runId afterSequence limit =
              s.listEvents tenantId runId afterSequence limit) := by
  refine ⟨fun m n => textKey_strictMono.lt_iff_lt, fun calls tenantId runId log hlog => ?_,
    fun transactions tenantId runId => ?_⟩
  · have hascending := (MemoryStore.storeInvariant_invariant.run calls).ascending hlog
    exact ⟨hascending, readsToEnd_of_pages hascending fun after limit hlimit =>
      MemoryStore.listEvents_of_log hlog after hlimit⟩
  · obtain ⟨log, hlogs⟩ := (Database.eventsStored_invariant.run transactions).exists_log tenantId runId
    exact ⟨log, hlogs, fun hrun => readsToEnd_of_pages hlogs.ascending fun after limit hlimit =>
      hlogs.listEvents hrun after hlimit, fun s hstored => hlogs.listEvents_eq hstored⟩

end Zhiyi
