import Zhiyi.Postgres.RunCodecs

set_option autoImplicit false

/-! Decoding inverts encoding: first for each kind of field, then document by
document. Decimals come back with the same value in a canonical form. -/
namespace Zhiyi
open Python

theorem decode_encodeCanonicalJson {value : Json} (h : value.Canonical) :
    decodeCanonicalJson (encodeCanonicalJson value) = .ok value := by
  have hwrite : (fun n => (encodeCanonicalInteger n).toList) = Json.printInt := by
    funext n
    rw [encodeCanonicalInteger_eq, String.toList_ofList]
  let parseInt (digits : List Char) : Option ℤ := (decodeCanonicalInteger digits).toOption
  have hparse : ∀ n, parseInt (Json.printInt n) = some n := by
    intro n
    simp only [parseInt, decodeCanonicalInteger_printInt]
    rfl
  have hloads := Json.loads_text hparse value h
  unfold decodeCanonicalJson encodeCanonicalJson
  rw [hwrite, Json.sortKeys_of_canonical value h, hloads]

theorem mappingOf_object {entries : List (String × Json)} {fields : List String}
    (h : ((entries.map Prod.fst).all fields.contains &&
      fields.all (entries.map Prod.fst).contains) = true) :
    mappingOf (.obj entries) fields = .ok entries := by
  simp only [mappingOf, h, require_true]
  rfl

@[simp] theorem fieldOf_self (name : String) (value : Json) (raw : List (String × Json)) :
    fieldOf ((name, value) :: raw) name = value := by
  simp [fieldOf]

@[simp] theorem fieldOf_of_ne {name key : String} (h : name ≠ key) (value : Json)
    (raw : List (String × Json)) : fieldOf ((key, value) :: raw) name = fieldOf raw name := by
  simp [fieldOf, List.lookup, beq_false_of_ne h]

theorem optionalOf_document {α : Type} {read : Json → Except PyError α} {document : α → Json}
    (hread : ∀ a, read (document a) = .ok a) (hnull : ∀ a, document a ≠ .null) (a : Option α) :
    optionalOf read (optionalDocument document a) = .ok a := by
  cases a with
  | none => rfl
  | some a =>
    simp only [optionalDocument]
    unfold optionalOf
    split
    · next h => exact absurd h (hnull a)
    · rw [hread]
      rfl

@[simp] theorem stringOf_str (s : String) : stringOf (.str s) = .ok s := rfl

@[simp] theorem identifierOf_value {kind : IdentifierKind} (i : Identifier kind) :
    identifierOf kind (.str i.value) = .ok i := by
  simp [identifierOf, stringOf, bind, Except.bind]

@[simp] theorem optionalOf_identifier {kind : IdentifierKind} (i : Option (Identifier kind)) :
    optionalOf (identifierOf kind) (optionalIdentifier i) = .ok i :=
  optionalOf_document identifierOf_value (by simp) i

theorem counterOfText_encoded (n : ℕ) : counterOfText (encodeCanonicalInteger n) = .ok n := by
  unfold counterOfText
  rw [encodeCanonicalInteger_eq, String.toList_ofList, decodeCanonicalInteger_printInt]
  simp [bind, Except.bind, pure, Except.pure]

@[simp] theorem counterOf_encoded (n : ℕ) : counterOf (encodedInteger n) = .ok n :=
  counterOfText_encoded n

@[simp] theorem stringsOf_array (texts : List String) :
    stringsOf (.arr (texts.map .str)) = .ok texts := by
  induction texts with
  | nil => rfl
  | cons text texts ih =>
    simp only [stringsOf, List.map_cons, List.mapM_cons, stringOf] at ih ⊢
    rw [ih]
    rfl

@[simp] theorem referencesOf_document (references : List ReferenceId) :
    referencesOf (referencesDocument references) = .ok references := by
  have hidentifiers : (references.map (·.value)).mapM Identifier.new = .ok references := by
    induction references with
    | nil => rfl
    | cons reference references ih =>
      simp only [List.map_cons, List.mapM_cons, Identifier.new_value, ih]
      rfl
  have hstrings := stringsOf_array (references.map (·.value))
  rw [List.map_map] at hstrings
  simp only [referencesOf, referencesDocument, Function.comp_def] at hstrings ⊢
  rw [hstrings]
  exact hidentifiers

@[simp] theorem enumOf_status (status : RunStatus) :
    enumOf runStatuses RunStatus.value status.value = .ok status := by
  cases status <;> decide

@[simp] theorem enumOf_eventType (type : RunEventType) :
    enumOf runEventTypes RunEventType.value type.value = .ok type := by
  cases type <;> decide

@[simp] theorem enumOf_commandType (type : CommandType) :
    enumOf commandTypes CommandType.value type.value = .ok type := by
  cases type <;> decide

@[simp] theorem enumOf_errorCode (code : RunErrorCode) :
    enumOf runErrorCodes RunErrorCode.value code.value = .ok code := by
  cases code <;> decide

@[simp] theorem enumOf_dimension (dimension : BudgetDimension) :
    enumOf budgetDimensions BudgetDimension.value dimension.value = .ok dimension := by
  cases dimension <;> decide

@[simp] theorem readTimestamp_utc (d : DateTime) : readTimestamp (.datetime (utc d)) = .ok d := rfl

theorem replaceZulu_of_absent {s : String} (h : ∀ c ∈ s.toList, c ≠ 'Z') : replaceZulu s = s := by
  have hsame : ∀ cs : List Char, (∀ c ∈ cs, c ≠ 'Z') →
      (cs.flatMap fun c => if c = 'Z' then "+00:00".toList else [c]) = cs := by
    intro cs hcs
    induction cs with
    | nil => rfl
    | cons c cs ih =>
      rw [List.flatMap_cons, if_neg (hcs c List.mem_cons_self),
        ih fun c hc => hcs c (List.mem_cons_of_mem _ hc)]
      rfl
  rw [replaceZulu, hsame _ h, String.ofList_toList]

theorem replaceZulu_isoformat (d : DateTime) : replaceZulu d.isoformat = d.isoformat := by
  refine replaceZulu_of_absent fun c hc => ?_
  rw [DateTime.isoformat_eq, String.toList_ofList] at hc
  rintro rfl
  rcases List.mem_append.mp hc with hc | hc
  · rcases List.mem_append.mp hc with hc | hc
    · exact d.ne_zulu_of_mem_isoSeconds _ hc rfl
    · split_ifs at hc
      · cases hc
      · rcases List.mem_cons.mp hc with hc | hc
        · revert hc
          decide
        · exact absurd (DateTime.isDigit_of_mem_padded _ hc) (by decide)
  · revert hc
    decide

@[simp] theorem timestampOf_isoformat (d : DateTime) : timestampOf (.str d.isoformat) = .ok d := by
  unfold timestampOf stringOf readTimestamp
  simp only [bind, Except.bind, replaceZulu_isoformat, DateTime.fromisoformat_isoformat]
  rfl

theorem decimalOfText_value (s : String) : (decimalOfText s).value = readDecimal s := by
  simp only [decimalOfText, readDecimal, Decimal.value, zpow_neg, zpow_natCast, div_eq_mul_inv]

/-- A decimal as it is read back. -/
def storedDecimal (d : Decimal) : Decimal := normalizeDecimal (decimalOfText (canonicalDecimal d))

theorem storedDecimal_value (d : Decimal) : (storedDecimal d).value = d.value := by
  rw [storedDecimal, normalizeDecimal_value, decimalOfText_value, readDecimal_canonicalDecimal]

@[simp] theorem storedDecimal_beq (d e : Decimal) : (storedDecimal d == e) = (d == e) := by
  rw [Bool.eq_iff_iff, Decimal.beq_iff, Decimal.beq_iff, storedDecimal_value]

@[simp] theorem beq_storedDecimal (d e : Decimal) : (d == storedDecimal e) = (d == e) := by
  rw [Bool.eq_iff_iff, Decimal.beq_iff, Decimal.beq_iff, storedDecimal_value]

@[simp] theorem decimalOf_canonical (d : Decimal) :
    decimalOf (.str (canonicalDecimal d)) = .ok (decimalOfText (canonicalDecimal d)) := by
  have htext : canonicalDecimal (decimalOfText (canonicalDecimal d)) = canonicalDecimal d := by
    rw [canonicalDecimal_eq_iff, decimalOfText_value, readDecimal_canonicalDecimal]
  simp only [decimalOf, canonicalDecimal_matches, htext, beq_self_eq_true, require_true]
  rfl

theorem decodeCharges_items (charges : List (ChargeId × String)) (h : Entries.Ascending charges) :
    decodeCharges (charges.map fun p => (p.1.value, .str p.2)) = .ok ⟨charges, h⟩ := by
  induction charges with
  | nil => rfl
  | cons charge charges ih =>
    obtain ⟨hfirst, hrest⟩ := List.pairwise_cons.mp h
    simp only [List.map_cons, decodeCharges, Identifier.new_value, stringOf, ih hrest, bind, Except.bind]
    have hinsert : Entries.insert charge.1 charge.2 charges = charge :: charges := by
      cases charges with
      | nil => rfl
      | cons next charges =>
        have hlt : charge.1 < next.1 := hfirst next List.mem_cons_self
        simp [Entries.insert, hlt]
    simp only [Dict.insert, hinsert]
    rfl

def BudgetSnapshot.stored (usage : BudgetSnapshot) : BudgetSnapshot where
  toBudgetSnapshotFields := { usage.toBudgetSnapshotFields with cost := storedDecimal usage.cost }
  valid := usage.valid
  normalized := normalizeDecimal_idem _

@[simp] theorem BudgetSnapshot.stored_eq (a b : BudgetSnapshot) : a.stored.eq b.stored = a.eq b := by
  simp [BudgetSnapshot.eq, BudgetSnapshot.stored]

theorem BudgetSnapshot.stored_eq_self (usage : BudgetSnapshot) : usage.stored.eq usage = true := by
  have hcost : (usage.cost == usage.cost) = true := (Decimal.beq_iff _ _).mpr rfl
  simp [BudgetSnapshot.eq, BudgetSnapshot.stored, hcost]

@[simp] theorem decodeUsage_document (usage : BudgetSnapshot) :
    decodeUsage (usageDocument usage) = .ok usage.stored := by
  have hcharges := decodeCharges_items usage.chargeFingerprints.items usage.chargeFingerprints.ascending
  unfold decodeUsage usageDocument
  rw [mappingOf_object (by rfl)]
  simp only [bind, Except.bind, fieldOf_self, fieldOf_of_ne, ne_eq, String.reduceEq, not_false_eq_true,
    chargesDocument, hcharges, counterOf_encoded, decimalOf_canonical]
  exact construct_of_ok _ usage.valid

@[simp] theorem decodeAgentVersion_document (version : AgentVersionRef) :
    decodeAgentVersion (agentVersionDocument version) = .ok version := by
  unfold decodeAgentVersion agentVersionDocument
  rw [mappingOf_object (by rfl)]
  simp only [bind, Except.bind, fieldOf_self, fieldOf_of_ne, ne_eq, String.reduceEq, not_false_eq_true,
    identifierOf_value, stringOf_str]
  exact dif_pos version.digestSafe

@[simp] theorem dimensionOf_value (dimension : BudgetDimension) :
    dimensionOf (.str dimension.value) = .ok dimension := enumOf_dimension dimension

@[simp] theorem decodeError_document (error : SafeRunError) :
    decodeError (errorDocument error) = .ok error := by
  have hdimension := optionalOf_document dimensionOf_value (by simp) error.limitDimension
  unfold decodeError errorDocument
  rw [mappingOf_object (by rfl)]
  simp only [bind, Except.bind, fieldOf_self, fieldOf_of_ne, ne_eq, String.reduceEq, not_false_eq_true,
    stringOf_str, enumOf_errorCode, optionalOf_identifier, hdimension]
  exact construct_of_ok _ error.valid

@[simp] theorem decodeDraft_document (draft : RunResultDraft) :
    decodeDraft (draftDocument draft) = .ok draft := by
  have hanswer := optionalOf_document stringOf_str (by simp) draft.answer
  unfold decodeDraft draftDocument
  rw [mappingOf_object (by rfl)]
  simp only [bind, Except.bind, fieldOf_self, fieldOf_of_ne, ne_eq, String.reduceEq, not_false_eq_true,
    hanswer, stringsOf_array, referencesOf_document, optionalOf_identifier]
  have hnew := construct_of_ok (fun valid => (⟨draft.toRunResultDraftFields.deduplicated,
    RunResultDraftFields.postInit_deduplicated valid, draft.deduplicated_idem⟩ : RunResultDraft))
    draft.valid
  refine hnew.trans (congrArg Except.ok ?_)
  obtain ⟨fields, valid, distinct⟩ := draft
  simp only [distinct]

def RunResult.stored (result : RunResult) : RunResult where
  toRunResultFields := { result.toRunResultFields with usage := result.usage.stored }
  valid := result.valid

@[simp] theorem RunResult.stored_eq (a b : RunResult) : a.stored.eq b.stored = a.eq b := by
  simp only [RunResult.eq, RunResult.stored, BudgetSnapshot.stored_eq]

theorem RunResult.stored_eq_self (result : RunResult) : result.stored.eq result = true := by
  simp [RunResult.eq, RunResult.stored, BudgetSnapshot.stored_eq_self]

@[simp] theorem decodeResult_document (result : Option RunResult) :
    decodeResult (resultDocument result) = .ok (result.map RunResult.stored) := by
  cases result with
  | none => rfl
  | some result =>
    have herror := optionalOf_document decodeError_document (by simp [errorDocument]) result.error
    simp only [resultDocument, decodeResult]
    rw [mappingOf_object (by rfl)]
    simp only [bind, Except.bind, fieldOf_self, fieldOf_of_ne, ne_eq, String.reduceEq,
      not_false_eq_true, herror, integerOf, identifierOf_value, decodeAgentVersion_document, stringOf_str,
      enumOf_status, decodeDraft_document, decodeUsage_document]
    have hversion : 0 ≤ (result.resultVersion : ℤ) := by omega
    simp only [hversion, if_true, Int.toNat_natCast]
    have hnew : RunResult.new result.stored.toRunResultFields = .ok result.stored :=
      construct_of_ok _ result.stored.valid
    simp only [RunResult.stored] at hnew
    rw [hnew]
    rfl

def RunBudget.stored (budget : RunBudget) : RunBudget where
  toRunBudgetFields := { budget.toRunBudgetFields with maxCost := storedDecimal budget.maxCost }
  valid := budget.valid
  normalized := normalizeDecimal_idem _

@[simp] theorem decodeBudget_document (budget : RunBudget) :
    decodeBudget (budgetDocument budget) = .ok budget.stored := by
  unfold decodeBudget budgetDocument
  rw [mappingOf_object (by rfl)]
  simp only [bind, Except.bind, fieldOf_self, fieldOf_of_ne, ne_eq, String.reduceEq, not_false_eq_true,
    timestampOf_isoformat, counterOf_encoded, decimalOf_canonical, stringOf_str]
  exact construct_of_ok _ budget.valid

def RunFields.stored (f : RunFields) : RunFields :=
  { f with
    budget := f.budget.stored
    usage := f.usage.stored
    result := f.result.map RunResult.stored }

theorem RunFields.postInit_stored (f : RunFields) : f.stored.postInit = f.postInit := by
  have hresult : f.stored.checkResult = f.checkResult := by
    simp only [checkResult, stored]
    cases f.result with
    | none => rfl
    | some result => simp only [Option.map_some, RunResult.stored, BudgetSnapshot.stored_eq,
        Option.isNone_some]
  unfold postInit
  rw [hresult]
  rfl

def Run.stored (run : Run) : Run where
  toRunFields := run.toRunFields.stored
  valid := run.toRunFields.postInit_stored.trans run.valid

theorem Run.stored_eq_self (run : Run) : run.stored.eq run = true := by
  have hcost : (run.budget.maxCost == run.budget.maxCost) = true := (Decimal.beq_iff _ _).mpr rfl
  simp only [Run.eq, Run.stored, RunFields.stored, RunBudget.stored, BudgetSnapshot.stored_eq_self,
    storedDecimal_beq, hcost, beq_self_eq_true, Bool.true_and, Bool.and_true]
  cases run.result with
  | none => rfl
  | some result => exact result.stored_eq_self

theorem decodeSnapshot_document (run : Run) : decodeSnapshot (snapshotDocument run) = .ok run.stored := by
  unfold decodeSnapshot snapshotDocument
  rw [mappingOf_object (by rfl)]
  simp only [bind, Except.bind, fieldOf_self, fieldOf_of_ne, ne_eq, String.reduceEq, not_false_eq_true,
    identifierOf_value, decodeAgentVersion_document, stringOf_str, enumOf_status, counterOf_encoded,
    decodeBudget_document, decodeUsage_document, timestampOf_isoformat, decodeResult_document]
  exact construct_of_ok _ run.stored.valid

theorem canonical_optionalDocument {α : Type} {document : α → Json} {a : Option α}
    (h : ∀ b, (document b).Canonical) : (optionalDocument document a).Canonical := by
  cases a with
  | none => trivial
  | some a => exact h a

theorem canonical_agentVersionDocument (version : AgentVersionRef) :
    (agentVersionDocument version).Canonical :=
  Json.canonical_obj (by simp only [List.map_cons, List.map_nil]; decide) (by simp [Json.Canonical])

theorem canonical_usageDocument (usage : BudgetSnapshot) : (usageDocument usage).Canonical := by
  have hcharges : (chargesDocument usage.chargeFingerprints).Canonical := by
    refine Json.canonical_obj ?_ ?_
    · rw [List.map_map, List.pairwise_map]
      exact usage.chargeFingerprints.ascending
    · intro p hp
      obtain ⟨charge, -, rfl⟩ := List.mem_map.mp hp
      trivial
  refine Json.canonical_obj (by simp only [List.map_cons, List.map_nil]; decide) ?_
  simpa [encodedInteger, Json.Canonical] using hcharges

theorem canonical_referencesDocument (references : List ReferenceId) :
    (referencesDocument references).Canonical := by
  refine Json.canonical_arr fun j hj => ?_
  obtain ⟨reference, -, rfl⟩ := List.mem_map.mp hj
  trivial

theorem canonical_draftDocument (draft : RunResultDraft) : (draftDocument draft).Canonical := by
  have hwarnings : (Json.arr (draft.warningCodes.map .str)).Canonical := by
    refine Json.canonical_arr fun j hj => ?_
    obtain ⟨code, -, rfl⟩ := List.mem_map.mp hj
    trivial
  refine Json.canonical_obj (by simp only [List.map_cons, List.map_nil]; decide) ?_
  simp only [List.mem_cons, List.not_mem_nil, or_false, forall_eq_or_imp, forall_eq]
  exact ⟨canonical_optionalDocument fun _ => trivial, canonical_referencesDocument _,
    canonical_referencesDocument _, canonical_referencesDocument _,
    canonical_optionalDocument fun _ => trivial, hwarnings⟩

theorem canonical_errorDocument (error : SafeRunError) : (errorDocument error).Canonical := by
  refine Json.canonical_obj (by simp only [List.map_cons, List.map_nil]; decide) ?_
  simp only [List.mem_cons, List.not_mem_nil, or_false, forall_eq_or_imp, forall_eq]
  exact ⟨trivial, canonical_optionalDocument fun _ => trivial, canonical_optionalDocument fun _ => trivial⟩

theorem canonical_resultDocument (result : Option RunResult) : (resultDocument result).Canonical := by
  cases result with
  | none => trivial
  | some result =>
    refine Json.canonical_obj (by simp only [List.map_cons, List.map_nil]; decide) ?_
    simp only [List.mem_cons, List.not_mem_nil, or_false, forall_eq_or_imp, forall_eq]
    exact ⟨canonical_agentVersionDocument _, canonical_draftDocument _,
      canonical_optionalDocument canonical_errorDocument, trivial, trivial, trivial, trivial,
      canonical_usageDocument _⟩

theorem canonical_budgetDocument (budget : RunBudget) : (budgetDocument budget).Canonical :=
  Json.canonical_obj (by simp only [List.map_cons, List.map_nil]; decide)
    (by simp [encodedInteger, Json.Canonical])

theorem canonical_snapshotDocument (run : Run) : (snapshotDocument run).Canonical := by
  refine Json.canonical_obj (by simp only [List.map_cons, List.map_nil]; decide) ?_
  simp only [List.mem_cons, List.not_mem_nil, or_false, forall_eq_or_imp, forall_eq]
  exact ⟨canonical_agentVersionDocument _, canonical_budgetDocument _, trivial, trivial, trivial,
    canonical_resultDocument _, trivial, trivial, trivial, trivial, trivial, canonical_usageDocument _,
    trivial⟩

theorem decodeRun_encodeRun (run : Run) : decodeRun (encodeRun run) = .ok run.stored := by
  have hdocument := decode_encodeCanonicalJson (canonical_snapshotDocument run)
  have hprojections : checkProjections run.stored (encodeRun run) = .ok () := by
    simp [checkProjections, encodeRun, Run.stored, RunFields.stored, bind, Except.bind]
  unfold decodeRun
  simp only [encodeRun, beq_self_eq_true, Bool.and_self, require_true, bind, Except.bind, hdocument,
    decodeSnapshot_document]
  simp only [encodeRun] at hprojections
  rw [hprojections]
  rfl

theorem decodeEvent_encodeEvent (event : RunEvent) : decodeEvent (encodeEvent event) = .ok event := by
  have hdocument := decode_encodeCanonicalJson event.payload.canonical
  have hmapping : mappingOfJson (.obj event.payload.fields) = .ok event.payload :=
    dif_pos event.payload.canonical
  unfold decodeEvent
  simp only [encodeEvent, beq_self_eq_true, require_true, bind, Except.bind, hdocument, hmapping,
    Identifier.new_value, counterOfText_encoded, enumOf_eventType, readTimestamp_utc]
  rw [RunEvent.new_fields]
  rfl

theorem decodeReceipt_encodeReceipt {receipt : CommandReceipt} {record : ReceiptRecord}
    (h : encodeReceipt receipt = .ok record) : decodeReceipt record = .ok receipt := by
  obtain ⟨_, hlength, hrecord⟩ := bind_eq_ok.mp h
  have hlength : receipt.eventIds.length ≤ 1 := by simpa using require_eq_ok.mp hlength
  cases Except.ok.inj hrecord
  obtain ⟨⟨tenantId, commandId, runId, commandType, fingerprint, status, version, eventIds, createdAt⟩,
    valid⟩ := receipt
  unfold decodeReceipt
  simp only [beq_self_eq_true, require_true, bind, Except.bind, Identifier.new_value,
    enumOf_commandType, enumOf_status, counterOfText_encoded, readTimestamp_utc]
  rcases eventIds with _ | ⟨eventId, _ | ⟨next, rest⟩⟩
  · exact congrArg corrupted (construct_of_ok _ valid)
  · simp only [List.head?_cons, Option.map_some, Identifier.new_value, pure, Except.pure]
    exact congrArg corrupted (construct_of_ok _ valid)
  · simp at hlength

theorem encodeReceipt_eq_ok (receipt : CommandReceipt) :
    (∃ record, encodeReceipt receipt = .ok record) ↔ receipt.eventIds.length ≤ 1 := by
  by_cases hlength : receipt.eventIds.length ≤ 1
  · simp only [encodeReceipt, hlength, decide_true, require_true, iff_true]
    exact ⟨_, rfl⟩
  · simp [encodeReceipt, hlength, bind, Except.bind, require]

/-- Every run, every event and every receipt that names at most one event is read back
as it was stored. -/
theorem codecs_round_trip :
    (∀ run, ∃ run', decodeRun (encodeRun run) = .ok run' ∧ run'.eq run = true) ∧
    (∀ event, decodeEvent (encodeEvent event) = .ok event) ∧
    ∀ receipt : CommandReceipt, receipt.eventIds.length ≤ 1 ↔
      ∃ record, encodeReceipt receipt = .ok record ∧ decodeReceipt record = .ok receipt := by
  refine ⟨fun run => ⟨run.stored, decodeRun_encodeRun run, run.stored_eq_self⟩,
    decodeEvent_encodeEvent, fun receipt => ?_⟩
  rw [← encodeReceipt_eq_ok]
  constructor
  · rintro ⟨record, hrecord⟩
    exact ⟨record, hrecord, decodeReceipt_encodeReceipt hrecord⟩
  · rintro ⟨record, hrecord, -⟩
    exact ⟨record, hrecord⟩

end Zhiyi
