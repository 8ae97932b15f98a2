import Zhiyi.Domain.CanonicalDecimal
import Zhiyi.Domain.Identifiers
import Zhiyi.Library.DateTime
import Zhiyi.Library.Json
import Zhiyi.Library.Sha256

set_option autoImplicit false

/-! Immutable hard-budget values and exact usage arithmetic. Counters are
natural numbers, so the constructors' sign checks hold by typing. -/
namespace Zhiyi
open Python

/-- `[A-Z]{3}\Z`. -/
def matchesCurrencyPattern (s : String) : Bool :=
  decide (s.toList.length = 3) && s.toList.all fun c => 'A' ≤ c && c ≤ 'Z'

structure RunBudgetFields where
  deadlineAt : DateTime
  maxSteps : ℕ
  maxModelCalls : ℕ
  maxToolCalls : ℕ
  maxInputTokens : ℕ
  maxOutputTokens : ℕ
  maxTotalTokens : ℕ
  maxCost : Decimal
  currency : String
  deriving DecidableEq

def RunBudgetFields.postInit (f : RunBudgetFields) : Except PyError Unit := do
  require (max f.maxInputTokens f.maxOutputTokens ≤ f.maxTotalTokens)
    (.valueError "max_total_tokens must cover each token limit")
  require (matchesCurrencyPattern f.currency)
    (.valueError "currency must be three uppercase ASCII letters")

structure RunBudget extends RunBudgetFields where
  valid : toRunBudgetFields.postInit = .ok ()
  normalized : normalizeDecimal maxCost = maxCost
  deriving DecidableEq

def RunBudget.new (f : RunBudgetFields) : Except PyError RunBudget :=
  let fields := { f with maxCost := normalizeDecimal f.maxCost }
  construct fields.postInit fun valid => ⟨fields, valid, normalizeDecimal_idem f.maxCost⟩

inductive BudgetDimension where
  | deadline | steps | modelCalls | toolCalls | inputTokens | outputTokens | totalTokens | cost
  deriving DecidableEq, Repr

def BudgetDimension.value : BudgetDimension → String
  | .deadline => "deadline"
  | .steps => "steps"
  | .modelCalls => "model_calls"
  | .toolCalls => "tool_calls"
  | .inputTokens => "input_tokens"
  | .outputTokens => "output_tokens"
  | .totalTokens => "total_tokens"
  | .cost => "cost"

structure BudgetChargeFields where
  chargeId : ChargeId
  steps : ℕ
  modelCalls : ℕ
  toolCalls : ℕ
  inputTokens : ℕ
  outputTokens : ℕ
  cost : Decimal
  deriving DecidableEq

def BudgetChargeFields.postInit (f : BudgetChargeFields) : Except PyError Unit :=
  require (f.steps != 0 || f.modelCalls != 0 || f.toolCalls != 0 || f.inputTokens != 0 ||
      f.outputTokens != 0 || !f.cost.isZero)
    (.valueError "a budget charge must consume at least one dimension")

structure BudgetCharge extends BudgetChargeFields where
  valid : toBudgetChargeFields.postInit = .ok ()
  normalized : normalizeDecimal cost = cost
  deriving DecidableEq

namespace BudgetCharge

def new (f : BudgetChargeFields) : Except PyError BudgetCharge :=
  let fields := { f with cost := normalizeDecimal f.cost }
  construct fields.postInit fun valid => ⟨fields, valid, normalizeDecimal_idem f.cost⟩

def totalTokens (charge : BudgetCharge) : ℕ := charge.inputTokens + charge.outputTokens

/-- The document whose text `fingerprint` hashes. -/
def body (charge : BudgetCharge) : Json := .obj [
  ("charge_id", .str charge.chargeId.value),
  ("cost", .str (canonicalDecimal charge.cost)),
  ("input_tokens", .int charge.inputTokens),
  ("model_calls", .int charge.modelCalls),
  ("output_tokens", .int charge.outputTokens),
  ("steps", .int charge.steps),
  ("tool_calls", .int charge.toolCalls)]

def fingerprint (charge : BudgetCharge) : Except PyError String := do
  let text ← charge.body.dumps
  return "sha256:" ++ Sha256.hexdigest text

end BudgetCharge

structure BudgetSnapshotFields where
  steps : ℕ
  modelCalls : ℕ
  toolCalls : ℕ
  inputTokens : ℕ
  outputTokens : ℕ
  cost : Decimal
  chargeFingerprints : Dict ChargeId String
  deriving DecidableEq

def BudgetSnapshotFields.postInit (f : BudgetSnapshotFields) : Except PyError Unit :=
  require (f.chargeFingerprints.items.all fun p => "sha256:".toList.isPrefixOf p.2.toList)
    (.valueError "charge fingerprint is invalid")

structure BudgetSnapshot extends BudgetSnapshotFields where
  valid : toBudgetSnapshotFields.postInit = .ok ()
  normalized : normalizeDecimal cost = cost
  deriving DecidableEq

namespace BudgetSnapshot

def new (f : BudgetSnapshotFields) : Except PyError BudgetSnapshot :=
  let fields := { f with cost := normalizeDecimal f.cost }
  construct fields.postInit fun valid => ⟨fields, valid, normalizeDecimal_idem f.cost⟩

/-- `BudgetSnapshot()`. -/
def initial : BudgetSnapshot where
  steps := 0
  modelCalls := 0
  toolCalls := 0
  inputTokens := 0
  outputTokens := 0
  cost := Decimal.zero
  chargeFingerprints := Dict.empty
  valid := rfl
  normalized := rfl

def totalTokens (usage : BudgetSnapshot) : ℕ := usage.inputTokens + usage.outputTokens

/-- The dataclass equality, which compares costs by value. -/
def eq (a b : BudgetSnapshot) : Bool :=
  a.steps == b.steps && a.modelCalls == b.modelCalls && a.toolCalls == b.toolCalls &&
    a.inputTokens == b.inputTokens && a.outputTokens == b.outputTokens && a.cost == b.cost &&
    a.chargeFingerprints == b.chargeFingerprints

end BudgetSnapshot

structure BudgetDecision where
  snapshot : BudgetSnapshot
  replayed : Bool
  exceededDimension : Option BudgetDimension
  deriving DecidableEq

namespace BudgetSnapshot

/-- The checks of `apply`, in its order: which dimension a candidate exceeds first. -/
def exceeded (candidate : BudgetSnapshot) (budget : RunBudget) : Option BudgetDimension :=
  if budget.maxSteps < candidate.steps then some .steps
  else if budget.maxModelCalls < candidate.modelCalls then some .modelCalls
  else if budget.maxToolCalls < candidate.toolCalls then some .toolCalls
  else if budget.maxInputTokens < candidate.inputTokens then some .inputTokens
  else if budget.maxOutputTokens < candidate.outputTokens then some .outputTokens
  else if budget.maxTotalTokens < candidate.totalTokens then some .totalTokens
  else if candidate.cost.gt budget.maxCost then some .cost
  else none

def candidate (usage : BudgetSnapshot) (charge : BudgetCharge) : Except PyError BudgetSnapshot := do
  let cost ← exactDecimalAdd usage.cost charge.cost
  let fingerprint ← charge.fingerprint
  new {
    steps := usage.steps + charge.steps
    modelCalls := usage.modelCalls + charge.modelCalls
    toolCalls := usage.toolCalls + charge.toolCalls
    inputTokens := usage.inputTokens + charge.inputTokens
    outputTokens := usage.outputTokens + charge.outputTokens
    cost := cost
    chargeFingerprints := usage.chargeFingerprints.insert charge.chargeId fingerprint }

def apply (usage : BudgetSnapshot) (charge : BudgetCharge) (budget : RunBudget) :
    Except Failure BudgetDecision :=
  match usage.chargeFingerprints.get? charge.chargeId with
  | some existing => do
    let fingerprint ← raising charge.fingerprint
    if existing ≠ fingerprint then .error (.lifecycle .idempotencyConflict)
    else return { snapshot := usage, replayed := true, exceededDimension := none }
  | none => do
    let candidate ← raising (usage.candidate charge)
    match candidate.exceeded budget with
    | some dimension =>
      return { snapshot := usage, replayed := false, exceededDimension := some dimension }
    | none => return { snapshot := candidate, replayed := false, exceededDimension := none }

end BudgetSnapshot

def BudgetCharge.Printable (charge : BudgetCharge) : Prop :=
  WithinStrDigits charge.inputTokens ∧ WithinStrDigits charge.modelCalls ∧
    WithinStrDigits charge.outputTokens ∧ WithinStrDigits charge.steps ∧
    WithinStrDigits charge.toolCalls

instance (charge : BudgetCharge) : Decidable charge.Printable :=
  inferInstanceAs (Decidable (_ ∧ _))

theorem BudgetCharge.withinStrDigits_body (charge : BudgetCharge) :
    charge.body.withinStrDigits = true ↔ charge.Printable := by
  simp [body, Json.withinStrDigits, Json.fieldsWithin, Printable]

theorem BudgetCharge.fingerprint_of_printable (charge : BudgetCharge) (h : charge.Printable) :
    charge.fingerprint =
      .ok ("sha256:" ++ Sha256.hexdigest (String.ofList (Json.print charge.body.sortKeys))) := by
  rw [fingerprint, Json.dumps, if_pos (charge.withinStrDigits_body.mpr h)]
  rfl

theorem BudgetCharge.fingerprint_of_not_printable (charge : BudgetCharge)
    (h : ¬ charge.Printable) : charge.fingerprint = .error digitLimit := by
  rw [fingerprint, Json.dumps, if_neg (fun hw => h (charge.withinStrDigits_body.mp hw))]
  rfl

theorem BudgetCharge.fingerprint_prefix {charge : BudgetCharge} {s : String}
    (h : charge.fingerprint = .ok s) : "sha256:".toList.isPrefixOf s.toList = true := by
  by_cases hp : charge.Printable
  · rw [fingerprint_of_printable charge hp] at h
    cases h
    rw [String.toList_append, List.isPrefixOf_iff_prefix]
    exact List.prefix_append _ _
  · rw [fingerprint_of_not_printable charge hp] at h
    cases h

namespace BudgetSnapshot
variable {usage next : BudgetSnapshot} {charge : BudgetCharge}

theorem new_eq_ok {f : BudgetSnapshotFields} {usage : BudgetSnapshot} (h : new f = .ok usage) :
    usage.toBudgetSnapshotFields = { f with cost := normalizeDecimal f.cost } := by
  obtain ⟨_, rfl⟩ := construct_eq_ok h
  rfl

theorem fingerprints_prefixed (usage : BudgetSnapshot) {p : ChargeId × String}
    (h : p ∈ usage.chargeFingerprints.items) : "sha256:".toList.isPrefixOf p.2.toList = true := by
  have hv := usage.valid
  rw [BudgetSnapshotFields.postInit, require_eq_ok] at hv
  exact List.all_eq_true.mp hv p h

structure Charged (usage : BudgetSnapshot) (charge : BudgetCharge) (next : BudgetSnapshot) :
    Prop where
  steps : next.steps = usage.steps + charge.steps
  modelCalls : next.modelCalls = usage.modelCalls + charge.modelCalls
  toolCalls : next.toolCalls = usage.toolCalls + charge.toolCalls
  inputTokens : next.inputTokens = usage.inputTokens + charge.inputTokens
  outputTokens : next.outputTokens = usage.outputTokens + charge.outputTokens
  cost : next.cost.value = usage.cost.value + charge.cost.value
  fingerprints : ∃ fingerprint, charge.fingerprint = .ok fingerprint ∧
    next.chargeFingerprints = usage.chargeFingerprints.insert charge.chargeId fingerprint

theorem candidate_eq_ok (h : usage.candidate charge = .ok next) : usage.Charged charge next := by
  obtain ⟨cost, hcost, h⟩ := bind_eq_ok.mp h
  obtain ⟨fingerprint, hfingerprint, h⟩ := bind_eq_ok.mp h
  have hfields := new_eq_ok h
  constructor
  case cost =>
    rw [hfields, normalizeDecimal_value, exactDecimalAdd_value hcost]
  case fingerprints => exact ⟨fingerprint, hfingerprint, by rw [hfields]⟩
  all_goals rw [hfields]

def Countable (usage : BudgetSnapshot) (charge : BudgetCharge) : Prop :=
  charge.Printable ∧ WithinStrDigits usage.cost.coefficient ∧
    WithinStrDigits charge.cost.coefficient ∧ WithinStrDigits (alignedSum usage.cost charge.cost)

instance (usage : BudgetSnapshot) (charge : BudgetCharge) : Decidable (usage.Countable charge) :=
  inferInstanceAs (Decidable (_ ∧ _))

theorem candidate_of_countable (h : usage.Countable charge) : ∃ next, usage.candidate charge = .ok next := by
  obtain ⟨hp, hl, hr, hs⟩ := h
  have hf := charge.fingerprint_of_printable hp
  rw [candidate, exactDecimalAdd_eq, if_pos ⟨hl, hr, hs⟩, hf]
  refine ⟨_, construct_of_ok _ ?_⟩
  rw [BudgetSnapshotFields.postInit, require_eq_ok, List.all_eq_true]
  rintro ⟨key, value⟩ hm
  rw [Dict.mem_items_iff, Dict.get?_insert] at hm
  split_ifs at hm with hk
  · cases hm
    exact BudgetCharge.fingerprint_prefix hf
  · exact usage.fingerprints_prefixed ((Dict.mem_items_iff _ _ _).mpr hm)

theorem candidate_of_not_countable (h : ¬ usage.Countable charge) :
    usage.candidate charge = .error digitLimit := by
  rw [candidate, exactDecimalAdd_eq]
  split_ifs with hc
  · have hp : ¬ charge.Printable := fun hp => h ⟨hp, hc⟩
    rw [charge.fingerprint_of_not_printable hp]
    rfl
  · rfl

structure Within (usage : BudgetSnapshot) (budget : RunBudget) : Prop where
  steps : usage.steps ≤ budget.maxSteps
  modelCalls : usage.modelCalls ≤ budget.maxModelCalls
  toolCalls : usage.toolCalls ≤ budget.maxToolCalls
  inputTokens : usage.inputTokens ≤ budget.maxInputTokens
  outputTokens : usage.outputTokens ≤ budget.maxOutputTokens
  totalTokens : usage.totalTokens ≤ budget.maxTotalTokens
  cost : usage.cost.value ≤ budget.maxCost.value

theorem exceeded_eq_none {budget : RunBudget} (h : usage.exceeded budget = none) :
    usage.Within budget := by
  unfold exceeded at h
  split_ifs at h with h1 h2 h3 h4 h5 h6 h7
  have hcost : usage.cost.value ≤ budget.maxCost.value :=
    not_lt.mp fun hlt => h7 ((Decimal.gt_iff _ _).mpr hlt)
  exact ⟨by omega, by omega, by omega, by omega, by omega, by omega, hcost⟩

theorem exceeded_ne_deadline {budget : RunBudget} : usage.exceeded budget ≠ some .deadline := by
  unfold exceeded
  split_ifs <;> simp

/-- Everything `apply` can return. -/
theorem apply_eq_ok {budget : RunBudget} {decision : BudgetDecision}
    (h : usage.apply charge budget = .ok decision) :
    (∃ fingerprint, usage.chargeFingerprints.get? charge.chargeId = some fingerprint ∧
      charge.fingerprint = .ok fingerprint ∧ decision = ⟨usage, true, none⟩) ∨
    (usage.chargeFingerprints.get? charge.chargeId = none ∧
      ∃ next, usage.candidate charge = .ok next ∧
        ((∃ dimension, next.exceeded budget = some dimension ∧
          decision = ⟨usage, false, some dimension⟩) ∨
        (next.exceeded budget = none ∧ decision = ⟨next, false, none⟩))) := by
  unfold apply at h
  cases hex : usage.chargeFingerprints.get? charge.chargeId with
  | some existing =>
    rw [hex] at h
    obtain ⟨fingerprint, hf, h⟩ := bind_eq_ok.mp h
    split_ifs at h with hne
    · refine .inl ⟨fingerprint, ?_, raising_eq_ok.mp hf, (Except.ok.inj h).symm⟩
      rw [not_not.mp hne]
  | none =>
    rw [hex] at h
    obtain ⟨next, hnext, h⟩ := bind_eq_ok.mp h
    refine .inr ⟨rfl, next, raising_eq_ok.mp hnext, ?_⟩
    cases hdim : next.exceeded budget with
    | some dimension =>
      rw [hdim] at h
      exact .inl ⟨dimension, rfl, (Except.ok.inj h).symm⟩
    | none =>
      rw [hdim] at h
      exact .inr ⟨rfl, (Except.ok.inj h).symm⟩

end BudgetSnapshot
end Zhiyi
