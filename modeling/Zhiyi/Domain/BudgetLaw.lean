import Zhiyi.Domain.Transitions
import Zhiyi.Library.Machine

set_option autoImplicit false

/-! The budget law over whole runs: usage is the exact sum of the counted
charges, whatever the order of operations, charge ids and clock readings. -/
namespace Zhiyi
open Python Interleaving

namespace BudgetCharge

def text (charge : BudgetCharge) : String := String.ofList (Json.print charge.body.sortKeys)

/-- Equal up to the charge id, amounts compared by value. -/
structure SameContent (a b : BudgetCharge) : Prop where
  steps : a.steps = b.steps
  modelCalls : a.modelCalls = b.modelCalls
  toolCalls : a.toolCalls = b.toolCalls
  inputTokens : a.inputTokens = b.inputTokens
  outputTokens : a.outputTokens = b.outputTokens
  cost : a.cost.value = b.cost.value

theorem body_canonical (charge : BudgetCharge) : charge.body.Canonical := by
  refine ⟨?_, ?_⟩
  · simp only [Entries.Ascending, List.pairwise_cons, List.mem_cons, List.not_mem_nil,
      forall_eq_or_imp, String.lt_iff_toList_lt]
    simp
    decide
  · simp [Json.CanonicalValues, Json.Canonical]

theorem body_eq_iff {a b : BudgetCharge} (hid : a.chargeId = b.chargeId) :
    a.body = b.body ↔ a.SameContent b := by
  simp only [body, Json.obj.injEq, List.cons.injEq, Prod.mk.injEq, Json.str.injEq, Json.int.injEq,
    Nat.cast_inj, true_and, and_true, canonicalDecimal_eq_iff, hid]
  constructor
  · rintro ⟨hc, hi, hm, ho, hs, ht⟩
    exact ⟨hs, hm, ht, hi, ho, hc⟩
  · rintro ⟨hs, hm, ht, hi, ho, hc⟩
    exact ⟨hc, hi, hm, ho, hs, ht⟩

theorem text_eq_iff {a b : BudgetCharge} (hid : a.chargeId = b.chargeId) :
    a.text = b.text ↔ a.SameContent b := by
  rw [← body_eq_iff hid, text, text, Json.sortKeys_of_canonical _ a.body_canonical,
    Json.sortKeys_of_canonical _ b.body_canonical]
  refine ⟨fun h => ?_, fun h => by rw [h]⟩
  exact (Json.print_inj _ _ [] [] (by simp [Json.Stops]) (by simp [Json.Stops])
    (by rw [String.ofList_injective h])).1

theorem fingerprint_eq_ok {charge : BudgetCharge} {s : String} (h : charge.fingerprint = .ok s) :
    charge.Printable ∧ s = "sha256:" ++ Sha256.hexdigest charge.text := by
  by_cases hp : charge.Printable
  · rw [fingerprint_of_printable charge hp] at h
    exact ⟨hp, (Except.ok.inj h).symm⟩
  · rw [fingerprint_of_not_printable charge hp] at h
    cases h

theorem SameContent.printable {a b : BudgetCharge} (h : a.SameContent b) (hb : b.Printable) :
    a.Printable := by
  unfold Printable at *
  rwa [h.steps, h.modelCalls, h.toolCalls, h.inputTokens, h.outputTokens]

end BudgetCharge

structure Attempt where
  observedAt : DateTime
  eventId : EventId
  op : Operation

/-- A run and the charges whose operation emitted `run.budget_consumed`. -/
structure Ledger where
  run : Run
  counted : List BudgetCharge

def countedBy (op : Operation) (m : RunMutation) : List BudgetCharge :=
  match op with
  | .consumeBudget charge =>
    if m.events.any fun event => event.type == .runBudgetConsumed then [charge] else []
  | _ => []

namespace Ledger

/-- A returned mutation becomes the run of the next operation. -/
def step (s : Ledger) (attempt : Attempt) : Ledger :=
  match s.run.perform attempt.observedAt attempt.eventId attempt.op with
  | .ok m => ⟨m.run, s.counted ++ countedBy attempt.op m⟩
  | .error _ => s

def machine (run : Run) : Machine Ledger Attempt where
  start := ⟨run, []⟩
  step := step

/-- What one attempt can do: nothing, a change that leaves the usage, or one
    counted charge. -/
inductive Steps (s : Ledger) (attempt : Attempt) : Ledger → Prop
  | idle : Steps s attempt s
  | other (run : Run) (husage : run.usage = s.run.usage) (hbudget : run.budget = s.run.budget)
    (htime : run.lastObservedAt = s.run.effectiveTime attempt.observedAt) :
    Steps s attempt ⟨run, s.counted⟩
  | counts (run : Run) (charge : BudgetCharge)
    (hfresh : s.run.usage.chargeFingerprints.get? charge.chargeId = none)
    (hnext : s.run.usage.Charged charge run.usage) (hwithin : run.usage.Within run.budget)
    (hbudget : run.budget = s.run.budget)
    (htime : run.lastObservedAt = s.run.effectiveTime attempt.observedAt)
    (hearly : s.run.effectiveTime attempt.observedAt < s.run.budget.deadlineAt) :
    Steps s attempt ⟨run, s.counted ++ [charge]⟩

theorem step_steps (s : Ledger) (attempt : Attempt) : s.Steps attempt (s.step attempt) := by
  unfold step
  cases hp : s.run.perform attempt.observedAt attempt.eventId attempt.op with
  | error e => exact .idle
  | ok m =>
    change s.Steps attempt ⟨m.run, s.counted ++ countedBy attempt.op m⟩
    rcases Run.perform_eq_ok hp with ⟨rfl, -⟩ | ⟨c, hmakes, -, ⟨result, -, hrun⟩, event, hevents, hevent⟩
    · have hnone : countedBy attempt.op ⟨s.run, []⟩ = [] := by
        unfold countedBy
        split <;> simp
      simp only [hnone, List.append_nil]
      exact .idle
    · have htype : event.type = c.eventType := by rw [hevent]; rfl
      have husage : m.run.usage = c.usage.getD s.run.usage := by rw [hrun]; rfl
      have hbudget : m.run.budget = s.run.budget := by rw [hrun]; rfl
      have htime : m.run.lastObservedAt = s.run.effectiveTime attempt.observedAt := by rw [hrun]; rfl
      have uncounted : c.eventType ≠ .runBudgetConsumed → countedBy attempt.op m = [] := by
        intro hne
        unfold countedBy
        split
        · simp [hevents, htype, hne]
        · rfl
      cases hop : attempt.op with
      | consumeBudget charge =>
        rw [hop] at hmakes uncounted
        cases hmakes with
        | consumed _ next _ hfresh hnext hdim hearly =>
          have hcounted : countedBy (.consumeBudget charge) m = [charge] := by
            simp [countedBy, hevents, htype, Run.consumeChange]
          rw [hcounted]
          have hnextUsage : m.run.usage = next := husage
          refine .counts m.run charge hfresh ?_ ?_ hbudget htime hearly
          · rw [hnextUsage]
            exact BudgetSnapshot.candidate_eq_ok hnext
          · rw [hnextUsage, hbudget]
            exact BudgetSnapshot.exceeded_eq_none hdim
        | overdue | exceeded =>
          rw [uncounted (by simp [Run.limitChange]), List.append_nil]
          exact .other m.run husage hbudget htime
      | _ =>
        rw [hop] at hmakes
        simp only [countedBy, List.append_nil]
        refine .other m.run ?_ hbudget htime
        cases hmakes
        all_goals exact husage

/-- Usage is the sum of the counted charges, in every dimension. -/
structure Totals (s : Ledger) : Prop where
  steps : s.run.usage.steps = (s.counted.map (·.steps)).sum
  modelCalls : s.run.usage.modelCalls = (s.counted.map (·.modelCalls)).sum
  toolCalls : s.run.usage.toolCalls = (s.counted.map (·.toolCalls)).sum
  inputTokens : s.run.usage.inputTokens = (s.counted.map (·.inputTokens)).sum
  outputTokens : s.run.usage.outputTokens = (s.counted.map (·.outputTokens)).sum
  totalTokens : s.run.usage.totalTokens = (s.counted.map (·.totalTokens)).sum
  cost : s.run.usage.cost.value = (s.counted.map (·.cost.value)).sum

structure Sound (budget : RunBudget) (s : Ledger) : Prop where
  totals : s.Totals
  budget_eq : s.run.budget = budget
  within : s.run.usage.Within budget
  distinct : (s.counted.map (·.chargeId)).Nodup
  printed : ∀ charge ∈ s.counted, ∃ fingerprint, charge.fingerprint = .ok fingerprint
  fingerprints : ∀ id fingerprint, s.run.usage.chargeFingerprints.get? id = some fingerprint ↔
    ∃ charge ∈ s.counted, charge.chargeId = id ∧ charge.fingerprint = .ok fingerprint

theorem Totals.append {s : Ledger} {charge : BudgetCharge} {run : Run} (h : s.Totals)
    (hnext : s.run.usage.Charged charge run.usage) : Totals ⟨run, s.counted ++ [charge]⟩ := by
  constructor
  case totalTokens =>
    have htotal := h.totalTokens
    simp only [BudgetSnapshot.totalTokens, BudgetCharge.totalTokens] at htotal ⊢
    rw [hnext.inputTokens, hnext.outputTokens]
    simp only [List.map_append, List.map_cons, List.map_nil, List.sum_append, List.sum_cons,
      List.sum_nil]
    omega
  all_goals
    simp only [List.map_append, List.map_cons, List.map_nil, List.sum_append, List.sum_cons,
      List.sum_nil, add_zero]
  · rw [hnext.steps, h.steps]
  · rw [hnext.modelCalls, h.modelCalls]
  · rw [hnext.toolCalls, h.toolCalls]
  · rw [hnext.inputTokens, h.inputTokens]
  · rw [hnext.outputTokens, h.outputTokens]
  · rw [hnext.cost, h.cost]

theorem fingerprints_append {s : Ledger} {charge : BudgetCharge} {next : BudgetSnapshot}
    (hfresh : s.run.usage.chargeFingerprints.get? charge.chargeId = none)
    (hnext : s.run.usage.Charged charge next)
    (h : ∀ id fingerprint, s.run.usage.chargeFingerprints.get? id = some fingerprint ↔
      ∃ charge ∈ s.counted, charge.chargeId = id ∧ charge.fingerprint = .ok fingerprint)
    (id : ChargeId) (fingerprint : String) :
    next.chargeFingerprints.get? id = some fingerprint ↔
      ∃ c ∈ s.counted ++ [charge], c.chargeId = id ∧ c.fingerprint = .ok fingerprint := by
  obtain ⟨fresh, hf, hinsert⟩ := hnext.fingerprints
  rw [hinsert, Dict.get?_insert]
  split_ifs with hid
  · subst hid
    have hold : ∀ c ∈ s.counted, c.chargeId = charge.chargeId → ¬ c.fingerprint = .ok fingerprint := by
      intro c hc hcid hcf
      have hsome := (h charge.chargeId fingerprint).mpr ⟨c, hc, hcid, hcf⟩
      rw [hfresh] at hsome
      cases hsome
    constructor
    · intro he
      exact ⟨charge, by simp, rfl, by rw [hf, Option.some.inj he]⟩
    · rintro ⟨c, hc, hcid, hcf⟩
      rcases List.mem_append.mp hc with hc | hc
      · exact absurd hcf (hold c hc hcid)
      · rw [List.mem_singleton.mp hc, hf] at hcf
        rw [Except.ok.inj hcf]
  · rw [h]
    constructor
    · rintro ⟨c, hc, hcid, hcf⟩
      exact ⟨c, List.mem_append_left _ hc, hcid, hcf⟩
    · rintro ⟨c, hc, hcid, hcf⟩
      rcases List.mem_append.mp hc with hc | hc
      · exact ⟨c, hc, hcid, hcf⟩
      · rw [List.mem_singleton.mp hc] at hcid
        exact absurd hcid.symm hid

theorem Sound.fresh {s : Ledger} {budget : RunBudget} (h : s.Sound budget) {id : ChargeId}
    (hfresh : s.run.usage.chargeFingerprints.get? id = none) :
    id ∉ s.counted.map (·.chargeId) := by
  intro hmem
  obtain ⟨charge, hc, hid⟩ := List.mem_map.mp hmem
  obtain ⟨fingerprint, hf⟩ := h.printed charge hc
  have hsome := (h.fingerprints id fingerprint).mpr ⟨charge, hc, hid, hf⟩
  rw [hfresh] at hsome
  cases hsome

theorem Sound.step {s t : Ledger} {attempt : Attempt} {budget : RunBudget} (h : s.Sound budget)
    (ht : s.Steps attempt t) : t.Sound budget := by
  cases ht with
  | idle => exact h
  | other run husage hbudget htime =>
    constructor
    case totals =>
      obtain ⟨h1, h2, h3, h4, h5, h6, h7⟩ := h.totals
      exact ⟨husage ▸ h1, husage ▸ h2, husage ▸ h3, husage ▸ h4, husage ▸ h5, husage ▸ h6,
        husage ▸ h7⟩
    case budget_eq => exact hbudget.trans h.budget_eq
    case within => exact husage ▸ h.within
    case distinct => exact h.distinct
    case printed => exact h.printed
    case fingerprints => exact husage ▸ h.fingerprints
  | counts run charge hfresh hnext hwithin hbudget htime hearly =>
    have hbudget' := hbudget.trans h.budget_eq
    constructor
    case totals => exact h.totals.append hnext
    case budget_eq => exact hbudget'
    case within => exact hbudget' ▸ hwithin
    case distinct =>
      rw [List.map_append, List.nodup_append]
      refine ⟨h.distinct, by simp, ?_⟩
      intro a ha b hb hab
      rw [List.map_cons, List.map_nil, List.mem_singleton] at hb
      exact h.fresh hfresh (hb ▸ hab ▸ ha)
    case printed =>
      intro c hc
      rcases List.mem_append.mp hc with hc | hc
      · exact h.printed c hc
      · rw [List.mem_singleton.mp hc]
        obtain ⟨fingerprint, hf, -⟩ := hnext.fingerprints
        exact ⟨fingerprint, hf⟩
    case fingerprints => exact fingerprints_append hfresh hnext h.fingerprints

theorem sound_start (run : Run) (h : run.usage = BudgetSnapshot.initial) :
    Sound run.budget ⟨run, []⟩ where
  totals := by
    constructor
    all_goals
      simp only [h]
      simp [BudgetSnapshot.initial, BudgetSnapshot.totalTokens]
  budget_eq := rfl
  within := by
    simp only [h]
    refine ⟨?_, ?_, ?_, ?_, ?_, ?_, ?_⟩
    case refine_7 =>
      simp only [BudgetSnapshot.initial, Decimal.zero_value]
      exact run.budget.maxCost.value_nonneg
    all_goals exact Nat.zero_le _
  distinct := List.nodup_nil
  printed := by simp
  fingerprints := by
    simp only [h]
    simp [BudgetSnapshot.initial]

theorem sound_invariant (run : Run) (h : run.usage = BudgetSnapshot.initial) :
    (machine run).Invariant (Sound run.budget) where
  base := sound_start run h
  kept s attempt hs := hs.step (s.step_steps attempt)

structure AtMost (a b : BudgetSnapshot) : Prop where
  steps : a.steps ≤ b.steps
  modelCalls : a.modelCalls ≤ b.modelCalls
  toolCalls : a.toolCalls ≤ b.toolCalls
  inputTokens : a.inputTokens ≤ b.inputTokens
  outputTokens : a.outputTokens ≤ b.outputTokens
  totalTokens : a.totalTokens ≤ b.totalTokens
  cost : a.cost.value ≤ b.cost.value

theorem AtMost.refl (a : BudgetSnapshot) : AtMost a a :=
  ⟨le_rfl, le_rfl, le_rfl, le_rfl, le_rfl, le_rfl, le_rfl⟩

theorem AtMost.trans {a b c : BudgetSnapshot} (h : AtMost a b) (k : AtMost b c) : AtMost a c :=
  ⟨h.1.trans k.1, h.2.trans k.2, h.3.trans k.3, h.4.trans k.4, h.5.trans k.5, h.6.trans k.6,
    h.7.trans k.7⟩

theorem AtMost.charged {usage next : BudgetSnapshot} {charge : BudgetCharge}
    (h : usage.Charged charge next) : AtMost usage next where
  steps := h.steps ▸ Nat.le_add_right _ _
  modelCalls := h.modelCalls ▸ Nat.le_add_right _ _
  toolCalls := h.toolCalls ▸ Nat.le_add_right _ _
  inputTokens := h.inputTokens ▸ Nat.le_add_right _ _
  outputTokens := h.outputTokens ▸ Nat.le_add_right _ _
  totalTokens := by
    simp only [BudgetSnapshot.totalTokens, h.inputTokens, h.outputTokens]
    omega
  cost := by
    rw [h.cost]
    exact le_add_of_nonneg_right charge.cost.value_nonneg

theorem Steps.atMost {s t : Ledger} {attempt : Attempt} (ht : s.Steps attempt t) :
    AtMost s.run.usage t.run.usage := by
  cases ht with
  | idle => exact .refl _
  | other run husage => exact husage ▸ .refl _
  | counts run charge _ hnext => exact .charged hnext

theorem usage_atMost (run : Run) (s : Ledger) (later : List Attempt) :
    AtMost s.run.usage ((machine run).runFrom s later).run.usage := by
  have anything : (machine run).Invariant fun _ => True := ⟨trivial, fun _ _ _ => trivial⟩
  exact anything.related (R := fun s t => AtMost s.run.usage t.run.usage)
    (fun s => .refl s.run.usage) (fun s t u => AtMost.trans)
    (fun s attempt _ => (s.step_steps attempt).atMost) trivial later

def Late (s : Ledger) : Prop := s.run.budget.deadlineAt ≤ s.run.lastObservedAt

theorem late_step {s : Ledger} {attempt : Attempt} {t : Ledger} (hlate : s.Late)
    (ht : s.Steps attempt t) :
    t.Late ∧ t.run.usage = s.run.usage ∧ t.counted = s.counted := by
  have hclock : s.run.lastObservedAt ≤ s.run.effectiveTime attempt.observedAt := le_max_left _ _
  cases ht with
  | idle => exact ⟨hlate, rfl, rfl⟩
  | other run husage hbudget htime =>
    refine ⟨?_, husage, rfl⟩
    simp only [Late, hbudget, htime]
    exact hlate.trans hclock
  | counts run charge _ _ _ _ _ hearly =>
    exact absurd (hlate.trans hclock) (not_le.mpr hearly)

theorem late_runFrom (run : Run) {s : Ledger} (hlate : s.Late) (later : List Attempt) :
    ((machine run).runFrom s later).run.usage = s.run.usage ∧
      ((machine run).runFrom s later).counted = s.counted := by
  induction later generalizing s with
  | nil => exact ⟨rfl, rfl⟩
  | cons attempt later ih =>
    obtain ⟨hnext, husage, hcounted⟩ := late_step hlate (s.step_steps attempt)
    obtain ⟨hu, hc⟩ := ih hnext
    exact ⟨hu.trans husage, hc.trans hcounted⟩

theorem repeated_same {s : Ledger} {budget : RunBudget} (h : s.Sound budget)
    {counted charge : BudgetCharge} (hmem : counted ∈ s.counted)
    (hid : charge.chargeId = counted.chargeId) (hs : s.run.status = .running)
    (hsame : charge.SameContent counted) (observedAt : DateTime) (eventId : EventId) :
    s.run.consumeBudget charge observedAt eventId = .ok ⟨s.run, []⟩ := by
  obtain ⟨fingerprint, hf⟩ := h.printed counted hmem
  obtain ⟨hprintable, htext⟩ := BudgetCharge.fingerprint_eq_ok hf
  have hget : s.run.usage.chargeFingerprints.get? charge.chargeId = some fingerprint :=
    (h.fingerprints _ _).mpr ⟨counted, hmem, hid.symm, hf⟩
  have hcharge : charge.fingerprint = .ok fingerprint := by
    rw [charge.fingerprint_of_printable (hsame.printable hprintable), htext,
      ← (BudgetCharge.text_eq_iff hid).mpr hsame]
    rfl
  simp [Run.consumeBudget, BudgetSnapshot.apply, hs, hget, hcharge, bind, Except.bind]
  rfl

theorem repeated_different {s : Ledger} {budget : RunBudget} (h : s.Sound budget)
    {counted charge : BudgetCharge} (hmem : counted ∈ s.counted)
    (hid : charge.chargeId = counted.chargeId) (hs : s.run.status = .running)
    (hdifferent : ¬ charge.SameContent counted) (hprintable : charge.Printable)
    (hfree : Sha256.hexdigest charge.text = Sha256.hexdigest counted.text →
      charge.text = counted.text) (observedAt : DateTime) (eventId : EventId) :
    s.run.consumeBudget charge observedAt eventId =
      .error (.lifecycle .idempotencyConflict) := by
  obtain ⟨fingerprint, hf⟩ := h.printed counted hmem
  obtain ⟨-, htext⟩ := BudgetCharge.fingerprint_eq_ok hf
  have hget : s.run.usage.chargeFingerprints.get? charge.chargeId = some fingerprint :=
    (h.fingerprints _ _).mpr ⟨counted, hmem, hid.symm, hf⟩
  have hne : fingerprint ≠ "sha256:" ++ Sha256.hexdigest charge.text := by
    intro he
    rw [htext] at he
    have hdigest : Sha256.hexdigest charge.text = Sha256.hexdigest counted.text :=
      (String.append_right_inj _).mp he.symm
    exact hdifferent ((BudgetCharge.text_eq_iff hid).mp (hfree hdigest))
  have hcharge : charge.fingerprint = .ok ("sha256:" ++ Sha256.hexdigest charge.text) :=
    charge.fingerprint_of_printable hprintable
  simp [Run.consumeBudget, BudgetSnapshot.apply, hs, hget, hcharge, hne, bind, Except.bind]

end Ledger

/-- The budget law for one history of attempts on a run. -/
structure BudgetLaw (run : Run) (history : List Attempt) : Prop where
  /-- Usage is the exact sum of the charges that emitted `run.budget_consumed`. -/
  exact_sum : ((Ledger.machine run).run history).Totals
  /-- Each charge id contributes at most once. -/
  once : (((Ledger.machine run).run history).counted.map (·.chargeId)).Nodup
  /-- No dimension exceeds the budget. -/
  within : ((Ledger.machine run).run history).run.usage.Within run.budget
  /-- Usage never decreases. -/
  grows : ∀ earlier later, history = earlier ++ later →
    Ledger.AtMost ((Ledger.machine run).run earlier).run.usage
      ((Ledger.machine run).run history).run.usage
  /-- On a running run a counted charge is a no-op. -/
  same : ((Ledger.machine run).run history).run.status = .running →
    ∀ counted ∈ ((Ledger.machine run).run history).counted, ∀ charge : BudgetCharge,
      charge.chargeId = counted.chargeId → charge.SameContent counted → ∀ observedAt eventId,
        ((Ledger.machine run).run history).run.perform observedAt eventId (.consumeBudget charge) =
          .ok ⟨((Ledger.machine run).run history).run, []⟩
  /-- On a running run a counted id with other content is a conflict, unless the
      two texts happen to share their SHA-256 digest. -/
  different : ((Ledger.machine run).run history).run.status = .running →
    ∀ counted ∈ ((Ledger.machine run).run history).counted, ∀ charge : BudgetCharge,
      charge.chargeId = counted.chargeId → ¬ charge.SameContent counted → charge.Printable →
      (Sha256.hexdigest charge.text = Sha256.hexdigest counted.text → charge.text = counted.text) →
      ∀ observedAt eventId,
        ((Ledger.machine run).run history).run.perform observedAt eventId (.consumeBudget charge) =
          .error (.lifecycle .idempotencyConflict)
  /-- Once a mutation took effect at or after the deadline, no charge counts. -/
  closed : ∀ earlier attempt later, history = earlier ++ attempt :: later →
    ∀ m, ((Ledger.machine run).run earlier).run.perform attempt.observedAt attempt.eventId
        attempt.op = .ok m → m.events ≠ [] →
      run.budget.deadlineAt ≤
        ((Ledger.machine run).run earlier).run.effectiveTime attempt.observedAt →
      ((Ledger.machine run).run history).run.usage = m.run.usage ∧
        ((Ledger.machine run).run history).counted =
          ((Ledger.machine run).run (earlier ++ [attempt])).counted

namespace Ledger

/-- A mutation with an event leaves its effective time as the run's clock. -/
theorem late_of_mutation {s : Ledger} {attempt : Attempt} {m : RunMutation}
    (hm : s.run.perform attempt.observedAt attempt.eventId attempt.op = .ok m)
    (hevents : m.events ≠ [])
    (hlate : s.run.budget.deadlineAt ≤ s.run.effectiveTime attempt.observedAt) :
    (s.step attempt).Late ∧ (s.step attempt).run = m.run := by
  have hrun : (s.step attempt).run = m.run := by
    unfold step
    rw [hm]
  refine ⟨?_, hrun⟩
  rcases Run.perform_eq_ok hm with ⟨rfl, -⟩ | ⟨c, -, -, ⟨result, -, hfields⟩, -⟩
  · exact absurd rfl hevents
  · simp only [Late, hrun, hfields]
    exact hlate

end Ledger

theorem Run.create_usage {tenantId : TenantId} {runId : RunId} {taskId : TaskId}
    {agentVersion : AgentVersionRef} {budget : RunBudget} {observedAt : DateTime}
    {eventId : EventId} {m : RunMutation}
    (h : Run.create tenantId runId taskId agentVersion budget observedAt eventId = .ok m) :
    m.run.usage = BudgetSnapshot.initial := by
  obtain ⟨run, hrun, h⟩ := bind_eq_ok.mp (raising_eq_ok.mp h)
  obtain ⟨event, -, h⟩ := bind_eq_ok.mp h
  cases h
  rw [Run.new_eq_ok hrun]

/-- The budget law of a created run, over every sequence of operations. -/
theorem budget_law {tenantId : TenantId} {runId : RunId} {taskId : TaskId}
    {agentVersion : AgentVersionRef} {budget : RunBudget} {observedAt : DateTime}
    {eventId : EventId} {m : RunMutation}
    (h : Run.create tenantId runId taskId agentVersion budget observedAt eventId = .ok m)
    (history : List Attempt) : BudgetLaw m.run history := by
  have hinv := Ledger.sound_invariant m.run (Run.create_usage h)
  have hsound := hinv.run history
  constructor
  case exact_sum => exact hsound.totals
  case once => exact hsound.distinct
  case within => exact hsound.within
  case grows =>
    rintro earlier later rfl
    rw [Machine.run_append]
    exact Ledger.usage_atMost m.run _ later
  case same =>
    intro hs counted hmem charge hid hsame observedAt eventId
    exact Ledger.repeated_same hsound hmem hid hs hsame observedAt eventId
  case different =>
    intro hs counted hmem charge hid hdifferent hprintable hfree observedAt eventId
    exact Ledger.repeated_different hsound hmem hid hs hdifferent hprintable hfree observedAt eventId
  case closed =>
    rintro earlier attempt later rfl m' hm' hevents hlate
    have hbudget := (hinv.run earlier).budget_eq
    obtain ⟨hl, hrun⟩ := Ledger.late_of_mutation hm' hevents (hbudget ▸ hlate)
    obtain ⟨husage, hcounted⟩ := Ledger.late_runFrom m.run hl later
    rw [Machine.run_append, Machine.runFrom_cons, Machine.run_concat]
    exact ⟨husage.trans (congrArg (fun r : Run => r.usage) hrun), hcounted⟩

theorem createdRun_eq : Run.create Sample.tenant Sample.runId Sample.taskId Sample.agentVersion
    Sample.budget Sample.opening Sample.event1 =
      .ok ⟨Sample.queuedRun, [Sample.createdEvent]⟩ := rfl

theorem budget_law_of_sample :
    BudgetLaw Sample.queuedRun
      [⟨Sample.opening, Sample.event2, .start⟩,
        ⟨Sample.opening, Sample.event3, .consumeBudget Sample.charge⟩] ∧
    ((Ledger.machine Sample.queuedRun).run
      [⟨Sample.opening, Sample.event2, .start⟩,
        ⟨Sample.opening, Sample.event3, .consumeBudget Sample.charge⟩]).counted =
      [Sample.charge] :=
  ⟨budget_law createdRun_eq _, by decide +kernel⟩

end Zhiyi
