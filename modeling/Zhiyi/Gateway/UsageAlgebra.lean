import Zhiyi.Gateway.Usage
import Zhiyi.Library.DecimalRounding
import Zhiyi.Library.PartialSums

set_option autoImplicit false

/-! Aggregated usage as a sum in a commutative monoid: regrouping and reordering
change nothing but the rounding of the amount. -/
namespace Zhiyi
namespace Gateway
open Python

theorem ModelUsage.amount_currency (usage : ModelUsage) :
    usage.amount.isNone = usage.currency.isNone := by
  have hvalid := usage.valid
  unfold ModelUsageFields.postInit at hvalid
  split at hvalid
  all_goals
    obtain ⟨_, -, hpaired⟩ := bind_eq_ok.mp hvalid
    exact eq_of_beq (require_eq_ok.mp hpaired)

theorem ModelUsage.parts_le_total (usage : ModelUsage) (hwhole : usage.incomplete = false) {total : ℕ}
    (htotal : usage.totalTokens = some total) :
    usage.inputTokens.getD 0 + usage.outputTokens.getD 0 ≤ total := by
  have hvalid := usage.valid
  unfold ModelUsageFields.postInit at hvalid
  rw [htotal] at hvalid
  obtain ⟨_, hparts, -⟩ := bind_eq_ok.mp hvalid
  simpa [hwhole] using hparts

def addKnown : Option ℕ → Option ℕ → Option ℕ := Option.merge (· + ·)

theorem addKnown_comm (a b : Option ℕ) : addKnown a b = addKnown b a := by
  cases a <;> cases b <;> simp [addKnown, Nat.add_comm]

theorem addKnown_assoc (a b c : Option ℕ) : addKnown (addKnown a b) c = addKnown a (addKnown b c) := by
  cases a <;> cases b <;> cases c <;> simp [addKnown, Nat.add_assoc]

theorem foldr_addKnown (values : List (Option ℕ)) :
    values.foldr addKnown none = (aggregateOptional values).1 := by
  induction values with
  | nil => rfl
  | cons value values ih =>
    rw [List.foldr_cons, ih]
    cases value with
    | none => simp [addKnown, aggregateOptional]
    | some n =>
      have hcons : (some n :: values).filterMap id = n :: values.filterMap id := rfl
      simp only [addKnown, aggregateOptional, hcons]
      rw [if_neg (List.cons_ne_nil _ _)]
      by_cases hnone : values.filterMap id = []
      · rw [if_pos hnone, hnone]
        rfl
      · rw [if_neg hnone]
        rfl

/-- What a list of usages adds up to, its amounts measured in `M`. -/
@[ext] structure Tally (M : Type) where
  inputTokens : Option ℕ
  outputTokens : Option ℕ
  totalTokens : Option ℕ
  price : Tagged M String
  short : Bool
  flagged : price.isUnknown = true → short = true

namespace Tally
variable {M : Type}

instance : Zero (Tally M) := ⟨⟨none, none, none, 0, false, by simp [Tagged.zero_def]⟩⟩

@[simp] theorem zero_price : (0 : Tally M).price = 0 := rfl
@[simp] theorem zero_short : (0 : Tally M).short = false := rfl
@[simp] theorem zero_inputTokens : (0 : Tally M).inputTokens = none := rfl
@[simp] theorem zero_outputTokens : (0 : Tally M).outputTokens = none := rfl
@[simp] theorem zero_totalTokens : (0 : Tally M).totalTokens = none := rfl

theorem short_or_unknown (a : Tally M) : (a.short || a.price.isUnknown) = a.short := by
  have := a.flagged
  cases h : a.price.isUnknown
  · simp
  · simp [this h]

def of (measure : Decimal → M) (usage : ModelUsage) : Tally M where
  inputTokens := usage.inputTokens
  outputTokens := usage.outputTokens
  totalTokens := usage.totalTokens
  price := match usage.amount, usage.currency with
    | some amount, some currency => .known (measure amount) currency
    | _, _ => .unknown
  short := !usage.isWhole
  flagged h := by
    have hpaired := usage.amount_currency
    unfold ModelUsage.isWhole
    cases hamount : usage.amount with
    | none => simp
    | some amount =>
      cases hcurrency : usage.currency with
      | none => simp [hamount, hcurrency] at hpaired
      | some currency => simp [hamount, hcurrency] at h

theorem of_short (measure : Decimal → M) (usage : ModelUsage) : (of measure usage).short = !usage.isWhole := rfl

variable [AddCommMonoid M]

instance : Add (Tally M) := ⟨fun a b => {
  inputTokens := addKnown a.inputTokens b.inputTokens
  outputTokens := addKnown a.outputTokens b.outputTokens
  totalTokens := addKnown a.totalTokens b.totalTokens
  price := a.price + b.price
  short := a.short || b.short || (a.price + b.price).isUnknown
  flagged h := by simp [h] }⟩

@[simp] theorem add_price (a b : Tally M) : (a + b).price = a.price + b.price := rfl

@[simp] theorem add_short (a b : Tally M) :
    (a + b).short = (a.short || b.short || (a.price + b.price).isUnknown) := rfl

@[simp] theorem add_inputTokens (a b : Tally M) :
    (a + b).inputTokens = addKnown a.inputTokens b.inputTokens := rfl

@[simp] theorem add_outputTokens (a b : Tally M) :
    (a + b).outputTokens = addKnown a.outputTokens b.outputTokens := rfl

@[simp] theorem add_totalTokens (a b : Tally M) :
    (a + b).totalTokens = addKnown a.totalTokens b.totalTokens := rfl

theorem add_short_assoc (a b c : Tally M) : (a + b + c).short = (a + (b + c)).short := by
  have hleft : (a.price + b.price).isUnknown = true → (a.price + b.price + c.price).isUnknown = true :=
    fun h => Tagged.isUnknown_add_left h _
  have hright : (b.price + c.price).isUnknown = true → (a.price + b.price + c.price).isUnknown = true := by
    rw [add_assoc]
    exact fun h => Tagged.isUnknown_add_right h _
  simp only [add_short, add_price, ← add_assoc a.price]
  generalize (a.price + b.price + c.price).isUnknown = whole at hleft hright ⊢
  revert hleft hright
  generalize (a.price + b.price).isUnknown = ab
  generalize (b.price + c.price).isUnknown = bc
  cases a.short <;> cases b.short <;> cases c.short <;> cases ab <;> cases bc <;> cases whole <;> simp

instance : AddCommMonoid (Tally M) where
  zero_add a := by
    ext1
    · simp [addKnown]
    · simp [addKnown]
    · simp [addKnown]
    · exact zero_add a.price
    · simpa using short_or_unknown a
  add_zero a := by
    ext1
    · simp [addKnown]
    · simp [addKnown]
    · simp [addKnown]
    · exact add_zero a.price
    · simpa using short_or_unknown a
  add_comm a b := by
    ext1
    · exact addKnown_comm _ _
    · exact addKnown_comm _ _
    · exact addKnown_comm _ _
    · exact add_comm _ _
    · simp only [add_short, Bool.or_comm a.short, add_comm a.price]
  add_assoc a b c := by
    ext1
    · exact addKnown_assoc _ _ _
    · exact addKnown_assoc _ _ _
    · exact addKnown_assoc _ _ _
    · exact add_assoc _ _ _
    · exact add_short_assoc a b c
  nsmul := nsmulRec

theorem sum_price (tallies : List (Tally M)) : tallies.sum.price = (tallies.map price).sum := by
  induction tallies with
  | nil => rfl
  | cons a tallies ih => rw [List.sum_cons, add_price, ih, List.map_cons, List.sum_cons]

theorem sum_short (tallies : List (Tally M)) :
    tallies.sum.short = (tallies.any short || (tallies.map price).sum.isUnknown) := by
  induction tallies with
  | nil => rfl
  | cons a tallies ih =>
    have hrest : (tallies.map price).sum.isUnknown = true →
        (a.price + (tallies.map price).sum).isUnknown = true := fun h => Tagged.isUnknown_add_right h _
    rw [List.sum_cons, add_short, ih, sum_price, List.any_cons, List.map_cons, List.sum_cons]
    revert hrest
    generalize (a.price + (tallies.map price).sum).isUnknown = whole
    generalize (tallies.map price).sum.isUnknown = rest
    cases a.short <;> cases tallies.any short <;> cases whole <;> cases rest <;> simp

theorem sum_known (field : Tally M → Option ℕ) (hzero : field 0 = none)
    (hadd : ∀ a b, field (a + b) = addKnown (field a) (field b)) (tallies : List (Tally M)) :
    field tallies.sum = (aggregateOptional (tallies.map field)).1 := by
  rw [← foldr_addKnown]
  induction tallies with
  | nil => exact hzero
  | cons a tallies ih => rw [List.sum_cons, hadd, ih, List.map_cons, List.foldr_cons]

end Tally

variable {M : Type} (measure : Decimal → M)

theorem mem_fromKeys_of_mem {values : List String} {b : String} (h : b ∈ values) : b ∈ fromKeys values := by
  induction values with
  | nil => cases h
  | cons a values ih =>
    by_cases hb : b = a
    · rw [hb]
      exact List.mem_cons_self
    · apply List.mem_cons_of_mem
      exact List.mem_filter.mpr ⟨ih (List.mem_of_ne_of_mem hb h), by simpa using hb⟩

theorem fromKeys_constant {c : String} {values : List String} (hne : values ≠ [])
    (h : ∀ value ∈ values, value = c) : fromKeys values = [c] := by
  cases values with
  | nil => exact absurd rfl hne
  | cons value values =>
    have hrest : (fromKeys values).filter (· ≠ value) = [] := by
      rw [List.filter_eq_nil_iff]
      intro b hb
      have hb := h b (List.mem_cons_of_mem _ (mem_of_mem_fromKeys hb))
      have hvalue := h value List.mem_cons_self
      simp [hb, hvalue]
    rw [fromKeys, hrest, h value List.mem_cons_self]

theorem map_price_of_currency {usages : List ModelUsage} {c : String}
    (h : ∀ usage ∈ usages, usage.amount.isSome = true ∧ usage.currency = some c) :
    (usages.map (Tally.of measure)).map Tally.price =
      ((usages.filterMap (·.amount)).map measure).map fun a => .known a c := by
  induction usages with
  | nil => rfl
  | cons usage usages ih =>
    obtain ⟨hamount, hcurrency⟩ := h usage List.mem_cons_self
    obtain ⟨amount, hamount⟩ := Option.isSome_iff_exists.mp hamount
    have hrest := ih fun other hother => h other (List.mem_cons_of_mem _ hother)
    simp only [List.map_cons, hrest, List.filterMap_cons, hamount, Tally.of, hcurrency]

/-- Two usages that differ only in amounts of the same measure. -/
structure SameUsage (a b : ModelUsage) : Prop where
  inputTokens : a.inputTokens = b.inputTokens
  outputTokens : a.outputTokens = b.outputTokens
  totalTokens : a.totalTokens = b.totalTokens
  amount : a.amount.map measure = b.amount.map measure
  currency : a.currency = b.currency
  incomplete : a.incomplete = b.incomplete

theorem sameUsage_of_tally {a b : ModelUsage} (h : Tally.of measure a = Tally.of measure b)
    (ha : a.isWhole = !a.incomplete) (hb : b.isWhole = !b.incomplete) : SameUsage measure a b := by
  have hprice := congrArg Tally.price h
  have hshort : (!a.isWhole) = !b.isWhole := congrArg Tally.short h
  have hpaira := a.amount_currency
  have hpairb := b.amount_currency
  refine ⟨congrArg Tally.inputTokens h, congrArg Tally.outputTokens h, congrArg Tally.totalTokens h, ?_, ?_,
    by simpa [ha, hb] using hshort⟩
  all_goals
    simp only [Tally.of] at hprice
    revert hpaira hpairb hprice
    cases a.amount <;> cases a.currency <;> cases b.amount <;> cases b.currency <;> simp
  exact fun hvalue _ => hvalue

variable [AddCommMonoid M]

theorem sum_price_of_aggregate {usages : List ModelUsage} (hne : usages ≠ [])
    {total : Option (Decimal × String)} (h : aggregateAmount usages = .ok total) :
    ((usages.map (Tally.of measure)).map Tally.price).sum =
      match total with
      | some (_, currency) => .known ((usages.filterMap (·.amount)).map measure).sum currency
      | none => .unknown := by
  unfold aggregateAmount at h
  simp only at h
  split_ifs at h with hany
  · cases h
    obtain ⟨usage, husage, hnone⟩ := List.any_eq_true.mp hany
    apply Tagged.sum_of_unknown
    refine List.mem_map.mpr ⟨Tally.of measure usage, List.mem_map_of_mem husage, ?_⟩
    simp only [Tally.of, Option.isNone_iff_eq_none.mp hnone]
  · have hamounts : ∀ usage ∈ usages, usage.amount.isSome = true := by
      intro usage husage
      by_contra hnone
      exact hany (List.any_eq_true.mpr ⟨usage, husage, by simpa using hnone⟩)
    have hcurrencies : ∀ usage ∈ usages, ∃ currency, usage.currency = some currency := by
      intro usage husage
      have hpaired := usage.amount_currency
      rw [← Option.not_isSome, hamounts usage husage] at hpaired
      exact Option.isSome_iff_exists.mp (by simpa using hpaired)
    obtain ⟨first, hfirst⟩ := List.exists_mem_of_ne_nil _ hne
    have hpriced : ∀ usage ∈ usages, ∀ currency, usage.currency = some currency →
        ∃ a, Tagged.known a currency ∈ (usages.map (Tally.of measure)).map Tally.price := by
      intro usage husage currency hcurrency
      obtain ⟨amount, hamount⟩ := Option.isSome_iff_exists.mp (hamounts usage husage)
      refine ⟨measure amount, List.mem_map.mpr ⟨_, List.mem_map_of_mem husage, ?_⟩⟩
      simp only [Tally.of, hamount, hcurrency]
    split at h
    · next currency hkeys =>
      have hall : ∀ usage ∈ usages, usage.amount.isSome = true ∧ usage.currency = some currency := by
        intro usage husage
        obtain ⟨c, hc⟩ := hcurrencies usage husage
        have hmem : c ∈ fromKeys (usages.filterMap (·.currency)) :=
          mem_fromKeys_of_mem (List.mem_filterMap.mpr ⟨usage, husage, hc⟩)
        rw [hkeys, List.mem_singleton] at hmem
        exact ⟨hamounts usage husage, hmem ▸ hc⟩
      rw [map_price_of_currency measure hall, Tagged.sum_of_known]
      · split at h
        · cases h
          rfl
        · cases h
      · intro hnil
        obtain ⟨amount, hamount⟩ := Option.isSome_iff_exists.mp (hamounts first hfirst)
        have : measure amount ∈ (usages.filterMap (·.amount)).map measure :=
          List.mem_map_of_mem (List.mem_filterMap.mpr ⟨first, hfirst, hamount⟩)
        rw [hnil] at this
        cases this
    · next hkeys =>
      cases h
      cases hsum : ((usages.map (Tally.of measure)).map Tally.price).sum with
      | unknown => rfl
      | nothing =>
        obtain ⟨currency, hcurrency⟩ := hcurrencies first hfirst
        obtain ⟨a, ha⟩ := hpriced first hfirst currency hcurrency
        exact absurd hsum (Tagged.sum_ne_nothing ha)
      | known total c =>
        have hconstant : ∀ currency ∈ usages.filterMap (·.currency), currency = c := by
          intro currency hmem
          obtain ⟨usage, husage, hcurrency⟩ := List.mem_filterMap.mp hmem
          obtain ⟨a, ha⟩ := hpriced usage husage currency hcurrency
          exact Tagged.unit_of_sum hsum ha
        obtain ⟨currency, hcurrency⟩ := hcurrencies first hfirst
        have hsome : usages.filterMap (·.currency) ≠ [] :=
          List.ne_nil_of_mem (List.mem_filterMap.mpr ⟨first, hfirst, hcurrency⟩)
        exact absurd (fromKeys_constant hsome hconstant) (hkeys c)

theorem aggregate_eq_ok {usages : List ModelUsage} (hne : usages ≠ []) {total : ModelUsage}
    (h : ModelUsage.aggregate usages = .ok total) :
    ∃ price, aggregateAmount usages = .ok price ∧
      total.inputTokens = (aggregateOptional (usages.map (·.inputTokens))).1 ∧
      total.outputTokens = (aggregateOptional (usages.map (·.outputTokens))).1 ∧
      total.totalTokens = (aggregateOptional (usages.map (·.totalTokens))).1 ∧
      total.amount = price.map Prod.fst ∧ total.currency = price.map Prod.snd := by
  unfold ModelUsage.aggregate at h
  rw [if_neg hne] at h
  simp only at h
  obtain ⟨price, hprice, h⟩ := bind_eq_ok.mp h
  have hfields := ModelUsage.new_eq_ok h
  exact ⟨price, hprice, congrArg (·.inputTokens) hfields, congrArg (·.outputTokens) hfields,
    congrArg (·.totalTokens) hfields, congrArg (·.amount) hfields, congrArg (·.currency) hfields⟩

theorem aggregateOptional_none {values : List (Option ℕ)} (h : (aggregateOptional values).1 = none) :
    ∀ value ∈ values, value = none := by
  simp only [aggregateOptional] at h
  split_ifs at h with hnone
  intro value hvalue
  simpa using List.filterMap_eq_nil_iff.mp hnone value hvalue

theorem isWhole_of_aggregate {usages : List ModelUsage} (hne : usages ≠ []) {total : ModelUsage}
    (h : ModelUsage.aggregate usages = .ok total) : total.isWhole = !total.incomplete := by
  obtain ⟨price, hprice, hinput, houtput, htotal, hamount, -⟩ := aggregate_eq_ok hne h
  have hshort := (aggregates_of_aggregate h).incomplete
  cases hincomplete : total.incomplete with
  | true => simp [ModelUsage.isWhole, hincomplete]
  | false =>
    obtain ⟨first, hfirst⟩ := List.exists_mem_of_ne_nil _ hne
    have hnot : ¬ Short usages := fun hs => by simp [hshort.mpr hs] at hincomplete
    have hwhole : first.isWhole = true := by
      by_contra hpart
      exact hnot (.inr (.inl ⟨first, hfirst, by simpa using hpart⟩))
    simp only [ModelUsage.isWhole, Bool.and_eq_true, Bool.not_eq_true'] at hwhole
    obtain ⟨⟨⟨⟨-, hin⟩, hout⟩, htot⟩, -⟩ := hwhole
    have hknown : ∀ field : ModelUsage → Option ℕ, (field first).isSome = true →
        ((aggregateOptional (usages.map field)).1).isSome = true := by
      intro field hsome
      by_contra hnone
      have := aggregateOptional_none (by simpa using hnone) _ (List.mem_map_of_mem hfirst)
      simp [this] at hsome
    have hpriced : total.amount.isSome = true := by
      by_contra hnone
      have hprice := (aggregateAmount_eq_ok hprice).mp (by simpa [hamount] using hnone)
      rcases hprice with ⟨usage, husage, hnone⟩ | hmany
      · refine hnot (.inr (.inl ⟨usage, husage, ?_⟩))
        simp [ModelUsage.isWhole, Option.isNone_iff_eq_none.mp hnone]
      · exact hnot (.inr (.inr hmany))
    simp [ModelUsage.isWhole, hincomplete, hinput, houtput, htotal, hknown (·.inputTokens) hin,
      hknown (·.outputTokens) hout, hknown (·.totalTokens) htot, hpriced]

/-- The amount of the total measures as the sum of the amounts. -/
def Additive (usages : List ModelUsage) (total : ModelUsage) : Prop :=
  ∀ amount, total.amount = some amount → measure amount = ((usages.filterMap (·.amount)).map measure).sum

theorem tally_aggregate {usages : List ModelUsage} (hne : usages ≠ []) {total : ModelUsage}
    (h : ModelUsage.aggregate usages = .ok total) (hadditive : Additive measure usages total) :
    Tally.of measure total = (usages.map (Tally.of measure)).sum := by
  obtain ⟨price, hprice, hinput, houtput, htotal, hamount, hcurrency⟩ := aggregate_eq_ok hne h
  have hsum := sum_price_of_aggregate measure hne hprice
  have hsame : (Tally.of measure total).price = ((usages.map (Tally.of measure)).map Tally.price).sum := by
    rw [hsum]
    cases price with
    | none => simp only [Tally.of, hamount, Option.map_none]
    | some pair =>
      have hvalue := hadditive pair.1 hamount
      simp only [Tally.of, hamount, hcurrency, Option.map_some, hvalue]
  ext1
  · rw [Tally.sum_known Tally.inputTokens rfl (fun _ _ => rfl), List.map_map]
    exact hinput
  · rw [Tally.sum_known Tally.outputTokens rfl (fun _ _ => rfl), List.map_map]
    exact houtput
  · rw [Tally.sum_known Tally.totalTokens rfl (fun _ _ => rfl), List.map_map]
    exact htotal
  · rw [hsame, Tally.sum_price]
  · rw [Tally.sum_short, ← hsame, Bool.eq_iff_iff]
    have hshort := (aggregates_of_aggregate h).incomplete
    have hprice' := aggregateAmount_eq_ok hprice
    have hunknown : (Tally.of measure total).price.isUnknown = price.isNone := by
      cases price with
      | none => simp [Tally.of, hamount, Tagged.isUnknown]
      | some pair => simp [Tally.of, hamount, hcurrency, Tagged.isUnknown]
    have hsplit : total.incomplete = true ↔
        (∃ usage ∈ usages, usage.isWhole = false) ∨ price.isNone = true := by
      rw [hshort, Short, hprice']
      constructor
      · rintro (hnil | hpart | hmany)
        · exact absurd hnil hne
        · exact .inl hpart
        · exact .inr (.inr hmany)
      · rintro (hpart | ⟨usage, husage, hnone⟩ | hmany)
        · exact .inr (.inl hpart)
        · exact .inr (.inl ⟨usage, husage, by simp [ModelUsage.isWhole, Option.isNone_iff_eq_none.mp hnone]⟩)
        · exact .inr (.inr hmany)
    have hleft : (Tally.of measure total).short = total.incomplete := by
      rw [Tally.of_short, isWhole_of_aggregate hne h, Bool.not_not]
    rw [hleft, hsplit, hunknown]
    simp [Tally.of_short]

theorem regroups_of_additive {xs ys : List ModelUsage} (hxs : xs ≠ []) (hys : ys ≠ [])
    {u v w r : ModelUsage} (hu : ModelUsage.aggregate xs = .ok u) (hv : ModelUsage.aggregate ys = .ok v)
    (hw : ModelUsage.aggregate (xs ++ ys) = .ok w) (hr : ModelUsage.aggregate [u, v] = .ok r)
    (hadditive : Additive measure xs u ∧ Additive measure ys v ∧ Additive measure (xs ++ ys) w ∧
      Additive measure [u, v] r) : SameUsage measure w r := by
  obtain ⟨hu', hv', hw', hr'⟩ := hadditive
  have hall : xs ++ ys ≠ [] := by simp [hxs]
  have hpair : [u, v] ≠ [] := by simp
  apply sameUsage_of_tally measure _ (isWhole_of_aggregate hall hw) (isWhole_of_aggregate hpair hr)
  calc Tally.of measure w = ((xs ++ ys).map (Tally.of measure)).sum := tally_aggregate measure hall hw hw'
    _ = (xs.map (Tally.of measure)).sum + (ys.map (Tally.of measure)).sum := by
      rw [List.map_append, List.sum_append]
    _ = Tally.of measure u + Tally.of measure v := by
      rw [tally_aggregate measure hxs hu hu', tally_aggregate measure hys hv hv']
    _ = ([u, v].map (Tally.of measure)).sum := by simp
    _ = Tally.of measure r := (tally_aggregate measure hpair hr hr').symm

theorem reorders_of_additive {xs ys : List ModelUsage} (hxs : xs ≠ []) (hperm : xs.Perm ys)
    {u v : ModelUsage} (hu : ModelUsage.aggregate xs = .ok u) (hv : ModelUsage.aggregate ys = .ok v)
    (hu' : Additive measure xs u) (hv' : Additive measure ys v) : SameUsage measure u v := by
  have hys : ys ≠ [] := fun hnil => hxs (hnil ▸ hperm).eq_nil
  apply sameUsage_of_tally measure _ (isWhole_of_aggregate hxs hu) (isWhole_of_aggregate hys hv)
  rw [tally_aggregate measure hxs hu hu', tally_aggregate measure hys hv hv']
  exact (hperm.map _).sum_eq

theorem sum_getD {values : List (Option ℕ)} :
    ((aggregateOptional values).1).getD 0 = (values.map (·.getD 0)).sum := by
  induction values with
  | nil => rfl
  | cons value values ih =>
    rw [List.map_cons, List.sum_cons, ← ih, ← foldr_addKnown, ← foldr_addKnown, List.foldr_cons]
    cases value <;> cases values.foldr addKnown none <;> simp [addKnown]

theorem parts_le_total_of_whole {usages : List ModelUsage}
    (hwhole : ∀ usage ∈ usages, usage.incomplete = false ∧ usage.totalTokens.isSome = true) :
    ((aggregateOptional (usages.map (·.inputTokens))).1).getD 0 +
        ((aggregateOptional (usages.map (·.outputTokens))).1).getD 0 ≤
      ((aggregateOptional (usages.map (·.totalTokens))).1).getD 0 := by
  simp only [sum_getD, List.map_map]
  induction usages with
  | nil => simp
  | cons usage usages ih =>
    have hrest := ih fun other hother => hwhole other (List.mem_cons_of_mem _ hother)
    obtain ⟨hcomplete, hsome⟩ := hwhole usage List.mem_cons_self
    obtain ⟨total, htotal⟩ := Option.isSome_iff_exists.mp hsome
    have hparts := usage.parts_le_total hcomplete htotal
    simp only [List.map_cons, List.sum_cons, Function.comp_apply, htotal, Option.getD_some] at hrest hparts ⊢
    omega

theorem postInit_of_parts {f : ModelUsageFields}
    (hparts : f.incomplete = false → ∀ total, f.totalTokens = some total →
      f.inputTokens.getD 0 + f.outputTokens.getD 0 ≤ total)
    (hpaired : f.amount.isNone = f.currency.isNone) : f.postInit = .ok () := by
  have hpair : require (f.amount.isNone == f.currency.isNone)
      (PyError.valueError "amount and currency must be provided together") = .ok () :=
    require_eq_ok.mpr (beq_iff_eq.mpr hpaired)
  unfold ModelUsageFields.postInit
  split
  · next total htotal =>
    refine bind_eq_ok.mpr ⟨(), require_eq_ok.mpr ?_, hpair⟩
    cases hincomplete : f.incomplete with
    | true => rfl
    | false => simpa using hparts hincomplete total htotal
  · exact bind_eq_ok.mpr ⟨(), rfl, hpair⟩

/-- The aggregation raises only with the sum of its amounts. -/
theorem aggregate_of_amount {usages : List ModelUsage} {price : Option (Decimal × String)}
    (h : aggregateAmount usages = .ok price) : ∃ total, ModelUsage.aggregate usages = .ok total := by
  unfold ModelUsage.aggregate
  by_cases hnil : usages = []
  · rw [if_pos hnil]
    exact ⟨_, rfl⟩
  · rw [if_neg hnil, h]
    refine ⟨_, mapError_eq_ok.mpr (construct_of_ok _ (postInit_of_parts ?_ ?_))⟩
    · intro hincomplete total htotal
      simp only [Bool.or_eq_false_iff] at hincomplete htotal ⊢
      obtain ⟨⟨⟨⟨hflags, -⟩, -⟩, htotals⟩, -⟩ := hincomplete
      have hcounted : (aggregateOptional (usages.map (·.totalTokens))).2 = false := htotals
      have hsum : (aggregateOptional (usages.map (·.totalTokens))).1 = some total := htotal
      have hwhole : ∀ usage ∈ usages, usage.incomplete = false ∧ usage.totalTokens.isSome = true := by
        intro usage husage
        refine ⟨by simpa using List.any_eq_false.mp hflags usage husage, ?_⟩
        by_contra hnone
        have := (aggregateOptional_snd (usages.map (·.totalTokens))).mpr
          ⟨_, List.mem_map_of_mem husage, by simpa using hnone⟩
        rw [hcounted] at this
        cases this
      have hparts := parts_le_total_of_whole hwhole
      rw [hsum, Option.getD_some] at hparts
      exact hparts
    · cases price <;> rfl

def Priced (usages : List ModelUsage) (currency : String) : Prop :=
  usages ≠ [] ∧ ∀ usage ∈ usages, usage.amount.isSome = true ∧ usage.currency = some currency

/-- If the usages have a price, no sum of some of their amounts needs rounding. -/
def Roundless (usages : List ModelUsage) : Prop :=
  (∃ currency, Priced usages currency) →
    ∀ part : List Decimal, part.Subperm (usages.filterMap (·.amount)) →
      Decimal.Representable (part.map Decimal.value).sum

theorem Priced.keys {usages : List ModelUsage} {currency : String} (h : Priced usages currency) :
    fromKeys (usages.filterMap (·.currency)) = [currency] := by
  obtain ⟨first, hfirst⟩ := List.exists_mem_of_ne_nil _ h.1
  have hmem : currency ∈ usages.filterMap (·.currency) :=
    List.mem_filterMap.mpr ⟨first, hfirst, (h.2 first hfirst).2⟩
  apply fromKeys_constant (List.ne_nil_of_mem hmem)
  intro value hvalue
  obtain ⟨usage, husage, hcurrency⟩ := List.mem_filterMap.mp hvalue
  exact Option.some.inj (hcurrency.symm.trans (h.2 usage husage).2)

theorem Priced.any_isNone {usages : List ModelUsage} {currency : String} (h : Priced usages currency) :
    usages.any (·.amount.isNone) = false := by
  rw [List.any_eq_false]
  intro usage husage
  rw [← Option.not_isSome, (h.2 usage husage).1]
  decide

theorem aggregateAmount_cases (usages : List ModelUsage) :
    (∃ currency, Priced usages currency ∧ aggregateAmount usages =
      match (usages.filterMap (·.amount)).foldlM Decimal.contextAdd Decimal.zero with
      | some amount => .ok (some (amount, currency))
      | none => .error .exception) ∨
    ((¬ ∃ currency, Priced usages currency) ∧ aggregateAmount usages = .ok none) := by
  by_cases hpriced : ∃ currency, Priced usages currency
  · obtain ⟨currency, hpriced⟩ := hpriced
    refine .inl ⟨currency, hpriced, ?_⟩
    cases hsum : (usages.filterMap (·.amount)).foldlM Decimal.contextAdd Decimal.zero <;>
      simp only [aggregateAmount, hpriced.keys, hpriced.any_isNone, hsum, Bool.false_eq_true, if_false]
  · refine .inr ⟨hpriced, ?_⟩
    simp only [aggregateAmount]
    split_ifs with hany
    · rfl
    · split
      · next currency hkeys =>
        refine absurd ⟨currency, ?_, ?_⟩ hpriced
        · rintro rfl
          cases hkeys
        · intro usage husage
          have hamount : usage.amount.isSome = true := by
            by_contra hnone
            exact hany (List.any_eq_true.mpr ⟨usage, husage, by simpa using hnone⟩)
          have hpaired := usage.amount_currency
          rw [← Option.not_isSome, hamount] at hpaired
          obtain ⟨c, hc⟩ := Option.isSome_iff_exists.mp
            (show usage.currency.isSome = true by simpa using hpaired)
          have hmem : c ∈ fromKeys (usages.filterMap (·.currency)) :=
            mem_fromKeys_of_mem (List.mem_filterMap.mpr ⟨usage, husage, hc⟩)
          rw [hkeys, List.mem_singleton] at hmem
          exact ⟨hamount, hmem ▸ hc⟩
      · rfl

theorem aggregate_of_representable {usages : List ModelUsage}
    (h : (∃ currency, Priced usages currency) → ∀ part, part <+: usages.filterMap (·.amount) →
      Decimal.Representable (part.map Decimal.value).sum) :
    ∃ total, ModelUsage.aggregate usages = .ok total ∧ Additive Decimal.value usages total := by
  rcases aggregateAmount_cases usages with ⟨currency, hpriced, hamount⟩ | ⟨hunpriced, hamount⟩
  · obtain ⟨sum, hsum, hvalue⟩ := Decimal.foldlM_contextAdd (usages.filterMap (·.amount))
      Decimal.zero fun part hpart => by
        rw [Decimal.zero_value, zero_add]
        exact h ⟨currency, hpriced⟩ part hpart
    rw [hsum] at hamount
    obtain ⟨total, htotal⟩ := aggregate_of_amount hamount
    refine ⟨total, htotal, ?_⟩
    obtain ⟨price, hprice, -, -, -, hfield, -⟩ := aggregate_eq_ok hpriced.1 htotal
    cases Except.ok.inj (hamount.symm.trans hprice)
    intro amount htaken
    cases hfield.symm.trans htaken
    rw [hvalue, Decimal.zero_value, zero_add]
  · obtain ⟨total, htotal⟩ := aggregate_of_amount hamount
    refine ⟨total, htotal, ?_⟩
    intro amount htaken
    by_cases hnil : usages = []
    · subst hnil
      cases htotal
      cases htaken
    · obtain ⟨price, hprice, -, -, -, hfield, -⟩ := aggregate_eq_ok hnil htotal
      cases Except.ok.inj (hamount.symm.trans hprice)
      rw [hfield] at htaken
      cases htaken

theorem Roundless.prefixes {usages : List ModelUsage} (h : Roundless usages)
    (hpriced : ∃ currency, Priced usages currency) :
    ∀ part, part <+: usages.filterMap (·.amount) → Decimal.Representable (part.map Decimal.value).sum :=
  fun part hpart => h hpriced part hpart.sublist.subperm

theorem Roundless.perm {xs ys : List ModelUsage} (h : Roundless xs) (hperm : xs.Perm ys) : Roundless ys := by
  rintro ⟨currency, hne, hpriced⟩ part hpart
  refine h ⟨currency, fun hnil => hne (hnil ▸ hperm).nil_eq.symm, fun usage husage =>
    hpriced usage (hperm.mem_iff.mp husage)⟩ part ?_
  exact hpart.trans (hperm.filterMap _).symm.subperm

/-- Amounts of one exponent, such as cents, whose coefficients stay below `10 ^ 28`. -/
theorem Roundless.of_exponent {usages : List ModelUsage} {e : ℤ}
    (hexponent : ∀ amount ∈ usages.filterMap (·.amount), amount.exponent = e)
    (htiny : Decimal.tinyExponent ≤ e) (hlarge : e ≤ 0)
    (hsum : ((usages.filterMap (·.amount)).map Decimal.coefficient).sum < 10 ^ Decimal.precision) :
    Roundless usages := by
  intro _ part hpart
  have hvalue : (part.map Decimal.value).sum =
      ((⟨(part.map Decimal.coefficient).sum, e⟩ : Decimal)).value := by
    have hpartial : ∀ amount ∈ part, amount.exponent = e := fun a ha => hexponent a (hpart.subset ha)
    clear hpart
    induction part with
    | nil => simp [Decimal.value]
    | cons amount part ih =>
      rw [List.map_cons, List.sum_cons, ih fun a ha => hpartial a (List.mem_cons_of_mem _ ha)]
      simp only [Decimal.value, hpartial amount List.mem_cons_self, List.map_cons, List.sum_cons]
      push_cast
      ring
  have hless : (part.map Decimal.coefficient).sum < 10 ^ Decimal.precision := by
    refine lt_of_le_of_lt ?_ hsum
    obtain ⟨sorted, hperm, hsublist⟩ := hpart
    rw [← (hperm.map Decimal.coefficient).sum_eq]
    exact (hsublist.map Decimal.coefficient).sum_le_sum (by simp)
  refine ⟨_, hvalue.symm, hless, htiny, .inr ?_⟩
  have hdigits := (Decimal.digitCount_le_iff (show 0 < Decimal.precision by decide)).mpr hless
  have : (Decimal.precision : ℤ) ≤ Decimal.maxExponent := by decide
  simp only
  omega

theorem priced_of_amount {usages : List ModelUsage} (hne : usages ≠ []) {total : ModelUsage}
    (h : ModelUsage.aggregate usages = .ok total) (hsome : total.amount.isSome = true) :
    ∃ currency, Priced usages currency ∧ total.currency = some currency := by
  obtain ⟨price, hprice, -, -, -, hamount, hcurrency⟩ := aggregate_eq_ok hne h
  rcases aggregateAmount_cases usages with ⟨currency, hpriced, hcase⟩ | ⟨-, hcase⟩
  · refine ⟨currency, hpriced, ?_⟩
    rw [hcase] at hprice
    split at hprice
    · cases hprice
      rw [hcurrency]
      rfl
    · cases hprice
  · cases hcase.symm.trans hprice
    rw [hamount] at hsome
    cases hsome

theorem representable_of_parts {xs ys : List ModelUsage} (hxs : xs ≠ []) (hys : ys ≠ [])
    (hroundless : Roundless xs ∧ Roundless (xs ++ ys)) {u v : ModelUsage}
    (hu : ModelUsage.aggregate xs = .ok u) (hv : ModelUsage.aggregate ys = .ok v)
    (hu' : Additive Decimal.value xs u) (hv' : Additive Decimal.value ys v) :
    (∃ currency, Priced [u, v] currency) → ∀ part, part <+: [u, v].filterMap (·.amount) →
      Decimal.Representable (part.map Decimal.value).sum := by
  rintro ⟨currency, -, hpriced⟩ part hpart
  obtain ⟨husome, hucurrency⟩ := hpriced u List.mem_cons_self
  obtain ⟨hvsome, hvcurrency⟩ := hpriced v (List.mem_cons_of_mem _ List.mem_cons_self)
  obtain ⟨c, hleft, hc⟩ := priced_of_amount hxs hu husome
  obtain ⟨d, hright, hd⟩ := priced_of_amount hys hv hvsome
  cases hc.symm.trans hucurrency
  cases hd.symm.trans hvcurrency
  have hboth : Priced (xs ++ ys) currency := by
    refine ⟨by simp [hxs], fun usage husage => ?_⟩
    exact (List.mem_append.mp husage).elim (hleft.2 usage) (hright.2 usage)
  obtain ⟨a, ha⟩ := Option.isSome_iff_exists.mp husome
  obtain ⟨b, hb⟩ := Option.isSome_iff_exists.mp hvsome
  have hamounts : [u, v].filterMap (·.amount) = [a, b] := by
    simp [ha, hb]
  rw [hamounts] at hpart
  rcases List.prefix_cons_iff.mp hpart with rfl | ⟨rest, rfl, hrest⟩
  · exact Decimal.representable_zero
  rcases List.prefix_cons_iff.mp hrest with rfl | ⟨tail, rfl, htail⟩
  · have hone := hroundless.1 ⟨currency, hleft⟩ _ (List.Subperm.refl _)
    simpa [hu' a ha] using hone
  · have hnil : tail = [] := List.prefix_nil.mp htail
    have hall := hroundless.2 ⟨currency, hboth⟩ _ (List.Subperm.refl _)
    rw [List.filterMap_append, List.map_append, List.sum_append] at hall
    simpa [hnil, hu' a ha, hv' b hb] using hall

/-- Where no addition rounds, aggregation never raises and does not depend on how the usages
    are grouped or ordered, and an aggregated amount is the exact sum. -/
theorem usage_aggregates_exactly {xs ys : List ModelUsage} (hxs : xs ≠ []) (hys : ys ≠ [])
    (hleft : Roundless xs) (hright : Roundless ys) (hall : Roundless (xs ++ ys)) :
    ∃ u v w r, ModelUsage.aggregate xs = .ok u ∧ ModelUsage.aggregate ys = .ok v ∧
      ModelUsage.aggregate (xs ++ ys) = .ok w ∧ ModelUsage.aggregate [u, v] = .ok r ∧
      SameUsage Decimal.value w r ∧
      (∀ zs, zs.Perm (xs ++ ys) →
        ∃ t, ModelUsage.aggregate zs = .ok t ∧ SameUsage Decimal.value t w) ∧
      ∀ currency, Priced (xs ++ ys) currency → w.currency = some currency ∧ ∃ amount,
        w.amount = some amount ∧
        amount.value = (((xs ++ ys).filterMap (·.amount)).map Decimal.value).sum := by
  obtain ⟨u, hu, hu'⟩ := aggregate_of_representable hleft.prefixes
  obtain ⟨v, hv, hv'⟩ := aggregate_of_representable hright.prefixes
  obtain ⟨w, hw, hw'⟩ := aggregate_of_representable hall.prefixes
  obtain ⟨r, hr, hr'⟩ :=
    aggregate_of_representable (representable_of_parts hxs hys ⟨hleft, hall⟩ hu hv hu' hv')
  have hne : xs ++ ys ≠ [] := by simp [hxs]
  refine ⟨u, v, w, r, hu, hv, hw, hr,
    regroups_of_additive Decimal.value hxs hys hu hv hw hr ⟨hu', hv', hw', hr'⟩, ?_, ?_⟩
  · intro zs hperm
    obtain ⟨t, ht, ht'⟩ := aggregate_of_representable (hall.perm hperm.symm).prefixes
    refine ⟨t, ht, reorders_of_additive Decimal.value ?_ hperm ht hw ht' hw'⟩
    rintro rfl
    exact hne hperm.nil_eq.symm
  · intro currency hpriced
    obtain ⟨price, hprice, -, -, -, hamount, hcurrency⟩ := aggregate_eq_ok hne hw
    rcases aggregateAmount_cases (xs ++ ys) with ⟨c, hc, hcase⟩ | ⟨hunpriced, -⟩
    · cases hc.keys.symm.trans hpriced.keys
      rw [hcase] at hprice
      split at hprice
      · cases hprice
        exact ⟨hcurrency, _, hamount, hw' _ hamount⟩
      · cases hprice
    · exact absurd ⟨currency, hpriced⟩ hunpriced

/-- Whatever is rounded, aggregation raises only by the overflow of a sum of amounts in one
    currency; and neither the grouping nor the order of the usages changes a token count, the
    currency, whether there is an amount, or whether the total is incomplete. -/
theorem usage_regroups :
    (∀ usages : List ModelUsage, (∃ total, ModelUsage.aggregate usages = .ok total) ∨
      ModelUsage.aggregate usages = .error .exception ∧ (∃ currency, Priced usages currency) ∧
        (usages.filterMap (·.amount)).foldlM Decimal.contextAdd Decimal.zero = none) ∧
    (∀ xs ys u v w r, xs ≠ [] → ys ≠ [] → ModelUsage.aggregate xs = .ok u →
      ModelUsage.aggregate ys = .ok v → ModelUsage.aggregate (xs ++ ys) = .ok w →
      ModelUsage.aggregate [u, v] = .ok r → SameUsage (fun _ => ()) w r) ∧
    (∀ xs ys u v, xs ≠ [] → xs.Perm ys → ModelUsage.aggregate xs = .ok u →
      ModelUsage.aggregate ys = .ok v → SameUsage (fun _ => ()) u v) := by
  refine ⟨fun usages => ?_, ?_, ?_⟩
  · rcases aggregateAmount_cases usages with ⟨currency, hpriced, hamount⟩ | ⟨-, hamount⟩
    · cases hsum : (usages.filterMap (·.amount)).foldlM Decimal.contextAdd Decimal.zero with
      | some amount =>
        rw [hsum] at hamount
        exact .inl (aggregate_of_amount hamount)
      | none =>
        rw [hsum] at hamount
        refine .inr ⟨?_, ⟨currency, hpriced⟩, rfl⟩
        rw [ModelUsage.aggregate, if_neg hpriced.1, hamount]
        rfl
    · exact .inl (aggregate_of_amount hamount)
  · intro xs ys u v w r hxs hys hu hv hw hr
    have hunit : ∀ usages total, Additive (fun _ => ()) usages total := fun _ _ _ _ => rfl
    exact regroups_of_additive _ hxs hys hu hv hw hr ⟨hunit _ _, hunit _ _, hunit _ _, hunit _ _⟩
  · intro xs ys u v hxs hperm hu hv
    exact reorders_of_additive _ hxs hperm hu hv (fun _ _ => rfl) fun _ _ => rfl

namespace Sample

def priced (coefficient : ℕ) : ModelUsage where
  inputTokens := some 3
  outputTokens := some 4
  totalTokens := some 7
  amount := some ⟨coefficient, -2⟩
  currency := some "USD"
  valid := rfl

end Sample

open Sample in
theorem usage_aggregates_exactly_priced :
    ∃ u v w r, ModelUsage.aggregate [priced 25] = .ok u ∧ ModelUsage.aggregate [priced 50] = .ok v ∧
      ModelUsage.aggregate ([priced 25] ++ [priced 50]) = .ok w ∧ ModelUsage.aggregate [u, v] = .ok r ∧
      SameUsage Decimal.value w r ∧
      (∀ zs, zs.Perm ([priced 25] ++ [priced 50]) →
        ∃ t, ModelUsage.aggregate zs = .ok t ∧ SameUsage Decimal.value t w) ∧
      ∀ currency, Priced ([priced 25] ++ [priced 50]) currency → w.currency = some currency ∧ ∃ amount,
        w.amount = some amount ∧ amount.value =
          ((([priced 25] ++ [priced 50]).filterMap (·.amount)).map Decimal.value).sum :=
  usage_aggregates_exactly (by simp) (by simp)
    (@Roundless.of_exponent _ (-2) (by simp [priced]) (by decide) (by decide) (by decide))
    (@Roundless.of_exponent _ (-2) (by simp [priced]) (by decide) (by decide) (by decide))
    (@Roundless.of_exponent _ (-2) (by simp [priced]) (by decide) (by decide) (by decide))

end Gateway
end Zhiyi
