import Mathlib

set_option autoImplicit false

/-! Sums of amounts that may be unknown or in different units: a known total
needs every amount to be known, and all of them in one unit. -/

inductive Tagged (M κ : Type) where
  | nothing
  | known (amount : M) (unit : κ)
  | unknown
  deriving DecidableEq

namespace Tagged
variable {M κ : Type}

def isUnknown : Tagged M κ → Bool
  | unknown => true
  | _ => false

@[simp] theorem isUnknown_iff {p : Tagged M κ} : p.isUnknown = true ↔ p = unknown := by
  cases p <;> simp [isUnknown]

instance : Zero (Tagged M κ) := ⟨nothing⟩

theorem zero_def : (0 : Tagged M κ) = nothing := rfl

variable [AddCommMonoid M] [DecidableEq κ]

def add : Tagged M κ → Tagged M κ → Tagged M κ
  | nothing, p => p
  | p, nothing => p
  | known a c, known b d => if c = d then known (a + b) c else unknown
  | _, _ => unknown

instance : Add (Tagged M κ) := ⟨add⟩

@[simp] theorem nothing_add (p : Tagged M κ) : nothing + p = p := by
  cases p <;> rfl

@[simp] theorem add_nothing (p : Tagged M κ) : p + nothing = p := by
  cases p <;> rfl

@[simp] theorem unknown_add (p : Tagged M κ) : unknown + p = unknown := by
  cases p <;> rfl

@[simp] theorem add_unknown (p : Tagged M κ) : p + unknown = unknown := by
  cases p <;> rfl

theorem known_add (a b : M) (c d : κ) :
    (known a c + known b d : Tagged M κ) = if c = d then known (a + b) c else unknown := rfl

instance : AddCommMonoid (Tagged M κ) where
  zero_add := nothing_add
  add_zero := add_nothing
  add_comm p q := by
    cases p <;> cases q <;> simp [known_add]
    case known.known a c b d =>
      by_cases h : c = d
      · subst h
        simp [add_comm]
      · simp [h, Ne.symm h]
  add_assoc p q r := by
    cases p <;> cases q <;> cases r <;> simp [known_add]
    case known.known.known a c b d x e =>
      by_cases h : c = d
      · subst h
        by_cases h' : c = e
        · simp [h', known_add, add_assoc]
        · simp [h', known_add]
      · by_cases h' : d = e
        · subst h'
          simp [h, known_add]
        · simp [h, h']
  nsmul := nsmulRec

theorem isUnknown_add_left {p : Tagged M κ} (h : p.isUnknown = true) (q : Tagged M κ) :
    (p + q).isUnknown = true := by
  rw [isUnknown_iff] at h ⊢
  rw [h, unknown_add]

theorem isUnknown_add_right {q : Tagged M κ} (h : q.isUnknown = true) (p : Tagged M κ) :
    (p + q).isUnknown = true := by
  rw [add_comm]
  exact isUnknown_add_left h p

theorem sum_of_unknown {ps : List (Tagged M κ)} (h : unknown ∈ ps) : ps.sum = unknown := by
  induction ps with
  | nil => cases h
  | cons p ps ih =>
    rw [List.sum_cons]
    rcases List.mem_cons.mp h with rfl | h
    · exact unknown_add _
    · rw [ih h, add_unknown]

theorem sum_of_known {amounts : List M} (hne : amounts ≠ []) (c : κ) :
    (amounts.map fun a => known a c).sum = known amounts.sum c := by
  induction amounts with
  | nil => exact absurd rfl hne
  | cons a amounts ih =>
    by_cases hrest : amounts = []
    · subst hrest
      simp [zero_def]
    · rw [List.map_cons, List.sum_cons, ih hrest, known_add, if_pos rfl, List.sum_cons]

theorem known_add_ne_nothing (a : M) (c : κ) (p : Tagged M κ) : known a c + p ≠ nothing := by
  cases p with
  | nothing => simp
  | unknown => simp
  | known b d =>
    rw [known_add]
    split_ifs <;> simp

theorem add_ne_nothing {q : Tagged M κ} (h : q ≠ nothing) (p : Tagged M κ) : p + q ≠ nothing := by
  cases p with
  | nothing => rwa [nothing_add]
  | unknown => simp
  | known a c => exact known_add_ne_nothing a c q

theorem sum_ne_nothing {ps : List (Tagged M κ)} {a : M} {c : κ} (h : known a c ∈ ps) :
    ps.sum ≠ nothing := by
  induction ps with
  | nil => cases h
  | cons p ps ih =>
    rw [List.sum_cons]
    rcases List.mem_cons.mp h with rfl | h
    · exact known_add_ne_nothing a c _
    · exact add_ne_nothing (ih h) p

theorem unit_of_sum {ps : List (Tagged M κ)} {total : M} {c : κ} (h : ps.sum = known total c)
    {a : M} {d : κ} (hmem : known a d ∈ ps) : d = c := by
  induction ps generalizing total c with
  | nil => cases hmem
  | cons p ps ih =>
    rw [List.sum_cons] at h
    rcases List.mem_cons.mp hmem with rfl | hmem
    · cases hrest : ps.sum with
      | nothing =>
        rw [hrest, add_nothing] at h
        cases h
        rfl
      | unknown =>
        rw [hrest, add_unknown] at h
        cases h
      | known b e =>
        rw [hrest, known_add] at h
        split_ifs at h with heq
        cases h
        rfl
    · cases hrest : ps.sum with
      | nothing => exact absurd hrest (sum_ne_nothing hmem)
      | unknown =>
        rw [hrest, add_unknown] at h
        cases h
      | known b e =>
        have hunit := ih hrest hmem
        rw [hrest] at h
        cases p with
        | nothing =>
          rw [nothing_add] at h
          cases h
          exact hunit
        | unknown =>
          rw [unknown_add] at h
          cases h
        | known x u =>
          rw [known_add] at h
          split_ifs at h with heq
          cases h
          exact hunit.trans heq.symm

end Tagged
