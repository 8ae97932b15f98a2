import Mathlib

set_option autoImplicit false

/-! Leases of one resource over time. An attempt holds the resource until it is
released or expires; only then may the next attempt take over, and every change
of the lease takes the next version. -/
namespace Leasing
variable {τ ω δ : Type}

/-- A lease. Its owner stays for an attempt, its detail may change with every version. -/
structure Lease (τ ω δ : Type) where
  owner : ω
  attempt : ℕ
  version : ℕ
  acquired : τ
  expires : τ
  released : Option τ
  detail : δ
  deriving DecidableEq

/-- What transactions keep of a lease: it stays, under higher numbers. -/
structure Succeeds (old lease : Lease τ ω δ) : Prop where
  version : old.version ≤ lease.version
  same : old.version = lease.version → old = lease
  attempt : old.attempt ≤ lease.attempt
  holder : old.attempt = lease.attempt → old.owner = lease.owner ∧ old.acquired = lease.acquired
  released : old.attempt = lease.attempt → old.released.isSome = true → lease.released.isSome = true

theorem Succeeds.refl (lease : Lease τ ω δ) : Succeeds lease lease :=
  ⟨le_rfl, fun _ => rfl, le_rfl, fun _ => ⟨rfl, rfl⟩, fun _ h => h⟩

theorem Succeeds.trans {a b c : Lease τ ω δ} (hab : Succeeds a b) (hbc : Succeeds b c) : Succeeds a c where
  version := hab.version.trans hbc.version
  same h := by
    have hle := hab.version
    have hle' := hbc.version
    rw [hab.same (by omega), hbc.same (by omega)]
  attempt := hab.attempt.trans hbc.attempt
  holder h := by
    have hle := hab.attempt
    have hle' := hbc.attempt
    have hfirst := hab.holder (by omega)
    have hsecond := hbc.holder (by omega)
    exact ⟨hfirst.1.trans hsecond.1, hfirst.2.trans hsecond.2⟩
  released h hreleased := by
    have hle := hab.attempt
    have hle' := hbc.attempt
    exact hbc.released (by omega) (hab.released (by omega) hreleased)

def final (slot : Option (Lease τ ω δ)) : List (τ × Option (Lease τ ω δ)) → Option (Lease τ ω δ)
  | [] => slot
  | (_, next) :: rest => final next rest

/-- The last lease of each attempt. -/
def tenuresOf (lease : Lease τ ω δ) : List (τ × Option (Lease τ ω δ)) → List (Lease τ ω δ)
  | [] => [lease]
  | (_, none) :: rest => tenuresOf lease rest
  | (_, some next) :: rest =>
    if next.attempt = lease.attempt then tenuresOf next rest else lease :: tenuresOf next rest

def tenures : Option (Lease τ ω δ) → List (τ × Option (Lease τ ω δ)) → List (Lease τ ω δ)
  | some lease, history => tenuresOf lease history
  | none, [] => []
  | none, (_, next) :: rest => tenures next rest

theorem tenures_some (lease : Lease τ ω δ) (history : List (τ × Option (Lease τ ω δ))) :
    tenures (some lease) history = tenuresOf lease history := by
  cases history <;> rfl

theorem last_attempt {leases : List (Lease τ ω δ)}
    (h : leases.map Lease.attempt = List.range' 1 leases.length) :
    (leases.getLast?.map Lease.attempt).getD 0 = leases.length := by
  rw [← List.getLast?_map, h, List.getLast?_range']
  split_ifs with hzero
  · rw [hzero]
    rfl
  · rw [Option.getD_some]
    omega

variable [LinearOrder τ]

namespace Lease

/-- Released, or expired at this time. -/
def Over (lease : Lease τ ω δ) (now : τ) : Prop := lease.released.isSome = true ∨ lease.expires ≤ now

theorem Over.later {lease : Lease τ ω δ} {now later : τ} (h : lease.Over now) (hclock : now ≤ later) :
    lease.Over later := h.imp_right fun hexpired => hexpired.trans hclock

def ends (lease : Lease τ ω δ) : τ :=
  match lease.released with
  | some released => min released lease.expires
  | none => lease.expires

/-- The tenure of an earlier attempt, which ends before the other begins. -/
def Before (a b : Lease τ ω δ) : Prop :=
  a.attempt < b.attempt ∧ a.ends ≤ b.acquired ∧ b.acquired ≤ b.ends

theorem Before.trans {a b c : Lease τ ω δ} (hab : a.Before b) (hbc : b.Before c) : a.Before c :=
  ⟨hab.1.trans hbc.1, hab.2.1.trans (hab.2.2.trans hbc.2.1), hbc.2.2⟩

end Lease

/-- A new attempt: the first one, or one after a lease that is over. -/
inductive Grant (now : τ) (lease : Lease τ ω δ) : Option (Lease τ ω δ) → Prop
  | first (hattempt : lease.attempt = 1) (hversion : lease.version = 1)
    (hacquired : lease.acquired = now) (hexpires : now < lease.expires)
    (hreleased : lease.released = none) : Grant now lease none
  | takeOver (old : Lease τ ω δ) (hover : old.Over now) (hattempt : lease.attempt = old.attempt + 1)
    (hversion : lease.version = old.version + 1) (hacquired : lease.acquired = now)
    (hexpires : now < lease.expires) (hreleased : lease.released = none) : Grant now lease (some old)

/-- A change within an attempt: a renewal while it lasts, or its release. -/
inductive Update (now : τ) (old lease : Lease τ ω δ) : Prop
  | renew (hlive : ¬ old.Over now) (howner : lease.owner = old.owner)
    (hattempt : lease.attempt = old.attempt) (hversion : lease.version = old.version + 1)
    (hacquired : lease.acquired = old.acquired) (hexpires : now < lease.expires)
    (hreleased : lease.released = none)
  | release (hheld : old.released = none) (howner : lease.owner = old.owner)
    (hattempt : lease.attempt = old.attempt) (hversion : lease.version = old.version + 1)
    (hacquired : lease.acquired = old.acquired) (hexpires : lease.expires = old.expires)
    (hreleased : lease.released = some now)

inductive Move (now : τ) (slot : Option (Lease τ ω δ)) : Option (Lease τ ω δ) → Prop
  | stay : Move now slot slot
  | grant (lease : Lease τ ω δ) (h : Grant now lease slot) : Move now slot (some lease)
  | update (old lease : Lease τ ω δ) (hslot : slot = some old) (h : Update now old lease) :
    Move now slot (some lease)

/-- The slot after each transaction of a history, with the time of the transaction. -/
inductive Moves : Option (Lease τ ω δ) → List (τ × Option (Lease τ ω δ)) → Prop
  | nil (slot : Option (Lease τ ω δ)) : Moves slot []
  | cons {slot next : Option (Lease τ ω δ)} {now : τ} {rest : List (τ × Option (Lease τ ω δ))}
    (hmove : Move now slot next) (hrest : Moves next rest) : Moves slot ((now, next) :: rest)

theorem Move.succeeds {now : τ} {old : Lease τ ω δ} {next : Option (Lease τ ω δ)}
    (h : Move now (some old) next) : ∃ lease, next = some lease ∧ Succeeds old lease := by
  cases h with
  | stay => exact ⟨old, rfl, .refl old⟩
  | grant lease h =>
    cases h with
    | takeOver _ _ hattempt hversion =>
      exact ⟨lease, rfl, by omega, by omega, by omega, by omega, by omega⟩
  | update _ lease hslot h =>
    cases hslot
    cases h with
    | renew hlive howner hattempt hversion hacquired =>
      exact ⟨lease, rfl, by omega, by omega, by omega, fun _ => ⟨howner.symm, hacquired.symm⟩,
        fun _ hreleased => absurd (Or.inl hreleased) hlive⟩
    | release hheld howner hattempt hversion hacquired _ hreleased =>
      exact ⟨lease, rfl, by omega, by omega, by omega, fun _ => ⟨howner.symm, hacquired.symm⟩,
        fun _ _ => by rw [hreleased]; rfl⟩

theorem Move.over {start now : τ} {old lease : Lease τ ω δ} (h : Move now (some old) (some lease))
    (hclock : start ≤ now) (hattempt : old.attempt = lease.attempt) (hover : old.Over start) :
    lease.Over now := by
  cases h with
  | stay => exact hover.later hclock
  | grant _ h =>
    cases h with
    | takeOver _ _ hnext => omega
  | update _ _ hslot h =>
    cases hslot
    cases h with
    | renew hlive => exact absurd (hover.later hclock) hlive
    | release _ _ _ _ _ _ hreleased => exact .inl (by rw [hreleased]; rfl)

/-- What holds of a lease at any time after its last change. -/
structure Dated (now : τ) (lease : Lease τ ω δ) : Prop where
  acquired : lease.acquired ≤ now
  lasts : lease.acquired < lease.expires
  released : ∀ released, lease.released = some released → lease.acquired ≤ released ∧ released ≤ now

theorem Dated.later {start now : τ} {lease : Lease τ ω δ} (h : Dated start lease) (hclock : start ≤ now) :
    Dated now lease where
  acquired := h.acquired.trans hclock
  lasts := h.lasts
  released released hr := ⟨(h.released released hr).1, (h.released released hr).2.trans hclock⟩

theorem Dated.acquired_le_ends {now : τ} {lease : Lease τ ω δ} (h : Dated now lease) :
    lease.acquired ≤ lease.ends := by
  unfold Lease.ends
  split
  · next released hr => exact le_min (h.released released hr).1 h.lasts.le
  · exact h.lasts.le

theorem Dated.ends_le {now : τ} {lease : Lease τ ω δ} (h : Dated now lease) (hover : lease.Over now) :
    lease.ends ≤ now := by
  unfold Lease.ends
  split
  · next released hr => exact (min_le_left _ _).trans (h.released released hr).2
  · next hr =>
    rcases hover with hsome | hexpired
    · simp [hr] at hsome
    · exact hexpired

theorem Grant.dated {now : τ} {lease : Lease τ ω δ} {slot : Option (Lease τ ω δ)} (h : Grant now lease slot) :
    Dated now lease := by
  cases h with
  | first _ _ hacquired hexpires hreleased | takeOver _ _ _ _ hacquired hexpires hreleased =>
    exact ⟨hacquired.le, hacquired ▸ hexpires, by simp [hreleased]⟩

theorem Grant.lasts {now : τ} {lease : Lease τ ω δ} {slot : Option (Lease τ ω δ)}
    (h : Grant now lease slot) : lease.released = none ∧ now < lease.expires := by
  cases h with
  | first _ _ _ hexpires hreleased | takeOver _ _ _ _ _ hexpires hreleased => exact ⟨hreleased, hexpires⟩

theorem Grant.counts {now : τ} {lease : Lease τ ω δ} {slot : Option (Lease τ ω δ)}
    (h : Grant now lease slot) : lease.attempt = (slot.map Lease.attempt).getD 0 + 1 ∧
      lease.version = (slot.map Lease.version).getD 0 + 1 := by
  cases h with
  | first hattempt hversion => exact ⟨hattempt, hversion⟩
  | takeOver old _ hattempt hversion => exact ⟨hattempt, hversion⟩

theorem Update.dated {now : τ} {old lease : Lease τ ω δ} (h : Update now old lease) (hold : Dated now old) :
    Dated now lease := by
  cases h with
  | renew _ _ _ _ hacquired hexpires hreleased =>
    exact ⟨hacquired ▸ hold.acquired, hacquired ▸ lt_of_le_of_lt hold.acquired hexpires,
      by simp [hreleased]⟩
  | release _ _ _ _ hacquired hexpires hreleased =>
    refine ⟨hacquired ▸ hold.acquired, by rw [hacquired, hexpires]; exact hold.lasts, fun released hr => ?_⟩
    rw [hreleased] at hr
    cases hr
    exact ⟨hacquired ▸ hold.acquired, le_rfl⟩

theorem Move.dated {now : τ} {slot next : Option (Lease τ ω δ)} (h : Move now slot next)
    (hslot : ∀ lease, slot = some lease → Dated now lease) : ∀ lease, next = some lease → Dated now lease := by
  intro lease hnext
  cases h with
  | stay => exact hslot lease hnext
  | grant new h =>
    cases hnext
    exact h.dated
  | update old new hold h =>
    cases hnext
    exact h.dated (hslot old hold)

/-- The times of a history never go back. -/
def Clocked (start : τ) (history : List (τ × Option (Lease τ ω δ))) : Prop :=
  (start :: history.map Prod.fst).IsChain (· ≤ ·)

theorem clocked_cons {start now : τ} {next : Option (Lease τ ω δ)}
    {rest : List (τ × Option (Lease τ ω δ))} :
    Clocked start ((now, next) :: rest) ↔ start ≤ now ∧ Clocked now rest := by
  unfold Clocked
  rw [List.map_cons, List.isChain_cons_cons]

theorem Moves.succeeds {old : Lease τ ω δ} {history : List (τ × Option (Lease τ ω δ))}
    (h : Moves (some old) history) :
    ∃ lease, final (some old) history = some lease ∧ Succeeds old lease := by
  induction history generalizing old with
  | nil => exact ⟨old, rfl, .refl old⟩
  | cons entry rest ih =>
    cases h with
    | cons hmove hrest =>
      obtain ⟨next, rfl, hnext⟩ := hmove.succeeds
      obtain ⟨lease, hlease, hlater⟩ := ih hrest
      exact ⟨lease, hlease, hnext.trans hlater⟩

def lastTime (start : τ) : List (τ × Option (Lease τ ω δ)) → τ
  | [] => start
  | (now, _) :: rest => lastTime now rest

theorem clocked_of_append {start now : τ} {history : List (τ × Option (Lease τ ω δ))}
    (h : (start :: (history.map Prod.fst ++ [now])).IsChain (· ≤ ·)) :
    Clocked start history ∧ lastTime start history ≤ now := by
  induction history generalizing start with
  | nil => exact ⟨.singleton start, (List.isChain_cons_cons.mp h).1⟩
  | cons entry rest ih =>
    obtain ⟨hnow, hrest⟩ := List.isChain_cons_cons.mp h
    obtain ⟨hclock, hlast⟩ := ih hrest
    exact ⟨clocked_cons.mpr ⟨hnow, hclock⟩, hlast⟩

theorem Moves.over {start : τ} {old lease : Lease τ ω δ} {history : List (τ × Option (Lease τ ω δ))}
    (h : Moves (some old) history) (hclock : Clocked start history) (hover : old.Over start)
    (hfinal : final (some old) history = some lease) (hattempt : old.attempt = lease.attempt) :
    lease.Over (lastTime start history) := by
  induction history generalizing start old with
  | nil =>
    cases hfinal
    exact hover
  | cons entry rest ih =>
    cases h with
    | cons hmove hrest =>
      obtain ⟨hnow, hlaterClock⟩ := clocked_cons.mp hclock
      obtain ⟨next, rfl, hnext⟩ := hmove.succeeds
      obtain ⟨last, hlast, hlater⟩ := hrest.succeeds
      have hsame : last = lease := Option.some.inj (hlast.symm.trans hfinal)
      subst hsame
      have hle := hnext.attempt
      have hle' := hlater.attempt
      exact ih hrest hlaterClock (hmove.over hnow (by omega) hover) hfinal (by omega)

def Follows (a b : Lease τ ω δ) : Prop := b.attempt = a.attempt + 1 ∧ a.Before b

theorem Moves.tenuresOf {start : τ} {lease : Lease τ ω δ} {history : List (τ × Option (Lease τ ω δ))}
    (hdated : Dated start lease) (hclock : Clocked start history) (h : Moves (some lease) history) :
    (Leasing.tenuresOf lease history).IsChain Follows ∧
      ∃ first, (Leasing.tenuresOf lease history).head? = some first ∧ first.attempt = lease.attempt ∧
        first.acquired = lease.acquired ∧ first.acquired ≤ first.ends := by
  induction history generalizing start lease with
  | nil => exact ⟨.singleton lease, lease, rfl, rfl, rfl, hdated.acquired_le_ends⟩
  | cons entry rest ih =>
    cases h with
    | @cons _ next now _ hmove hrest =>
      obtain ⟨hnow, hlater⟩ := clocked_cons.mp hclock
      obtain ⟨new, rfl, hsucceeds⟩ := hmove.succeeds
      have hnew : Dated now new :=
        hmove.dated (by rintro _ ⟨⟩; exact hdated.later hnow) new rfl
      obtain ⟨hchain, first, hfirst, hattempt, hacquired, hordered⟩ := ih hnew hlater hrest
      simp only [Leasing.tenuresOf]
      split_ifs with hsame
      · have hholder := hsucceeds.holder hsame.symm
        exact ⟨hchain, first, hfirst, hattempt.trans hsame, hacquired.trans hholder.2.symm, hordered⟩
      · -- only a takeover changes the attempt, and it finds the lease over
        have hbegin : new.attempt = lease.attempt + 1 ∧ lease.ends ≤ new.acquired := by
          cases hmove with
          | stay => exact absurd rfl hsame
          | grant _ h =>
            cases h with
            | takeOver _ hover hnext _ hbegin =>
              exact ⟨hnext, hbegin ▸ (hdated.later hnow).ends_le hover⟩
          | update _ _ hslot h =>
            cases hslot
            cases h with
            | renew _ _ hattempt => exact absurd hattempt hsame
            | release _ _ hattempt => exact absurd hattempt hsame
        refine ⟨List.isChain_cons.mpr ⟨fun second hsecond => ?_, hchain⟩, lease, rfl, rfl, rfl,
          hdated.acquired_le_ends⟩
        cases hfirst.symm.trans hsecond
        have hnext : first.attempt = lease.attempt + 1 := hattempt.trans hbegin.1
        exact ⟨hnext, by omega, hbegin.2.trans hacquired.ge, hordered⟩

theorem Moves.tenures {start : τ} {history : List (τ × Option (Lease τ ω δ))}
    (hclock : Clocked start history) (h : Moves none history) :
    (Leasing.tenures none history).IsChain Follows ∧
      ∀ first, (Leasing.tenures none history).head? = some first → first.attempt = 1 := by
  induction history generalizing start with
  | nil => exact ⟨.nil, nofun⟩
  | cons entry rest ih =>
    cases h with
    | @cons _ next now _ hmove hrest =>
      have hlater := (clocked_cons.mp hclock).2
      simp only [Leasing.tenures]
      cases hmove with
      | stay => exact ih hlater hrest
      | update _ _ hslot => cases hslot
      | grant lease hgrant =>
        obtain ⟨hchain, first, hfirst, hattempt, -⟩ := hrest.tenuresOf hgrant.dated hlater
        rw [tenures_some]
        refine ⟨hchain, fun other hother => ?_⟩
        cases hfirst.symm.trans hother
        cases hgrant with
        | first hone => exact hattempt.trans hone

theorem attempts_of_chain {leases : List (Lease τ ω δ)} {n : ℕ} (h : leases.IsChain Follows)
    (hfirst : ∀ first, leases.head? = some first → first.attempt = n) :
    leases.map Lease.attempt = List.range' n leases.length := by
  induction leases generalizing n with
  | nil => rfl
  | cons lease leases ih =>
    obtain ⟨hnext, hchain⟩ := List.isChain_cons.mp h
    have hone : lease.attempt = n := hfirst lease rfl
    rw [List.map_cons, List.length_cons, List.range'_succ, hone,
      ih hchain fun first hhead => by rw [(hnext first hhead).1, hone]]

theorem Moves.getLast?_tenuresOf {lease : Lease τ ω δ} {history : List (τ × Option (Lease τ ω δ))}
    (h : Moves (some lease) history) :
    (Leasing.tenuresOf lease history).getLast? = final (some lease) history := by
  induction history generalizing lease with
  | nil => rfl
  | cons entry rest ih =>
    cases h with
    | cons hmove hrest =>
      obtain ⟨next, rfl, -⟩ := hmove.succeeds
      simp only [Leasing.tenuresOf, final]
      split_ifs with hsame
      · exact ih hrest
      · rw [List.getLast?_cons, ih hrest]
        obtain ⟨last, hlast, -⟩ := hrest.succeeds
        rw [hlast]
        rfl

theorem Moves.getLast?_tenures {history : List (τ × Option (Lease τ ω δ))} (h : Moves none history) :
    (Leasing.tenures none history).getLast? = final none history := by
  induction history with
  | nil => rfl
  | cons entry rest ih =>
    cases h with
    | @cons _ next _ _ hmove hrest =>
      simp only [Leasing.tenures, final]
      cases next with
      | none => exact ih hrest
      | some lease =>
        rw [tenures_some]
        exact hrest.getLast?_tenuresOf

theorem pairwise_before {leases : List (Lease τ ω δ)} (h : leases.IsChain Follows) :
    leases.Pairwise Lease.Before := by
  have : IsTrans (Lease τ ω δ) Lease.Before := ⟨fun _ _ _ => Lease.Before.trans⟩
  exact (h.imp fun _ _ hfollows => hfollows.2).pairwise

end Leasing
