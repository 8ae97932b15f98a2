import Zhiyi.Gateway.CircuitBreaker
import Zhiyi.Library.Machine

set_option autoImplicit false

/-! Any number of calls on one circuit breaker, each reporting its own outcome
once, at any later time. The calls of the current epoch are those admitted since
the breaker last opened. -/
namespace Zhiyi
namespace Gateway
open Interleaving

structure AdmittedCall where
  epoch : ℕ
  inFlight : Bool
  deriving DecidableEq

structure BreakerSystem where
  breaker : CircuitBreaker
  openings : ℕ
  calls : List AdmittedCall
  deriving DecidableEq

/-- A new call asks for admission, or the `index`-th admitted call reports. -/
inductive BreakerLabel where
  | beforeCall (now : ℚ)
  | report (index : ℕ) (r : Report) (now : ℚ)
  deriving DecidableEq

namespace BreakerSystem

def step (s : BreakerSystem) (label : BreakerLabel) : BreakerSystem :=
  match label with
  | .beforeCall now =>
    let (breaker, admitted) := s.breaker.beforeCall now
    { s with breaker := breaker
             calls := if admitted then s.calls ++ [⟨s.openings, true⟩] else s.calls }
  | .report index r now =>
    match s.calls[index]? with
    | some ⟨epoch, true⟩ =>
      let breaker := s.breaker.report r now
      { breaker := breaker
        openings :=
          if breaker.state = .open ∧ s.breaker.state ≠ .open then s.openings + 1 else s.openings
        calls := s.calls.set index ⟨epoch, false⟩ }
    | _ => s

def machine (threshold : ℕ) (recoverySeconds : ℚ) : Machine BreakerSystem BreakerLabel where
  start := ⟨CircuitBreaker.new threshold recoverySeconds, 0, []⟩
  step := step

/-- In flight, and admitted since the breaker last opened. -/
def isCurrent (openings : ℕ) (call : AdmittedCall) : Bool := call.inFlight && call.epoch == openings

def current (s : BreakerSystem) : ℕ := s.calls.countP (isCurrent s.openings)

/-- A half-open breaker has at most one call of its epoch in flight. -/
def SingleProbe (s : BreakerSystem) : Prop := s.breaker.state = .halfOpen → s.current ≤ 1

/-- The label is the report of a call admitted before the breaker last opened. -/
def LateReport (s : BreakerSystem) : BreakerLabel → Prop
  | .report index _ _ => ∃ epoch, s.calls[index]? = some ⟨epoch, true⟩ ∧ epoch < s.openings
  | .beforeCall _ => False

def Probing (s : BreakerSystem) : Prop := s.breaker.state = .halfOpen ∧ 0 < s.current

/-- A late report leaves the probe in progress: the breaker stays half-open with
    its probe marked active. -/
def KeepsProbe (s : BreakerSystem) (label : BreakerLabel) : Prop :=
  s.LateReport label → s.Probing →
    (s.step label).breaker.state = .halfOpen ∧ (s.step label).breaker.probeActive = true

/-- No call admitted before the breaker last opened reports while the half-open
    breaker has its probe marked active. -/
def Timely (s : BreakerSystem) (label : BreakerLabel) : Prop :=
  s.LateReport label → ¬ (s.breaker.state = .halfOpen ∧ s.breaker.probeActive = true)

structure Counted (s : BreakerSystem) : Prop where
  past : ∀ call ∈ s.calls, call.epoch ≤ s.openings
  halfOpen : s.breaker.state = .halfOpen → s.current = if s.breaker.probeActive then 1 else 0
  opened : s.breaker.state = .open → s.current = 0

theorem current_fresh {openings : ℕ} {calls : List AdmittedCall}
    (past : ∀ call ∈ calls, call.epoch ≤ openings) : calls.countP (isCurrent (openings + 1)) = 0 := by
  rw [List.countP_eq_zero]
  intro call hcall
  have := past call hcall
  simp only [isCurrent, Bool.and_eq_true, beq_iff_eq, not_and]
  intro _ heq
  omega

theorem current_set {calls : List AdmittedCall} {index epoch openings : ℕ}
    (h : calls[index]? = some ⟨epoch, true⟩) :
    (calls.set index ⟨epoch, false⟩).countP (isCurrent openings) =
      calls.countP (isCurrent openings) - if epoch = openings then 1 else 0 := by
  obtain ⟨hlt, hget⟩ := List.getElem?_eq_some_iff.mp h
  rw [List.countP_set hlt, hget]
  by_cases he : epoch = openings <;> simp [isCurrent, he]

theorem Counted.beforeCall {s : BreakerSystem} (hs : s.Counted) (now : ℚ) :
    (s.step (.beforeCall now)).Counted := by
  have grown : ∀ call ∈ s.calls ++ [⟨s.openings, true⟩], call.epoch ≤ s.openings := by
    intro call hcall
    rcases List.mem_append.mp hcall with hcall | hcall
    · exact hs.past call hcall
    · rw [List.mem_singleton.mp hcall]
  have added : (s.calls ++ [AdmittedCall.mk s.openings true]).countP (isCurrent s.openings) =
      s.current + 1 := by
    simp [current, isCurrent]
  rcases s.breaker.beforeCall_cases now with ⟨hstate, hb⟩ | ⟨hstate, hb⟩ | hb
  · constructor
    all_goals simp only [step, hb, if_true]
    · exact grown
    · simp [hstate]
    · simp [hstate]
  · have hnone : s.current = 0 := by
      rcases hstate with ⟨hhalf, hfree⟩ | hopen
      · simpa [hfree] using hs.halfOpen hhalf
      · exact hs.opened hopen
    constructor
    all_goals simp only [step, hb, if_true]
    · exact grown
    · intro _
      rw [current, added, hnone]
    · simp
  · constructor
    all_goals simp only [step, hb, Bool.false_eq_true, if_false]
    · exact hs.past
    · exact hs.halfOpen
    · exact hs.opened

theorem Counted.report {s : BreakerSystem} (hs : s.Counted) {index : ℕ} {r : Report} {now : ℚ}
    (ht : s.Timely (.report index r now)) : (s.step (.report index r now)).Counted := by
  simp only [step]
  split
  case h_2 => exact hs
  case h_1 epoch hget =>
    have hepoch : epoch ≤ s.openings := hs.past _ (List.mem_of_getElem? hget)
    have kept : ∀ call ∈ s.calls.set index ⟨epoch, false⟩, call.epoch ≤ s.openings := by
      intro call hcall
      rcases List.mem_or_eq_of_mem_set hcall with hcall | rfl
      · exact hs.past call hcall
      · exact hepoch
    constructor
    · intro call hcall
      have := kept call hcall
      split_ifs <;> simp only <;> omega
    · intro hhalf
      obtain ⟨hfree, hbefore⟩ := s.breaker.report_frees r now hhalf
      rw [hfree, if_neg Bool.false_ne_true]
      have hsame : ¬ ((s.breaker.report r now).state = .open ∧ s.breaker.state ≠ .open) := by
        rintro ⟨hopen, -⟩
        rw [show (s.breaker.report r now).state = .halfOpen from hhalf] at hopen
        cases hopen
      simp only [current, if_neg hsame, current_set hget]
      have hcount := hs.halfOpen hbefore
      rw [current] at hcount
      rw [hcount]
      -- the reporting call is the probe, or the probe mark was not set
      rcases Nat.lt_or_eq_of_le hepoch with hlate | rfl
      · have hnot := ht ⟨epoch, hget, hlate⟩
        simp_all
      · by_cases hactive : s.breaker.probeActive = true <;> simp [hactive]
    · intro hopen
      by_cases hbefore : s.breaker.state = .open
      · have hnone := hs.opened hbefore
        simp only [current, hbefore, ne_eq, not_true_eq_false, and_false, if_false,
          current_set hget]
        rw [current] at hnone
        omega
      · rw [current, if_pos ⟨hopen, hbefore⟩]
        exact current_fresh kept

theorem Counted.singleProbe {s : BreakerSystem} (hs : s.Counted) : s.SingleProbe := by
  intro hhalf
  rw [hs.halfOpen hhalf]
  split_ifs <;> omega

/-- Every step of the history is timely where it is taken. -/
def TimelyFrom (s : BreakerSystem) : List BreakerLabel → Prop
  | [] => True
  | label :: h => s.Timely label ∧ (s.step label).TimelyFrom h

/-- The single-probe law along a history: in every state it reaches, and at every
    late report. -/
def ProbeLawFrom (s : BreakerSystem) : List BreakerLabel → Prop
  | [] => s.SingleProbe
  | label :: h => s.SingleProbe ∧ s.KeepsProbe label ∧ (s.step label).ProbeLawFrom h

theorem Counted.step {s : BreakerSystem} (hs : s.Counted) {label : BreakerLabel}
    (ht : s.Timely label) : (s.step label).Counted := by
  cases label with
  | beforeCall now => exact hs.beforeCall now
  | report index r now => exact hs.report ht

theorem keepsProbe_of_timely {s : BreakerSystem} (hs : s.Counted) {label : BreakerLabel}
    (ht : s.Timely label) : s.KeepsProbe label := by
  intro hlate ⟨hhalf, hpos⟩
  have hcount := hs.halfOpen hhalf
  have hfree : s.breaker.probeActive = false := by
    simpa [hhalf] using ht hlate
  rw [hfree] at hcount
  simp [hcount] at hpos

theorem timely_of_keepsProbe {s : BreakerSystem} (hs : s.Counted) {label : BreakerLabel}
    (hk : s.KeepsProbe label) : s.Timely label := by
  rintro hlate ⟨hhalf, hactive⟩
  have hpos : 0 < s.current := by
    rw [hs.halfOpen hhalf, if_pos hactive]
    exact Nat.one_pos
  obtain ⟨hstate, hprobe⟩ := hk hlate ⟨hhalf, hpos⟩
  cases label with
  | beforeCall now => exact hlate
  | report index r now =>
    obtain ⟨epoch, hget, -⟩ := hlate
    simp only [step, hget] at hstate hprobe
    simp [(s.breaker.report_frees r now hstate).1] at hprobe

theorem probeLawFrom_iff {s : BreakerSystem} (hs : s.Counted) (h : List BreakerLabel) :
    s.ProbeLawFrom h ↔ s.TimelyFrom h := by
  induction h generalizing s with
  | nil => exact iff_of_true hs.singleProbe trivial
  | cons label h ih =>
    constructor
    · rintro ⟨-, hk, hrest⟩
      have ht := timely_of_keepsProbe hs hk
      exact ⟨ht, (ih (hs.step ht)).mp hrest⟩
    · rintro ⟨ht, hrest⟩
      exact ⟨hs.singleProbe, keepsProbe_of_timely hs ht, (ih (hs.step ht)).mpr hrest⟩

theorem counted_start (threshold : ℕ) (recoverySeconds : ℚ) :
    (machine threshold recoverySeconds).start.Counted := by
  constructor <;> simp [machine, CircuitBreaker.new]

/-- Along a history of calls on a fresh breaker there is a single half-open probe
    that no late report disturbs, exactly when no call admitted before the last
    opening reports while the probe is marked active. -/
theorem single_probe_iff_timely (threshold : ℕ) (recoverySeconds : ℚ) (h : List BreakerLabel) :
    (machine threshold recoverySeconds).start.ProbeLawFrom h ↔
      (machine threshold recoverySeconds).start.TimelyFrom h :=
  probeLawFrom_iff (counted_start threshold recoverySeconds) h

/-- Two calls start, one fails and opens the breaker. After the recovery time a
    probe starts; the cancellation of the other early call frees it, and a second
    probe is admitted beside the first. -/
theorem late_cancellation_admits_second_probe :
    ¬ (machine 1 30).start.ProbeLawFrom [
      .beforeCall 0, .beforeCall 0, .report 0 (.failure .timeout) 1, .beforeCall 31,
      .report 1 .cancelled 32, .beforeCall 33] := by
  rw [probeLawFrom_iff (counted_start 1 30)]
  rintro ⟨-, -, -, -, hlate, -⟩
  exact hlate ⟨0, by decide +kernel, by decide +kernel⟩ (by decide +kernel)

end BreakerSystem
end Gateway
end Zhiyi
