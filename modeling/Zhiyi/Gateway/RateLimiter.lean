import Zhiyi.Library.Python

set_option autoImplicit false

/-! The token bucket of a gateway target, in exact arithmetic. One turn of a task
carries the clock reading that it makes, so a schedule fixes the order of the
waiters, every early or late wake-up and every cancellation. -/
namespace Zhiyi
namespace Gateway
open Python

/-- The parameters that `__init__` accepts. -/
structure AsyncTokenBucket where
  rate : ℚ
  burst : ℤ
  rate_pos : 0 < rate
  burst_pos : 0 < burst

def AsyncTokenBucket.new (ratePerSecond : ℚ) (burst : ℤ) : Except PyError AsyncTokenBucket :=
  if hrate : 0 < ratePerSecond then
    if hburst : 0 < burst then .ok ⟨ratePerSecond, burst, hrate, hburst⟩
    else .error (.valueError "burst must be positive")
  else .error (.valueError "rate_per_second must be a positive finite number")

namespace AsyncTokenBucket

def capacity (b : AsyncTokenBucket) : ℚ := b.burst

/-- `1 - 1e-12`. -/
def threshold : ℚ := 1 - 1 / 10 ^ 12

/-- The acquire inside the lock, and the delay it has asked the sleeper for. -/
structure Sleeping where
  call : ℕ
  delay : ℚ
  deriving DecidableEq

structure Grant where
  call : ℕ
  time : ℚ
  deriving DecidableEq

/-- The bucket and its acquires, which are numbered as they are called. -/
structure State where
  tokens : ℚ
  updatedAt : ℚ
  lock : Option Sleeping
  waiting : List ℕ
  calls : ℕ
  granted : List Grant
  cancelled : List ℕ

/-- The state after `__init__` has read the clock. -/
def initial (b : AsyncTokenBucket) (start : ℚ) : State where
  tokens := b.capacity
  updatedAt := start
  lock := none
  waiting := []
  calls := 0
  granted := []
  cancelled := []

def refill (b : AsyncTokenBucket) (s : State) (now : ℚ) : State :=
  let elapsed := max 0 (now - s.updatedAt)
  { s with tokens := min b.capacity (s.tokens + elapsed * b.rate), updatedAt := now }

/-- One pass of the loop in `acquire`, inside the lock. -/
def attempt (b : AsyncTokenBucket) (s : State) (call : ℕ) (now : ℚ) : State :=
  let s := b.refill s now
  if threshold ≤ s.tokens then
    { s with tokens := max 0 (s.tokens - 1), lock := none, granted := s.granted ++ [⟨call, now⟩] }
  else { s with lock := some ⟨call, (1 - s.tokens) / b.rate⟩ }

inductive Event where
  | acquire
  | resume (call : ℕ)
  | cancel (call : ℕ)

structure Turn where
  time : ℚ
  event : Event

/-- One turn. Any waiter may be the next one inside a free lock, and the one inside may wake
    at any time; what nobody waits for does nothing. -/
def step (b : AsyncTokenBucket) (s : State) (turn : Turn) : State :=
  match turn.event with
  | .acquire => { s with waiting := s.waiting ++ [s.calls], calls := s.calls + 1 }
  | .resume call =>
    match s.lock with
    | none =>
      if call ∈ s.waiting then b.attempt { s with waiting := s.waiting.erase call } call turn.time else s
    | some sleeping => if sleeping.call = call then b.attempt s call turn.time else s
  | .cancel call =>
    if s.lock.map (·.call) = some call then { s with lock := none, cancelled := s.cancelled ++ [call] }
    else if call ∈ s.waiting then
      { s with waiting := s.waiting.erase call, cancelled := s.cancelled ++ [call] }
    else s

def run (b : AsyncTokenBucket) (start : ℚ) (schedule : List Turn) : State :=
  schedule.foldl b.step (b.initial start)

def NonDecreasing (start : ℚ) (schedule : List Turn) : Prop :=
  (start :: schedule.map (·.time)).IsChain (· ≤ ·)

/-- The grants of a window. -/
def grantsWithin (s : State) (opening length : ℚ) : ℕ :=
  s.granted.countP fun grant => decide (opening ≤ grant.time ∧ grant.time ≤ opening + length)

/-- A turn leaves the tokens, or refills them, or refills them and grants one acquire. -/
inductive Moves (b : AsyncTokenBucket) (s : State) (now : ℚ) (s' : State) : Prop
  | idle (htokens : s'.tokens = s.tokens) (hupdated : s'.updatedAt = s.updatedAt)
    (hgranted : s'.granted = s.granted)
  | refilled (htokens : s'.tokens = (b.refill s now).tokens) (hupdated : s'.updatedAt = now)
    (hgranted : s'.granted = s.granted)
  | granted (call : ℕ) (henough : threshold ≤ (b.refill s now).tokens)
    (htokens : s'.tokens = max 0 ((b.refill s now).tokens - 1)) (hupdated : s'.updatedAt = now)
    (hgranted : s'.granted = s.granted ++ [⟨call, now⟩])

variable {b : AsyncTokenBucket} {s : State}

theorem attempt_moves (s : State) (waiting : List ℕ) (call : ℕ) (now : ℚ) :
    b.Moves s now (b.attempt { s with waiting := waiting } call now) := by
  unfold attempt
  dsimp only
  split_ifs with henough
  · exact .granted call henough rfl rfl rfl
  · exact .refilled rfl rfl rfl

theorem step_moves (b : AsyncTokenBucket) (s : State) (turn : Turn) :
    b.Moves s turn.time (b.step s turn) := by
  unfold step
  split
  · exact .idle rfl rfl rfl
  · split
    · split_ifs
      · exact attempt_moves s _ _ _
      · exact .idle rfl rfl rfl
    · split_ifs
      · exact attempt_moves s s.waiting _ _
      · exact .idle rfl rfl rfl
  · split_ifs
    · exact .idle rfl rfl rfl
    · exact .idle rfl rfl rfl
    · exact .idle rfl rfl rfl

def available (b : AsyncTokenBucket) (s : State) (now : ℚ) : ℚ :=
  min b.capacity (s.tokens + (now - s.updatedAt) * b.rate)

theorem capacity_pos (b : AsyncTokenBucket) : 0 < b.capacity := by
  unfold capacity
  exact_mod_cast b.burst_pos

theorem refill_tokens {now : ℚ} (h : s.updatedAt ≤ now) : (b.refill s now).tokens = b.available s now := by
  simp only [refill, available, max_eq_right (sub_nonneg.mpr h)]

structure Kept (b : AsyncTokenBucket) (s : State) (now : ℚ) : Prop where
  nonneg : 0 ≤ s.tokens
  bounded : s.tokens ≤ b.capacity
  past : s.updatedAt ≤ now

theorem Kept.available_nonneg {now : ℚ} (h : b.Kept s now) : 0 ≤ b.available s now := by
  have hgain : 0 ≤ (now - s.updatedAt) * b.rate :=
    mul_nonneg (sub_nonneg.mpr h.past) b.rate_pos.le
  exact le_min b.capacity_pos.le (add_nonneg h.nonneg hgain)

theorem available_le (b : AsyncTokenBucket) (s : State) (now : ℚ) : b.available s now ≤ b.capacity :=
  min_le_left _ _

theorem available_later {now later : ℚ} (hle : now ≤ later) :
    b.available s later ≤ b.available s now + (later - now) * b.rate := by
  have hgain : 0 ≤ (later - now) * b.rate := mul_nonneg (sub_nonneg.mpr hle) b.rate_pos.le
  unfold available
  rw [← min_add_add_right]
  refine min_le_min (by linarith) (le_of_eq ?_)
  ring

theorem available_refill {now later : ℚ} (hpast : s.updatedAt ≤ now) (hle : now ≤ later) {s' : State}
    (htokens : s'.tokens = (b.refill s now).tokens) (hupdated : s'.updatedAt = now) :
    b.available s' later = b.available s later := by
  have hgain : 0 ≤ (later - now) * b.rate := mul_nonneg (sub_nonneg.mpr hle) b.rate_pos.le
  unfold available
  rw [htokens, refill_tokens hpast, hupdated]
  unfold available
  have hsum : s.tokens + (now - s.updatedAt) * b.rate + (later - now) * b.rate =
      s.tokens + (later - s.updatedAt) * b.rate := by ring
  rw [← min_add_add_right, hsum, ← min_assoc, min_eq_left (by linarith : b.capacity ≤ _)]

theorem threshold_le_one : threshold ≤ 1 := by norm_num [threshold]

theorem threshold_pos : 0 < threshold := by norm_num [threshold]

/-- A grant takes at least the threshold, because the clamp at zero takes less than the
    tolerance away from one token. -/
theorem grant_takes {tokens : ℚ} (h : threshold ≤ tokens) : threshold + max 0 (tokens - 1) ≤ tokens := by
  rcases max_cases 0 (tokens - 1) with ⟨hmax, -⟩ | ⟨hmax, -⟩
  · rw [hmax]
    linarith
  · rw [hmax]
    linarith [threshold_le_one]

theorem Kept.step {now : ℚ} {turn : Turn} (h : b.Kept s now) (hle : now ≤ turn.time) :
    b.Kept (b.step s turn) turn.time := by
  have hpast := h.past.trans hle
  have hkept : b.Kept s turn.time := ⟨h.nonneg, h.bounded, hpast⟩
  have hnonneg := hkept.available_nonneg
  have hbound := b.available_le s turn.time
  cases b.step_moves s turn with
  | idle htokens hupdated =>
    exact ⟨htokens ▸ h.nonneg, htokens ▸ h.bounded, hupdated ▸ hpast⟩
  | refilled htokens hupdated =>
    rw [refill_tokens hpast] at htokens
    exact ⟨htokens ▸ hnonneg, htokens ▸ hbound, hupdated.le⟩
  | granted call henough htokens hupdated =>
    rw [refill_tokens hpast] at htokens
    refine ⟨htokens ▸ le_max_left _ _, ?_, hupdated.le⟩
    rw [htokens]
    exact max_le b.capacity_pos.le (by linarith)

theorem available_step_of_no_grant {now later : ℚ} {turn : Turn} (h : b.Kept s now)
    (hle : now ≤ turn.time) (hlater : turn.time ≤ later)
    (hgranted : (b.step s turn).granted = s.granted) :
    b.available (b.step s turn) later = b.available s later := by
  cases b.step_moves s turn with
  | idle htokens hupdated =>
    unfold available
    rw [htokens, hupdated]
  | refilled htokens hupdated => exact available_refill (h.past.trans hle) hlater htokens hupdated
  | granted call _ _ _ hnew =>
    rw [hnew] at hgranted
    simp at hgranted

theorem available_step {now : ℚ} {turn : Turn} (h : b.Kept s now) (hle : now ≤ turn.time) :
    ((b.step s turn).granted = s.granted ∧
      b.available (b.step s turn) turn.time = b.available s turn.time) ∨
    ∃ call, (b.step s turn).granted = s.granted ++ [⟨call, turn.time⟩] ∧
      threshold + b.available (b.step s turn) turn.time ≤ b.available s turn.time := by
  have hpast := h.past.trans hle
  have hmoves := b.step_moves s turn
  by_cases hgranted : (b.step s turn).granted = s.granted
  · exact .inl ⟨hgranted, available_step_of_no_grant h hle le_rfl hgranted⟩
  · cases hmoves with
    | idle _ _ hsame => exact absurd hsame hgranted
    | refilled _ _ hsame => exact absurd hsame hgranted
    | granted call henough htokens hupdated hnew =>
      refine .inr ⟨call, hnew, ?_⟩
      have hafter : b.available (b.step s turn) turn.time ≤ (b.step s turn).tokens := by
        unfold available
        rw [hupdated, sub_self, zero_mul, add_zero]
        exact min_le_right _ _
      rw [refill_tokens hpast] at henough htokens
      rw [htokens] at hafter
      linarith [grant_takes henough]

/-- The grants of a window so far, by where the clock stands: before the window, inside it,
    or after it. -/
structure Counted (b : AsyncTokenBucket) (s : State) (opening length now : ℚ) : Prop where
  before : now < opening → grantsWithin s opening length = 0
  inside : opening ≤ now → now ≤ opening + length →
    grantsWithin s opening length * threshold + b.available s now ≤ b.capacity + b.rate * (now - opening)
  after : opening + length < now → grantsWithin s opening length * threshold ≤ b.capacity + b.rate * length

theorem grantsWithin_same {s' : State} (h : s'.granted = s.granted) (opening length : ℚ) :
    grantsWithin s' opening length = grantsWithin s opening length := by
  unfold grantsWithin
  rw [h]

theorem grantsWithin_grant {s' : State} {call : ℕ} {time : ℚ}
    (h : s'.granted = s.granted ++ [⟨call, time⟩]) (opening length : ℚ) :
    grantsWithin s' opening length = grantsWithin s opening length +
      if opening ≤ time ∧ time ≤ opening + length then 1 else 0 := by
  unfold grantsWithin
  rw [h, List.countP_append, List.countP_singleton]
  simp only [decide_eq_true_eq]

theorem Counted.wait {opening length now later : ℚ} (h : b.Counted s opening length now)
    (hkept : b.Kept s now) (hlength : 0 ≤ length) (hle : now ≤ later) :
    b.Counted s opening length later := by
  have hrate := b.rate_pos
  have hcapacity := b.capacity_pos
  have hgain := available_later (b := b) (s := s) hle
  refine ⟨fun hlater => h.before (hle.trans_lt hlater), fun hopen hclose => ?_, fun hclose => ?_⟩
  · rcases lt_or_ge now opening with hearly | hopened
    · rw [h.before hearly]
      have := b.available_le s later
      have : 0 ≤ b.rate * (later - opening) := mul_nonneg hrate.le (by linarith)
      push_cast
      linarith
    · have hinside := h.inside hopened (hle.trans hclose)
      have : b.rate * (later - opening) = b.rate * (now - opening) + (later - now) * b.rate := by ring
      linarith
  · rcases lt_or_ge now opening with hearly | hopened
    · rw [h.before hearly]
      have : 0 ≤ b.rate * length := mul_nonneg hrate.le hlength
      push_cast
      linarith
    · rcases le_or_gt now (opening + length) with hstill | hclosed
      · have hinside := h.inside hopened hstill
        have hnonneg := hkept.available_nonneg
        have : b.rate * (now - opening) ≤ b.rate * length :=
          mul_le_mul_of_nonneg_left (by linarith) hrate.le
        linarith
      · exact h.after hclosed

theorem Counted.step {opening length now : ℚ} {turn : Turn} (h : b.Counted s opening length now)
    (hkept : b.Kept s now) (hlength : 0 ≤ length) (hle : now ≤ turn.time) :
    b.Counted (b.step s turn) opening length turn.time := by
  have hwait := h.wait hkept hlength hle
  rcases available_step hkept hle with ⟨hgranted, hsame⟩ | ⟨call, hgranted, htakes⟩
  · have hcount := grantsWithin_same hgranted opening length
    refine ⟨fun hlt => ?_, fun hopen hclose => ?_, fun hclose => ?_⟩
    · rw [hcount, hwait.before hlt]
    · rw [hcount, hsame]
      exact hwait.inside hopen hclose
    · rw [hcount]
      exact hwait.after hclose
  · have hcount := grantsWithin_grant hgranted opening length
    refine ⟨fun hlt => ?_, fun hopen hclose => ?_, fun hclose => ?_⟩
    · rw [hcount, hwait.before hlt, if_neg fun hmem => absurd hmem.1 (not_le.mpr hlt)]
    · have hinside := hwait.inside hopen hclose
      rw [hcount, if_pos ⟨hopen, hclose⟩]
      push_cast
      linarith
    · rw [hcount, if_neg fun hmem => absurd hmem.2 (not_le.mpr hclose), Nat.add_zero]
      exact hwait.after hclose

/-- Every acquire is at one place: inside or before the lock, granted, or cancelled. -/
def places (s : State) : List ℕ :=
  (s.lock.map (·.call)).toList ++ s.waiting ++ s.granted.map (·.call) ++ s.cancelled

def Placed (s : State) : Prop := (places s).Perm (List.range s.calls)

theorem attempt_places {call : ℕ} {waiting : List ℕ} (now : ℚ)
    (h : (call :: (waiting ++ s.granted.map (·.call) ++ s.cancelled)).Perm (List.range s.calls)) :
    Placed (b.attempt { s with waiting := waiting } call now) := by
  unfold Placed attempt refill
  dsimp only
  split_ifs
  · refine List.Perm.trans (List.perm_iff_count.mpr fun a => ?_) h
    simp only [places, Option.map_none, Option.toList_none, List.map_append, List.map_cons, List.map_nil,
      List.count_append, List.count_cons, List.count_nil]
    omega
  · simpa [places] using h

theorem Placed.step (h : Placed s) (turn : Turn) : Placed (b.step s turn) := by
  have hcount := List.perm_iff_count.mp h
  simp only [places, List.count_append] at hcount
  unfold AsyncTokenBucket.step
  split
  · refine List.perm_iff_count.mpr fun a => ?_
    simp only [places, List.range_succ, List.count_append]
    have := hcount a
    omega
  · next call =>
    split
    · next hlock =>
      split_ifs with hmem
      · refine attempt_places _ (List.Perm.trans (List.perm_iff_count.mpr fun a => ?_) h)
        have herase := (List.perm_cons_erase hmem).count_eq a
        simp only [places, hlock, Option.map_none, Option.toList_none, List.count_append, List.count_cons,
          List.count_nil] at herase ⊢
        omega
      · exact h
    · next sleeping hlock =>
      split_ifs with hcall
      · refine attempt_places _ (List.Perm.trans ?_ h)
        simp [places, hlock, hcall]
      · exact h
  · next call =>
    split_ifs with hlock hmem
    · refine List.Perm.trans (List.perm_iff_count.mpr fun a => ?_) h
      simp only [places, hlock, Option.map_none, Option.toList_none, Option.toList_some,
        List.count_append, List.count_nil]
      omega
    · refine List.Perm.trans (List.perm_iff_count.mpr fun a => ?_) h
      have herase := (List.perm_cons_erase hmem).count_eq a
      simp only [places, List.count_append, List.count_cons, List.count_nil] at herase ⊢
      omega
    · exact h

theorem Placed.not_granted (h : Placed s) {call : ℕ} (hcancelled : call ∈ s.cancelled) :
    ∀ grant ∈ s.granted, grant.call ≠ call := by
  have hnodup : (places s).Nodup := h.nodup_iff.mpr List.nodup_range
  rintro grant hgrant rfl
  exact (List.nodup_append.mp hnodup).2.2 _
    (List.mem_append_right _ (List.mem_map_of_mem hgrant)) _ hcancelled rfl

/-- What every turn keeps, for one window. -/
structure Sound (b : AsyncTokenBucket) (s : State) (opening length now : ℚ) : Prop where
  kept : b.Kept s now
  counted : b.Counted s opening length now
  placed : Placed s

theorem sound_initial (b : AsyncTokenBucket) (start opening length : ℚ) (hlength : 0 ≤ length) :
    b.Sound (b.initial start) opening length start where
  kept := ⟨b.capacity_pos.le, le_rfl, le_rfl⟩
  counted := by
    have hcount : grantsWithin (b.initial start) opening length = 0 := rfl
    have hrate := b.rate_pos
    refine ⟨fun _ => hcount, fun hopen _ => ?_, fun _ => ?_⟩
    · rw [hcount]
      have := b.available_le (b.initial start) start
      have : 0 ≤ b.rate * (start - opening) := mul_nonneg hrate.le (by linarith)
      push_cast
      linarith
    · rw [hcount]
      have := b.capacity_pos
      have : 0 ≤ b.rate * length := mul_nonneg hrate.le hlength
      push_cast
      linarith
  placed := List.Perm.refl _

theorem Sound.foldl {opening length : ℚ} (hlength : 0 ≤ length) (schedule : List Turn) {now : ℚ}
    (h : b.Sound s opening length now) (hclock : NonDecreasing now schedule) :
    ∃ later ∈ now :: schedule.map (·.time), b.Sound (schedule.foldl b.step s) opening length later := by
  induction schedule generalizing s now with
  | nil => exact ⟨now, List.mem_cons_self, h⟩
  | cons turn schedule ih =>
    obtain ⟨hle, hrest⟩ := List.isChain_cons_cons.mp hclock
    obtain ⟨later, hlater, hsound⟩ := ih
      ⟨h.kept.step hle, h.counted.step h.kept hlength hle, h.placed.step turn⟩ hrest
    exact ⟨later, List.mem_cons_of_mem _ hlater, hsound⟩

theorem run_sound (b : AsyncTokenBucket) (start opening : ℚ) {length : ℚ} (hlength : 0 ≤ length)
    {schedule : List Turn} (hclock : NonDecreasing start schedule) :
    ∃ now ∈ start :: schedule.map (·.time), b.Sound (b.run start schedule) opening length now :=
  (b.sound_initial start opening length hlength).foldl hlength schedule hclock

theorem NonDecreasing.le_last {start : ℚ} {schedule : List Turn} {turn : Turn}
    (h : NonDecreasing start (schedule ++ [turn])) :
    NonDecreasing start schedule ∧ ∀ now ∈ start :: schedule.map (·.time), now ≤ turn.time := by
  unfold NonDecreasing at h ⊢
  rw [List.map_append, ← List.cons_append] at h
  refine ⟨(List.isChain_append.mp h).1, fun now hnow => ?_⟩
  exact (List.pairwise_append.mp h.pairwise).2.2 now hnow _ List.mem_cons_self

theorem Sound.bound {opening length now : ℚ} (h : b.Sound s opening length now) (hlength : 0 ≤ length) :
    grantsWithin s opening length * threshold ≤ b.capacity + b.rate * length := by
  have hrate := b.rate_pos
  have hcapacity := b.capacity_pos
  have hfull : 0 ≤ b.rate * length := mul_nonneg hrate.le hlength
  rcases lt_or_ge now opening with hearly | hopened
  · rw [h.counted.before hearly]
    push_cast
    linarith
  · rcases le_or_gt now (opening + length) with hstill | hclosed
    · have hinside := h.counted.inside hopened hstill
      have hnonneg := h.kept.available_nonneg
      have : b.rate * (now - opening) ≤ b.rate * length :=
        mul_le_mul_of_nonneg_left (by linarith) hrate.le
      linarith
    · exact h.counted.after hclosed

/-- In every schedule of acquires, wake-ups and cancellations the grants of a window are
    bounded by the burst and the rate; a cancelled acquire is never granted, and a turn without
    a grant leaves what is available later as it was; the tokens stay within the bucket. -/
theorem window_bound (b : AsyncTokenBucket) (start : ℚ) (schedule : List Turn)
    (hclock : NonDecreasing start schedule) :
    (∀ opening length : ℚ, 0 ≤ length →
      grantsWithin (b.run start schedule) opening length * (1 - 1 / 10 ^ 12) ≤
        b.burst + b.rate * length) ∧
    (∀ call ∈ (b.run start schedule).cancelled,
      ∀ grant ∈ (b.run start schedule).granted, grant.call ≠ call) ∧
    (∀ turn, NonDecreasing start (schedule ++ [turn]) →
      (b.run start (schedule ++ [turn])).granted = (b.run start schedule).granted →
      ∀ later, turn.time ≤ later →
        b.available (b.run start (schedule ++ [turn])) later = b.available (b.run start schedule) later) ∧
    0 ≤ (b.run start schedule).tokens ∧ (b.run start schedule).tokens ≤ b.capacity := by
  obtain ⟨now, -, hsound⟩ := b.run_sound start 0 le_rfl hclock
  refine ⟨fun opening length hlength => ?_, fun call hcancelled => hsound.placed.not_granted hcancelled,
    fun turn hlast hgranted later hlater => ?_, hsound.kept.nonneg, hsound.kept.bounded⟩
  · obtain ⟨_, -, hwindow⟩ := b.run_sound start opening hlength hclock
    exact hwindow.bound hlength
  · obtain ⟨now, hnow, hbefore⟩ := b.run_sound start 0 le_rfl hlast.le_last.1
    unfold run at hgranted ⊢
    rw [List.foldl_append] at hgranted ⊢
    exact available_step_of_no_grant hbefore.kept (hlast.le_last.2 now hnow) hlater hgranted

/-- A bucket of one token a second: the second acquire asks for a second of sleep, wakes early,
    and is granted when it wakes late; the third is cancelled inside the lock. -/
def sampleBucket : AsyncTokenBucket := ⟨1, 1, by norm_num, by norm_num⟩

def sampleSchedule : List Turn := [⟨0, .acquire⟩, ⟨0, .resume 0⟩, ⟨0, .acquire⟩, ⟨0, .resume 1⟩,
  ⟨1 / 2, .resume 1⟩, ⟨1, .acquire⟩, ⟨5 / 4, .resume 1⟩, ⟨5 / 4, .resume 2⟩, ⟨3 / 2, .cancel 2⟩]

theorem window_bound_sampleSchedule :
    (sampleBucket.run 0 sampleSchedule).granted = [⟨0, 0⟩, ⟨1, 5 / 4⟩] ∧
    (sampleBucket.run 0 sampleSchedule).cancelled = [2] ∧
    (grantsWithin (sampleBucket.run 0 sampleSchedule) 0 (5 / 4) : ℚ) * (1 - 1 / 10 ^ 12) ≤ 1 + 1 * (5 / 4) := by
  refine ⟨by decide +kernel, by decide +kernel, ?_⟩
  have hclock : NonDecreasing 0 sampleSchedule := by
    unfold NonDecreasing sampleSchedule
    norm_num
  simpa [sampleBucket] using (sampleBucket.window_bound 0 sampleSchedule hclock).1 0 (5 / 4) (by norm_num)

end AsyncTokenBucket
end Gateway
end Zhiyi
