import Zhiyi.Gateway.Learning
import Zhiyi.Library.Machine

set_option autoImplicit false

/-! Every admission is reported before its call ends, unless a closed stream goes
on to another attempt. Over any number of tidy calls a half-open breaker with an
active probe has a call in flight. -/
namespace Zhiyi
namespace Gateway
open Python Interleaving

variable {O : Objects} {P : Type}

/-- Every admission is followed by exactly one report on the same breaker before the
    next admission and before the end. The first argument is the unreported
    admission. -/
def Balanced : Option TargetKey → List (Event O) → Prop
  | admission, [] => admission = none
  | admission, .admitted key :: events => admission = none ∧ Balanced (some key) events
  | admission, .reported key _ _ _ :: events => admission = some key ∧ Balanced none events
  | admission, .invoked _ _ :: events => Balanced admission events
  | admission, .refused _ :: events => Balanced admission events
  | admission, .emitted _ :: events => Balanced admission events
  | admission, .slept _ :: events => Balanced admission events
  | admission, .yielded _ :: events => Balanced admission events

instance decidableBalanced : (admission : Option TargetKey) → (events : List (Event O)) →
    Decidable (Balanced admission events)
  | admission, [] => inferInstanceAs (Decidable (admission = none))
  | admission, .admitted key :: events =>
    have := decidableBalanced (some key) events
    inferInstanceAs (Decidable (admission = none ∧ _))
  | admission, .reported key _ _ _ :: events =>
    have := decidableBalanced none events
    inferInstanceAs (Decidable (admission = some key ∧ _))
  | admission, .invoked _ _ :: events => decidableBalanced admission events
  | admission, .refused _ :: events => decidableBalanced admission events
  | admission, .emitted _ :: events => decidableBalanced admission events
  | admission, .slept _ :: events => decidableBalanced admission events
  | admission, .yielded _ :: events => decidableBalanced admission events

theorem Balanced.append {admission : Option TargetKey} {events : List (Event O)}
    (h : Balanced admission events) (more : List (Event O)) :
    Balanced admission (events ++ more) ↔ Balanced none more := by
  induction events generalizing admission with
  | nil =>
    obtain rfl : admission = none := h
    rfl
  | cons event events ih =>
    cases event with
    | admitted key => simpa [Balanced, h.1] using ih h.2
    | reported key r before after => simpa [Balanced, h.1] using ih h.2
    | _ => exact ih h

theorem Quiet.balanced {events : List (Event O)} (h : Quiet events) (admission : Option TargetKey)
    (more : List (Event O)) : Balanced admission (events ++ more) ↔ Balanced admission more := by
  induction events with
  | nil => rfl
  | cons event events ih =>
    obtain ⟨hevent, hevents⟩ := List.forall_mem_cons.mp h
    cases event <;> simp_all [Balanced, Event.isQuiet, Quiet]

theorem AttemptTrace.balanced {breakers : Breakers} {target : ModelTarget} {script : AttemptScript P}
    {deadline : ℚ} {requestId : String} {early : Except Exn Unit} {reported : Bool}
    {events : List (Event O)}
    (h : AttemptTrace breakers target script deadline requestId early reported events) :
    Balanced none events ↔ reported = true := by
  have hquiet : ∀ {quiet : List (Event O)}, Quiet quiet → Balanced none quiet := by
    intro quiet h
    simpa [Balanced] using (h.balanced none []).mpr rfl
  cases h with
  | unadmitted _ h hnot => exact iff_of_true (hquiet h) rfl
  | early e quiet h hadmits hearly =>
    exact iff_of_true ⟨rfl, rfl, hquiet h⟩ rfl
  | invoked at_ r items quiet hitems h hadmits hearly =>
    exact iff_of_true ⟨rfl, (hitems.balanced _ _).mpr ⟨rfl, hquiet h⟩⟩ rfl
  | left at_ items hitems hadmits hearly =>
    have hopen := hitems.balanced (some target.key) []
    rw [List.append_nil] at hopen
    simp [Balanced, hopen]

section
variable {R : Type} {attempt : CallState O P → ModelTarget → AttemptScript P →
    CallState O P × AttemptEnd R} {raised : Exn → R} {deadline : ℚ} {requestId : String}
  {early : AttemptStep P → Except Exn Unit} {leaks : AttemptStep P → Prop}

/-- The call goes on only with every admission reported. -/
theorem Traced.balanced_rule (h : Traced attempt deadline requestId early leaks) :
    LoopRule attempt raised (fun _ => True) (fun _ => True)
      (fun s => Balanced none s.world.events ∧ ∀ step ∈ s.steps, ¬ leaks step)
      (fun s _ => Balanced none s.world.events ↔ ∀ step ∈ s.steps, ¬ leaks step) where
  attempt s target script _ hs := by
    obtain ⟨reported, ⟨new, hnew, htrace⟩, hleaks, hexited⟩ :=
      h.trace (s.beginAttempt target script) target script
    have hsteps := h.steps (s.beginAttempt target script) target script
    have hbalanced : Balanced none (attempt (s.beginAttempt target script) target script).1.world.events ↔
        reported = true := by
      rw [hnew]
      exact (hs.1.append new).trans htrace.balanced
    have hclean : (∀ step ∈ (attempt (s.beginAttempt target script) target script).1.steps,
        ¬ leaks step) ↔ reported = true := by
      rw [hsteps]
      simp only [CallState.beginAttempt, List.forall_mem_append, List.forall_mem_singleton]
      rw [and_iff_right hs.2, ← Bool.not_eq_false]
      exact not_congr hleaks.symm
    split
    · next t result heq =>
      rw [heq] at hbalanced hclean
      exact hbalanced.trans hclean.symm
    · next t record error heq =>
      have hreported : reported = true := by
        by_contra hnot
        obtain ⟨ended, hended⟩ := hexited (by simpa using hnot)
        simp [heq] at hended
      rw [heq] at hbalanced hclean
      exact ⟨hbalanced.mpr hreported, hclean.mpr hreported⟩
  slept s delay hs := ⟨(hs.1.append _).mpr rfl, hs.2⟩
  reason s code hs := hs
  raised s e _ hs := iff_of_true hs.1 hs.2
  model _ := trivial
  sleeper _ _ _ _ := .inr trivial

theorem balanced_initial (breakers : Breakers) :
    Balanced none (CallState.initial breakers : CallState O P).world.events ∧
      ∀ step ∈ (CallState.initial breakers : CallState O P).steps, ¬ leaks step :=
  ⟨rfl, by simp [CallState.initial]⟩

end

/-- One call of the gateway, with everything its environment does. -/
inductive GatewayCall (O : Objects) where
  | complete (request : ModelRequest O) (route : ModelRoute) (start : ℚ) (breakers : Breakers)
    (env : ℕ → CompleteScript O)
  | stream (request : ModelRequest O) (route : ModelRoute) (start : ℚ) (breakers : Breakers)
    (env : ℕ → StreamScript O)

namespace GatewayCall
variable (g : DefaultModelGateway O)

def events : GatewayCall O → List (Event O)
  | complete request route start breakers env =>
    (Gateway.complete g request route start breakers env).1.world.events
  | stream request route start breakers env =>
    (Gateway.stream g request route start breakers env).1.world.events

/-- No attempt begun after the consumer's close reaches an item. -/
def Tidy : GatewayCall O → Prop
  | complete _ _ _ _ _ => True
  | stream request route start breakers env =>
    ∀ step ∈ (Gateway.stream g request route start breakers env).1.steps,
      ¬ Leaks g (start + route.totalTimeoutSeconds) request.requestId step

theorem balanced_iff_tidy (call : GatewayCall O) : Balanced none (call.events g) ↔ call.Tidy g := by
  cases call with
  | complete request route start breakers env =>
    simp only [events, Tidy, Gateway.complete]
    split
    · simp [CallState.initial, Balanced]
    · refine ((completeAttempt_traced g request _).balanced_rule.routeLoop_all _ _ env _ route.targets
        (balanced_initial breakers)).trans ?_
      simp
  | stream request route start breakers env =>
    simp only [events, Tidy, Gateway.stream]
    split
    · simp [CallState.initial, Balanced]
    · exact (streamAttempt_traced g request _).balanced_rule.routeLoop_all _ _ env _ route.targets
        (balanced_initial breakers)

def nextAdmission (admission : Option TargetKey) : Event O → Option TargetKey
  | .admitted key => some key
  | .reported _ _ _ _ => none
  | _ => admission

/-- The admission of a call that is unreported after its first `n` events. -/
def admission (call : GatewayCall O) (n : ℕ) : Option TargetKey :=
  ((call.events g).take n).foldl nextAdmission none

/-- The call has been admitted to `key`, has not reported, and has not ended. -/
def InFlight (call : GatewayCall O) (key : TargetKey) (n : ℕ) : Prop :=
  call.admission g n = some key ∧ n < (call.events g).length

end GatewayCall

theorem Balanced.get {admission : Option TargetKey} {events : List (Event O)}
    (h : Balanced admission events) {n : ℕ} {event : Event O} (hn : events[n]? = some event) :
    Balanced ((events.take n).foldl GatewayCall.nextAdmission admission) (event :: events.drop (n + 1)) := by
  induction n generalizing admission events with
  | zero =>
    cases events with
    | nil => cases hn
    | cons first rest =>
      cases hn
      exact h
  | succ n ih =>
    cases events with
    | nil => cases hn
    | cons first rest =>
      simp only [List.getElem?_cons_succ] at hn
      simp only [List.take_succ_cons, List.foldl_cons, List.drop_succ_cons]
      refine ih ?_ hn
      cases first with
      | admitted key => exact h.2
      | reported key r before after => exact h.2
      | _ => exact h

theorem Balanced.foldl {admission : Option TargetKey} {events : List (Event O)}
    (h : Balanced admission events) : events.foldl GatewayCall.nextAdmission admission = none := by
  induction events generalizing admission with
  | nil => exact h
  | cons event events ih =>
    cases event with
    | admitted key => exact ih h.2
    | reported key r before after => exact ih h.2
    | _ => exact ih h

/-- The breaker of one target, and how many events of each call have happened. -/
structure SharedBreaker where
  breaker : CircuitBreaker
  done : ℕ → ℕ

namespace SharedBreaker

/-- What an event does to the breaker of `key` at the clock reading `now`, unless it
    cannot happen there. -/
def perform (key : TargetKey) (b : CircuitBreaker) (now : ℚ) : Event O → Option CircuitBreaker
  | .admitted target =>
    if target = key then
      if (b.beforeCall now).2 then some (b.beforeCall now).1 else none
    else some b
  | .refused target =>
    if target = key then
      if (b.beforeCall now).2 then none else some (b.beforeCall now).1
    else some b
  | .reported target r before after =>
    if target = key then
      if before = b ∧ after = b.report r now then some after else none
    else some b
  | _ => some b

variable (g : DefaultModelGateway O) (calls : List (GatewayCall O)) (key : TargetKey)

/-- The call with the given index performs its next event at the given clock reading. -/
def step (s : SharedBreaker) (label : ℕ × ℚ) : SharedBreaker :=
  match calls[label.1]? with
  | none => s
  | some call =>
    match (call.events g)[s.done label.1]? with
    | none => s
    | some event =>
      match perform key s.breaker label.2 event with
      | none => s
      | some breaker => ⟨breaker, Function.update s.done label.1 (s.done label.1 + 1)⟩

def machine (threshold : ℕ) (recoverySeconds : ℚ) : Machine SharedBreaker (ℕ × ℚ) where
  start := ⟨.new threshold recoverySeconds, fun _ => 0⟩
  step := step g calls key

/-- A half-open breaker with an active probe has a call in flight. -/
def Probed (s : SharedBreaker) : Prop :=
  s.breaker.state = .halfOpen → s.breaker.probeActive = true →
    ∃ i, ∃ call : GatewayCall O, calls[i]? = some call ∧ call.InFlight g key (s.done i)

theorem beforeCall_refused {b : CircuitBreaker} {now : ℚ} (h : (b.beforeCall now).2 = false) :
    (b.beforeCall now).1 = b := by
  rcases b.beforeCall_cases now with ⟨-, hb⟩ | ⟨-, hb⟩ | hb
  · simp [hb] at h
  · simp [hb] at h
  · rw [hb]

/-- An event admits its call to the breaker, or leaves no active probe behind, or
    leaves the breaker and the call's place on it alone. -/
theorem perform_cases {b b' : CircuitBreaker} {now : ℚ} {event : Event O}
    (h : perform key b now event = some b') {admission : Option TargetKey} {rest : List (Event O)}
    (hbalanced : Balanced admission (event :: rest)) :
    GatewayCall.nextAdmission admission event = some key ∨
    ¬ (b'.state = .halfOpen ∧ b'.probeActive = true) ∨
    (b' = b ∧ (admission = some key → GatewayCall.nextAdmission admission event = some key)) := by
  cases event with
  | admitted target =>
    by_cases htarget : target = key
    · exact .inl (by simp [GatewayCall.nextAdmission, htarget])
    · refine .inr (.inr ⟨?_, fun hadmission => ?_⟩)
      · simpa [perform, htarget] using h.symm
      · simp [hbalanced.1] at hadmission
  | refused target =>
    refine .inr (.inr ⟨?_, fun hadmission => hadmission⟩)
    simp only [perform] at h
    split_ifs at h with htarget hadmitted
    · rw [← Option.some.inj h, beforeCall_refused (by simpa using hadmitted)]
    · exact (Option.some.inj h).symm
  | reported target r before after =>
    simp only [perform] at h
    split_ifs at h with htarget hreport
    · refine .inr (.inl fun hprobe => ?_)
      rw [← Option.some.inj h, hreport.2] at hprobe
      have hfree := (b.report_frees r now hprobe.1).1
      simp [hfree] at hprobe
    · refine .inr (.inr ⟨(Option.some.inj h).symm, fun hadmission => ?_⟩)
      rw [hbalanced.1] at hadmission
      exact absurd (Option.some.inj hadmission) htarget
  | _ => exact .inr (.inr ⟨(Option.some.inj h).symm, fun hadmission => hadmission⟩)

variable {g calls key}

theorem inFlight_of_admission {call : GatewayCall O} (hbalanced : Balanced none (call.events g)) {n : ℕ}
    (h : call.admission g n = some key) : call.InFlight g key n := by
  refine ⟨h, ?_⟩
  by_contra hend
  unfold GatewayCall.admission at h
  rw [List.take_of_length_le (not_lt.mp hend), hbalanced.foldl] at h
  cases h

theorem Probed.step (hbalanced : ∀ call ∈ calls, Balanced none (call.events g)) {s : SharedBreaker}
    (hs : s.Probed g calls key) (label : ℕ × ℚ) : (s.step g calls key label).Probed g calls key := by
  obtain ⟨i, now⟩ := label
  unfold SharedBreaker.step
  split
  · exact hs
  · next call hcall =>
    split
    · exact hs
    · next event hevent =>
      split
      · exact hs
      · next b hperform =>
        have hcallBalanced := hbalanced call (List.mem_of_getElem? hcall)
        have hnext : call.admission g (s.done i + 1) =
            GatewayCall.nextAdmission (call.admission g (s.done i)) event := by
          simp [GatewayCall.admission, List.take_add_one, hevent]
        intro hstate hprobe
        rcases perform_cases key hperform (hcallBalanced.get hevent) with hadmitted | hfree |
          ⟨rfl, hkept⟩
        · refine ⟨i, call, hcall, inFlight_of_admission hcallBalanced ?_⟩
          simp only [Function.update_self, hnext]
          exact hadmitted
        · exact absurd ⟨hstate, hprobe⟩ hfree
        · obtain ⟨j, other, hother, hflight⟩ := hs hstate hprobe
          by_cases hj : j = i
          · subst hj
            obtain rfl : call = other := Option.some.inj (hcall.symm.trans hother)
            refine ⟨j, call, hcall, inFlight_of_admission hcallBalanced ?_⟩
            simp only [Function.update_self, hnext]
            exact hkept hflight.1
          · refine ⟨j, other, hother, ?_⟩
            simpa only [Function.update_of_ne hj] using hflight

theorem probed_machine (hbalanced : ∀ call ∈ calls, Balanced none (call.events g)) (threshold : ℕ)
    (recoverySeconds : ℚ) :
    (machine g calls key threshold recoverySeconds).Invariant (Probed g calls key) where
  base hstate := by cases hstate
  kept _ label hs := hs.step hbalanced label

end SharedBreaker

/-- A call reports every admission exactly once before it ends, if and only if no
    attempt begun after the consumer's close reaches an item; and while any number of
    such calls interleave, a half-open breaker with an active probe has a call to its
    target in flight. -/
theorem no_probe_leaks_iff (g : DefaultModelGateway O) :
    (∀ call : GatewayCall O, Balanced none (call.events g) ↔ call.Tidy g) ∧
    ∀ (calls : List (GatewayCall O)), (∀ call ∈ calls, call.Tidy g) →
      ∀ (key : TargetKey) (threshold : ℕ) (recoverySeconds : ℚ) (history : List (ℕ × ℚ)),
        ((SharedBreaker.machine g calls key threshold recoverySeconds).run history).Probed g calls
          key := by
  refine ⟨GatewayCall.balanced_iff_tidy g, fun calls htidy key threshold recoverySeconds history => ?_⟩
  have hbalanced : ∀ call ∈ calls, Balanced none (call.events g) :=
    fun call hcall => (call.balanced_iff_tidy g).mpr (htidy call hcall)
  exact (SharedBreaker.probed_machine hbalanced threshold recoverySeconds).run history

open Sample in
/-- The consumer closes the stream at a usage item, closing the provider's iterator
    fails as unavailable, and the retry reaches a text item: its admission is never
    reported. -/
theorem retry_after_close_leaks :
    ¬ Balanced none (stream gateway request (route none 1) 0 Table.empty fun n =>
      script n {
        opened := .ok ()
        chunks := [⟨n, ⟨if n = 0 then none else some "hello", none,
          if n = 0 then (ModelUsage.new {}).toOption else none, none, none, none⟩, true, true, false⟩]
        lastCheck := n
        ending := .ok ()
        close := .error (.model (.of .unavailable "Model provider is unavailable" "request-1")) }
      ).1.world.events := by
  decide +kernel

end Gateway
end Zhiyi
