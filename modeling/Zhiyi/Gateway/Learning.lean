import Zhiyi.Gateway.StreamTrace

set_option autoImplicit false

/-! What the breakers learn from. The report of an attempt that was stopped before
its provider was invoked may still change the breaker of its target. -/
namespace Zhiyi
namespace Gateway
open Python

def CircuitBreaker.standing (b : CircuitBreaker) : CircuitState × ℕ :=
  (b.state, b.consecutiveFailures)

/-- A failure leaves the standing alone when it is not transient and meets no
    half-open breaker. -/
theorem CircuitBreaker.standing_recordFailure (b : CircuitBreaker) (code : ErrorCode) (now : ℚ) :
    (b.recordFailure code now).standing = b.standing ↔
      code.isTransient = false ∧ b.state ≠ .halfOpen := by
  unfold recordFailure
  simp only
  split_ifs <;> simp_all [standing, opened, closed]

theorem CircuitBreaker.standing_recordCancelled (b : CircuitBreaker) :
    b.recordCancelled.standing = b.standing := by
  unfold recordCancelled
  split_ifs <;> rfl

variable {O : Objects} {P : Type}

/-- Every report that changes its breaker's standing follows an invocation of that
    target's provider since the last admission. The first argument is the target
    whose provider has been invoked since then. -/
def LearnsFrom : Option TargetKey → List (Event O) → Prop
  | _, [] => True
  | _, .admitted _ :: events => LearnsFrom none events
  | _, .invoked key _ :: events => LearnsFrom (some key) events
  | invoked, .reported key _ before after :: events =>
    (after.standing ≠ before.standing → invoked = some key) ∧ LearnsFrom invoked events
  | invoked, .refused _ :: events => LearnsFrom invoked events
  | invoked, .emitted _ :: events => LearnsFrom invoked events
  | invoked, .slept _ :: events => LearnsFrom invoked events
  | invoked, .yielded _ :: events => LearnsFrom invoked events

instance decidableLearnsFrom : (invoked : Option TargetKey) → (events : List (Event O)) →
    Decidable (LearnsFrom invoked events)
  | _, [] => inferInstanceAs (Decidable True)
  | _, .admitted _ :: events => decidableLearnsFrom none events
  | _, .invoked key _ :: events => decidableLearnsFrom (some key) events
  | invoked, .reported key _ before after :: events =>
    have := decidableLearnsFrom invoked events
    inferInstanceAs (Decidable ((after.standing ≠ before.standing → invoked = some key) ∧ _))
  | invoked, .refused _ :: events => decidableLearnsFrom invoked events
  | invoked, .emitted _ :: events => decidableLearnsFrom invoked events
  | invoked, .slept _ :: events => decidableLearnsFrom invoked events
  | invoked, .yielded _ :: events => decidableLearnsFrom invoked events

/-- The target whose provider has been invoked since the last admission. -/
def lastInvoked : Option TargetKey → List (Event O) → Option TargetKey
  | invoked, [] => invoked
  | _, .admitted _ :: events => lastInvoked none events
  | _, .invoked key _ :: events => lastInvoked (some key) events
  | invoked, _ :: events => lastInvoked invoked events

theorem learnsFrom_append (invoked : Option TargetKey) (events more : List (Event O)) :
    LearnsFrom invoked (events ++ more) ↔
      LearnsFrom invoked events ∧ LearnsFrom (lastInvoked invoked events) more := by
  induction events generalizing invoked with
  | nil => simp [LearnsFrom, lastInvoked]
  | cons event events ih => cases event <;> simp [LearnsFrom, lastInvoked, ih, and_assoc]

theorem Quiet.learnsFrom {events : List (Event O)} (h : Quiet events) (invoked : Option TargetKey) :
    LearnsFrom invoked events ∧ lastInvoked invoked events = invoked := by
  induction events with
  | nil => simp [LearnsFrom, lastInvoked]
  | cons event events ih =>
    obtain ⟨hevent, hevents⟩ := List.forall_mem_cons.mp h
    cases event <;> simp_all [LearnsFrom, lastInvoked, Event.isQuiet, Quiet]

/-- An attempt that is stopped before its invocation by anything but a cancellation
    meets a breaker that is not half-open, with an error that is not transient. -/
def Undisturbed (deadline : ℚ) (requestId : String) (early : Except Exn Unit) (step : AttemptStep P) :
    Prop :=
  Admits step.breakers step.target step.script deadline requestId →
    ∀ e, early = .error e → e ≠ .cancelled → (failureCode e).isTransient = false ∧
      (metBreaker step.breakers step.target step.script).state ≠ .halfOpen

/-- The breakers learn only from invocations during an attempt exactly when it is
    undisturbed. -/
theorem AttemptTrace.learnsFrom {step : AttemptStep P} {deadline : ℚ} {requestId : String}
    {early : Except Exn Unit} {reported : Bool} {events : List (Event O)}
    (h : AttemptTrace step.breakers step.target step.script deadline requestId early reported events)
    (invoked : Option TargetKey) :
    LearnsFrom invoked events ↔ Undisturbed deadline requestId early step := by
  cases h with
  | unadmitted _ hquiet hnot =>
    exact iff_of_true (hquiet.learnsFrom invoked).1 fun hadmits => absurd hadmits hnot
  | early e quiet hquiet hadmits hearly =>
    have hiff : LearnsFrom invoked (.admitted step.target.key ::
        reportEvent step.breakers step.target step.script (failureReport e) :: quiet) ↔
        ((metBreaker step.breakers step.target step.script).report (failureReport e)
          step.script.reportedAt).standing =
        (metBreaker step.breakers step.target step.script).standing := by
      simp [LearnsFrom, reportEvent, (hquiet.learnsFrom none).1]
    rw [hiff]
    constructor
    · intro hsame _ e' he' hcancelled
      rw [hearly] at he'
      cases he'
      rw [failureReport_of_ne hcancelled] at hsame
      exact (CircuitBreaker.standing_recordFailure _ _ _).mp hsame
    · intro hundisturbed
      by_cases hcancelled : e = .cancelled
      · subst hcancelled
        exact CircuitBreaker.standing_recordCancelled _
      · rw [failureReport_of_ne hcancelled]
        exact (CircuitBreaker.standing_recordFailure _ _ _).mpr
          (hundisturbed hadmits e hearly hcancelled)
  | invoked at_ r items quiet hitems hquiet hadmits hearly =>
    obtain ⟨hlearns, hlast⟩ := hitems.learnsFrom (some step.target.key)
    refine iff_of_true ?_ fun _ e he => ?_
    · simp [LearnsFrom, learnsFrom_append, hlearns, hlast, reportEvent, (hquiet.learnsFrom _).1]
    · rw [hearly] at he
      cases he
  | left at_ items hitems hadmits hearly =>
    refine iff_of_true (hitems.learnsFrom (some step.target.key)).1 fun _ e he => ?_
    rw [hearly] at he
    cases he

section
variable {R : Type} {attempt : CallState O P → ModelTarget → AttemptScript P →
    CallState O P × AttemptEnd R} {raised : Exn → R} {deadline : ℚ} {requestId : String}
  {early : AttemptStep P → Except Exn Unit} {leaks : AttemptStep P → Prop}

/-- So far the breakers have learned only from invocations exactly if every attempt
    has been undisturbed. -/
def LearnsIff (deadline : ℚ) (requestId : String) (early : AttemptStep P → Except Exn Unit)
    (s : CallState O P) : Prop :=
  LearnsFrom none s.world.events ↔ ∀ step ∈ s.steps, Undisturbed deadline requestId (early step) step

theorem Traced.learns_attempt (h : Traced attempt deadline requestId early leaks) {s : CallState O P}
    (hs : LearnsIff deadline requestId early s) (target : ModelTarget) (script : AttemptScript P) :
    LearnsIff deadline requestId early (attempt (s.beginAttempt target script) target script).1 := by
  obtain ⟨reported, ⟨new, hnew, htrace⟩, -⟩ := h.trace (s.beginAttempt target script) target script
  have hstep : LearnsFrom (lastInvoked none s.world.events) new ↔
      Undisturbed deadline requestId (early (stepOf s target script)) (stepOf s target script) :=
    AttemptTrace.learnsFrom htrace (lastInvoked none s.world.events)
  unfold LearnsIff at hs ⊢
  rw [h.steps, hnew, CallState.beginAttempt, learnsFrom_append, hstep, hs]
  simp only [List.forall_mem_append, List.forall_mem_singleton]
  rfl

theorem Traced.learns_rule (h : Traced attempt deadline requestId early leaks) :
    LoopRule attempt raised (fun _ => True) (fun _ => True) (LearnsIff deadline requestId early)
      (fun s _ => LearnsIff deadline requestId early s) where
  attempt s target script _ hs := by
    have hattempt := h.learns_attempt hs target script
    split <;> simp_all [CallState.fail, LearnsIff]
  slept s delay hs := by
    simpa [LearnsIff, World.log, learnsFrom_append, LearnsFrom] using hs
  reason s code hs := hs
  raised s e _ hs := hs
  model _ := trivial
  sleeper _ _ _ _ := .inr trivial

theorem learnsIff_initial (breakers : Breakers) :
    LearnsIff deadline requestId early (.initial breakers : CallState O P) := by
  simp [LearnsIff, CallState.initial, LearnsFrom]

end

section
variable (g : DefaultModelGateway O) (request : ModelRequest O)

theorem complete_learns (route : ModelRoute) (start : ℚ) (breakers : Breakers)
    (env : ℕ → CompleteScript O) :
    LearnsIff (start + route.totalTimeoutSeconds) request.requestId
      (fun step => earlyComplete g (start + route.totalTimeoutSeconds) request.requestId step.target
        step.script) (complete g request route start breakers env).1 := by
  unfold complete
  simp only
  split
  · exact learnsIff_initial breakers
  · exact (completeAttempt_traced g request _).learns_rule.routeLoop_all _ _ env _ route.targets
      (learnsIff_initial breakers)

theorem stream_learns (route : ModelRoute) (start : ℚ) (breakers : Breakers)
    (env : ℕ → StreamScript O) :
    LearnsIff (start + route.totalTimeoutSeconds) request.requestId
      (fun step => earlyStream g (start + route.totalTimeoutSeconds) request.requestId step.target
        step.script) (stream g request route start breakers env).1 := by
  unfold stream
  simp only
  split
  · exact learnsIff_initial breakers
  · exact (streamAttempt_traced g request _).learns_rule.routeLoop_all _ _ env _ route.targets
      (learnsIff_initial breakers)

/-- During a call the breakers learn only from invocations exactly when each of its
    attempts is undisturbed. -/
theorem breakers_learn_from_invocations_iff (route : ModelRoute) (start : ℚ) (breakers : Breakers) :
    (∀ env : ℕ → CompleteScript O,
      let run := (complete g request route start breakers env).1
      LearnsFrom none run.world.events ↔ ∀ step ∈ run.steps,
        Undisturbed (start + route.totalTimeoutSeconds) request.requestId
          (earlyComplete g (start + route.totalTimeoutSeconds) request.requestId step.target
            step.script) step) ∧
    (∀ env : ℕ → StreamScript O,
      let run := (stream g request route start breakers env).1
      LearnsFrom none run.world.events ↔ ∀ step ∈ run.steps,
        Undisturbed (start + route.totalTimeoutSeconds) request.requestId
          (earlyStream g (start + route.totalTimeoutSeconds) request.requestId step.target
            step.script) step) :=
  ⟨complete_learns g request route start breakers, stream_learns g request route start breakers⟩

end

open Sample in
/-- The probe after the recovery time finds no secret provider. Its failure is
    reported, and the circuit closes without an invocation. -/
theorem credential_failure_closes_circuit :
    ¬ LearnsFrom none (complete gateway request (route (some "OPENAI_KEY") 0) 100 openBreakers
      fun _ => script 100 (.error .exception)).1.world.events := by
  decide +kernel

end Gateway
end Zhiyi
