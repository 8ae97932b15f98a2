import Zhiyi.Gateway.Stream

set_option autoImplicit false

/-! What one attempt of `complete` or `stream` does to its breaker and provider,
as the events it adds: admission, invocation and one report, in this order. -/
namespace Zhiyi
namespace Gateway
open Python

variable {O : Objects} {P : Type}

/-- Neither a successful admission, nor an invocation, nor a report. -/
def Event.isQuiet : Event O → Bool
  | .admitted _ | .invoked _ _ | .reported _ _ _ _ => false
  | _ => true

def Quiet (events : List (Event O)) : Prop := ∀ event ∈ events, event.isQuiet = true

theorem Quiet.append {a b : List (Event O)} (ha : Quiet a) (hb : Quiet b) : Quiet (a ++ b) := by
  intro event h
  exact (List.mem_append.mp h).elim (ha event) (hb event)

@[simp] theorem quiet_nil : Quiet ([] : List (Event O)) := by simp [Quiet]

@[simp] theorem quiet_emitted (a : AttemptRecord) : Quiet [(.emitted a : Event O)] := by
  simp [Quiet, Event.isQuiet]

@[simp] theorem quiet_yielded (chunk : ModelChunk O) : Quiet [(.yielded chunk : Event O)] := by
  simp [Quiet, Event.isQuiet]

section
variable (breakers : Breakers) (target : ModelTarget) (script : AttemptScript P) (deadline : ℚ)
  (requestId : String)

def askedBreaker : CircuitBreaker := circuitBreaker (script.beforeAdmission breakers) target

def Admits : Prop :=
  limiterWait target script deadline requestId = .ok () ∧
    ((askedBreaker breakers target script).beforeCall script.breakerCheck).2 = true

def admittedBreakers : Breakers :=
  (script.beforeAdmission breakers).set target.key
    ((askedBreaker breakers target script).beforeCall script.breakerCheck).1

/-- The breaker the attempt's report meets. -/
def metBreaker : CircuitBreaker :=
  circuitBreaker (script.beforeReport (admittedBreakers breakers target script)) target

def reportEvent (r : Report) : Event O :=
  .reported target.key r (metBreaker breakers target script)
    ((metBreaker breakers target script).report r script.reportedAt)

end

def failureCode : Exn → ErrorCode
  | .timeout => .timeout
  | .model e => e.code
  | _ => .unknown

@[simp] theorem asModelError_code (message requestId : String) (e : Exn) :
    (asModelError message requestId e).code = failureCode e := by
  cases e <;> rfl

def failureReport : Exn → Report
  | .cancelled => .cancelled
  | e => .failure (failureCode e)

theorem failureReport_of_ne {e : Exn} (h : e ≠ .cancelled) :
    failureReport e = .failure (failureCode e) := by
  cases e <;> simp_all [failureReport]

/-- The events of one attempt. The flag says whether an admission was followed
    by its report. -/
inductive AttemptTrace (breakers : Breakers) (target : ModelTarget) (script : AttemptScript P)
    (deadline : ℚ) (requestId : String) (early : Except Exn Unit) : Bool → List (Event O) → Prop
  | unadmitted (quiet : List (Event O)) (hquiet : Quiet quiet)
    (hnot : ¬ Admits breakers target script deadline requestId) :
    AttemptTrace breakers target script deadline requestId early true quiet
  | early (e : Exn) (quiet : List (Event O)) (hquiet : Quiet quiet)
    (hadmits : Admits breakers target script deadline requestId) (hearly : early = .error e) :
    AttemptTrace breakers target script deadline requestId early true
      (.admitted target.key :: reportEvent breakers target script (failureReport e) :: quiet)
  | invoked (at_ : Option ℚ) (r : Report) (items quiet : List (Event O)) (hitems : Quiet items)
    (hquiet : Quiet quiet) (hadmits : Admits breakers target script deadline requestId)
    (hearly : early = .ok ()) :
    AttemptTrace breakers target script deadline requestId early true
      (.admitted target.key :: .invoked target.key at_ ::
        (items ++ reportEvent breakers target script r :: quiet))
  | left (at_ : Option ℚ) (items : List (Event O)) (hitems : Quiet items)
    (hadmits : Admits breakers target script deadline requestId) (hearly : early = .ok ()) :
    AttemptTrace breakers target script deadline requestId early false
      (.admitted target.key :: .invoked target.key at_ :: items)

def stepOf (s : CallState O P) (target : ModelTarget) (script : AttemptScript P) : AttemptStep P :=
  ⟨target, script, s.world.breakers, s.consumerClosed⟩

/-- An attempt adds its trace, and reports unless its step leaks, which ends the call. -/
structure Traced {R : Type}
    (attempt : CallState O P → ModelTarget → AttemptScript P → CallState O P × AttemptEnd R)
    (deadline : ℚ) (requestId : String) (early : AttemptStep P → Except Exn Unit)
    (leaks : AttemptStep P → Prop) : Prop where
  steps : ∀ s target script, (attempt s target script).1.steps = s.steps
  trace : ∀ s target script, ∃ reported,
    (∃ new, (attempt s target script).1.world.events = s.world.events ++ new ∧
      AttemptTrace s.world.breakers target script deadline requestId
        (early (stepOf s target script)) reported new) ∧
    (reported = false ↔ leaks (stepOf s target script)) ∧
    (reported = false → ∃ ended, (attempt s target script).2 = .exited ended)

theorem remaining_eq_ok {deadline now left : ℚ} {requestId : String}
    (h : remaining deadline now requestId = .ok left) : now < deadline := by
  unfold remaining at h
  split_ifs at h with hlate
  exact lt_of_sub_pos (not_le.mp hlate)

theorem remaining_of_lt {deadline now : ℚ} {requestId : String} (h : now < deadline) :
    remaining deadline now requestId = .ok (deadline - now) :=
  if_neg (not_le.mpr (sub_pos.mpr h))

theorem admitCall_error {w w' : World O} {target : ModelTarget} {script : AttemptScript P} {deadline : ℚ}
    {requestId : String} {e : Exn} (h : admitCall w target script deadline requestId = (w', .error e)) :
    ¬ Admits w.breakers target script deadline requestId ∧
      ∃ quiet, Quiet quiet ∧ w'.events = w.events ++ quiet := by
  unfold admitCall at h
  split at h
  · next e' hwait =>
    cases h
    refine ⟨fun ha => ?_, [], quiet_nil, (List.append_nil _).symm⟩
    rw [ha.1] at hwait
    cases hwait
  · simp only at h
    split_ifs at h with hadmitted
    · cases h
    · obtain ⟨rfl, -⟩ := Prod.mk.inj h
      refine ⟨fun ha => hadmitted ha.2, [.refused target.key], ?_, rfl⟩
      simp [Quiet, Event.isQuiet]

theorem admitCall_ok {w w' : World O} {target : ModelTarget} {script : AttemptScript P} {deadline : ℚ}
    {requestId : String} (h : admitCall w target script deadline requestId = (w', .ok ())) :
    Admits w.breakers target script deadline requestId ∧
      w' = ⟨admittedBreakers w.breakers target script, w.events ++ [.admitted target.key]⟩ := by
  unfold admitCall at h
  split at h
  · cases h
  · next hwait =>
    simp only at h
    split_ifs at h with hadmitted
    · obtain ⟨rfl, -⟩ := Prod.mk.inj h
      exact ⟨⟨hwait, hadmitted⟩, rfl⟩
    · cases (Prod.mk.inj h).2

/-- Where the `try` block of an attempt can stop: the world it leaves, whether it
    was admitted, and the exception it raised. -/
inductive TriedTrace (w : World O) (target : ModelTarget) (script : AttemptScript P) (deadline : ℚ)
    (requestId : String) (early : Except Exn Unit) : World O → Bool → Option Exn → Prop
  | unadmitted (left : World O) (e : Exn) (quiet : List (Event O)) (hquiet : Quiet quiet)
    (hnot : ¬ Admits w.breakers target script deadline requestId)
    (hleft : left.events = w.events ++ quiet) :
    TriedTrace w target script deadline requestId early left false (some e)
  | early (e : Exn) (hadmits : Admits w.breakers target script deadline requestId)
    (hearly : early = .error e) :
    TriedTrace w target script deadline requestId early
      ⟨admittedBreakers w.breakers target script, w.events ++ [.admitted target.key]⟩ true (some e)
  | invoked (at_ : Option ℚ) (items : List (Event O)) (error : Option Exn) (hitems : Quiet items)
    (hadmits : Admits w.breakers target script deadline requestId) (hearly : early = .ok ()) :
    TriedTrace w target script deadline requestId early
      ⟨admittedBreakers w.breakers target script,
        w.events ++ .admitted target.key :: .invoked target.key at_ :: items⟩ true error

/-- A `try` block that raises nothing has invoked the provider. -/
theorem TriedTrace.of_none {w left : World O} {target : ModelTarget} {script : AttemptScript P}
    {deadline : ℚ} {requestId : String} {early : Except Exn Unit} {admitted : Bool}
    (h : TriedTrace w target script deadline requestId early left admitted none) :
    admitted = true ∧ Admits w.breakers target script deadline requestId ∧ early = .ok () ∧
      ∃ at_ items, Quiet items ∧
        left.events = w.events ++ .admitted target.key :: .invoked target.key at_ :: items := by
  cases h with
  | invoked at_ items _ hitems hadmits hearly =>
    exact ⟨rfl, hadmits, hearly, at_, items, hitems, rfl⟩

theorem report_admitted {breakers : Breakers} {target : ModelTarget} {script : AttemptScript P}
    {events : List (Event O)} (r : Report) :
    (World.report ⟨admittedBreakers breakers target script, events⟩ target script r).events =
      events ++ [reportEvent breakers target script r] := rfl

/-- The report that follows the `try` block, and what is logged after it. -/
theorem TriedTrace.finish {w left w' : World O} {target : ModelTarget} {script : AttemptScript P}
    {deadline : ℚ} {requestId : String} {early : Except Exn Unit} {admitted : Bool}
    {error : Option Exn}
    (h : TriedTrace w target script deadline requestId early left admitted error) {r : Report}
    (hr : ∀ e ∈ error, r = failureReport e) {quiet : List (Event O)} (hquiet : Quiet quiet)
    (hw : w'.events = (reportIf admitted left target script r).events ++ quiet) :
    ∃ new, w'.events = w.events ++ new ∧
      AttemptTrace w.breakers target script deadline requestId early true new := by
  cases h with
  | unadmitted _ e before hbefore hnot hleft =>
    refine ⟨before ++ quiet, ?_, .unadmitted _ (hbefore.append hquiet) hnot⟩
    simp [hw, reportIf, hleft]
  | early e hadmits hearly =>
    refine ⟨_, ?_, .early e quiet hquiet hadmits hearly⟩
    simp [hw, reportIf, report_admitted, hr e rfl]
  | invoked at_ items _ hitems hadmits hearly =>
    refine ⟨_, ?_, .invoked at_ r items quiet hitems hquiet hadmits hearly⟩
    simp [hw, reportIf, report_admitted]

variable (g : DefaultModelGateway O) (request : ModelRequest O) (deadline : ℚ)

/-- What stops an admitted attempt before its provider is invoked. -/
def earlyComplete (requestId : String) (target : ModelTarget) (script : CompleteScript O) :
    Except Exn Unit := do
  credential g.hasSecretProvider target script deadline requestId
  let _ ← remaining deadline script.providerCheck requestId

def raisedBy {α : Type} : Except Exn α → Option Exn
  | .ok _ => none
  | .error e => some e

theorem tryComplete_trace (s : CompleteState O) (target : ModelTarget) (script : CompleteScript O) :
    TriedTrace s.world target script deadline request.requestId
      (earlyComplete g deadline request.requestId target script)
      (tryComplete g request deadline s target script).world
      (tryComplete g request deadline s target script).admitted
      (raisedBy (tryComplete g request deadline s target script).outcome) := by
  unfold tryComplete
  split
  · next w e hadm =>
    obtain ⟨hnot, quiet, hquiet, hevents⟩ := admitCall_error hadm
    exact .unadmitted w e quiet hquiet hnot hevents
  · next w hadm =>
    obtain ⟨hadmits, rfl⟩ := admitCall_ok hadm
    split
    · next e hcredential =>
      refine .early e hadmits ?_
      simp only [earlyComplete, hcredential]
      rfl
    · next hcredential =>
      split
      · next e hcheck =>
        refine .early e hadmits ?_
        simp only [earlyComplete, hcredential, hcheck]
        rfl
      · next left hcheck =>
        have hearly : earlyComplete g deadline request.requestId target script = .ok () := by
          simp only [earlyComplete, hcredential, hcheck]
          rfl
        simp only [World.log, List.append_assoc, List.cons_append, List.nil_append]
        split <;> exact .invoked (some script.providerCheck) [] _ quiet_nil hadmits hearly

/-- An attempt of `complete` always reports what it was admitted for. -/
theorem completeAttempt_traced :
    Traced (completeAttempt g request deadline) deadline request.requestId
      (fun step => earlyComplete g deadline request.requestId step.target step.script)
      (fun _ => False) := by
  refine ⟨fun s target script => ?_, fun s target script => ?_⟩
  · unfold completeAttempt
    simp only
    split <;> rfl
  have htried := tryComplete_trace g request deadline s target script
  refine ⟨true, ?_, by simp, by simp⟩
  unfold completeAttempt
  generalize tryComplete g request deadline s target script = tried at htried
  obtain ⟨w, admitted, answer, outcome⟩ := tried
  simp only at htried ⊢
  split
  · next outcome succeeded r =>
    obtain ⟨rfl, -⟩ := htried.of_none
    exact htried.finish (r := .success) (by simp [raisedBy]) (quiet_emitted succeeded) rfl
  · exact htried.finish (r := .cancelled) (by simp [raisedBy, failureReport]) (quiet_emitted _) rfl
  · next outcome e hother =>
    refine htried.finish (fun e' he' => ?_) (quiet_emitted _) rfl
    obtain rfl : e = e' := Option.some.inj he'
    rw [failureReport_of_ne fun h => hother h, asModelError_code]

end Gateway
end Zhiyi
