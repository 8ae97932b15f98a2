import Zhiyi.Gateway.Attempt

set_option autoImplicit false

/-! `DefaultModelGateway.complete`. -/
namespace Zhiyi
namespace Gateway
open Python

variable {O : Objects}

/-- What a provider's `complete` does when it is awaited. -/
abbrev CompleteScript (O : Objects) := AttemptScript (Except Exn (ProviderResponse O))

abbrev CompleteState (O : Objects) := CallState O (Except Exn (ProviderResponse O))

/-- The variables the attempt's `try` leaves behind, and how it ended. -/
structure Tried (O : Objects) where
  world : World O
  admitted : Bool
  answer : Option (ProviderResponse O)
  outcome : Except Exn (AttemptRecord × ModelResponse O)

variable (g : DefaultModelGateway O) (request : ModelRequest O) (deadline : ℚ)

/-- The `try` block of an attempt. -/
def tryComplete (s : CompleteState O) (target : ModelTarget) (script : CompleteScript O) : Tried O :=
  match admitCall s.world target script deadline request.requestId with
  | (w, .error e) => ⟨w, false, none, .error e⟩
  | (w, .ok ()) =>
    match credential g.hasSecretProvider target script deadline request.requestId with
    | .error e => ⟨w, true, none, .error e⟩
    | .ok () =>
      match remaining deadline script.providerCheck request.requestId with
      | .error e => ⟨w, true, none, .error e⟩
      | .ok _ =>
        let w := w.log (.invoked target.key (some script.providerCheck))
        match script.provider with
        | .error e => ⟨w, true, none, .error e⟩
        | .ok answer =>
          let succeeded := attemptRecord s.attempts target script script.finishedAt .succeeded
            answer.providerRequestId answer.usage s.fallbackReason
          let outcome := (response request target answer (s.attempts ++ [succeeded])).map
            fun r => (succeeded, r)
          ⟨w, true, some answer, outcome⟩

/-- `record_cancelled` or `record_failure`, for an admitted attempt only. -/
def reportIf {P : Type} (admitted : Bool) (w : World O) (target : ModelTarget)
    (script : AttemptScript P) (r : Report) : World O :=
  if admitted then w.report target script r else w

/-- One attempt of `complete`. -/
def completeAttempt (s : CompleteState O) (target : ModelTarget) (script : CompleteScript O) :
    CompleteState O × AttemptEnd (Except Exn (ModelResponse O)) :=
  let tried := tryComplete g request deadline s target script
  match tried.outcome with
  | .ok (succeeded, r) =>
    ({ s with world := (tried.world.report target script .success).log (.emitted succeeded) },
      .exited (.ok r))
  | .error .cancelled =>
    let w := reportIf tried.admitted tried.world target script .cancelled
    let cancelled := attemptRecord s.attempts target script script.finishedAt .cancelled
      (tried.answer.bind (·.providerRequestId)) (tried.answer.bind (·.usage)) s.fallbackReason
    ({ s with world := w.log (.emitted cancelled) }, .exited (.error .cancelled))
  | .error e =>
    let error := asModelError "Model provider attempt timed out" request.requestId e
    let w := reportIf tried.admitted tried.world target script (.failure error.code)
    let usage := error.usage.or (tried.answer.bind (·.usage))
    let failed := attemptRecord s.attempts target script script.failedAt (.failed error.code)
      error.providerRequestId usage s.fallbackReason
    ({ s with world := w.log (.emitted failed) }, .failed failed error)

/-- `complete`, called at the clock reading `start`. -/
def complete (route : ModelRoute) (start : ℚ) (breakers : Breakers) (env : ℕ → CompleteScript O) :
    CompleteState O × Except Exn (ModelResponse O) :=
  let deadline := start + route.totalTimeoutSeconds
  match g.preflightRoute route request with
  | .error e => (.initial breakers, .error e)
  | .ok () =>
    routeLoop (completeAttempt g request deadline) .error deadline request.requestId env
      (fun target => g.provider target request.requestId) route.targets (.initial breakers) none

end Gateway
end Zhiyi
