import Zhiyi.Gateway.Contracts

set_option autoImplicit false

/-! Per-target circuit breaker. Its lock is never held across a suspension, so
each operation is one step. -/
namespace Zhiyi
namespace Gateway

/-- `_TRANSIENT_CODES`. -/
def ErrorCode.isTransient : ErrorCode → Bool
  | .rateLimited | .timeout | .unavailable => true
  | _ => false

inductive CircuitState where
  | closed | open | halfOpen
  deriving DecidableEq, Repr

structure CircuitBreaker where
  threshold : ℕ
  recoverySeconds : ℚ
  state : CircuitState
  consecutiveFailures : ℕ
  openedAt : Option ℚ
  probeActive : Bool
  deriving DecidableEq

/-- How an admitted call ends for its breaker: `record_success`, `record_failure`
    or `record_cancelled`. -/
inductive Report where
  | success
  | failure (code : ErrorCode)
  | cancelled
  deriving DecidableEq, Repr

namespace CircuitBreaker

def new (threshold : ℕ) (recoverySeconds : ℚ) : CircuitBreaker where
  threshold := threshold
  recoverySeconds := recoverySeconds
  state := .closed
  consecutiveFailures := 0
  openedAt := none
  probeActive := false

def recovered (b : CircuitBreaker) (now : ℚ) : Bool :=
  b.openedAt.any fun openedAt => decide (b.recoverySeconds ≤ now - openedAt)

/-- `before_call`: the breaker afterwards, and whether the call is admitted. -/
def beforeCall (b : CircuitBreaker) (now : ℚ) : CircuitBreaker × Bool :=
  if b.state = .open ∧ b.recovered now = false then (b, false)
  else
    let b := if b.state = .open then { b with state := .halfOpen, probeActive := false } else b
    if b.state = .halfOpen then
      if b.probeActive then (b, false) else ({ b with probeActive := true }, true)
    else (b, true)

/-- `_open`. -/
def opened (b : CircuitBreaker) (now : ℚ) : CircuitBreaker :=
  { b with state := .open, openedAt := some now, probeActive := false }

/-- `_close`. -/
def closed (b : CircuitBreaker) : CircuitBreaker :=
  { b with state := .closed, consecutiveFailures := 0, openedAt := none, probeActive := false }

def recordFailure (b : CircuitBreaker) (code : ErrorCode) (now : ℚ) : CircuitBreaker :=
  if code.isTransient then
    if b.state = .halfOpen then b.opened now
    else
      let b := { b with consecutiveFailures := b.consecutiveFailures + 1 }
      if b.threshold ≤ b.consecutiveFailures then b.opened now else b
  else if b.state = .halfOpen then b.closed else b

def recordCancelled (b : CircuitBreaker) : CircuitBreaker :=
  if b.state = .halfOpen then { b with probeActive := false } else b

def report (b : CircuitBreaker) (r : Report) (now : ℚ) : CircuitBreaker :=
  match r with
  | .success => b.closed
  | .failure code => b.recordFailure code now
  | .cancelled => b.recordCancelled

theorem beforeCall_cases (b : CircuitBreaker) (now : ℚ) :
    (b.state = .closed ∧ b.beforeCall now = (b, true)) ∨
    ((b.state = .halfOpen ∧ b.probeActive = false ∨ b.state = .open) ∧
      b.beforeCall now = ({ b with state := .halfOpen, probeActive := true }, true)) ∨
    b.beforeCall now = (b, false) := by
  unfold beforeCall
  cases hs : b.state with
  | closed => simp [hs]
  | «open» => by_cases hr : b.recovered now = true <;> simp_all
  | halfOpen =>
    by_cases hp : b.probeActive = true
    · simp [hs, hp]
    · simp only [Bool.not_eq_true] at hp
      simp [hs, hp]

theorem report_frees (b : CircuitBreaker) (r : Report) (now : ℚ) :
    (b.report r now).state = .halfOpen → (b.report r now).probeActive = false ∧ b.state = .halfOpen := by
  cases r with
  | success => simp [report, closed]
  | failure code =>
    simp only [report, recordFailure]
    split_ifs <;> simp_all [opened, closed]
  | cancelled =>
    simp only [report, recordCancelled]
    split_ifs <;> simp_all

end CircuitBreaker
end Gateway
end Zhiyi
