import Zhiyi.Library.Python

set_option autoImplicit false

/-! Identifiers and error codes of the run lifecycle and worker lease domains. -/
namespace Zhiyi
open Python

inductive RunErrorCode where
  | invalidInput | notFound | illegalTransition | versionConflict | idempotencyConflict
  | budgetLimit | invariantViolation | cancelled | failed
  deriving DecidableEq, Repr

def RunErrorCode.value : RunErrorCode → String
  | .invalidInput => "invalid_input"
  | .notFound => "not_found"
  | .illegalTransition => "illegal_transition"
  | .versionConflict => "version_conflict"
  | .idempotencyConflict => "idempotency_conflict"
  | .budgetLimit => "budget_limit"
  | .invariantViolation => "invariant_violation"
  | .cancelled => "cancelled"
  | .failed => "failed"

inductive RunRepositoryErrorCode where
  | storageUnavailable | commitOutcomeUnknown | dataCorruption | schemaIncompatible
  deriving DecidableEq, Repr

inductive WorkerLeaseErrorCode where
  | invalidInput | idempotencyConflict | idempotencyExpired | leaseNotCurrent | leaseExpired
  | storageUnavailable | commitOutcomeUnknown | schemaIncompatible | dataCorruption
  deriving DecidableEq, Repr

/-- What the modelled code can raise: `RunLifecycleError`, `RunRepositoryError`,
    `WorkerLeaseError`, or a built-in exception. -/
inductive Failure where
  | lifecycle (code : RunErrorCode)
  | repository (code : RunRepositoryErrorCode)
  | lease (code : WorkerLeaseErrorCode)
  | python (error : PyError)
  deriving DecidableEq, Repr

def raising {α : Type} (x : Except PyError α) : Except Failure α := x.mapError .python

@[simp] theorem raising_ok {α : Type} (a : α) : raising (.ok a) = .ok a := rfl

@[simp] theorem raising_error {α : Type} (e : PyError) :
    raising (.error e : Except PyError α) = .error (.python e) := rfl

theorem raising_eq_ok {α : Type} {x : Except PyError α} {a : α} : raising x = .ok a ↔ x = .ok a :=
  mapError_eq_ok

def isAlphanumeric (c : Char) : Bool :=
  ('A' ≤ c && c ≤ 'Z') || ('a' ≤ c && c ≤ 'z') || ('0' ≤ c && c ≤ '9')

/-- `[A-Za-z0-9][A-Za-z0-9._:-]{0,127}\Z`. -/
def matchesIdentifierPattern (s : String) : Bool :=
  match s.toList with
  | [] => false
  | c :: rest =>
    isAlphanumeric c && decide (rest.length ≤ 127) &&
      rest.all fun c => isAlphanumeric c || c == '.' || c == '_' || c == ':' || c == '-'

/-- `sha256:[0-9a-f]{64}\Z`. -/
def matchesDigestPattern (s : String) : Bool :=
  match s.toList with
  | 's' :: 'h' :: 'a' :: '2' :: '5' :: '6' :: ':' :: rest =>
    decide (rest.length = 64) && rest.all fun c => "0123456789abcdef".toList.contains c
  | _ => false

inductive IdentifierKind where
  | tenant | agent | agentVersion | task | run | command | event | charge | correlation
  | reference | worker
  deriving DecidableEq, Repr

/-- A safe ASCII identifier. Each kind is a type of its own. -/
structure Identifier (kind : IdentifierKind) where
  value : String
  safe : matchesIdentifierPattern value = true
  deriving DecidableEq, Repr

abbrev TenantId := Identifier .tenant
abbrev AgentId := Identifier .agent
abbrev AgentVersionId := Identifier .agentVersion
abbrev TaskId := Identifier .task
abbrev RunId := Identifier .run
abbrev CommandId := Identifier .command
abbrev EventId := Identifier .event
abbrev ChargeId := Identifier .charge
abbrev CorrelationId := Identifier .correlation
abbrev ReferenceId := Identifier .reference

namespace Identifier
variable {kind : IdentifierKind}

def new (value : String) : Except PyError (Identifier kind) :=
  if h : matchesIdentifierPattern value = true then .ok ⟨value, h⟩
  else .error (.valueError "identifier must be a safe ASCII value of at most 128 characters")

@[simp] theorem new_value (i : Identifier kind) : new i.value = .ok i := by
  simp [new, i.safe]

theorem new_eq_ok {s : String} {i : Identifier kind} (h : new s = .ok i) : i.value = s := by
  unfold new at h
  split at h
  · cases h
    rfl
  · cases h

theorem value_injective : Function.Injective (value : Identifier kind → String) := by
  intro i j h
  cases i
  cases j
  simp_all

instance : LinearOrder (Identifier kind) := LinearOrder.lift' value value_injective

end Identifier

structure AgentVersionRef where
  tenantId : TenantId
  agentId : AgentId
  versionId : AgentVersionId
  buildDigest : String
  digestSafe : matchesDigestPattern buildDigest = true
  deriving DecidableEq, Repr

def AgentVersionRef.new (tenantId : TenantId) (agentId : AgentId) (versionId : AgentVersionId)
    (buildDigest : String) : Except PyError AgentVersionRef :=
  if h : matchesDigestPattern buildDigest = true then
    .ok ⟨tenantId, agentId, versionId, buildDigest, h⟩
  else .error (.valueError "build_digest must be a lowercase SHA-256 digest")

end Zhiyi
