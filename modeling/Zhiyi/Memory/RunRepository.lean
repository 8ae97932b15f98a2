import Zhiyi.Application.RunLifecycle

set_option autoImplicit false

/-! Atomic in-memory RunRepository. A commit runs under one lock and publishes
its four collections at the end, after the optional `before_swap` hook. -/
namespace Zhiyi
open Python

abbrev RunKey := TenantId × RunId
abbrev CommandKey := TenantId × CommandId

structure MemoryStore where
  runs : Table RunKey Run
  events : Table RunKey (List RunEvent)
  commands : Table CommandKey CommitOutcome
  eventIds : Finset EventId

namespace MemoryStore

def empty : MemoryStore := ⟨Table.empty, Table.empty, Table.empty, ∅⟩

def load (s : MemoryStore) (tenantId : TenantId) (runId : RunId) : Option Run :=
  s.runs.get? (tenantId, runId)

def findCommand (s : MemoryStore) (tenantId : TenantId) (commandId : CommandId)
    (intentFingerprint : String) : Except Failure (Option CommitOutcome) :=
  match s.commands.get? (tenantId, commandId) with
  | none => .ok none
  | some existing =>
    if existing.receipt.intentFingerprint ≠ intentFingerprint then
      .error (.lifecycle .idempotencyConflict)
    else do
      let outcome ← raising (CommitOutcome.new existing.receipt existing.events true)
      return some outcome

/-- `list_events`, whose bounds the caller has checked. -/
def listEvents (s : MemoryStore) (tenantId : TenantId) (runId : RunId) (afterSequence limit : ℕ) :
    Except Failure (List RunEvent) := do
  require (1 ≤ limit ∧ limit ≤ 1000) (.python (.valueError "limit must be between 1 and 1000"))
  match s.events.get? (tenantId, runId) with
  | none => .error (.lifecycle .notFound)
  | some events => .ok ((events.filter fun e => afterSequence < e.sequence).take limit)

/-- What `commit` decides before it publishes anything. -/
inductive Decision where
  | replay (outcome : CommitOutcome)
  | publish (next : MemoryStore) (outcome : CommitOutcome)

def runKey (c : Candidate) : RunKey := (c.updatedRun.tenantId, c.updatedRun.runId)

def commandKey (c : Candidate) : CommandKey := (c.receipt.tenantId, c.receipt.commandId)

def published (s : MemoryStore) (c : Candidate) (outcome : CommitOutcome) : MemoryStore where
  runs := s.runs.set (runKey c) c.updatedRun
  events := s.events.set (runKey c) ((s.events.get? (runKey c)).getD [] ++ c.newEvents)
  commands := s.commands.set (commandKey c) outcome
  eventIds := s.eventIds ∪ (c.newEvents.map (·.eventId)).toFinset

/-- `commit` up to the hook. -/
def decideCommit (s : MemoryStore) (c : Candidate) : Except Failure Decision :=
  match s.commands.get? (commandKey c) with
  | some existing =>
    if existing.receipt.intentFingerprint ≠ c.receipt.intentFingerprint then
      .error (.lifecycle .idempotencyConflict)
    else do
      let outcome ← raising (CommitOutcome.new existing.receipt existing.events true)
      return .replay outcome
  | none => do
    let current := s.runs.get? (runKey c)
    require (c.expectedVersion == (current.map (·.version)).getD 0)
      (.lifecycle .versionConflict)
    validateCommitCandidate c current (fun id => decide (id ∈ s.eventIds))
    let outcome ← raising (CommitOutcome.new c.receipt c.newEvents false)
    return .publish (s.published c outcome) outcome

/-- `commit`: the store afterwards, and what the caller gets. The hook may raise
    between the decision and the publication. -/
def commit (s : MemoryStore) (beforeSwap : Option Failure) (c : Candidate) :
    MemoryStore × Except Failure CommitOutcome :=
  match s.decideCommit c with
  | .error e => (s, .error e)
  | .ok (.replay outcome) => (s, .ok outcome)
  | .ok (.publish next outcome) =>
    match beforeSwap with
    | some e => (s, .error e)
    | none => (next, .ok outcome)

/-- The outcomes of a commit, each with the checks it passed. -/
inductive Commits (s : MemoryStore) (c : Candidate) : MemoryStore → Except Failure CommitOutcome → Prop
  | raised (e : Failure)
    (hother : ∀ existing, s.commands.get? (commandKey c) = some existing →
      existing.receipt.intentFingerprint ≠ c.receipt.intentFingerprint) :
    Commits s c s (.error e)
  | replayed (existing : CommitOutcome) (hget : s.commands.get? (commandKey c) = some existing)
    (hsame : existing.receipt.intentFingerprint = c.receipt.intentFingerprint) :
    Commits s c s (.ok existing.asReplayed)
  | stored (outcome : CommitOutcome) (hfree : s.commands.get? (commandKey c) = none)
    (hversion : c.expectedVersion = ((s.runs.get? (runKey c)).map (·.version)).getD 0)
    (hconsistent : c.Consistent)
    (hshape : c.Shape (fun id => decide (id ∈ s.eventIds)) (s.runs.get? (runKey c)))
    (hreceipt : outcome.receipt = c.receipt) (hevents : outcome.events = c.newEvents)
    (hnew : outcome.replayed = false) :
    Commits s c (s.published c outcome) (.ok outcome)

theorem decideCommit_replay {s : MemoryStore} {c : Candidate} {existing : CommitOutcome}
    (hget : s.commands.get? (commandKey c) = some existing) :
    s.decideCommit c =
      if existing.receipt.intentFingerprint ≠ c.receipt.intentFingerprint then
        .error (.lifecycle .idempotencyConflict)
      else .ok (.replay existing.asReplayed) := by
  simp only [decideCommit, hget, CommitOutcome.new_self]
  rfl

theorem commit_commits (s : MemoryStore) (beforeSwap : Option Failure) (c : Candidate) :
    s.Commits c (s.commit beforeSwap c).1 (s.commit beforeSwap c).2 := by
  cases hget : s.commands.get? (commandKey c) with
  | some existing =>
    unfold commit
    rw [decideCommit_replay hget]
    split_ifs with hne
    · refine .raised _ fun other hother => ?_
      cases Option.some.inj (hget.symm.trans hother)
      exact hne
    · exact .replayed existing hget (not_not.mp hne)
  | none =>
    have raised : ∀ e, s.Commits c s (.error e) := fun e => .raised e (by simp [hget])
    cases hd : s.decideCommit c with
    | error e =>
      simp only [commit, hd]
      exact raised e
    | ok decision =>
      have hsteps := hd
      simp only [decideCommit, hget] at hsteps
      obtain ⟨_, hversion, hsteps⟩ := bind_eq_ok.mp hsteps
      obtain ⟨_, hvalid, hsteps⟩ := bind_eq_ok.mp hsteps
      obtain ⟨outcome, houtcome, hsteps⟩ := bind_eq_ok.mp hsteps
      obtain ⟨hreceipt, hevents, hnew⟩ := CommitOutcome.new_eq_ok (raising_eq_ok.mp houtcome)
      obtain ⟨hconsistent, hshape⟩ := validateCommitCandidate_eq_ok hvalid
      obtain rfl := (Except.ok.inj hsteps).symm
      have hversion := beq_iff_eq.mp (require_eq_ok.mp hversion)
      cases beforeSwap with
      | some e =>
        simp only [commit, hd]
        exact raised e
      | none =>
        simp only [commit, hd]
        exact .stored outcome hget hversion hconsistent hshape hreceipt hevents hnew

theorem commit_of_shape {s : MemoryStore} {c : Candidate}
    (hfree : s.commands.get? (commandKey c) = none)
    (hversion : c.expectedVersion = ((s.runs.get? (runKey c)).map (·.version)).getD 0)
    (hc : c.Consistent) (hs : c.Shape (fun id => decide (id ∈ s.eventIds)) (s.runs.get? (runKey c))) :
    ∃ outcome, outcome.receipt = c.receipt ∧ outcome.events = c.newEvents ∧
      s.commit none c = (s.published c outcome, .ok outcome) := by
  have hvalid := validateCommitCandidate_of_shape hc hs
  have hnew : CommitOutcome.new c.receipt c.newEvents false =
      .ok ⟨c.receipt, c.newEvents, false, hc.eventIds⟩ := dif_pos hc.eventIds
  have hrequire : (c.expectedVersion == ((s.runs.get? (runKey c)).map (·.version)).getD 0) = true :=
    beq_iff_eq.mpr hversion
  refine ⟨⟨c.receipt, c.newEvents, false, hc.eventIds⟩, rfl, rfl, ?_⟩
  simp only [commit, decideCommit, hfree, hrequire, require, if_true, hvalid, hnew, raising_ok, bind,
    Except.bind, pure, Except.pure]

theorem commit_error {s : MemoryStore} {beforeSwap : Option Failure} {c : Candidate} {e : Failure}
    (h : (s.commit beforeSwap c).2 = .error e) : (s.commit beforeSwap c).1 = s := by
  have hc := s.commit_commits beforeSwap c
  generalize (s.commit beforeSwap c).1 = t at hc ⊢
  rw [h] at hc
  cases hc with
  | raised e => rfl

end MemoryStore

/-- The in-memory repository behind the service. The environment of a commit is
    what its hook raises. -/
def memoryRepository : Repository MemoryStore (Option Failure) where
  initial := MemoryStore.empty
  load s _ tenantId runId := .ok (s.load tenantId runId)
  findCommand s _ := s.findCommand
  commit s beforeSwap c := s.commit beforeSwap c
  background s _ := s

end Zhiyi
