import Zhiyi.Domain.History
import Zhiyi.Memory.Idempotency

set_option autoImplicit false

/-! Stored logs are histories. A commit finds its run at the version the call
loaded, and one version of a run is one run, so what is appended is what the
aggregate computed from the stored run. -/
namespace Zhiyi
open Python Interleaving RunLifecycle

/-- A run and its log later on: they only go on, and a terminal run stays. -/
structure Grown (run run' : Run) (log log' : List RunEvent) : Prop where
  origin : Run.SameOrigin run run'
  appended : log <+: log'
  version : run.version ≤ run'.version
  same : run'.version = run.version → run' = run ∧ log' = log
  final : run.status.isTerminal = true → run' = run ∧ log' = log

namespace Grown

theorem refl (run : Run) (log : List RunEvent) : Grown run run log log :=
  ⟨.refl run, List.prefix_refl log, le_rfl, fun _ => ⟨rfl, rfl⟩, fun _ => ⟨rfl, rfl⟩⟩

theorem trans {a b c : Run} {log log' log'' : List RunEvent} (h : Grown a b log log')
    (k : Grown b c log' log'') : Grown a c log log'' where
  origin := h.origin.trans k.origin
  appended := h.appended.trans k.appended
  version := h.version.trans k.version
  same he := by
    have h1 := h.version
    have h2 := k.version
    obtain ⟨rfl, rfl⟩ := k.same (by omega)
    exact h.same he
  final ht := by
    obtain ⟨rfl, rfl⟩ := h.final ht
    exact k.final ht

theorem performed {before : Run} {observedAt : DateTime} {eventId : EventId} {op : Operation}
    {m : RunMutation} (h : before.perform observedAt eventId op = .ok m) (log : List RunEvent) :
    Grown before m.run log (log ++ m.events) := by
  rcases Run.perform_eq_ok h with ⟨rfl, -⟩ | ⟨c, -, -, hchanged⟩
  · rw [List.append_nil]
    exact refl before log
  obtain ⟨result, -, hnext⟩ := hchanged.next
  have hversion : m.run.version = before.version + 1 := by rw [hnext]; rfl
  refine ⟨Run.perform_sameOrigin h, List.prefix_append _ _, by omega, by omega, fun ht => ?_⟩
  rw [Run.terminal_kept ht h, List.append_nil]
  exact ⟨rfl, rfl⟩

end Grown

namespace MemoryStore

def Grows (s t : MemoryStore) : Prop :=
  ∀ key run log, s.runs.get? key = some run → s.events.get? key = some log →
    ∃ run' log', t.runs.get? key = some run' ∧ t.events.get? key = some log' ∧
      Grown run run' log log'

theorem Grows.refl (s : MemoryStore) : s.Grows s :=
  fun _ run log hrun hlog => ⟨run, log, hrun, hlog, .refl run log⟩

theorem Grows.trans {s t u : MemoryStore} (h : s.Grows t) (k : t.Grows u) : s.Grows u := by
  intro key run log hrun hlog
  obtain ⟨run', log', hrun', hlog', hgrown⟩ := h key run log hrun hlog
  obtain ⟨run'', log'', hrun'', hlog'', hgrown'⟩ := k key run' log' hrun' hlog'
  exact ⟨run'', log'', hrun'', hlog'', hgrown.trans hgrown'⟩

/-- The stored run is the given one or a later version of it. -/
def Holds (s : MemoryStore) (current : Run) : Prop :=
  ∃ run, s.runs.get? (current.tenantId, current.runId) = some run ∧
    current.version ≤ run.version ∧ (run.version = current.version → run = current)

/-- Every stored run has the log of its history. -/
def Historic (s : MemoryStore) : Prop :=
  ∀ key run log, s.runs.get? key = some run → s.events.get? key = some log → History run log

theorem Holds.grows {s t : MemoryStore} (hs : s.StoreInvariant) {current : Run} (h : s.Holds current)
    (hgrows : s.Grows t) : t.Holds current := by
  obtain ⟨run, hrun, hle, hsame⟩ := h
  have hlogs := hs.logs (current.tenantId, current.runId)
  rw [hrun] at hlogs
  obtain ⟨log, hlog⟩ := Option.isSome_iff_exists.mp hlogs.symm
  obtain ⟨run', log', hrun', -, hgrown⟩ := hgrows _ run log hrun hlog
  have hversion := hgrown.version
  refine ⟨run', hrun', hle.trans hversion, fun he => ?_⟩
  rw [(hgrown.same (by omega)).1]
  exact hsame (by omega)

/-- What a commit of a prepared call stores: a new run with the events of its
    creation, or one more operation on the stored run. -/
inductive Stores (s : MemoryStore) (cand : Candidate) (m : RunMutation) : Prop
  | create (hfree : s.runs.get? (runKey cand) = none) (hhistory : History m.run m.events)
  | operate (before : Run) (observedAt : DateTime) (eventId : EventId) (op : Operation)
    (hbefore : s.runs.get? (runKey cand) = some before)
    (hperform : before.perform observedAt eventId op = .ok m)

theorem stores_of_commits {s t : MemoryStore} {command : Command} {current : Option Run}
    {m : RunMutation} {cand : Candidate} {result : Except Failure CommitOutcome}
    (hp : Prepared command current m cand)
    (hbase : ∀ before, current = some before → s.Holds before) (h : s.Commits cand t result) :
    t = s ∨ ∃ outcome, t = s.published cand outcome ∧ s.Stores cand m := by
  cases h with
  | raised | replayed => exact .inl rfl
  | stored outcome hfree hversion hconsistent hshape =>
    refine .inr ⟨outcome, rfl, ?_⟩
    cases hp with
    | create c hcommand runId eventId observedAt _ _ hmutation hcandidate =>
      obtain ⟨_, -, hexpected, -, -, -⟩ := candidate_eq_ok hcandidate
      rw [hcommand] at hexpected
      have hrun : s.runs.get? (runKey cand) = none := by
        generalize s.runs.get? (runKey cand) = stored at hshape
        cases hshape with
        | create => rfl
        | update _ _ _ hne => exact absurd hexpected hne
        | record _ _ hne => exact absurd hexpected hne
      exact .create hrun (.created _ _ _ _ _ _ _ m hmutation)
    | existing c hcommand before eventId observedAt _ _ hbefore hmutation hevents hcandidate =>
      obtain ⟨_, -, hexpected, hupdated, -, -⟩ := candidate_eq_ok hcandidate
      obtain ⟨run, hrun, hle, hsame⟩ := hbase before rfl
      have horigin := Run.perform_sameOrigin hmutation
      have hkey : runKey cand = (before.tenantId, before.runId) := by
        rw [runKey, hupdated, horigin.tenantId, horigin.runId]
      have hequal : run.version = before.version := by
        rw [hkey, hrun, hexpected, hcommand] at hversion
        exact (hbefore.trans hversion).symm
      rw [← hkey, hsame hequal] at hrun
      exact .operate before observedAt eventId c.operation hrun hmutation

variable {s : MemoryStore} {cand : Candidate} {m : RunMutation} {outcome : CommitOutcome}

theorem Stores.grows (h : s.Stores cand m) (hrun : cand.updatedRun = m.run)
    (hevents : cand.newEvents = m.events) : s.Grows (s.published cand outcome) := by
  intro key run log hget hlog
  rw [get?_published_runs, get?_published_events]
  by_cases hk : key = runKey cand
  · subst hk
    simp only [if_true, hlog, Option.getD_some, hrun, hevents]
    cases h with
    | create hfree => exact absurd (hget.symm.trans hfree) (by simp)
    | operate before _ _ _ hbefore hperform =>
      cases Option.some.inj (hget.symm.trans hbefore)
      exact ⟨m.run, log ++ m.events, rfl, rfl, .performed hperform log⟩
  · simp only [if_neg hk]
    exact ⟨run, log, hget, hlog, .refl run log⟩

theorem Stores.historic (h : s.Stores cand m) (hs : s.StoreInvariant) (hhistoric : s.Historic)
    (hrun : cand.updatedRun = m.run) (hevents : cand.newEvents = m.events) :
    (s.published cand outcome).Historic := by
  intro key run log hget hlog
  rw [get?_published_runs] at hget
  rw [get?_published_events] at hlog
  split_ifs at hget hlog with hk
  · cases Option.some.inj hget
    cases Option.some.inj hlog
    have hlogs := hs.logs (runKey cand)
    rw [hrun, hevents]
    cases h with
    | create hfree hhistory =>
      rw [hfree] at hlogs
      have hnone : s.events.get? (runKey cand) = none := by simpa using hlogs.symm
      rw [hnone]
      exact hhistory
    | operate before observedAt eventId op hbefore hperform =>
      rw [hbefore] at hlogs
      obtain ⟨log, hlog⟩ := Option.isSome_iff_exists.mp hlogs.symm
      rw [hlog]
      exact .performed before log observedAt eventId op m (hhistoric _ _ _ hbefore hlog) hperform
  · exact hhistoric key run log hget hlog

end MemoryStore

namespace MemorySystem

/-- Stored runs have the log of their history, and a prepared call was computed
    from a version of its run that the store holds or has passed. -/
structure Recorded (s : MemorySystem) : Prop where
  historic : s.store.Historic
  base : ∀ call ∈ s.calls, ∀ current mutation cand,
    call.phase = .prepared (some current) mutation cand → s.store.Holds current

theorem advance_stores {s : MemorySystem} (hs : Sound s) (hr : Recorded s) {index : ℕ}
    (choice : Choice (Option Failure)) {call : Call} (hcall : s.calls[index]? = some call) :
    (advance memoryRepository s.store call choice).1 = s.store ∨
      ∃ cand m outcome,
        (advance memoryRepository s.store call choice).1 = s.store.published cand outcome ∧
          cand.updatedRun = m.run ∧ cand.newEvents = m.events ∧ s.store.Stores cand m := by
  have hmem : call ∈ s.calls := List.mem_of_getElem? hcall
  rcases advance_commits s.store call choice with h | ⟨current, m, cand, result, hphase, hcommits⟩
  · exact .inl h
  have hp := hs.prepared call hmem current m cand hphase
  obtain ⟨createdAt, hc⟩ := hp.candidate_ok
  obtain ⟨_, -, -, hrun, hevents, -⟩ := candidate_eq_ok hc
  have hbase : ∀ before, current = some before → s.store.Holds before := by
    rintro before rfl
    exact hr.base call hmem before m cand hphase
  rcases MemoryStore.stores_of_commits hp hbase hcommits with h | ⟨outcome, h, hstores⟩
  · exact .inl h
  · exact .inr ⟨cand, m, outcome, h, hrun, hevents, hstores⟩

theorem step_stores {s : MemorySystem} (hs : Sound s) (hr : Recorded s)
    (label : Label (Option Failure)) :
    s.store.Grows (step memoryRepository s label).store ∧
      (step memoryRepository s label).store.Historic := by
  cases label with
  | invoke command => exact ⟨.refl _, hr.historic⟩
  | background context => exact ⟨.refl _, hr.historic⟩
  | advance index choice =>
    cases hcall : s.calls[index]? with
    | none =>
      simp only [step, hcall]
      exact ⟨.refl _, hr.historic⟩
    | some call =>
      simp only [step, hcall]
      rcases advance_stores hs hr choice hcall with
        h | ⟨cand, m, outcome, h, hrun, hevents, hstores⟩
      · rw [h]
        exact ⟨.refl _, hr.historic⟩
      · rw [h]
        exact ⟨hstores.grows hrun hevents, hstores.historic hs.store hr.historic hrun hevents⟩

theorem recorded_step {s : MemorySystem} (hs : Sound s) (hr : Recorded s)
    (label : Label (Option Failure)) : Recorded (step memoryRepository s label) := by
  obtain ⟨hgrows, hhistoric⟩ := step_stores hs hr label
  refine ⟨hhistoric, ?_⟩
  intro call hcall current mutation cand hphase
  rcases mem_calls_step hcall with hold | hbegun | ⟨index, choice, old, rfl, hget, rfl⟩
  · exact (hr.base call hold current mutation cand hphase).grows hs.store hgrows
  · rw [hbegun] at hphase
    cases hphase
  · obtain ⟨-, -, hload⟩ := advance_prepared (Prod.ext rfl hphase)
    obtain ⟨command, -, hload⟩ := hload current rfl
    have hstored := Except.ok.inj hload
    have hkey := hs.store.runKeys _ _ hstored
    have hholds : s.store.Holds current := ⟨current, hkey ▸ hstored, le_rfl, fun _ => rfl⟩
    exact hholds.grows hs.store hgrows

theorem recorded_invariant :
    (machine memoryRepository).Invariant fun s => Sound s ∧ Recorded s :=
  sound_invariant.strengthen
    ⟨by simp [machine, memoryRepository, MemoryStore.empty, MemoryStore.Historic], by simp [machine]⟩
    fun _ label hs hr => recorded_step hs hr label

theorem grows_runFrom {s : MemorySystem} (hs : Sound s ∧ Recorded s)
    (later : List (Label (Option Failure))) :
    s.store.Grows ((machine memoryRepository).runFrom s later).store :=
  recorded_invariant.related (R := fun s t => s.store.Grows t.store) (fun s => .refl s.store)
    (fun _ _ _ h k => h.trans k) (fun _ label hs => (step_stores hs.1 hs.2 label).1) hs later

/-- What the store holds for a run, now and after everything that may follow. -/
def KeepsHistory (s t : MemoryStore) : Prop :=
  ∀ key run, s.runs.get? key = some run → ∃ log, s.events.get? key = some log ∧ Faithful run log ∧
    ∃ run' log', t.runs.get? key = some run' ∧ t.events.get? key = some log' ∧
      Grown run run' log log'

/-- Over every interleaving the stored logs are faithful, and runs only go on. -/
theorem history_is_faithful (history later : List (Label (Option Failure))) :
    KeepsHistory ((machine memoryRepository).run history).store
      ((machine memoryRepository).run (history ++ later)).store := by
  intro key run hrun
  have hs := recorded_invariant.run history
  have hlogs := hs.1.store.logs key
  rw [hrun] at hlogs
  obtain ⟨log, hlog⟩ := Option.isSome_iff_exists.mp hlogs.symm
  have hgrows := grows_runFrom hs later
  rw [← Machine.run_append] at hgrows
  exact ⟨log, hlog, (hs.2.historic key run log hrun hlog).faithful, hgrows key run log hrun hlog⟩

end MemorySystem
end Zhiyi
