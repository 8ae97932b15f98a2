import Zhiyi.Library.Paging
import Zhiyi.Postgres.LeaseHistory

set_option autoImplicit false

/-! Pages of inactive running leases, read from cursor to cursor while the store goes on
changing. Every change of a lease ends its authority after the time of the first page,
so later pages still show the leases of that time. -/
namespace Zhiyi
open Python Interleaving

/-- `(authority_ended_at, run_id)`. -/
def InactiveRunningLease.key (lease : InactiveRunningLease) : Database.InactiveKey :=
  toLex (lease.authorityEndedAt, lease.runId)

def InactiveRunningCursor.key (cursor : InactiveRunningCursor) : Database.InactiveKey :=
  toLex (cursor.lastAuthorityEndedAt, cursor.lastRunId)

theorem InactiveRunningLease.Observes.ended {record : InactiveRunningLease} {tenantId : TenantId}
    {runId : RunId} {row : WorkerLeaseRow} (h : record.Observes tenantId runId row) :
    record.authorityEndedAt = row.authorityEndedAt := by
  unfold WorkerLeaseRow.authorityEndedAt
  cases hcase : row.releasedAt with
  | none => exact (h.expired hcase).2
  | some releasedAt => exact (h.released releasedAt hcase).2

namespace Database
variable {db : Database} {tenantId : TenantId} {asOf : DateTime}

/-- The inactive running leases of a tenant in the order of the pages. -/
def inactiveLog (db : Database) (tenantId : TenantId) (asOf : DateTime) :
    List (RunRowKey × WorkerLeaseRow) :=
  (db.workerLeases.items.filter fun p => db.isRunning p.1 && (ofLex p.1).1 == tenantId &&
    decide (p.2.authorityEndedAt ≤ asOf)).insertionSort fun p q => inactiveKey p ≤ inactiveKey q

def inactiveAfter (db : Database) (tenantId : TenantId) (asOf : DateTime)
    (cursor : Option InactiveRunningCursor) : List (RunRowKey × WorkerLeaseRow) :=
  (db.inactiveLog tenantId asOf).filter fun p => cursor.all fun c => decide (c.key < inactiveKey p)

theorem mem_inactiveLog {p : RunRowKey × WorkerLeaseRow} : p ∈ db.inactiveLog tenantId asOf ↔
    db.workerLeases.get? p.1 = some p.2 ∧ db.isRunning p.1 = true ∧
      p.1 = rowKey tenantId (ofLex p.1).2 ∧ p.2.authorityEndedAt ≤ asOf := by
  obtain ⟨key, row⟩ := p
  simp only [inactiveLog, List.mem_insertionSort, List.mem_filter, Dict.mem_items_iff, Bool.and_eq_true,
    beq_iff_eq, decide_eq_true_eq]
  constructor
  · rintro ⟨hrow, ⟨hrunning, rfl⟩, hended⟩
    exact ⟨hrow, hrunning, rfl, hended⟩
  · rintro ⟨hrow, hrunning, hkey, hended⟩
    refine ⟨hrow, ⟨hrunning, ?_⟩, hended⟩
    rw [hkey]
    rfl

theorem inactiveLog_ascending : Paging.Ascending inactiveKey (db.inactiveLog tenantId asOf) := by
  have hitems : db.workerLeases.items.Nodup :=
    db.workerLeases.ascending.imp fun hlt he => by subst he; exact lt_irrefl _ hlt
  have hnodup : (db.inactiveLog tenantId asOf).Nodup :=
    ((List.perm_insertionSort _ _).nodup_iff).mpr (hitems.filter _)
  have : Std.Total fun p q : RunRowKey × WorkerLeaseRow => inactiveKey p ≤ inactiveKey q :=
    ⟨fun p q => le_total (inactiveKey p) (inactiveKey q)⟩
  have : IsTrans (RunRowKey × WorkerLeaseRow) fun p q => inactiveKey p ≤ inactiveKey q :=
    ⟨fun _ _ _ => le_trans⟩
  have hsorted : (db.inactiveLog tenantId asOf).Pairwise fun p q => inactiveKey p ≤ inactiveKey q :=
    List.pairwise_insertionSort _ _
  -- leases with one key are those of one run
  refine (hsorted.and hnodup).imp_of_mem fun {p q} hp hq h => lt_of_le_of_ne h.1 fun heq => h.2 ?_
  obtain ⟨hrow, -, hkey, -⟩ := mem_inactiveLog.mp hp
  obtain ⟨hrow', -, hkey', -⟩ := mem_inactiveLog.mp hq
  have hrun : (ofLex p.1).2 = (ofLex q.1).2 := congrArg (fun k => (ofLex k).2) heq
  have hsame : p.1 = q.1 := by rw [hkey, hkey', hrun]
  rw [hsame, hrow'] at hrow
  exact Prod.ext hsame (Option.some.inj hrow).symm

theorem inactiveRows_eq (cursor : Option InactiveRunningCursor) (limit : ℕ) :
    db.inactiveRows tenantId asOf cursor limit = (db.inactiveAfter tenantId asOf cursor).take (limit + 1) := by
  unfold inactiveRows inactiveAfter
  refine congrArg (List.take (limit + 1)) ?_
  refine Paging.Ascending.insertionSort (inactiveLog_ascending.sublist List.filter_sublist) ?_
  refine List.Perm.trans ?_ ((List.perm_insertionSort _ _).filter _).symm
  rw [List.filter_filter]
  refine List.Perm.of_eq (List.filter_congr fun p _ => ?_)
  rw [Bool.and_comm]
  rfl

/-- What a page shows: the first leases after the cursor, and the cursor of its last one when there
    are more. -/
structure Pages (db : Database) (tenantId : TenantId) (asOf : DateTime)
    (cursor : Option InactiveRunningCursor) (limit : ℕ) (page : InactiveRunningPage) : Prop where
  items : List.Forall₂ (fun p item => item.Observes tenantId (ofLex p.1).2 p.2)
    ((db.inactiveAfter tenantId asOf cursor).take limit) page.items
  last : page.nextCursor = none → (db.inactiveAfter tenantId asOf cursor).length ≤ limit
  next : ∀ following, page.nextCursor = some following → following.tenantId = tenantId ∧
    following.asOf = asOf ∧ limit < (db.inactiveAfter tenantId asOf cursor).length ∧
    ∃ item, page.items.getLast? = some item ∧ following.key = item.key

theorem listInactiveRunning_pages (db : Database) {cursor : Option InactiveRunningCursor} {limit : ℕ}
    (hlimit : 1 ≤ limit ∧ limit ≤ 1000) (hcursor : ∀ c, cursor = some c → c.tenantId = tenantId ∧ c.asOf = asOf)
    (platformNow : DateTime) (hclock : cursor = none → platformNow = asOf) :
    ∃ page, db.listInactiveRunning tenantId cursor limit platformNow = .ok page ∧
      db.Pages tenantId asOf cursor limit page := by
  have htime : (cursor.map (·.asOf)).getD platformNow = asOf := by
    cases cursor with
    | none => exact hclock rfl
    | some c => exact (hcursor c rfl).2
  have hvalid :
      (cursor.all (·.tenantId == tenantId) && decide (1 ≤ limit) && decide (limit ≤ 1000)) = true := by
    cases cursor with
    | none => simp [hlimit]
    | some c => simp [hlimit, (hcursor c rfl).1]
  obtain ⟨decoded, hdecoded, hobserves⟩ := Paging.mapM_forall₂
    (f := fun p : RunRowKey × WorkerLeaseRow =>
      decodeInactiveRunning (inactiveRunning tenantId (ofLex p.1).2 p.2))
    (R := fun p item => item.Observes tenantId (ofLex p.1).2 p.2)
    (l := (db.inactiveAfter tenantId asOf cursor).take (limit + 1))
    fun p _ => p.2.exists_inactive tenantId (ofLex p.1).2
  have hitems : List.Forall₂ (fun p item => InactiveRunningLease.Observes item tenantId (ofLex p.1).2 p.2)
      ((db.inactiveAfter tenantId asOf cursor).take limit) (decoded.take limit) := by
    have htake := List.forall₂_take limit hobserves
    rwa [List.take_take, Nat.min_eq_left (Nat.le_succ limit)] at htake
  have hlength : decoded.length = min (limit + 1) (db.inactiveAfter tenantId asOf cursor).length := by
    rw [← hobserves.length_eq, List.length_take]
  rw [← inactiveRows_eq] at hdecoded
  unfold listInactiveRunning
  rw [hvalid, htime]
  cases hlast : (decoded.take limit).getLast? with
  | none =>
    refine ⟨⟨decoded.take limit, none⟩, bind_eq_ok.mpr ⟨(), rfl, bind_eq_ok.mpr ⟨decoded, hdecoded, ?_⟩⟩,
      hitems, fun _ => ?_, fun _ h => (by cases h)⟩
    · dsimp only
      rw [hlast]
      rfl
    have hnil := List.getLast?_eq_none_iff.mp hlast
    have hzero : (decoded.take limit).length = 0 := by rw [hnil]; rfl
    rw [List.length_take, hlength] at hzero
    omega
  | some last =>
    by_cases hmore : limit < decoded.length
    · obtain ⟨p, hp, hobserved⟩ := Paging.getLast?_forall₂ hitems hlast
      have hmem := List.mem_of_mem_take (List.mem_of_getLast? hp)
      have hended := (mem_inactiveLog.mp (List.mem_of_mem_filter hmem)).2.2.2
      rw [← hobserved.ended] at hended
      refine ⟨⟨decoded.take limit, some ⟨tenantId, asOf, last.authorityEndedAt, last.runId, hended⟩⟩,
        bind_eq_ok.mpr ⟨(), rfl, bind_eq_ok.mpr ⟨decoded, hdecoded, ?_⟩⟩, hitems, fun h => (by cases h), ?_⟩
      · dsimp only
        rw [hlast]
        simp only [hmore, if_true, InactiveRunningCursor.new, hended, dif_pos]
        rfl
      · rintro _ ⟨⟩
        exact ⟨rfl, rfl, by omega, last, hlast, rfl⟩
    · refine ⟨⟨decoded.take limit, none⟩, bind_eq_ok.mpr ⟨(), rfl, bind_eq_ok.mpr ⟨decoded, hdecoded, ?_⟩⟩,
        hitems, fun _ => by omega, fun _ h => (by cases h)⟩
      dsimp only
      rw [hlast]
      simp only [hmore, if_false]
      rfl

variable {cursor : Option InactiveRunningCursor} {limit : ℕ} {page : InactiveRunningPage}

theorem inactiveAfter_ascending : Paging.Ascending inactiveKey (db.inactiveAfter tenantId asOf cursor) :=
  inactiveLog_ascending.sublist List.filter_sublist

theorem key_of_observes {p : RunRowKey × WorkerLeaseRow} {item : InactiveRunningLease}
    (h : item.Observes tenantId (ofLex p.1).2 p.2) : item.key = inactiveKey p := by
  unfold InactiveRunningLease.key inactiveKey
  rw [h.ended, h.run]

theorem Pages.keys (h : db.Pages tenantId asOf cursor limit page) :
    page.items.map InactiveRunningLease.key =
      ((db.inactiveAfter tenantId asOf cursor).take limit).map inactiveKey :=
  Paging.map_eq_of_forall₂ h.items fun _ _ => key_of_observes

theorem Pages.ascending (h : db.Pages tenantId asOf cursor limit page) :
    page.items.Pairwise (fun a b => a.key < b.key) ∧
      ∀ item ∈ page.items, ∀ c, cursor = some c → c.key < item.key := by
  constructor
  · rw [← List.pairwise_map (f := InactiveRunningLease.key), h.keys, List.pairwise_map]
    exact inactiveAfter_ascending.sublist (List.take_sublist _ _)
  · rintro item hitem c rfl
    obtain ⟨p, hp, hobserves⟩ := Paging.exists_of_forall₂ h.items hitem
    rw [key_of_observes hobserves]
    simpa using (List.mem_filter.mp (List.mem_of_mem_take hp)).2

theorem Pages.inactiveAfter_next (h : db.Pages tenantId asOf cursor limit page)
    {following : InactiveRunningCursor} (hnext : page.nextCursor = some following) :
    db.inactiveAfter tenantId asOf (some following) = (db.inactiveAfter tenantId asOf cursor).drop limit := by
  obtain ⟨-, -, -, item, hitem, hkey⟩ := h.next following hnext
  obtain ⟨p, hp, hobserves⟩ := Paging.getLast?_forall₂ h.items hitem
  rw [← inactiveAfter_ascending.filter_drop hp]
  unfold inactiveAfter
  rw [List.filter_filter]
  refine List.filter_congr fun q _ => ?_
  have hlast : following.key = inactiveKey p := hkey.trans (key_of_observes hobserves)
  rw [Option.all_some, hlast]
  cases cursor with
  | none => simp
  | some c =>
    have hafter := h.ascending.2 item (List.mem_of_getLast? hitem) c rfl
    rw [key_of_observes hobserves] at hafter
    rw [Option.all_some, Bool.eq_iff_iff]
    simp only [Bool.and_eq_true, decide_eq_true_eq]
    exact ⟨fun hlt => ⟨hlt, hafter.trans hlt⟩, And.left⟩

/-- The pages that a reader gets who follows the cursors, each with the store it was read from;
    after each page calls happen. -/
def readPages (tenantId : TenantId) (platformNow : DateTime) : Database → Option InactiveRunningCursor →
    List (ℕ × List Call) → Except Failure (List (Database × InactiveRunningPage))
  | _, _, [] => .ok []
  | db, cursor, (limit, calls) :: steps => do
    let page ← db.listInactiveRunning tenantId cursor limit platformNow
    match page.nextCursor with
    | none => return [(db, page)]
    | some following =>
      let rest ← readPages tenantId platformNow (repositories.runFrom db calls) (some following) steps
      return (db, page) :: rest

def itemsOf (pages : List (Database × InactiveRunningPage)) : List InactiveRunningLease :=
  pages.flatMap fun p => p.2.items

/-- Leases whose authority ended by a time are those of an earlier store. -/
def Frozen (first db : Database) (asOf : DateTime) : Prop :=
  ∀ key row, db.workerLeases.get? key = some row → row.authorityEndedAt ≤ asOf →
    first.workerLeases.get? key = some row

theorem Frozen.perform {first : Database} (h : Frozen first db asOf) {call : Call}
    (hlater : ∀ now, db.moment call = some now → asOf < now) : Frozen first (db.perform call) asOf := by
  intro key row hrow hended
  cases db.plays call key with
  | silent hsame => exact h key row (hsame ▸ hrow) hended
  | granted now granted proof hmoment hgrant hnew =>
    cases hrow.symm.trans hnew
    obtain ⟨hreleased, hexpires⟩ := hgrant.lasts
    have hends : row.authorityEndedAt = row.leaseExpiresAt := by
      unfold WorkerLeaseRow.authorityEndedAt
      rw [show row.releasedAt = none from hreleased]
      rfl
    rw [hends] at hended
    exact absurd hended (not_le.mpr ((hlater now hmoment).trans hexpires))
  | updated now old updated hmoment hold hupdates hnew =>
    cases hrow.symm.trans hnew
    have hlate := hlater now hmoment
    unfold WorkerLeaseRow.authorityEndedAt at hended
    rcases hupdates.ends with ⟨-, hexpires, hreleased⟩ | ⟨-, hreleased⟩
    · rw [hreleased] at hended
      exact absurd hended (not_le.mpr (hlate.trans hexpires))
    · rw [hreleased] at hended
      exact absurd hended (not_le.mpr hlate)

theorem Frozen.run {first : Database} (h : Frozen first db asOf) (calls : List Call)
    (hlater : ∀ now ∈ db.moments calls, asOf < now) : Frozen first (repositories.runFrom db calls) asOf := by
  induction calls generalizing db with
  | nil => exact h
  | cons call calls ih =>
    refine ih (h.perform fun now hnow => hlater now ?_) fun now hnow => hlater now ?_
    · exact List.mem_append_left _ (Option.mem_toList.mpr hnow)
    · exact List.mem_append_right _ hnow

theorem moments_append (db : Database) (calls more : List Call) :
    db.moments (calls ++ more) = db.moments calls ++ (repositories.runFrom db calls).moments more := by
  induction calls generalizing db with
  | nil => rfl
  | cons call calls ih => rw [List.cons_append, moments, moments, ih, List.append_assoc, run_cons]

/-- An item of a page: a lease of the tenant whose run is running in the store of the page, and
    which the first store already had, over by the time of the first page. -/
structure Shows (first : Database) (tenantId : TenantId) (asOf : DateTime) (db : Database)
    (item : InactiveRunningLease) : Prop where
  tenant : item.tenantId = tenantId
  running : db.isRunning (rowKey tenantId item.runId) = true
  row : ∃ row, db.workerLeases.get? (rowKey tenantId item.runId) = some row ∧
    first.workerLeases.get? (rowKey tenantId item.runId) = some row ∧
    item.Observes tenantId item.runId row ∧ row.authorityEndedAt ≤ asOf

/-- What a reader is shown, whatever happens between the pages. -/
structure Walks (first : Database) (tenantId : TenantId) (asOf : DateTime)
    (pages : List (Database × InactiveRunningPage)) : Prop where
  ascending : (itemsOf pages).Pairwise fun a b => a.key < b.key
  shows : ∀ p ∈ pages, ∀ item ∈ p.2.items, Shows first tenantId asOf p.1 item

theorem Pages.shows {first : Database} (hfrozen : Frozen first db asOf)
    (h : db.Pages tenantId asOf cursor limit page) {item : InactiveRunningLease} (hitem : item ∈ page.items) :
    Shows first tenantId asOf db item := by
  obtain ⟨p, hp, hobserves⟩ := Paging.exists_of_forall₂ h.items hitem
  obtain ⟨hrow, hrunning, hkey, hended⟩ :=
    mem_inactiveLog.mp (List.mem_of_mem_filter (List.mem_of_mem_take hp))
  have hrun : p.1 = rowKey tenantId item.runId := by rw [hobserves.run]; exact hkey
  have hfirst := hfrozen p.1 p.2 hrow hended
  rw [hrun] at hrow hrunning hfirst
  exact ⟨hobserves.tenant, hrunning, p.2, hrow, hfirst, hobserves.run ▸ hobserves, hended⟩

theorem readPages_walks {first : Database} (hfrozen : Frozen first db asOf)
    (hcursor : ∀ c, cursor = some c → c.tenantId = tenantId ∧ c.asOf = asOf) (steps : List (ℕ × List Call))
    (hlimits : ∀ step ∈ steps, 1 ≤ step.1 ∧ step.1 ≤ 1000)
    (hlater : ∀ now ∈ db.moments (steps.flatMap Prod.snd), asOf < now) :
    ∃ pages, readPages tenantId asOf db cursor steps = .ok pages ∧ Walks first tenantId asOf pages ∧
      ∀ item ∈ itemsOf pages, ∀ c, cursor = some c → c.key < item.key := by
  induction steps generalizing db cursor with
  | nil => exact ⟨[], rfl, ⟨.nil, fun _ hp => (by cases hp)⟩, fun _ hitem => (by cases hitem)⟩
  | cons step steps ih =>
    obtain ⟨limit, calls⟩ := step
    obtain ⟨page, hpage, hpages⟩ := db.listInactiveRunning_pages (hlimits _ List.mem_cons_self) hcursor asOf
      fun _ => rfl
    rw [List.flatMap_cons, moments_append] at hlater
    cases hnext : page.nextCursor with
    | none =>
      refine ⟨[(db, page)], ?_, ⟨?_, ?_⟩, ?_⟩
      · simp only [readPages]
        exact bind_eq_ok.mpr ⟨page, hpage, by rw [hnext]; rfl⟩
      · simpa [itemsOf] using hpages.ascending.1
      · rintro p hp item hitem
        rw [List.mem_singleton.mp hp] at hitem ⊢
        exact hpages.shows hfrozen hitem
      · intro item hitem
        exact hpages.ascending.2 item (by simpa [itemsOf] using hitem)
    | some following =>
      obtain ⟨htenant, hasOf, -, last, hlast, hkey⟩ := hpages.next following hnext
      obtain ⟨pages, hread, hwalks, hafter⟩ := ih
        (hfrozen.run calls fun now hnow => hlater now (List.mem_append_left _ hnow))
        (fun c (hc : some following = some c) => Option.some.inj hc ▸ ⟨htenant, hasOf⟩)
        (fun step hstep => hlimits step (List.mem_cons_of_mem _ hstep))
        (fun now hnow => hlater now (List.mem_append_right _ hnow))
      have hitems : itemsOf ((db, page) :: pages) = page.items ++ itemsOf pages := rfl
      have hlater : ∀ a ∈ page.items, ∀ b ∈ itemsOf pages, a.key < b.key := by
        intro a ha b hb
        have hle : a.key ≤ last.key := by
          have hsorted := hpages.ascending.1
          rw [← List.dropLast_append_getLast? last hlast] at hsorted ha
          rcases List.mem_append.mp ha with hbefore | hsame
          · exact ((List.pairwise_append.mp hsorted).2.2 a hbefore last (List.mem_singleton.mpr rfl)).le
          · rw [List.mem_singleton.mp hsame]
        exact lt_of_le_of_lt hle (hkey ▸ hafter b hb following rfl)
      refine ⟨(db, page) :: pages, ?_, ⟨?_, ?_⟩, ?_⟩
      · simp only [readPages]
        exact bind_eq_ok.mpr ⟨page, hpage, by rw [hnext]; exact bind_eq_ok.mpr ⟨pages, hread, rfl⟩⟩
      · rw [hitems]
        exact List.pairwise_append.mpr ⟨hpages.ascending.1, hwalks.ascending, hlater⟩
      · rintro p hp item hitem
        rcases List.mem_cons.mp hp with rfl | hp
        · exact hpages.shows hfrozen hitem
        · exact hwalks.shows p hp item hitem
      · rintro item hitem c rfl
        rw [hitems] at hitem
        rcases List.mem_append.mp hitem with hhere | hthere
        · exact hpages.ascending.2 item hhere c rfl
        · exact (hpages.ascending.2 last (List.mem_of_getLast? hlast) c rfl).trans
            (hkey ▸ hafter item hthere following rfl)

theorem Walks.once {first : Database} {pages : List (Database × InactiveRunningPage)}
    (h : Walks first tenantId asOf pages) : ((itemsOf pages).map (·.runId)).Nodup := by
  refine List.pairwise_map.mpr (h.ascending.imp_of_mem fun {a b} ha hb hlt hsame => ?_)
  obtain ⟨p, hp, hitem⟩ := List.mem_flatMap.mp ha
  obtain ⟨q, hq, hitem'⟩ := List.mem_flatMap.mp hb
  obtain ⟨row, -, hrow, hobserves, -⟩ := (h.shows p hp a hitem).row
  obtain ⟨row', -, hrow', hobserves', -⟩ := (h.shows q hq b hitem').row
  rw [← hsame, hrow] at hrow'
  cases hrow'
  unfold InactiveRunningLease.key at hlt
  rw [hobserves.ended, hobserves'.ended, hsame] at hlt
  exact lt_irrefl _ hlt

theorem readPages_complete (limits : List ℕ) (hlimits : ∀ limit ∈ limits, 1 ≤ limit ∧ limit ≤ 1000)
    (hcursor : ∀ c, cursor = some c → c.tenantId = tenantId ∧ c.asOf = asOf)
    (hmore : (db.inactiveAfter tenantId asOf cursor).length < limits.length) :
    ∃ pages, readPages tenantId asOf db cursor (limits.map fun limit => (limit, [])) = .ok pages ∧
      List.Forall₂ (fun p item => InactiveRunningLease.Observes item tenantId (ofLex p.1).2 p.2)
        (db.inactiveAfter tenantId asOf cursor) (itemsOf pages) ∧
      ∃ last, pages.getLast? = some last ∧ last.2.nextCursor = none := by
  induction limits generalizing cursor with
  | nil => exact absurd hmore (Nat.not_lt_zero _)
  | cons limit limits ih =>
    have hlimit := hlimits limit List.mem_cons_self
    obtain ⟨page, hpage, hpages⟩ := db.listInactiveRunning_pages hlimit hcursor asOf fun _ => rfl
    cases hnext : page.nextCursor with
    | none =>
      refine ⟨[(db, page)], ?_, ?_, (db, page), rfl, hnext⟩
      · simp only [List.map_cons, readPages]
        exact bind_eq_ok.mpr ⟨page, hpage, by rw [hnext]; rfl⟩
      · have hitems := hpages.items
        rw [List.take_of_length_le (hpages.last hnext)] at hitems
        simpa [itemsOf] using hitems
    | some following =>
      obtain ⟨htenant, hasOf, hlonger, -⟩ := hpages.next following hnext
      have hrest := hpages.inactiveAfter_next hnext
      obtain ⟨pages, hread, hitems, last, hlast, hend⟩ := ih (fun l hl => hlimits l (List.mem_cons_of_mem _ hl))
        (fun c (hc : some following = some c) => Option.some.inj hc ▸ ⟨htenant, hasOf⟩)
        (by rw [hrest, List.length_drop]; rw [List.length_cons] at hmore; omega)
      refine ⟨(db, page) :: pages, ?_, ?_, last, ?_, hend⟩
      · simp only [List.map_cons, readPages]
        exact bind_eq_ok.mpr ⟨page, hpage, by rw [hnext]; exact bind_eq_ok.mpr ⟨pages, hread, rfl⟩⟩
      · rw [hrest] at hitems
        have hall := List.rel_append hpages.items hitems
        simp only [List.take_append_drop] at hall
        exact hall
      · rw [List.getLast?_cons, hlast]
        rfl

/-- Pages of inactive running leases. On an unchanged store the reader who follows the cursors gets
    every running run whose authority ended by the time of the first page, in the order of that end
    and the run, and comes to a page without a cursor; whatever calls happen between the pages, later
    than the first one, he is shown no run twice, in that order, and only runs of the tenant that are
    running when their page is read under a lease that was over by the time of the first page. -/
theorem inactive_pages (db : Database) (tenantId : TenantId) (asOf : DateTime) :
    (∀ limits : List ℕ, (∀ limit ∈ limits, 1 ≤ limit ∧ limit ≤ 1000) →
      (db.inactiveLog tenantId asOf).length < limits.length →
      ∃ pages, readPages tenantId asOf db none (limits.map fun limit => (limit, [])) = .ok pages ∧
        Walks db tenantId asOf pages ∧ ((itemsOf pages).map (·.runId)).Nodup ∧
        (∀ runId row, db.workerLeases.get? (rowKey tenantId runId) = some row →
          db.isRunning (rowKey tenantId runId) = true → row.authorityEndedAt ≤ asOf →
            ∃ item ∈ itemsOf pages, item.runId = runId) ∧
        ∃ last, pages.getLast? = some last ∧ last.2.nextCursor = none) ∧
    ∀ steps : List (ℕ × List Call), (∀ step ∈ steps, 1 ≤ step.1 ∧ step.1 ≤ 1000) →
      (∀ now ∈ db.moments (steps.flatMap Prod.snd), asOf < now) →
      ∃ pages, readPages tenantId asOf db none steps = .ok pages ∧ Walks db tenantId asOf pages ∧
        ((itemsOf pages).map (·.runId)).Nodup := by
  have hnone : db.inactiveAfter tenantId asOf none = db.inactiveLog tenantId asOf := by
    simp [inactiveAfter]
  have hself : Frozen db db asOf := fun _ _ hrow _ => hrow
  have hmoving : ∀ steps : List (ℕ × List Call), (∀ step ∈ steps, 1 ≤ step.1 ∧ step.1 ≤ 1000) →
      (∀ now ∈ db.moments (steps.flatMap Prod.snd), asOf < now) →
      ∃ pages, readPages tenantId asOf db none steps = .ok pages ∧ Walks db tenantId asOf pages := by
    intro steps hlimits hlater
    obtain ⟨pages, hread, hwalks, -⟩ :=
      readPages_walks hself (fun c (h : none = some c) => by cases h) steps hlimits hlater
    exact ⟨pages, hread, hwalks⟩
  refine ⟨fun limits hlimits hmore => ?_, fun steps hlimits hlater => ?_⟩
  · obtain ⟨pages, hread, hitems, hlast⟩ :=
      readPages_complete limits hlimits (fun c (h : none = some c) => by cases h) (hnone ▸ hmore)
    have hstill : ((limits.map fun limit => (limit, ([] : List Call))).flatMap Prod.snd) = [] := by
      simp [List.flatMap_map]
    obtain ⟨again, hagain, hwalks⟩ := hmoving (limits.map fun limit => (limit, []))
      (by simpa using hlimits) (by rw [hstill]; exact fun _ h => by cases h)
    cases Except.ok.inj (hread.symm.trans hagain)
    refine ⟨pages, hread, hwalks, hwalks.once, fun runId row hrow hrunning hended => ?_, hlast⟩
    rw [hnone] at hitems
    have hmem : (rowKey tenantId runId, row) ∈ db.inactiveLog tenantId asOf :=
      mem_inactiveLog.mpr ⟨hrow, hrunning, rfl, hended⟩
    obtain ⟨item, hitem, hobserves⟩ := Paging.exists_of_forall₂ hitems.flip hmem
    exact ⟨item, hitem, hobserves.run⟩
  · obtain ⟨pages, hread, hwalks⟩ := hmoving steps hlimits hlater
    exact ⟨pages, hread, hwalks, hwalks.once⟩

end Database
end Zhiyi
