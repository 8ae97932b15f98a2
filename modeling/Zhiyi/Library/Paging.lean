import Mathlib

set_option autoImplicit false

/-! Keyset pagination: pages of a log that ascends in a key, each after the last
key of the page before. -/
namespace Paging

variable {α β κ ι ε : Type} [LinearOrder κ] [LinearOrder ι] (key : α → κ)

/-- The entries strictly after a key, up to a limit. -/
def page (log : List α) (after : κ) (limit : ℕ) : List α :=
  (log.filter fun a => decide (after < key a)).take limit

def sortedPage (entries : List α) (after : κ) (limit : ℕ) : List α :=
  ((entries.filter fun a => decide (after < key a)).insertionSort fun a b => key a ≤ key b).take limit

/-- The pages that a reader gets who continues after the last entry, one page a limit, until
    a page is empty. -/
def follow (fetch : κ → ℕ → Except ε (List α)) : κ → List ℕ → Except ε (List (List α))
  | _, [] => .ok []
  | after, limit :: limits => do
    let entries ← fetch after limit
    match entries.getLast? with
    | none => return [entries]
    | some last =>
      let rest ← follow fetch (key last) limits
      return entries :: rest

def Ascending (log : List α) : Prop := log.Pairwise fun a b => key a < key b

variable {key}

theorem Ascending.injective {log : List α} (h : Ascending key log) :
    ∀ a ∈ log, ∀ b ∈ log, key a = key b → a = b := by
  have hnodup : (log.map key).Nodup := (List.pairwise_map.mpr h).imp ne_of_lt
  exact fun a ha b hb => List.inj_on_of_nodup_map hnodup ha hb

theorem Ascending.insertionSort {log entries : List α} (h : Ascending key log)
    (hperm : entries.Perm log) : (entries.insertionSort fun a b => key a ≤ key b) = log := by
  have : Std.Total fun a b : α => key a ≤ key b := ⟨fun a b => le_total (key a) (key b)⟩
  have : IsTrans α fun a b : α => key a ≤ key b := ⟨fun _ _ _ => le_trans⟩
  have hsorted := (List.perm_insertionSort (fun a b => key a ≤ key b) entries).trans hperm
  refine List.Perm.eq_of_pairwise (fun a b ha hb hab hba => ?_)
    (List.pairwise_insertionSort (fun a b => key a ≤ key b) entries) (h.imp le_of_lt) hsorted
  exact h.injective a (hsorted.mem_iff.mp ha) b hb (le_antisymm hab hba)

theorem Ascending.sortedPage {log entries : List α} (h : Ascending key log) (hperm : entries.Perm log)
    (after : κ) (limit : ℕ) : sortedPage key entries after limit = page key log after limit := by
  unfold Paging.sortedPage page
  rw [Ascending.insertionSort (h.sublist List.filter_sublist) (hperm.filter _)]

theorem page_map {key' : β → ι} {f : α → β} {g : κ → ι} (log : List α) (after : κ) (limit : ℕ)
    (hkey : ∀ a ∈ log, g after < key' (f a) ↔ after < key a) :
    page key' (log.map f) (g after) limit = (page key log after limit).map f := by
  unfold page
  rw [List.filter_map, ← List.map_take]
  congr 2
  refine List.filter_congr fun a ha => ?_
  simp only [Function.comp_apply, hkey a ha]

theorem Ascending.map {key' : β → ι} {f : α → β} {log : List α} (h : Ascending key log)
    (hkey : ∀ a b, key a < key b → key' (f a) < key' (f b)) : Ascending key' (log.map f) :=
  List.pairwise_map.mpr (h.imp fun hlt => hkey _ _ hlt)

theorem mapM_forall₂ {ε α β : Type} {f : α → Except ε β} {R : α → β → Prop} {l : List α}
    (h : ∀ a ∈ l, ∃ b, f a = .ok b ∧ R a b) : ∃ bs, l.mapM f = .ok bs ∧ List.Forall₂ R l bs := by
  induction l with
  | nil => exact ⟨[], rfl, .nil⟩
  | cons a l ih =>
    obtain ⟨b, hb, hr⟩ := h a List.mem_cons_self
    obtain ⟨bs, hbs, hrs⟩ := ih fun c hc => h c (List.mem_cons_of_mem a hc)
    refine ⟨b :: bs, ?_, .cons hr hrs⟩
    rw [List.mapM_cons, hb, hbs]
    rfl

theorem getLast?_forall₂ {α β : Type} {R : α → β → Prop} {as : List α} {bs : List β}
    (h : List.Forall₂ R as bs) {b : β} (hb : bs.getLast? = some b) : ∃ a, as.getLast? = some a ∧ R a b := by
  induction h with
  | nil => cases hb
  | @cons a b' as bs hr hrest ih =>
    cases hrest with
    | nil =>
      cases hb
      exact ⟨a, rfl, hr⟩
    | @cons a' b'' as bs hr' hrest =>
      rw [List.getLast?_cons_cons] at hb
      obtain ⟨c, hc, hcb⟩ := ih hb
      exact ⟨c, by rw [List.getLast?_cons_cons]; exact hc, hcb⟩

theorem exists_of_forall₂ {α β : Type} {R : α → β → Prop} {as : List α} {bs : List β}
    (h : List.Forall₂ R as bs) {b : β} (hb : b ∈ bs) : ∃ a ∈ as, R a b := by
  induction h with
  | nil => cases hb
  | cons hr hrest ih =>
    rcases List.mem_cons.mp hb with rfl | hb
    · exact ⟨_, List.mem_cons_self, hr⟩
    · obtain ⟨a, ha, hab⟩ := ih hb
      exact ⟨a, List.mem_cons_of_mem _ ha, hab⟩

theorem map_eq_of_forall₂ {γ : Type} {R : α → β → Prop} {f : α → γ} {g : β → γ} {as : List α} {bs : List β}
    (h : List.Forall₂ R as bs) (hkey : ∀ a b, R a b → g b = f a) : bs.map g = as.map f := by
  induction h with
  | nil => rfl
  | cons hr hrest ih => rw [List.map_cons, List.map_cons, hkey _ _ hr, ih]

theorem Ascending.filter_drop {rows : List α} (h : Ascending key rows) {n : ℕ} {last : α}
    (hlast : (rows.take n).getLast? = some last) :
    (rows.filter fun a => decide (key last < key a)) = rows.drop n := by
  have hne : rows.take n ≠ [] := fun hnil => by simp [hnil] at hlast
  have hlast : (rows.take n).getLast hne = last := by
    rw [List.getLast?_eq_some_getLast hne] at hlast
    exact Option.some.inj hlast
  have hsplit : (rows.take n ++ rows.drop n).Pairwise fun a b => key a < key b := by
    rw [List.take_append_drop]
    exact h
  obtain ⟨htake, -, hcross⟩ := List.pairwise_append.mp hsplit
  have hle : ∀ a ∈ rows.take n, key a ≤ key last := by
    intro a ha
    rw [← List.dropLast_append_getLast hne, hlast] at ha htake
    rcases List.mem_append.mp ha with hbefore | hsame
    · exact ((List.pairwise_append.mp htake).2.2 a hbefore last (List.mem_singleton.mpr rfl)).le
    · rw [List.mem_singleton.mp hsame]
  have hmem : last ∈ rows.take n := hlast ▸ List.getLast_mem hne
  conv_lhs => rw [← List.take_append_drop n rows]
  rw [List.filter_append, List.filter_eq_nil_iff.mpr fun a ha => by simpa using hle a ha, List.nil_append,
    List.filter_eq_self.mpr fun a ha => by simpa using hcross last hmem a ha]

theorem page_after {done rest : List α} {after : κ} (hdone : ∀ a ∈ done, key a ≤ after)
    (hrest : ∀ a ∈ rest, after < key a) (limit : ℕ) :
    page key (done ++ rest) after limit = rest.take limit := by
  unfold page
  rw [List.filter_append, List.filter_eq_nil_iff.mpr fun a ha => by simpa using hdone a ha,
    List.nil_append, List.filter_eq_self.mpr fun a ha => by simpa using hrest a ha]

/-- What the reader has after some limits: a prefix of what was left, all of it once there are
    more limits than entries, and then an empty page. -/
structure Reads (pages : List (List α)) (rest : List α) (limits : ℕ) : Prop where
  isPrefix : pages.flatten <+: rest
  complete : rest.length < limits →
    ∃ full, pages = full ++ [[]] ∧ full.flatten = rest ∧ ∀ entries ∈ full, entries ≠ []

theorem Reads.cons {pages : List (List α)} {rest : List α} {limit limits : ℕ} (hlimit : 1 ≤ limit)
    (hne : rest ≠ []) (h : Reads pages (rest.drop limit) limits) :
    Reads (rest.take limit :: pages) rest (limits + 1) := by
  have hlength : 0 < rest.length := List.length_pos_iff.mpr hne
  constructor
  · rw [List.flatten_cons]
    obtain ⟨tail, htail⟩ := h.isPrefix
    exact ⟨tail, by rw [List.append_assoc, htail, List.take_append_drop]⟩
  · intro hmore
    obtain ⟨full, rfl, hflatten, hfull⟩ := h.complete (by rw [List.length_drop]; omega)
    refine ⟨rest.take limit :: full, rfl, by rw [List.flatten_cons, hflatten, List.take_append_drop], ?_⟩
    intro entries hentries
    rcases List.mem_cons.mp hentries with rfl | hentries
    · exact List.ne_nil_of_length_pos (by rw [List.length_take]; omega)
    · exact hfull entries hentries

theorem follow_reads {log : List α} (hlog : Ascending key log) {fetch : κ → ℕ → Except ε (List α)}
    (limits : List ℕ) (hfetch : ∀ after, ∀ limit ∈ limits, fetch after limit = .ok (page key log after limit))
    (hlimits : ∀ limit ∈ limits, 1 ≤ limit) {done rest : List α} {after : κ} (hsplit : log = done ++ rest)
    (hdone : ∀ a ∈ done, key a ≤ after) (hrest : ∀ a ∈ rest, after < key a) :
    ∃ pages, follow key fetch after limits = .ok pages ∧ Reads pages rest limits.length := by
  induction limits generalizing done rest after with
  | nil => exact ⟨[], rfl, List.nil_prefix, fun h => absurd h (Nat.not_lt_zero _)⟩
  | cons limit limits ih =>
    have hpage : fetch after limit = .ok (rest.take limit) := by
      rw [hfetch after limit List.mem_cons_self, hsplit, page_after hdone hrest]
    have hlimit := hlimits limit List.mem_cons_self
    by_cases hnil : rest = []
    · subst hnil
      refine ⟨[[]], ?_, by simp, fun _ => ⟨[], rfl, rfl, by simp⟩⟩
      simp only [follow, hpage, List.take_nil]
      rfl
    · have hne : rest.take limit ≠ [] := by
        have := List.length_pos_iff.mpr hnil
        exact List.ne_nil_of_length_pos (by rw [List.length_take]; omega)
      have hsorted : (rest.take limit ++ rest.drop limit).Pairwise fun a b => key a < key b := by
        rw [List.take_append_drop]
        exact (hsplit ▸ hlog).sublist (List.sublist_append_right _ _)
      obtain ⟨hleft, -, hcross⟩ := List.pairwise_append.mp hsorted
      have hlast := List.getLast_mem hne
      obtain ⟨pages, hpages, hreads⟩ := ih (fun a l hl => hfetch a l (List.mem_cons_of_mem _ hl))
        (fun l hl => hlimits l (List.mem_cons_of_mem _ hl))
        (show log = (done ++ rest.take limit) ++ rest.drop limit by
          rw [List.append_assoc, List.take_append_drop, hsplit])
        (fun a ha => by
          rcases List.mem_append.mp ha with ha | ha
          · exact (hdone a ha).trans (hrest _ (List.mem_of_mem_take hlast)).le
          · -- the last entry of a page has its greatest key
            rw [← List.dropLast_append_getLast hne, List.pairwise_append] at hleft
            rw [← List.dropLast_append_getLast hne] at ha
            rcases List.mem_append.mp ha with ha | ha
            · exact (hleft.2.2 a ha _ List.mem_cons_self).le
            · rw [List.mem_singleton.mp ha])
        (fun a ha => hcross _ hlast a ha)
      refine ⟨rest.take limit :: pages, ?_, hreads.cons hlimit hnil⟩
      simp only [follow, hpage, bind, Except.bind, List.getLast?_eq_some_getLast hne, hpages]
      rfl

end Paging
