import Mathlib

set_option autoImplicit false

/-! Python dictionaries whose order does not matter, as association lists with
strictly ascending keys: two of them are equal exactly when they look up
alike. -/
namespace Python

namespace Entries
variable {κ α : Type} [LinearOrder κ]

def Ascending (entries : List (κ × α)) : Prop := entries.Pairwise fun p q => p.1 < q.1

instance (entries : List (κ × α)) : Decidable (Ascending entries) :=
  inferInstanceAs (Decidable (List.Pairwise _ _))

/-- `d[key] = value`. -/
def insert (key : κ) (value : α) : List (κ × α) → List (κ × α)
  | [] => [(key, value)]
  | p :: rest =>
    if key < p.1 then (key, value) :: p :: rest
    else if key = p.1 then (key, value) :: rest
    else p :: insert key value rest

theorem mem_insert {key : κ} {value : α} {entries : List (κ × α)} {q : κ × α}
    (h : q ∈ insert key value entries) : q = (key, value) ∨ q ∈ entries := by
  induction entries with
  | nil => exact .inl (by simpa [insert] using h)
  | cons p rest ih =>
    unfold insert at h
    split_ifs at h with hlt heq
    · simpa using h
    · rcases List.mem_cons.mp h with rfl | hq
      · exact .inl rfl
      · exact .inr (List.mem_cons_of_mem p hq)
    · rcases List.mem_cons.mp h with rfl | hq
      · exact .inr List.mem_cons_self
      · exact (ih hq).imp_right (List.mem_cons_of_mem p)

theorem Ascending.insert {key : κ} {value : α} {entries : List (κ × α)} (h : Ascending entries) :
    Ascending (insert key value entries) := by
  induction entries with
  | nil => simp [Entries.insert, Ascending]
  | cons p rest ih =>
    obtain ⟨hp, hrest⟩ := List.pairwise_cons.mp h
    unfold Entries.insert
    split_ifs with hlt heq
    · refine List.pairwise_cons.mpr ⟨fun q hq => ?_, h⟩
      rcases List.mem_cons.mp hq with rfl | hq
      · exact hlt
      · exact hlt.trans (hp q hq)
    · exact List.pairwise_cons.mpr ⟨fun q hq => heq ▸ hp q hq, hrest⟩
    · refine List.pairwise_cons.mpr ⟨fun q hq => ?_, ih hrest⟩
      rcases mem_insert hq with rfl | hq
      · exact lt_of_le_of_ne (not_lt.mp hlt) (Ne.symm heq)
      · exact hp q hq

theorem lookup_eq_none {key : κ} {entries : List (κ × α)} (h : ∀ p ∈ entries, key < p.1) :
    entries.lookup key = none := by
  rw [List.lookup_eq_none_iff]
  intro p hp
  simpa using (h p hp).ne

theorem lookup_cons_if (k : κ) (p : κ × α) (rest : List (κ × α)) :
    (p :: rest).lookup k = if k = p.1 then some p.2 else rest.lookup k := by
  obtain ⟨key, value⟩ := p
  by_cases hk : k = key
  · simp [List.lookup, hk]
  · simp [List.lookup, beq_false_of_ne hk, hk]

theorem lookup_insert {key k : κ} {value : α} {entries : List (κ × α)} (h : Ascending entries) :
    (insert key value entries).lookup k = if k = key then some value else entries.lookup k := by
  induction entries with
  | nil => rw [insert, lookup_cons_if]
  | cons p rest ih =>
    have ih := ih (List.pairwise_cons.mp h).2
    rcases lt_trichotomy key p.1 with hlt | heq | hgt
    · rw [insert, if_pos hlt, lookup_cons_if]
    · rw [insert, if_neg heq.not_lt, if_pos heq, lookup_cons_if, lookup_cons_if k p, ← heq]
      split_ifs <;> rfl
    · rw [insert, if_neg hgt.not_gt, if_neg hgt.ne', lookup_cons_if, ih, lookup_cons_if k p]
      by_cases hk : k = key
      · rw [if_pos hk, if_neg (hk ▸ hgt.ne'), if_pos hk]
      · rw [if_neg hk, if_neg hk]

theorem mem_iff_lookup {key : κ} {value : α} {entries : List (κ × α)} (h : Ascending entries) :
    (key, value) ∈ entries ↔ entries.lookup key = some value := by
  induction entries with
  | nil => simp
  | cons p rest ih =>
    obtain ⟨hp, hrest⟩ := List.pairwise_cons.mp h
    obtain ⟨k, v⟩ := p
    rw [List.mem_cons, ih hrest, lookup_cons_if, Prod.mk.injEq]
    by_cases hk : key = k
    · have hout : rest.lookup k = none := lookup_eq_none hp
      simp [hk, hout, eq_comm]
    · simp [hk]

theorem Ascending.ext {a b : List (κ × α)} (ha : Ascending a) (hb : Ascending b)
    (h : ∀ k, a.lookup k = b.lookup k) : a = b := by
  have hmem : ∀ p, p ∈ a ↔ p ∈ b := by
    rintro ⟨k, v⟩
    rw [mem_iff_lookup ha, mem_iff_lookup hb, h]
  have irrefl : ∀ {l : List (κ × α)}, Ascending l → l.Nodup := fun hl =>
    List.Pairwise.imp (fun hlt he => by subst he; exact lt_irrefl _ hlt) hl
  have hperm : a.Perm b := (List.perm_ext_iff_of_nodup (irrefl ha) (irrefl hb)).mpr hmem
  exact hperm.eq_of_pairwise (fun p q _ _ hpq hqp => absurd (hpq.trans hqp) (lt_irrefl _)) ha hb

end Entries

structure Dict (κ α : Type) [LinearOrder κ] where
  items : List (κ × α)
  ascending : Entries.Ascending items

namespace Dict
variable {κ α : Type} [LinearOrder κ]

instance [DecidableEq α] : DecidableEq (Dict κ α) := fun a b =>
  decidable_of_iff (a.items = b.items) ⟨fun h => by cases a; cases b; simp_all, congrArg _⟩

def empty : Dict κ α := ⟨[], List.Pairwise.nil⟩

def get? (d : Dict κ α) (key : κ) : Option α := d.items.lookup key

def insert (d : Dict κ α) (key : κ) (value : α) : Dict κ α :=
  ⟨Entries.insert key value d.items, d.ascending.insert⟩

@[simp] theorem get?_empty (k : κ) : (empty : Dict κ α).get? k = none := rfl

theorem get?_insert (d : Dict κ α) (key k : κ) (value : α) :
    (d.insert key value).get? k = if k = key then some value else d.get? k :=
  Entries.lookup_insert d.ascending

@[simp] theorem get?_insert_self (d : Dict κ α) (key : κ) (value : α) :
    (d.insert key value).get? key = some value := by
  simp [get?_insert]

theorem get?_insert_ne (d : Dict κ α) {key k : κ} (value : α) (h : k ≠ key) :
    (d.insert key value).get? k = d.get? k := by
  simp [get?_insert, h]

theorem mem_items_iff (d : Dict κ α) (key : κ) (value : α) :
    (key, value) ∈ d.items ↔ d.get? key = some value :=
  Entries.mem_iff_lookup d.ascending

theorem ext_get? {a b : Dict κ α} (h : ∀ k, a.get? k = b.get? k) : a = b := by
  cases a with
  | mk items ha =>
    cases b with
    | mk items' hb =>
      congr
      exact ha.ext hb h

end Dict

/-- A keyed relation: a dictionary whose keys have no order, or a database table under its primary key. -/
structure Table (κ α : Type) where
  rows : AList fun _ : κ => α

namespace Table
variable {κ α : Type} [DecidableEq κ]

instance [DecidableEq α] : DecidableEq (Table κ α) := fun s t =>
  decidable_of_iff (s.rows = t.rows) ⟨fun h => by cases s; cases t; simp_all, congrArg _⟩

def empty : Table κ α := ⟨∅⟩

def get? (t : Table κ α) (key : κ) : Option α := t.rows.lookup key

def set (t : Table κ α) (key : κ) (value : α) : Table κ α := ⟨t.rows.insert key value⟩

def values (t : Table κ α) : List α := t.rows.entries.map Sigma.snd

@[simp] theorem get?_empty (k : κ) : (empty : Table κ α).get? k = none := AList.lookup_empty k

theorem get?_set (t : Table κ α) (key k : κ) (value : α) :
    (t.set key value).get? k = if k = key then some value else t.get? k := by
  split_ifs with h
  · subst h
    exact AList.lookup_insert _
  · exact AList.lookup_insert_ne h

@[simp] theorem get?_set_self (t : Table κ α) (key : κ) (value : α) :
    (t.set key value).get? key = some value := by
  simp [get?_set]

theorem get?_set_ne (t : Table κ α) {key k : κ} (value : α) (h : k ≠ key) :
    (t.set key value).get? k = t.get? k := by
  simp [get?_set, h]

theorem mem_values_iff (t : Table κ α) (value : α) :
    value ∈ t.values ↔ ∃ key, t.get? key = some value := by
  simp only [values, List.mem_map, get?, Sigma.exists, exists_eq_right]
  constructor
  · rintro ⟨key, h⟩
    exact ⟨key, AList.mem_lookup_iff.mpr h⟩
  · rintro ⟨key, h⟩
    exact ⟨key, AList.mem_lookup_iff.mp h⟩

end Table

section FromKeys
variable {α : Type} [DecidableEq α]

def fromKeys : List α → List α
  | [] => []
  | a :: values => a :: (fromKeys values).filter (· ≠ a)

theorem fromKeys_nodup (values : List α) : (fromKeys values).Nodup := by
  induction values with
  | nil => exact List.nodup_nil
  | cons a values ih =>
    refine List.nodup_cons.mpr ⟨fun h => ?_, ih.filter _⟩
    simpa using (List.mem_filter.mp h).2

theorem fromKeys_of_nodup {values : List α} (h : values.Nodup) : fromKeys values = values := by
  induction values with
  | nil => rfl
  | cons a values ih =>
    obtain ⟨ha, hn⟩ := List.nodup_cons.mp h
    rw [fromKeys, ih hn, List.filter_eq_self.mpr]
    intro b hb
    have hne : b ≠ a := fun he => ha (he ▸ hb)
    simpa using hne

theorem mem_of_mem_fromKeys {values : List α} {b : α} (h : b ∈ fromKeys values) : b ∈ values := by
  induction values with
  | nil => exact h
  | cons a values ih =>
    rcases List.mem_cons.mp h with rfl | h
    · exact List.mem_cons_self
    · exact List.mem_cons_of_mem _ (ih (List.mem_of_mem_filter h))

end FromKeys
end Python
