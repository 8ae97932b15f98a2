import Zhiyi.Library.Dict
import Zhiyi.Library.Machine

set_option autoImplicit false

/-! What one observer of a machine can see. An observer owns some of the inputs and sees a
part of the state. Where the inputs of others never change that part, and his own inputs
need nothing else, he cannot tell a history from his own inputs alone. -/

namespace Python

namespace Entries
variable {κ α : Type} [LinearOrder κ]

theorem Ascending.filter {entries : List (κ × α)} (h : Ascending entries) (p : κ × α → Bool) :
    Ascending (entries.filter p) :=
  List.Pairwise.filter p h

theorem lookup_filter {entries : List (κ × α)} (h : Ascending entries) (p : κ → α → Bool) (key : κ) :
    (entries.filter fun e => p e.1 e.2).lookup key = (entries.lookup key).filter (p key) := by
  cases hlookup : entries.lookup key with
  | none =>
    rw [Option.filter_none, List.lookup_eq_none_iff]
    intro e he
    exact List.lookup_eq_none_iff.mp hlookup e (List.mem_of_mem_filter he)
  | some value =>
    have hmem : (key, value) ∈ entries := (mem_iff_lookup h).mpr hlookup
    cases hp : p key value with
    | true =>
      rw [Option.filter_some_pos hp, ← mem_iff_lookup (h.filter _)]
      exact List.mem_filter.mpr ⟨hmem, hp⟩
    | false =>
      rw [Option.filter_some_neg (by simp [hp])]
      cases hfound : (entries.filter fun e => p e.1 e.2).lookup key with
      | none => rfl
      | some other =>
        obtain ⟨hother, hpo⟩ := List.mem_filter.mp ((mem_iff_lookup (h.filter _)).mpr hfound)
        have hsame := hlookup.symm.trans ((mem_iff_lookup h).mp hother)
        cases hsame
        simp [hp] at hpo

end Entries

namespace Dict
variable {κ α : Type} [LinearOrder κ]

def filter (d : Dict κ α) (p : κ → α → Bool) : Dict κ α :=
  ⟨d.items.filter fun e => p e.1 e.2, d.ascending.filter _⟩

@[simp] theorem items_filter (d : Dict κ α) (p : κ → α → Bool) :
    (d.filter p).items = d.items.filter fun e => p e.1 e.2 := rfl

theorem get?_filter (d : Dict κ α) (p : κ → α → Bool) (key : κ) :
    (d.filter p).get? key = (d.get? key).filter (p key) :=
  Entries.lookup_filter d.ascending p key

theorem get?_filter_of {d : Dict κ α} {p : κ → α → Bool} {key : κ}
    (h : ∀ value, d.get? key = some value → p key value = true) :
    (d.filter p).get? key = d.get? key := by
  rw [get?_filter]
  cases hvalue : d.get? key with
  | none => rfl
  | some value => exact Option.filter_some_pos (h value hvalue)

theorem filter_insert_of (d : Dict κ α) {p : κ → α → Bool} {key : κ} {value : α}
    (h : p key value = true) : (d.insert key value).filter p = (d.filter p).insert key value := by
  apply ext_get?
  intro k
  rw [get?_filter, get?_insert, get?_insert, get?_filter]
  split_ifs with hk
  · subst hk
    exact Option.filter_some_pos h
  · rfl

theorem filter_insert_of_not (d : Dict κ α) {p : κ → α → Bool} {key : κ} {value : α}
    (hnew : p key value = false) (hold : ∀ old, d.get? key = some old → p key old = false) :
    (d.insert key value).filter p = d.filter p := by
  apply ext_get?
  intro k
  rw [get?_filter, get?_insert, get?_filter]
  split_ifs with hk
  · subst hk
    rw [Option.filter_some_neg (by simp [hnew])]
    cases hvalue : d.get? k with
    | none => rfl
    | some old => rw [Option.filter_some_neg (by simp [hold old hvalue])]
  · rfl

@[simp] theorem filter_filter (d : Dict κ α) (p : κ → α → Bool) : (d.filter p).filter p = d.filter p := by
  apply ext_get?
  intro k
  rw [get?_filter, get?_filter, Option.filter_filter]
  simp

end Dict
end Python

namespace Interleaving
namespace Machine
variable {σ ι ο : Type} (m : Machine σ ι) (answer : σ → ι → ο)

def answers (s : σ) : List ι → List (ι × ο)
  | [] => []
  | i :: h => (i, answer s i) :: answers (m.step s i) h

/-- Every input of the history finds this where it is made. -/
def Throughout (P : σ → ι → Prop) (s : σ) : List ι → Prop
  | [] => True
  | i :: h => P s i ∧ Throughout P (m.step s i) h

/-- An observer who owns the inputs `mine` and sees the states through `view`. -/
structure Observes (mine : ι → Bool) (view : σ → σ) (admits : σ → ι → Prop) : Prop where
  ignores : ∀ s i, mine i = false → view (m.step s i) = view s
  steps : ∀ s i, mine i = true → admits s i → m.step (view s) i = view (m.step s i)
  answers : ∀ s i, mine i = true → admits s i → answer (view s) i = answer s i

variable {m answer}

namespace Observes
variable {mine : ι → Bool} {view : σ → σ} {admits : σ → ι → Prop}

/-- The inputs of all others can be left out, and what only they put into the state with them. -/
theorem purge (o : m.Observes answer mine view admits) {s : σ} {h : List ι}
    (hadmits : m.Throughout (fun s i => mine i = true → admits s i) s h) :
    m.runFrom (view s) (h.filter mine) = view (m.runFrom s h) ∧
      m.answers answer (view s) (h.filter mine) = (m.answers answer s h).filter fun p => mine p.1 := by
  induction h generalizing s with
  | nil => exact ⟨rfl, rfl⟩
  | cons i h ih =>
    obtain ⟨hhere, hlater⟩ := hadmits
    obtain ⟨hrun, hanswers⟩ := ih hlater
    cases hmine : mine i with
    | false =>
      rw [o.ignores s i hmine] at hrun hanswers
      rw [List.filter_cons_of_neg (by simp [hmine]), Machine.answers,
        List.filter_cons_of_neg (by simp [hmine])]
      exact ⟨hrun, hanswers⟩
    | true =>
      rw [← o.steps s i hmine (hhere hmine)] at hrun hanswers
      rw [List.filter_cons_of_pos hmine, Machine.answers, Machine.answers,
        List.filter_cons_of_pos (by simpa using hmine), o.answers s i hmine (hhere hmine), hanswers]
      exact ⟨hrun, rfl⟩

theorem alike (o : m.Observes answer mine view admits) {s t : σ} {h k : List ι} (hview : view s = view t)
    (hmine : h.filter mine = k.filter mine)
    (hs : m.Throughout (fun s i => mine i = true → admits s i) s h)
    (ht : m.Throughout (fun s i => mine i = true → admits s i) t k) :
    view (m.runFrom s h) = view (m.runFrom t k) ∧
      ((m.answers answer s h).filter fun p => mine p.1) = (m.answers answer t k).filter fun p => mine p.1 := by
  obtain ⟨hrun, hanswers⟩ := o.purge hs
  obtain ⟨hother, hothers⟩ := o.purge ht
  rw [hview, hmine] at hrun hanswers
  exact ⟨hrun.symm.trans hother, hanswers.symm.trans hothers⟩

end Observes
end Machine
end Interleaving
