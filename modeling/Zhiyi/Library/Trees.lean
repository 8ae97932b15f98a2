import Mathlib

set_option autoImplicit false

/-! Finitely branching trees with labelled nodes, and the breadth-first walk
that puts the children of a node behind everything already waiting. -/

inductive RoseTree (α : Type) where
  | node (label : α) (children : List (RoseTree α))

namespace RoseTree
variable {α : Type}

def label : RoseTree α → α
  | node a _ => a

def children : RoseTree α → List (RoseTree α)
  | node _ ts => ts

mutual
def size : RoseTree α → ℕ
  | node _ ts => sizes ts + 1

def sizes : List (RoseTree α) → ℕ
  | [] => 0
  | t :: ts => size t + sizes ts
end

theorem size_eq (t : RoseTree α) : t.size = sizes t.children + 1 := by
  cases t
  rfl

theorem sizes_append (ts us : List (RoseTree α)) : sizes (ts ++ us) = sizes ts + sizes us := by
  induction ts with
  | nil => simp [sizes]
  | cons t ts ih => simp [sizes, ih, Nat.add_assoc]

/-- The walk over the waiting nodes, at most `n` of them. -/
def walkFrom : ℕ → List (RoseTree α) → List (RoseTree α)
  | 0, _ => []
  | _ + 1, [] => []
  | n + 1, t :: todo => t :: walkFrom n (todo ++ t.children)

def walk (t : RoseTree α) : List (RoseTree α) := walkFrom t.size [t]

inductive Within : RoseTree α → RoseTree α → Prop
  | root (t : RoseTree α) : Within t t
  | child {t c d : RoseTree α} (hc : c ∈ t.children) (hd : Within c d) : Within t d

/-- With a step for every node that waits or lies below one that waits, the
    walk meets exactly these. -/
theorem mem_walkFrom {n : ℕ} {todo : List (RoseTree α)} (hn : sizes todo ≤ n) {d : RoseTree α} :
    d ∈ walkFrom n todo ↔ ∃ t ∈ todo, Within t d := by
  induction n generalizing todo with
  | zero =>
    cases todo with
    | nil => simp [walkFrom]
    | cons t ts =>
      have := size_eq t
      simp only [sizes] at hn
      omega
  | succ n ih =>
    cases todo with
    | nil => simp [walkFrom]
    | cons t ts =>
      have hsmaller : sizes (ts ++ t.children) ≤ n := by
        have := size_eq t
        simp only [sizes] at hn
        rw [sizes_append]
        omega
      rw [walkFrom, List.mem_cons, ih hsmaller]
      constructor
      · rintro (rfl | ⟨u, hu, hd⟩)
        · exact ⟨d, List.mem_cons_self, .root d⟩
        · rcases List.mem_append.mp hu with hu | hu
          · exact ⟨u, List.mem_cons_of_mem t hu, hd⟩
          · exact ⟨t, List.mem_cons_self, .child hu hd⟩
      · rintro ⟨u, hu, hd⟩
        rcases List.mem_cons.mp hu with rfl | hu
        · cases hd with
          | root => exact .inl rfl
          | child hc hd => exact .inr ⟨_, List.mem_append_right ts hc, hd⟩
        · exact .inr ⟨u, List.mem_append_left _ hu, hd⟩

theorem mem_walk {t d : RoseTree α} : d ∈ t.walk ↔ Within t d := by
  rw [walk, mem_walkFrom (by simp [sizes])]
  simp

end RoseTree
