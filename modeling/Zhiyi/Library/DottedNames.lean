import Mathlib

set_option autoImplicit false

/-! Dotted names: `".".join`, `str.split(".")`, and the names equal to or below
another. -/
namespace Python

/-- `text.startswith(start)`. -/
def startsWith (text start : String) : Bool := start.toList.isPrefixOf text.toList

/-- `text.endswith(final)`. -/
def endsWith (text final : String) : Bool := final.toList.isSuffixOf text.toList

namespace Dotted

/-- `name.split(".")`. -/
def split (name : String) : List String := (name.toList.splitOn '.').map String.ofList

/-- `".".join(parts)`. -/
def join (parts : List String) : String :=
  String.ofList (['.'].intercalate (parts.map String.toList))

/-- Every part between two dots is there. -/
def WellFormed (name : String) : Prop := "" ∉ split name

instance (name : String) : Decidable (WellFormed name) := inferInstanceAs (Decidable (¬ _))

theorem join_split (name : String) : join (split name) = name := by
  simp [join, split, Function.comp_def, List.intercalate_splitOn]

theorem split_ne_nil (name : String) : split name ≠ [] := by
  simp [split, List.splitOn_ne_nil]

theorem join_singleton (name : String) : join [name] = name := by
  simp [join]

theorem join_cons {part : String} {parts : List String} (h : parts ≠ []) :
    join (part :: parts) = part ++ "." ++ join parts := by
  apply String.toList_injective
  simp [join, List.intercalate_cons_of_ne_nil, h]

theorem join_append {parts rest : List String} (hparts : parts ≠ []) (hrest : rest ≠ []) :
    join (parts ++ rest) = join parts ++ "." ++ join rest := by
  induction parts with
  | nil => exact absurd rfl hparts
  | cons part parts ih =>
    by_cases h : parts = []
    · subst h
      rw [List.singleton_append, join_cons hrest, join_singleton]
    · rw [List.cons_append, join_cons (by simp [h]), ih h, join_cons h]
      simp only [String.append_assoc]

theorem WellFormed.ne_empty {name : String} (h : WellFormed name) : name ≠ "" := by
  rintro rfl
  exact h (by decide)

theorem split_cons_dot (rest : List Char) : "" ∈ split (String.ofList ('.' :: rest)) := by
  simp [split, List.splitOn_cons_eq_if_modifyHead]

theorem WellFormed.not_startsWith {name : String} (h : WellFormed name) :
    startsWith name "." = false := by
  by_contra hdot
  obtain ⟨rest, hrest⟩ := List.isPrefixOf_iff_prefix.mp (Bool.eq_true_of_not_eq_false hdot)
  apply h
  rw [show name = String.ofList ('.' :: rest) from String.toList_injective (by simp [← hrest])]
  exact split_cons_dot rest

theorem not_startsWith_join {parts : List String} (h : ∀ part ∈ parts, WellFormed part) :
    startsWith (join parts) "." = false := by
  cases parts with
  | nil => decide
  | cons part rest =>
    have hpart := h part List.mem_cons_self
    by_cases hrest : rest = []
    · rw [hrest, join_singleton]
      exact hpart.not_startsWith
    · obtain ⟨c, cs, hc⟩ := List.exists_cons_of_ne_nil
        (fun hnil => hpart.ne_empty (String.toList_injective hnil))
      have hnot := hpart.not_startsWith
      rw [join_cons hrest, startsWith, String.toList_append, String.toList_append, hc]
      rw [startsWith, hc] at hnot
      exact hnot

end Dotted
end Python
