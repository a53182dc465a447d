import Mathlib.Data.List.TakeWhile
import Mathlib.Tactic.Common

/-!
Lists in sections that a separator stands between. There is no separator behind the last
section, and none in a list of one section.
-/

namespace EventLoop.Separated

variable {α : Type*}

/-- The sections, with the separator between them. -/
def join (sep : α) : List (List α) → List α
  | [] => []
  | [last] => last
  | first :: second :: rest => first ++ sep :: join sep (second :: rest)

variable {sep : α} {first : List α} {rest sections : List (List α)}

@[simp] theorem join_nil : join sep [] = [] := rfl

@[simp] theorem join_singleton : join sep [first] = first := rfl

theorem join_cons (h : rest ≠ []) : join sep (first :: rest) = first ++ sep :: join sep rest := by
  obtain ⟨second, others, rfl⟩ := List.exists_cons_of_ne_nil h
  rfl

theorem length_join_cons (h : rest ≠ []) :
    (join sep (first :: rest)).length = first.length + (join sep rest).length + 1 := by
  rw [join_cons h, List.length_append, List.length_cons, Nat.add_assoc]

theorem drop_join_cons (h : rest ≠ []) :
    (join sep (first :: rest)).drop (first.length + 1) = join sep rest := by
  rw [join_cons h, ← List.drop_drop, List.drop_left, List.drop_one, List.tail_cons]

theorem mem_join_cons (h : sep ∉ first) : sep ∈ join sep (first :: rest) ↔ rest ≠ [] := by
  by_cases hrest : rest = []
  · rw [hrest, join_singleton]
    exact iff_of_false h (fun hne => hne rfl)
  · rw [join_cons hrest]
    exact iff_of_true (List.mem_append_right _ (List.mem_cons_self ..)) hrest

/-- The first section is what stands before the first separator. -/
theorem takeWhile_join_cons [DecidableEq α] (h : sep ∉ first) :
    (join sep (first :: rest)).takeWhile (· ≠ sep) = first := by
  have hall : ∀ a ∈ first, decide (a ≠ sep) = true :=
    fun a ha => decide_eq_true (fun heq => h (heq ▸ ha))
  by_cases hrest : rest = []
  · rw [hrest, join_singleton]
    exact List.takeWhile_eq_self_iff.mpr hall
  · rw [join_cons hrest, List.takeWhile_append_of_pos hall, List.takeWhile_cons_of_neg (by simp),
      List.append_nil]

end EventLoop.Separated
