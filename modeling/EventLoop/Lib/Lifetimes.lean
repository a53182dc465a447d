import Mathlib.Data.List.Count

/-!
What is made, destroyed and held. Things are made one by one, each may be destroyed, by
whomever, and holders refer to them. What has to hold of the three is that nothing is
destroyed twice or held after it has been destroyed, and that what has lost its owner has
been destroyed. For each way the three can change there is a rule that says when this is
kept.
-/

namespace EventLoop.Lifetimes

variable {α : Type*} [DecidableEq α] {made destroyed orphans : List α} {held held' : α → Prop}
  {x : α}

/-- Of the things `made`, each is destroyed once at most and not held behind that; the
`orphans` have been destroyed. -/
structure Sound (made destroyed orphans : List α) (held : α → Prop) : Prop where
  once : ∀ x ∈ made, destroyed.count x ≤ 1
  unheld : ∀ x ∈ made, x ∈ destroyed → ¬ held x
  orphans : ∀ x ∈ orphans, x ∈ destroyed

theorem sound_nil : Sound [] destroyed [] held :=
  ⟨fun _ hx => absurd hx List.not_mem_nil, fun _ hx => absurd hx List.not_mem_nil,
    fun _ hx => absurd hx List.not_mem_nil⟩

/-- Holders may go. -/
theorem Sound.release (h : Sound made destroyed orphans held) (hheld : ∀ x, held' x → held x) :
    Sound made destroyed orphans held' :=
  ⟨h.once, fun x hmade hdestroyed hx => h.unheld x hmade hdestroyed (hheld x hx), h.orphans⟩

/-- Something that has neither been destroyed nor is held is made. -/
theorem Sound.make (h : Sound made destroyed orphans held) (hnew : x ∉ destroyed) :
    Sound (made ++ [x]) destroyed orphans held := by
  have hcases {y : α} (hy : y ∈ made ++ [x]) : y ∈ made ∨ y = x := by simpa using hy
  refine ⟨?_, ?_, h.orphans⟩
  · intro y hy
    rcases hcases hy with hy | rfl
    · exact h.once y hy
    · rw [List.count_eq_zero_of_not_mem hnew]
      exact Nat.zero_le 1
  · intro y hy hdestroyed
    rcases hcases hy with hy | rfl
    · exact h.unheld y hy hdestroyed
    · exact absurd hdestroyed hnew

/-- Destroying is allowed for what has not been destroyed and is not held. -/
theorem Sound.destroy_iff (h : Sound made destroyed orphans held) :
    Sound made (destroyed ++ [x]) orphans held ↔ (x ∈ made → x ∉ destroyed ∧ ¬ held x) := by
  constructor
  · intro hafter hx
    refine ⟨?_, hafter.unheld x hx (by simp)⟩
    intro hdestroyed
    have honce := hafter.once x hx
    have hpos := List.count_pos_iff.mpr hdestroyed
    rw [List.count_append, List.count_singleton_self] at honce
    omega
  · intro hx
    refine ⟨?_, ?_, fun y hy => List.mem_append_left _ (h.orphans y hy)⟩
    · intro y hy
      rw [List.count_append]
      by_cases heq : y = x
      · subst heq
        simp [List.count_eq_zero_of_not_mem (hx hy).1]
      · rw [List.count_singleton, if_neg (by simpa using Ne.symm heq)]
        exact h.once y hy
    · intro y hy hdestroyed
      rcases List.mem_append.mp hdestroyed with hdestroyed | hnew
      · exact h.unheld y hy hdestroyed
      · obtain rfl := List.mem_singleton.mp hnew
        exact (hx hy).2

/-- Holding is allowed for what has not been destroyed. -/
theorem Sound.hold_iff (h : Sound made destroyed orphans held)
    (hheld : ∀ y, held' y ↔ held y ∨ y = x) :
    Sound made destroyed orphans held' ↔ (x ∈ made → x ∉ destroyed) := by
  constructor
  · exact fun hafter hx hdestroyed =>
      hafter.unheld x hx hdestroyed ((hheld x).mpr (.inr rfl))
  · intro hx
    refine ⟨h.once, ?_, h.orphans⟩
    intro y hy hdestroyed hholds
    rcases (hheld y).mp hholds with hholds | rfl
    · exact h.unheld y hy hdestroyed hholds
    · exact hx hy hdestroyed

/-- An owner may leave behind what has been destroyed. -/
theorem sound_append_iff {left : List α} :
    Sound made destroyed (orphans ++ left) held ↔
      Sound made destroyed orphans held ∧ ∀ x ∈ left, x ∈ destroyed := by
  constructor
  · intro h
    exact ⟨⟨h.once, h.unheld, fun x hx => h.orphans x (List.mem_append_left _ hx)⟩,
      fun x hx => h.orphans x (List.mem_append_right _ hx)⟩
  · rintro ⟨h, hleft⟩
    refine ⟨h.once, h.unheld, ?_⟩
    intro x hx
    exact (List.mem_append.mp hx).elim (h.orphans x) (hleft x)

end EventLoop.Lifetimes
