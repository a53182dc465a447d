import Mathlib.Data.Fintype.Basic
import Mathlib.Data.List.FinRange
import Mathlib.Logic.Function.Basic

/-!
Tables of slots that hand out what they hold. A table keeps for each slot whether it is in
use; beside it stands the list of everything handed out, from slots or from elsewhere. The
two are in step when a slot is marked used exactly while what it holds is handed out.
-/

namespace EventLoop.Occupancy

variable {σ α : Type*} {held : σ → α} {uses : σ → Nat}
  {out : List α} {slot : σ} {x : α}

/-- The marks of a table and what is handed out. -/
structure InStep (held : σ → α) (uses : σ → Nat) (out : List α) : Prop where
  distinct : out.Nodup
  binary : ∀ slot, uses slot ≤ 1
  used : ∀ slot, uses slot = 1 ↔ held slot ∈ out

theorem inStep_nil (held : σ → α) : InStep held (fun _ => 0) [] :=
  ⟨List.nodup_nil, fun _ => Nat.zero_le 1, fun _ => iff_of_false Nat.zero_ne_one List.not_mem_nil⟩

/-- A slot that is not in use is handed out. -/
theorem InStep.occupy [DecidableEq σ] (h : InStep held uses out) (hinj : Function.Injective held)
    (hfree : uses slot = 0) :
    InStep held (Function.update uses slot 1) (held slot :: out) := by
  have hnot : held slot ∉ out := by
    intro hmem
    rw [(h.used slot).mpr hmem] at hfree
    cases hfree
  refine ⟨List.nodup_cons.mpr ⟨hnot, h.distinct⟩, ?_, ?_⟩
  · intro other
    rcases eq_or_ne other slot with rfl | hne
    · rw [Function.update_self]
    · rw [Function.update_of_ne hne]
      exact h.binary other
  · intro other
    rcases eq_or_ne other slot with rfl | hne
    · rw [Function.update_self]
      exact iff_of_true rfl (List.mem_cons_self ..)
    · rw [Function.update_of_ne hne, List.mem_cons, h.used other]
      exact ⟨.inr, fun hmem => hmem.resolve_left (fun heq => hne (hinj heq))⟩

/-- What a slot holds is given back. -/
theorem InStep.release [DecidableEq σ] [DecidableEq α] (h : InStep held uses out)
    (hinj : Function.Injective held) (slot : σ) :
    InStep held (Function.update uses slot 0) (out.filter (· ≠ held slot)) := by
  refine ⟨h.distinct.filter _, ?_, ?_⟩
  · intro other
    rcases eq_or_ne other slot with rfl | hne
    · rw [Function.update_self]
      exact Nat.zero_le 1
    · rw [Function.update_of_ne hne]
      exact h.binary other
  · intro other
    rw [List.mem_filter, decide_eq_true_iff]
    rcases eq_or_ne other slot with rfl | hne
    · rw [Function.update_self]
      exact iff_of_false (by decide) (fun hmem => hmem.2 rfl)
    · rw [Function.update_of_ne hne, h.used other]
      exact (and_iff_left (fun heq => hne (hinj heq))).symm

/-- Something that no slot holds is handed out. -/
theorem InStep.handOut (h : InStep held uses out) (hforeign : ∀ slot, held slot ≠ x)
    (hfresh : x ∉ out) : InStep held uses (x :: out) := by
  refine ⟨List.nodup_cons.mpr ⟨hfresh, h.distinct⟩, h.binary, ?_⟩
  intro slot
  rw [List.mem_cons, h.used slot]
  exact ⟨.inr, fun hmem => hmem.resolve_left (hforeign slot)⟩

/-- Something that no slot holds is given back. -/
theorem InStep.giveBack [DecidableEq α] (h : InStep held uses out)
    (hforeign : ∀ slot, held slot ≠ x) :
    InStep held uses (out.filter (· ≠ x)) := by
  refine ⟨h.distinct.filter _, h.binary, ?_⟩
  intro slot
  rw [List.mem_filter, decide_eq_true_iff, h.used slot]
  exact (and_iff_left (hforeign slot)).symm

/-- Slots that are all in use have handed out what they hold. -/
theorem InStep.mem_of_ne_zero (h : InStep held uses out) (hused : uses slot ≠ 0) :
    held slot ∈ out :=
  (h.used slot).mp (Nat.le_antisymm (h.binary slot) (Nat.pos_of_ne_zero hused))

/-- Counting on from anywhere around a circle comes to every place. -/
theorem exists_probe {n : Nat} (start : Nat) {i : Nat} (hi : i < n) :
    ∃ j < n, (start + j) % n = i := by
  have hstart : start % n < n := Nat.mod_lt _ (Nat.zero_lt_of_lt hi)
  refine ⟨(i + (n - start % n)) % n, Nat.mod_lt _ (Nat.zero_lt_of_lt hi), ?_⟩
  have hsum : start % n + (i + (n - start % n)) = i + n := by omega
  rw [Nat.add_mod_mod, ← Nat.mod_add_mod, hsum, Nat.add_mod_right, Nat.mod_eq_of_lt hi]

/-- A search finds one that is looked for, or there is none. -/
theorem find?_cases (xs : List α) (p : α → Bool) :
    (∃ x, xs.find? p = some x ∧ p x = true) ∨ xs.find? p = none ∧ ∀ x ∈ xs, p x = false := by
  cases hfind : xs.find? p with
  | some x => exact .inl ⟨x, rfl, List.find?_some hfind⟩
  | none =>
      refine .inr ⟨rfl, ?_⟩
      intro x hx
      exact Bool.eq_false_iff.mpr (List.find?_eq_none.mp hfind x hx)

/-- A search through the places of a table finds the first. -/
theorem find?_finRange_iff {n : Nat} {p : Fin n → Bool} {i : Fin n} :
    (List.finRange n).find? p = some i ↔ p i = true ∧ ∀ j < i, p j = false := by
  rw [List.find?_eq_some_iff_getElem]
  apply and_congr_right'
  constructor
  · rintro ⟨k, hk, hi, hbefore⟩ j hj
    rw [List.getElem_finRange] at hi
    obtain rfl := hi
    have hnot := hbefore j.val hj
    rw [List.getElem_finRange, Bool.not_eq_true'] at hnot
    exact hnot
  · intro hbefore
    refine ⟨i.val, by rw [List.length_finRange]; exact i.isLt, List.getElem_finRange _, ?_⟩
    intro j hj
    rw [List.getElem_finRange, Bool.not_eq_true']
    exact hbefore _ hj

end EventLoop.Occupancy
