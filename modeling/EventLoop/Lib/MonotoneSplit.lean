import Mathlib.Data.List.Basic
import Mathlib.Tactic.Common

/-!
Lists along which a property can only be lost: once an element fails it, every
later one fails it. Such a list is a part where the property holds followed by
a part where it fails, and the length of the first part is where a search for
the first failing element ends.
-/

namespace EventLoop.MonotoneSplit

variable {α : Type*} {p : α → Prop}

/-- Later elements hold `p` only if earlier ones do. -/
def Downward (p : α → Prop) (list : List α) : Prop :=
  list.Pairwise (fun a b => p b → p a)

theorem Downward.of_pairwise {r : α → α → Prop} {list : List α}
    (h : list.Pairwise r) (hclosed : ∀ a b, r a b → p b → p a) : Downward p list :=
  h.imp (fun {a b} hab => hclosed a b hab)

/-- The two parts of a downward closed list. -/
theorem Downward.split {list : List α} (h : Downward p list) :
    ∃ front back, list = front ++ back ∧ (∀ a ∈ front, p a) ∧ ∀ a ∈ back, ¬ p a := by
  induction list with
  | nil => exact ⟨[], [], rfl, by simp, by simp⟩
  | cons a rest ih =>
      obtain ⟨hhead, htail⟩ := List.pairwise_cons.mp h
      by_cases ha : p a
      · obtain ⟨front, back, rfl, hfront, hback⟩ := ih htail
        refine ⟨a :: front, back, rfl, ?_, hback⟩
        intro b hb
        rcases List.mem_cons.mp hb with rfl | hb
        · exact ha
        · exact hfront b hb
      · refine ⟨[], a :: rest, rfl, by simp, ?_⟩
        intro b hb
        rcases List.mem_cons.mp hb with rfl | hb
        · exact ha
        · exact fun hpb => ha (hhead b hb hpb)

/-- Of the numbers below `n` those below `k` have the property and the others do not. -/
structure SplitsAt (p : Nat → Prop) (n k : Nat) : Prop where
  le : k ≤ n
  below : ∀ i < k, p i
  above : ∀ i, k ≤ i → i < n → ¬ p i

variable {p : Nat → Prop} {n k : Nat}

theorem exists_splitsAt (hdown : ∀ i j, i ≤ j → j < n → p j → p i) : ∃ k, SplitsAt p n k := by
  induction n with
  | zero => exact ⟨0, Nat.le_refl 0, fun i hi => by omega, fun i _ hi => by omega⟩
  | succ n ih =>
      obtain ⟨k, hle, hbelow, habove⟩ := ih (fun i j hij hj => hdown i j hij (by omega))
      by_cases hn : p n
      · refine ⟨n + 1, Nat.le_refl _, ?_, fun i hki hi => by omega⟩
        exact fun i hi => hdown i n (by omega) (by omega) hn
      · refine ⟨k, by omega, hbelow, ?_⟩
        intro i hki hi
        rcases Nat.lt_or_eq_of_le (Nat.le_of_lt_succ hi) with hlt | rfl
        · exact habove i hki hlt
        · exact hn

theorem SplitsAt.lt_iff (h : SplitsAt p n k) {i : Nat} (hi : i < n) : i < k ↔ p i := by
  constructor
  · exact h.below i
  · intro hp
    apply Nat.lt_of_not_le
    exact fun hki => h.above i hki hi hp

/-- A search that ends at `r` ends at or behind the first number without the property. -/
theorem SplitsAt.le_of_not (h : SplitsAt p n k) {r : Nat} (hr : ¬ p r) : k ≤ r := by
  apply Nat.le_of_not_lt
  exact fun hlt => hr (h.below r hlt)

theorem SplitsAt.unique (h : SplitsAt p n k) {k' : Nat} (h' : SplitsAt p n k') : k = k' := by
  rcases Nat.lt_trichotomy k k' with hlt | heq | hgt
  · exact absurd (h'.below k hlt) (h.above k (Nat.le_refl k) (Nat.lt_of_lt_of_le hlt h'.le))
  · exact heq
  · exact absurd (h.below k' hgt) (h'.above k' (Nat.le_refl k') (Nat.lt_of_lt_of_le hgt h.le))

end EventLoop.MonotoneSplit
