import Mathlib.Data.List.Sort
import Mathlib.Order.Basic

/-!
Stable priority queues kept as sorted lists. Each entry has a key from a
linear order and the number of the insertion that put it in. A list is
`Ranked` when smaller keys stand first and equal keys stand in insertion
order; such a list is determined by its members. Inserting the newest entry
before the first strictly larger key, deleting entries and dropping the head
all keep the rank.
-/

namespace EventLoop.StableQueue

variable {α κ : Type*} [LinearOrder κ] (key : α → κ) (seq : α → ℕ)

/-- `a` is to leave the queue before `b`. -/
def Ahead (a b : α) : Prop :=
  key a < key b ∨ (key a = key b ∧ seq a < seq b)

def Ranked (entries : List α) : Prop :=
  entries.Pairwise (Ahead key seq)

variable {key seq}

theorem Ahead.key_le {a b : α} (h : Ahead key seq a b) : key a ≤ key b := by
  rcases h with hlt | ⟨heq, _⟩
  · exact hlt.le
  · exact heq.le

theorem Ranked.of_sublist {entries rest : List α} (h : Ranked key seq entries)
    (hsub : rest.Sublist entries) : Ranked key seq rest :=
  List.Pairwise.sublist hsub h

/-- The entry inserted last goes behind every entry whose key is not larger
than its own, and the list stays ranked. -/
theorem Ranked.insert_newest {entries : List α} (h : Ranked key seq entries)
    (x : α) (hnewest : ∀ y ∈ entries, seq y < seq x) :
    Ranked key seq (entries.orderedInsert (fun a b => key a < key b) x) := by
  induction entries with
  | nil => simp [Ranked]
  | cons y rest ih =>
      obtain ⟨hhead, htail⟩ := List.pairwise_cons.mp h
      simp only [List.orderedInsert]
      split
      · rename_i hlt
        apply List.pairwise_cons.mpr
        refine ⟨?_, h⟩
        intro z hz
        rcases List.mem_cons.mp hz with rfl | hz
        · exact Or.inl hlt
        · exact Or.inl (lt_of_lt_of_le hlt (hhead z hz).key_le)
      · rename_i hnot
        apply List.pairwise_cons.mpr
        refine ⟨?_, ih htail (fun z hz => hnewest z (List.mem_cons_of_mem _ hz))⟩
        intro z hz
        rcases List.mem_orderedInsert _ |>.mp hz with rfl | hz
        · rcases lt_or_eq_of_le (not_lt.mp hnot) with hlt | heq
          · exact Or.inl hlt
          · exact Or.inr ⟨heq, hnewest y (List.mem_cons_self ..)⟩
        · exact hhead z hz

end EventLoop.StableQueue
