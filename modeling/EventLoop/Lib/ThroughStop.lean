import Mathlib.Tactic.Common

/-!
The part of a list that a loop with a `break` visits: the elements up to and
including the first at which it stops.
-/

namespace EventLoop

variable {α : Type*} (stop : α → Bool)

def throughStop : List α → List α
  | [] => []
  | a :: rest => if stop a then [a] else a :: throughStop rest

variable {stop}

theorem throughStop_eq_self {list : List α} (h : ∀ a ∈ list, stop a = false) :
    throughStop stop list = list := by
  induction list with
  | nil => rfl
  | cons a rest ih =>
      rw [throughStop, if_neg (by simp [h a (List.mem_cons_self ..)]),
        ih (fun b hb => h b (List.mem_cons_of_mem _ hb))]

theorem throughStop_append_cons {front back : List α} {a : α} (hfront : ∀ b ∈ front, stop b = false)
    (ha : stop a = true) : throughStop stop (front ++ a :: back) = front ++ [a] := by
  induction front with
  | nil => rw [List.nil_append, throughStop, if_pos ha, List.nil_append]
  | cons b front ih =>
      obtain ⟨hb, hfront⟩ := List.forall_mem_cons.mp hfront
      rw [List.cons_append, throughStop, if_neg (by simp [hb]), ih hfront, List.cons_append]

theorem throughStop_append (front back : List α) :
    throughStop stop (front ++ back) =
      if front.any stop then throughStop stop front else front ++ throughStop stop back := by
  induction front with
  | nil => simp
  | cons a front ih =>
      cases hstop : stop a <;> cases hany : front.any stop <;>
        simp [throughStop, hstop, hany, ih]

theorem throughStop_eq_nil (stop : α → Bool) :
    ∀ {list : List α}, throughStop stop list = [] ↔ list = []
  | [] => by simp [throughStop]
  | a :: rest => by cases hstop : stop a <;> simp [throughStop, hstop]

/-- An element is visited if the loop stops at none before it. -/
theorem mem_throughStop {list : List α} {a : α} :
    a ∈ throughStop stop list ↔
      ∃ front back, list = front ++ a :: back ∧ ∀ b ∈ front, stop b = false := by
  induction list with
  | nil => simp [throughStop]
  | cons head rest ih =>
      rw [throughStop]
      constructor
      · intro hmem
        split at hmem
        · obtain rfl := List.mem_singleton.mp hmem
          exact ⟨[], rest, rfl, by simp⟩
        · rename_i hstop
          rcases List.mem_cons.mp hmem with rfl | htail
          · exact ⟨[], rest, rfl, by simp⟩
          · obtain ⟨front, back, rfl, hfront⟩ := ih.mp htail
            exact ⟨head :: front, back, rfl,
              List.forall_mem_cons.mpr ⟨by simpa using hstop, hfront⟩⟩
      · rintro ⟨front, back, hsplit, hfront⟩
        cases front with
        | nil =>
            obtain ⟨rfl, rfl⟩ := List.cons.inj hsplit
            split <;> exact List.mem_cons_self ..
        | cons first front =>
            obtain ⟨rfl, rfl⟩ := List.cons.inj hsplit
            obtain ⟨hfirst, hfront⟩ := List.forall_mem_cons.mp hfront
            rw [if_neg (by simp [hfirst])]
            exact List.mem_cons_of_mem _ (ih.mpr ⟨front, back, rfl, hfront⟩)

theorem mem_of_mem_throughStop {list : List α} {a : α} (h : a ∈ throughStop stop list) :
    a ∈ list := by
  obtain ⟨front, back, rfl, -⟩ := mem_throughStop.mp h
  exact List.mem_append_right _ (List.mem_cons_self ..)

/-- The visited elements are a first part of the list: the loop stops at none of them but the
last, and at the last unless they are all there is. -/
theorem exists_take_throughStop (list : List α) :
    ∃ n ≤ list.length, throughStop stop list = list.take n ∧
      (∀ k (h : k < list.length), k + 1 < n → stop list[k] = false) ∧
      (n < list.length → ∃ k, ∃ h : k < list.length, n = k + 1 ∧ stop list[k] = true) := by
  induction list with
  | nil => exact ⟨0, Nat.le_refl 0, rfl, by simp, by simp⟩
  | cons a rest ih =>
      cases hstop : stop a with
      | true =>
          refine ⟨1, Nat.succ_le_succ (Nat.zero_le _), ?_, ?_, ?_⟩
          · rw [throughStop, if_pos hstop, List.take_succ_cons, List.take_zero]
          · exact fun k _ hk => absurd hk (by omega)
          · exact fun _ => ⟨0, Nat.succ_pos _, rfl, hstop⟩
      | false =>
          obtain ⟨n, hn, htake, hgo, hlast⟩ := ih
          refine ⟨n + 1, Nat.succ_le_succ hn, ?_, ?_, ?_⟩
          · rw [throughStop, if_neg (by simp [hstop]), htake, List.take_succ_cons]
          · intro k hk hkn
            cases k with
            | zero => exact hstop
            | succ k => exact hgo k (Nat.lt_of_succ_lt_succ hk) (Nat.lt_of_succ_lt_succ hkn)
          · intro hless
            obtain ⟨k, hk, rfl, hend⟩ := hlast (Nat.lt_of_succ_lt_succ hless)
            exact ⟨k + 1, Nat.succ_lt_succ hk, rfl, hend⟩

/-- The elements up to the first miss are all the hits exactly if no hit is behind a miss. -/
theorem takeWhile_eq_filter_iff {p : α → Bool} {list : List α} :
    list.takeWhile p = list.filter p ↔ list.Pairwise (fun a b => p b = true → p a = true) := by
  induction list with
  | nil => exact iff_of_true rfl .nil
  | cons a rest ih =>
      rw [List.takeWhile_cons, List.filter_cons, List.pairwise_cons]
      cases ha : p a with
      | true => simp [ih]
      | false =>
          rw [if_neg (by simp), if_neg (by simp), eq_comm, List.filter_eq_nil_iff]
          constructor
          · intro hnone
            refine ⟨fun b hb hpb => absurd hpb (hnone b hb), ?_⟩
            exact List.pairwise_of_forall_mem_list (fun b hb c hc hpc => absurd hpc (hnone c hc))
          · intro hmiss b hb hpb
            exact absurd (hmiss.1 b hb hpb) (by simp)

end EventLoop
