import Mathlib.Algebra.Order.BigOperators.Group.List
import Mathlib.Algebra.Order.Group.Nat
import Mathlib.Tactic.Common

/-!
Records written one behind the other. The text of a list of records is a list of
symbols; record `k` starts at `offset k`, and `indexFrom off` is the first record that
starts at `off` or behind it.
-/

namespace EventLoop.Records

variable {α β : Type*} (text : α → List β)

def offset (records : List α) (k : Nat) : Nat := ((records.take k).flatMap text).length

/-- How many records start before the offset. -/
def indexFrom : List α → Nat → Nat
  | [], _ => 0
  | record :: rest, off =>
      if off = 0 then 0 else indexFrom rest (off - (text record).length) + 1

@[simp] theorem offset_zero (records : List α) : offset text records 0 = 0 := rfl

theorem offset_cons_succ (record : α) (rest : List α) (k : Nat) :
    offset text (record :: rest) (k + 1) = (text record).length + offset text rest k := by
  simp [offset]

theorem offset_of_length_le {records : List α} {k : Nat} (h : records.length ≤ k) :
    offset text records k = (records.flatMap text).length := by
  rw [offset, List.take_of_length_le h]

theorem offset_succ {records : List α} {k : Nat} (h : k < records.length) :
    offset text records (k + 1) = offset text records k + (text (records.get ⟨k, h⟩)).length := by
  rw [offset, List.take_succ_eq_append_getElem h, List.flatMap_append, List.length_append]
  simp [offset]

theorem offset_mono (records : List α) {i j : Nat} (h : i ≤ j) :
    offset text records i ≤ offset text records j := by
  obtain ⟨d, rfl⟩ := Nat.exists_eq_add_of_le h
  rw [offset, offset, List.take_add, List.flatMap_append, List.length_append]
  exact Nat.le_add_right _ _

/-- The text of the records that are selected. -/
theorem flatMap_filter (p : α → Bool) (records : List α) :
    (records.filter p).flatMap text =
      records.flatMap (fun record => if p record then text record else []) := by
  induction records with
  | nil => rfl
  | cons record rest ih =>
      rw [List.filter_cons, List.flatMap_cons, ← ih]
      split
      · rw [List.flatMap_cons]
      · rw [List.nil_append]

/-- A part of the text between two records is the text of the records between them. -/
theorem drop_take_flatMap (records : List α) (i j : Nat) :
    ((records.flatMap text).take (offset text records j)).drop (offset text records i) =
      ((records.take j).drop i).flatMap text := by
  have hsplit (k : Nat) (all : List α) :
      all.flatMap text = (all.take k).flatMap text ++ (all.drop k).flatMap text := by
    rw [← List.flatMap_append, List.take_append_drop]
  have htake : (records.flatMap text).take (offset text records j) =
      (records.take j).flatMap text := by
    rw [hsplit j records]
    exact List.take_left' rfl
  rw [htake]
  rcases Nat.le_total i j with hij | hji
  · have hfirst : (records.take j).take i = records.take i := by
      rw [List.take_take, Nat.min_eq_left hij]
    rw [hsplit i (records.take j), hfirst]
    exact List.drop_left' rfl
  · rw [List.drop_eq_nil_of_le (offset_mono text records hji),
      List.drop_eq_nil_of_le (Nat.le_trans (List.length_take_le j records) hji)]
    rfl

theorem offset_map {γ : Type*} (f : γ → α) (text : α → List β) (records : List γ) (k : Nat) :
    offset text (records.map f) k = offset (fun record => text (f record)) records k := by
  rw [offset, offset, ← List.map_take, List.flatMap_map]

theorem indexFrom_map {γ : Type*} (f : γ → α) (text : α → List β) (records : List γ) (off : Nat) :
    indexFrom text (records.map f) off = indexFrom (fun record => text (f record)) records off := by
  induction records generalizing off with
  | nil => rfl
  | cons record rest ih => rw [List.map_cons, indexFrom, indexFrom, ih]

variable {text}

/-- Where no record is empty, a later record starts at a greater offset. -/
theorem offset_lt (hne : ∀ record, text record ≠ []) {records : List α} {i j : Nat} (h : i < j)
    (hi : i < records.length) : offset text records i < offset text records j := by
  have hpos := List.length_pos_iff.mpr (hne (records.get ⟨i, hi⟩))
  calc offset text records i
      < offset text records i + (text (records.get ⟨i, hi⟩)).length := by omega
    _ = offset text records (i + 1) := (offset_succ text hi).symm
    _ ≤ offset text records j := offset_mono text records h

theorem le_offset_indexFrom {records : List α} {off : Nat}
    (h : off ≤ (records.flatMap text).length) :
    off ≤ offset text records (indexFrom text records off) := by
  induction records generalizing off with
  | nil =>
      rw [List.flatMap_nil] at h
      exact Nat.le_trans h (Nat.zero_le _)
  | cons record rest ih =>
      rw [indexFrom]
      split
      · omega
      · rw [List.flatMap_cons, List.length_append] at h
        have hrest := @ih (off - (text record).length) (by omega)
        rw [offset_cons_succ]
        omega

theorem offset_lt_of_lt_indexFrom {records : List α} {off k : Nat}
    (h : k < indexFrom text records off) : offset text records k < off := by
  induction records generalizing off k with
  | nil => exact absurd h (Nat.not_lt_zero k)
  | cons record rest ih =>
      rw [indexFrom] at h
      split at h
      · exact absurd h (Nat.not_lt_zero k)
      · rename_i hoff
        cases k with
        | zero => exact Nat.pos_of_ne_zero hoff
        | succ k =>
            have hrest := ih (Nat.lt_of_succ_lt_succ h)
            rw [offset_cons_succ]
            omega

/-- The records that a test picks are those between two places, if they lie there. -/
theorem filter_eq_drop_take {p : α → Bool} {records : List α} {i j : Nat}
    (h : ∀ k (hk : k < records.length), p (records.get ⟨k, hk⟩) = true ↔ i ≤ k ∧ k < j) :
    records.filter p = (records.take j).drop i := by
  induction records generalizing i j with
  | nil => simp
  | cons record rest ih =>
      have hhead : p record = true ↔ i ≤ 0 ∧ 0 < j := h 0 (Nat.succ_pos _)
      have htail (k : Nat) (hk : k < rest.length) := h (k + 1) (Nat.succ_lt_succ hk)
      cases j with
      | zero =>
          rw [List.take_zero, List.drop_nil, List.filter_eq_nil_iff]
          intro a ha
          obtain ⟨k, hk⟩ := List.mem_iff_get.mp ha
          rw [← hk, h k.1 k.2]
          omega
      | succ j =>
          cases i with
          | zero =>
              rw [List.filter_cons_of_pos (hhead.mpr ⟨Nat.le_refl 0, Nat.succ_pos j⟩),
                List.take_succ_cons, List.drop_zero]
              refine congrArg (record :: ·) (ih (i := 0) (j := j) ?_)
              intro k hk
              exact (htail k hk).trans (by omega)
          | succ i =>
              have hskip : ¬ p record = true := fun hp => absurd (hhead.mp hp).1 (by omega)
              rw [List.filter_cons_of_neg hskip, List.take_succ_cons, List.drop_succ_cons]
              apply ih
              intro k hk
              exact (htail k hk).trans (by omega)

end EventLoop.Records
