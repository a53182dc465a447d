import Mathlib.Data.List.Basic

/-!
A shared cell that tasks save, perhaps overwrite, and put back when they end.
The tasks in progress are listed in the order they started. The cell is
consistent when every task has saved, and the cell holds, what the last write
of the tasks started before left there. Starting a task keeps that; ending one
keeps it exactly when no later task stands on the write that goes.
-/

namespace EventLoop.SavedCell

variable {ν : Type*}

/-- What a task wrote into the cell when it started, and what it puts back. -/
structure Save (ν : Type*) where
  write : Option ν
  saved : ν

/-- The value behind a sequence of writes. -/
def visible (base : ν) (writes : List (Option ν)) : ν :=
  writes.foldl (fun current write => write.getD current) base

@[simp] theorem visible_nil (base : ν) : visible base [] = base := rfl

@[simp] theorem visible_cons (base : ν) (write : Option ν) (writes : List (Option ν)) :
    visible base (write :: writes) = visible (write.getD base) writes := rfl

theorem visible_append (base : ν) (first second : List (Option ν)) :
    visible base (first ++ second) = visible (visible base first) second :=
  List.foldl_append

theorem visible_of_none {base : ν} {writes : List (Option ν)}
    (hnone : ∀ write ∈ writes, write = none) : visible base writes = base := by
  induction writes with
  | nil => rfl
  | cons write writes ih =>
      obtain rfl := hnone write (List.mem_cons_self ..)
      exact ih (fun w hw => hnone w (List.mem_cons_of_mem _ hw))

/-- Where only one value is ever written, it stays once it is there. -/
theorem visible_of_single {base value : ν} {writes : List (Option ν)}
    (hsingle : ∀ write ∈ writes, write = none ∨ write = some value)
    (hwritten : base = value ∨ some value ∈ writes) : visible base writes = value := by
  induction writes generalizing base with
  | nil => exact hwritten.resolve_right (List.not_mem_nil)
  | cons write writes ih =>
      apply ih (fun w hw => hsingle w (List.mem_cons_of_mem _ hw))
      rcases hsingle write (List.mem_cons_self ..) with rfl | rfl
      · rcases hwritten with rfl | hmem
        · exact .inl rfl
        · rcases List.mem_cons.mp hmem with hhead | htail
          · exact absurd hhead (by simp)
          · exact .inr htail
      · exact .inl rfl

structure Consistent (base : ν) (saves : List (Save ν)) (cell : ν) : Prop where
  cell_eq : cell = visible base (saves.map Save.write)
  saved_eq : ∀ front save back, saves = front ++ save :: back →
    save.saved = visible base (front.map Save.write)

theorem consistent_nil (base : ν) : Consistent base [] base :=
  ⟨rfl, fun front save back h => by simp at h⟩

/-- A task starts: it saves the cell and perhaps writes. -/
theorem Consistent.start {base cell : ν} {saves : List (Save ν)}
    (h : Consistent base saves cell) (write : Option ν) :
    Consistent base (saves ++ [⟨write, cell⟩]) (write.getD cell) := by
  constructor
  · rw [List.map_append, visible_append, ← h.cell_eq]
    rfl
  · intro front save back hsplit
    rcases List.append_eq_append_iff.mp hsplit with ⟨middle, hfront, hlast⟩ | ⟨middle, hsaves, hlast⟩
    · cases middle with
      | nil =>
          obtain ⟨rfl, -⟩ := List.cons.inj hlast
          rw [List.append_nil] at hfront
          rw [hfront]
          exact h.cell_eq
      | cons first rest =>
          have hlength := congrArg List.length hlast
          simp at hlength
    · cases middle with
      | nil =>
          obtain ⟨rfl, -⟩ := List.cons.inj hlast
          rw [List.append_nil] at hsaves
          rw [← hsaves]
          exact h.cell_eq
      | cons first rest =>
          rw [List.cons_append] at hlast
          obtain ⟨rfl, -⟩ := List.cons.inj hlast
          exact h.saved_eq front save rest hsaves

/-- A task ends: what it saved goes back into the cell. -/
theorem Consistent.finish_iff {base cell : ν} {front back : List (Save ν)} {save : Save ν}
    (h : Consistent base (front ++ save :: back) cell) :
    Consistent base (front ++ back) save.saved ↔
      back = [] ∨ save.write.getD save.saved = save.saved ∧
        visible save.saved (back.map Save.write) = save.saved := by
  have hsaved := h.saved_eq front save back rfl
  constructor
  · intro h'
    cases back with
    | nil => exact .inl rfl
    | cons next rest =>
        have hbefore := h.saved_eq (front ++ [save]) next rest (by simp)
        have hafter := h'.saved_eq front next rest rfl
        have hcell := h'.cell_eq
        rw [List.map_append, visible_append, ← hsaved] at hcell
        rw [List.map_append, visible_append, ← hsaved, hafter, ← hsaved] at hbefore
        exact .inr ⟨hbefore.symm, hcell.symm⟩
  · intro hkept
    constructor
    · rw [List.map_append, visible_append, ← hsaved]
      rcases hkept with rfl | ⟨-, hback⟩
      · rfl
      · exact hback.symm
    · intro front' save' back' hsplit
      rcases List.append_eq_append_iff.mp hsplit with ⟨middle, hfront, hback⟩ | ⟨middle, hfront, hback⟩
      · -- the other task started behind the one that ends
        have hold := h.saved_eq (front ++ save :: middle) save' back' (by simp [hback])
        rw [List.map_append, visible_append, List.map_cons, visible_cons, ← hsaved] at hold
        rcases hkept with rfl | ⟨hwrite, -⟩
        · simp at hback
        · rw [hold, hwrite, hfront, List.map_append, visible_append, ← hsaved]
      · cases middle with
        | nil =>
            rw [List.append_nil] at hfront
            rw [List.nil_append] at hback
            have hold := h.saved_eq (front ++ [save]) save' back' (by simp [← hback])
            rw [List.map_append, visible_append, ← hsaved] at hold
            rcases hkept with rfl | ⟨hwrite, -⟩
            · simp at hback
            · rw [hold, ← hfront, ← hsaved]
              exact hwrite
        | cons first rest =>
            rw [List.cons_append] at hback
            obtain ⟨rfl, -⟩ := List.cons.inj hback
            exact h.saved_eq front' save' (rest ++ save :: back) (by simp [hfront])

end EventLoop.SavedCell
