import Mathlib.Data.List.Nodup
import Mathlib.Logic.Function.Basic

/-!
Singly linked lists in a heap. `Seg heap p cells q` says that following the pointers from `p` one
comes through the cells, in their order, to `q`. A pointer is an address, or null.
-/

namespace EventLoop.LinkedList

variable {α : Type*}

structure Node (α : Type*) where
  payload : α
  next : Option Nat
deriving DecidableEq

/-- What is at each address that is allocated. -/
abbrev Heap (α : Type*) := Nat → Option (Node α)

/-- The cells are the addresses with what is stored there. -/
def Seg (heap : Heap α) : Option Nat → List (Nat × α) → Option Nat → Prop
  | p, [], q => p = q
  | p, (a, x) :: cells, q =>
      p = some a ∧ ∃ next, heap a = some ⟨x, next⟩ ∧ Seg heap next cells q

def addresses (cells : List (Nat × α)) : List Nat := cells.map Prod.fst

variable {heap heap' : Heap α} {p q r : Option Nat} {a : Nat} {x : α}
  {cells front back : List (Nat × α)}

@[simp] theorem seg_nil : Seg heap p [] q ↔ p = q := Iff.rfl

@[simp] theorem seg_cons : Seg heap p ((a, x) :: cells) q ↔
    p = some a ∧ ∃ next, heap a = some ⟨x, next⟩ ∧ Seg heap next cells q := Iff.rfl

@[simp] theorem addresses_nil : addresses ([] : List (Nat × α)) = [] := rfl

@[simp] theorem addresses_cons : addresses ((a, x) :: cells) = a :: addresses cells := rfl

@[simp] theorem addresses_append : addresses (front ++ back) = addresses front ++ addresses back :=
  List.map_append

theorem seg_append : Seg heap p (front ++ back) q ↔ ∃ r, Seg heap p front r ∧ Seg heap r back q := by
  induction front generalizing p with
  | nil => simp
  | cons cell front ih =>
      obtain ⟨a, x⟩ := cell
      simp only [List.cons_append, seg_cons, ih]
      constructor
      · rintro ⟨hp, next, ha, r, hfront, hback⟩
        exact ⟨r, ⟨hp, next, ha, hfront⟩, hback⟩
      · rintro ⟨r, ⟨hp, next, ha, hfront⟩, hback⟩
        exact ⟨hp, next, ha, r, hfront, hback⟩

/-- Each cell of a list is allocated. -/
theorem Seg.allocated (h : Seg heap p cells q) (ha : (a, x) ∈ cells) :
    ∃ next, heap a = some ⟨x, next⟩ := by
  induction cells generalizing p with
  | nil => cases ha
  | cons cell cells ih =>
      obtain ⟨b, y⟩ := cell
      obtain ⟨-, next, hb, hcells⟩ := h
      rcases List.mem_cons.mp ha with heq | ha
      · obtain ⟨rfl, rfl⟩ := Prod.mk.inj heq
        exact ⟨next, hb⟩
      · exact ih hcells ha

/-- A list stays as it is if its cells do. -/
theorem Seg.congr (h : Seg heap p cells q) (hsame : ∀ a ∈ addresses cells, heap' a = heap a) :
    Seg heap' p cells q := by
  induction cells generalizing p with
  | nil => exact h
  | cons cell cells ih =>
      obtain ⟨b, y⟩ := cell
      obtain ⟨hp, next, hb, hcells⟩ := h
      obtain ⟨hhead, hrest⟩ := List.forall_mem_cons.mp hsame
      exact ⟨hp, next, hhead.trans hb, ih hcells hrest⟩

theorem Seg.update (h : Seg heap p cells q) (ha : a ∉ addresses cells) (v : Option (Node α)) :
    Seg (Function.update heap a v) p cells q :=
  h.congr fun b hb => Function.update_of_ne (fun heq : b = a => ha (heq ▸ hb)) _ _

/-- The last cell is given another successor. -/
theorem Seg.setNext (h : Seg heap p (front ++ [(a, x)]) q) (ha : a ∉ addresses front)
    (r : Option Nat) :
    Seg (Function.update heap a (some ⟨x, r⟩)) p (front ++ [(a, x)]) r := by
  obtain ⟨s, hfront, hs, -⟩ := seg_append.mp h
  exact seg_append.mpr ⟨s, hfront.update ha _, hs, r, Function.update_self .., rfl⟩

end EventLoop.LinkedList
