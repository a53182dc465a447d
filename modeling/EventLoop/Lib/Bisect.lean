import EventLoop.Lib.MonotoneSplit
import Mathlib.Order.Lattice
import Mathlib.Order.Nat

/-!
A bisection that ends at the first equal key. While the window from `f` to `l` is `wide`,
the key at `probe f l` is compared: an equal key ends the search there, another one halves
the window; a window that is not wide is searched through from its start. Keys may repeat,
and then the search for a key finds the first of its run unless it halts inside the run.
-/

namespace EventLoop.Bisect

open MonotoneSplit

variable {κ : Type*} [LinearOrder κ] (key : Nat → κ) (probe : Nat → Nat → Nat)
  (wide : Nat → Nat → Prop) (n : Nat) (t : κ)

/-- The search for `t` in a window ends at `r`. -/
inductive Finds : Nat → Nat → Nat → Prop
  | through {f l r : Nat} (hnarrow : ¬ wide f l) (hfirst : SplitsAt (fun i => key i < t) n r) :
      Finds f l r
  | hit {f l : Nat} (hwide : wide f l) (hkey : key (probe f l) = t) : Finds f l (probe f l)
  | lower {f l r : Nat} (hwide : wide f l) (hkey : t < key (probe f l))
      (hrest : Finds f (probe f l) r) : Finds f l r
  | upper {f l r : Nat} (hwide : wide f l) (hkey : key (probe f l) < t)
      (hrest : Finds (probe f l) l r) : Finds f l r

/-- The search for `t` in a window probes a key `t` that is not the first one. -/
inductive HaltsInside : Nat → Nat → Prop
  | hit {f l i : Nat} (hwide : wide f l) (hkey : key (probe f l) = t) (hi : i < probe f l)
      (hsame : key i = t) : HaltsInside f l
  | lower {f l : Nat} (hwide : wide f l) (hkey : t < key (probe f l))
      (hrest : HaltsInside f (probe f l)) : HaltsInside f l
  | upper {f l : Nat} (hwide : wide f l) (hkey : key (probe f l) < t)
      (hrest : HaltsInside (probe f l) l) : HaltsInside f l

/-- The windows that the search for `t` in a window looks at. -/
inductive Visits : Nat → Nat → Nat → Nat → Prop
  | here (f l : Nat) : Visits f l f l
  | lower {f l f' l' : Nat} (hwide : wide f l) (hkey : t < key (probe f l))
      (hrest : Visits f (probe f l) f' l') : Visits f l f' l'
  | upper {f l f' l' : Nat} (hwide : wide f l) (hkey : key (probe f l) < t)
      (hrest : Visits (probe f l) l f' l') : Visits f l f' l'

/-- The search for `t` in a window probes within its windows only. -/
def ProbesWithin (f l : Nat) : Prop :=
  ∀ f' l', Visits key probe wide t f l f' l' → wide f' l' → key f' < t → t < key l' →
    f' < probe f' l' ∧ probe f' l' < l'

variable {key probe wide n t} {f l r : Nat}

theorem ProbesWithin.lower (h : ProbesWithin key probe wide t f l) (hwide : wide f l)
    (hkey : t < key (probe f l)) : ProbesWithin key probe wide t f (probe f l) :=
  fun _ _ hvisits => h _ _ (.lower hwide hkey hvisits)

theorem ProbesWithin.upper (h : ProbesWithin key probe wide t f l) (hwide : wide f l)
    (hkey : key (probe f l) < t) : ProbesWithin key probe wide t (probe f l) l :=
  fun _ _ hvisits => h _ _ (.upper hwide hkey hvisits)

theorem HaltsInside.wide_of (h : HaltsInside key probe wide t f l) : wide f l := by
  cases h with
  | hit hwide | lower hwide | upper hwide => exact hwide

/-- A search that halts inside a run has found a key that repeats. -/
theorem HaltsInside.repeats (h : HaltsInside key probe wide t f l) :
    ∃ i j, i < j ∧ key i = t ∧ key j = t := by
  induction h with
  | hit hwide hkey hi hsame => exact ⟨_, _, hi, hsame, hkey⟩
  | lower hwide hkey hrest ih => exact ih
  | upper hwide hkey hrest ih => exact ih

/-- Where the search ends short of a first key, the key there is equal. -/
theorem Finds.first_or_eq (h : Finds key probe wide n t f l r) :
    SplitsAt (fun i => key i < t) n r ∨ key r = t := by
  induction h with
  | through hnarrow hfirst => exact .inl hfirst
  | hit hwide hkey => exact .inr hkey
  | lower hwide hkey hrest ih => exact ih
  | upper hwide hkey hrest ih => exact ih

/-- The search finds the first key unless it halts inside a run. -/
theorem Finds.first_iff (hmono : Monotone key) (hr : r < n)
    (h : Finds key probe wide n t f l r) :
    SplitsAt (fun i => key i < t) n r ↔ ¬ HaltsInside key probe wide t f l := by
  induction h with
  | through hnarrow hfirst => exact iff_of_true hfirst (fun hinside => hnarrow hinside.wide_of)
  | @hit f l hwide hkey =>
      constructor
      · intro hfirst hinside
        cases hinside with
        | hit _ _ hi hsame => exact absurd (hfirst.below _ hi) (by rw [hsame]; exact lt_irrefl t)
        | lower _ hlt => exact absurd (hkey ▸ hlt) (lt_irrefl _)
        | upper _ hlt => exact absurd (hkey ▸ hlt) (lt_irrefl _)
      · intro houtside
        refine ⟨Nat.le_of_lt hr, ?_, ?_⟩
        · intro i hi
          apply lt_of_le_of_ne
          · rw [← hkey]
            exact hmono (Nat.le_of_lt hi)
          · exact fun hsame => houtside (.hit hwide hkey hi hsame)
        · intro i hri _
          rw [not_lt, ← hkey]
          exact hmono hri
  | lower hwide hkey hrest ih =>
      rw [ih hr]
      apply not_congr
      constructor
      · exact .lower hwide hkey
      · intro hinside
        cases hinside with
        | hit _ heq => exact absurd heq (ne_of_gt hkey)
        | lower _ _ hrest => exact hrest
        | upper _ hlt => exact absurd hkey (lt_asymm hlt)
  | upper hwide hkey hrest ih =>
      rw [ih hr]
      apply not_congr
      constructor
      · exact .upper hwide hkey
      · intro hinside
        cases hinside with
        | hit _ heq => exact absurd heq (ne_of_lt hkey)
        | lower _ hlt => exact absurd hkey (lt_asymm hlt)
        | upper _ _ hrest => exact hrest

end EventLoop.Bisect
