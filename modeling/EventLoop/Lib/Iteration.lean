import Mathlib.Data.Set.Card
import Mathlib.Logic.Relation

/-!
Loops. The body of a loop makes of a state the next one, or the result at which the loop
ends. Where only finitely many states can be reached, the loop ends unless it reaches one
that it comes back to.
-/

namespace EventLoop.Iteration

open Relation

variable {σ ρ : Type*}

/-- Perform the body until it gives the result; `none` if it has not by then. -/
def iterate (body : σ → σ ⊕ ρ) : Nat → σ → Option ρ
  | 0, _ => none
  | fuel + 1, s =>
      match body s with
      | .inl s' => iterate body fuel s'
      | .inr r => some r

def Turns (body : σ → σ ⊕ ρ) (s s' : σ) : Prop := body s = .inl s'

/-- The states that the loop comes to from `s`. -/
def Reaches (body : σ → σ ⊕ ρ) : σ → σ → Prop := ReflTransGen (Turns body)

/-- The loop from `s` ends. -/
def Ends (body : σ → σ ⊕ ρ) (s : σ) : Prop := ∃ fuel r, iterate body fuel s = some r

/-- The loop from `s` ends with `r`. -/
def Yields (body : σ → σ ⊕ ρ) (s : σ) (r : ρ) : Prop := ∃ fuel, iterate body fuel s = some r

/-- The loop from `s` comes back to `s`. -/
def Returns (body : σ → σ ⊕ ρ) (s : σ) : Prop := TransGen (Turns body) s s

variable {body : σ → σ ⊕ ρ} {s s' t : σ} {r : ρ} {fuel : Nat}

theorem iterate_of_inl (h : body s = .inl s') :
    iterate body (fuel + 1) s = iterate body fuel s' := by
  rw [iterate, h]

theorem iterate_of_inr (h : body s = .inr r) : iterate body (fuel + 1) s = some r := by
  rw [iterate, h]

theorem iterate_mono (h : iterate body fuel s = some r) {more : Nat} (hle : fuel ≤ more) :
    iterate body more s = some r := by
  induction fuel generalizing s more with
  | zero => cases h
  | succ fuel ih =>
      obtain ⟨more, rfl⟩ := Nat.exists_eq_add_one_of_ne_zero (Nat.ne_of_gt (Nat.lt_of_lt_of_le
        (Nat.succ_pos fuel) hle))
      cases hbody : body s with
      | inl s' =>
          rw [iterate_of_inl hbody] at h ⊢
          exact ih h (Nat.le_of_succ_le_succ hle)
      | inr r' =>
          rw [iterate_of_inr hbody] at h ⊢
          exact h

theorem ends_of_inr (h : body s = .inr r) : Ends body s := ⟨1, r, iterate_of_inr h⟩

theorem ends_of_inl (h : body s = .inl s') : Ends body s ↔ Ends body s' := by
  constructor
  · rintro ⟨fuel, r, hends⟩
    cases fuel with
    | zero => cases hends
    | succ fuel => exact ⟨fuel, r, by rwa [iterate_of_inl h] at hends⟩
  · rintro ⟨fuel, r, hends⟩
    exact ⟨fuel + 1, r, by rwa [iterate_of_inl h]⟩

theorem yields_of_inr (h : body s = .inr r) : Yields body s r := ⟨1, iterate_of_inr h⟩

theorem yields_of_inl (h : body s = .inl s') : Yields body s r ↔ Yields body s' r := by
  constructor
  · rintro ⟨fuel, hends⟩
    cases fuel with
    | zero => cases hends
    | succ fuel => exact ⟨fuel, by rwa [iterate_of_inl h] at hends⟩
  · rintro ⟨fuel, hends⟩
    exact ⟨fuel + 1, by rwa [iterate_of_inl h]⟩

theorem exists_succ_of_iterate (h : iterate body fuel s = some r) : ∃ less, fuel = less + 1 := by
  cases fuel with
  | zero => cases h
  | succ less => exact ⟨less, rfl⟩

/-- From two states of which the body makes the same, the loop goes on in the same way. -/
theorem iterate_congr (h : body s = body s') : iterate body fuel s = iterate body fuel s' := by
  cases fuel with
  | zero => rfl
  | succ fuel => simp only [iterate, h]

theorem yields_congr (h : body s = body s') : Yields body s r ↔ Yields body s' r :=
  exists_congr fun _ => by rw [iterate_congr h]

theorem Yields.iterate_eq (h : Yields body s r) {r' : ρ} (hends : iterate body fuel s = some r') :
    r' = r := by
  obtain ⟨more, hmore⟩ := h
  have hmax := iterate_mono hends (Nat.le_max_left fuel more)
  rw [iterate_mono hmore (Nat.le_max_right fuel more)] at hmax
  exact (Option.some.inj hmax).symm

/-- A loop whose turns make a number smaller ends within that many turns. -/
theorem exists_iterate_of_lt {measure : σ → Nat}
    (hless : ∀ s s', body s = .inl s' → measure s' < measure s) (hfuel : measure s < fuel) :
    ∃ r, iterate body fuel s = some r := by
  induction fuel generalizing s with
  | zero => exact absurd hfuel (Nat.not_lt_zero _)
  | succ fuel ih =>
      cases hbody : body s with
      | inl s' =>
          obtain ⟨r, hr⟩ := @ih s' (Nat.lt_of_lt_of_le (hless s s' hbody) (Nat.le_of_lt_succ hfuel))
          exact ⟨r, by rwa [iterate_of_inl hbody]⟩
      | inr r => exact ⟨r, iterate_of_inr hbody⟩

/-- A loop that ends with a result ends with it from every state on the way there. -/
theorem Reaches.yields_iff (h : Reaches body s t) : Yields body s r ↔ Yields body t r := by
  induction h with
  | refl => rfl
  | tail _ hturn ih => rw [ih, yields_of_inl hturn]

/-- To end at one of the states that are reached is to end. -/
theorem Reaches.ends_iff (h : Reaches body s t) : Ends body s ↔ Ends body t := by
  induction h with
  | refl => rfl
  | tail _ hturn ih => rw [ih, ends_of_inl hturn]

/-- A loop that ends does not come back to where it was. -/
theorem Ends.not_returns (h : Ends body s) : ¬ Returns body s := by
  obtain ⟨fuel, r, hends⟩ := h
  induction fuel generalizing s with
  | zero => cases hends
  | succ fuel ih =>
      intro hback
      obtain ⟨s', hturn, hrest⟩ := TransGen.head'_iff.mp hback
      rw [iterate_of_inl hturn] at hends
      exact ih hends (TransGen.tail'_iff.mpr ⟨s, hrest, hturn⟩)

theorem Ends.of_acyclic (hfinite : {t | Reaches body s t}.Finite)
    (hacyclic : ∀ t, Reaches body s t → ¬ Returns body t) : Ends body s := by
  -- the states ahead become fewer at every turn
  induction hcard : {t | Reaches body s t}.ncard using Nat.strong_induction_on generalizing s with
  | _ n ih =>
      cases hbody : body s with
      | inr r => exact ends_of_inr hbody
      | inl s' =>
          have hahead {t : σ} (h : Reaches body s' t) : Reaches body s t := .head hbody h
          have hsubset : {t | Reaches body s' t} ⊂ {t | Reaches body s t} := by
            refine ⟨fun t => hahead, fun hsuperset => ?_⟩
            have hback : Reaches body s' s := hsuperset ReflTransGen.refl
            exact hacyclic s ReflTransGen.refl (TransGen.head'_iff.mpr ⟨s', hbody, hback⟩)
          refine (ends_of_inl hbody).mpr (ih _ ?_ (hfinite.subset hsubset.subset)
            (fun t ht => hacyclic t (hahead ht)) rfl)
          rw [← hcard]
          exact Set.ncard_lt_ncard hsubset hfinite

/-- A loop through finitely many states ends exactly if it comes back to none of them. -/
theorem ends_iff_acyclic (hfinite : {t | Reaches body s t}.Finite) :
    Ends body s ↔ ∀ t, Reaches body s t → ¬ Returns body t :=
  ⟨fun h _ ht => Ends.not_returns (ht.ends_iff.mp h), Ends.of_acyclic hfinite⟩

variable {ι : Type*} {reads : σ → List ι} {i : ι}

section

variable {ε α β : Type} {n : Nat} {a b : α}

theorem exists_of_bind_ok {x : Except ε α} {f : α → Except ε β} {b : β}
    (h : (x >>= f) = .ok b) : ∃ a, x = .ok a ∧ f a = .ok b := by
  cases x with
  | error e => cases h
  | ok a => exact ⟨a, rfl, h⟩

/-- What each turn makes of the invariant before it holds behind the last. -/
theorem foldlM_range_invariant {f : α → Nat → Except ε α} {P : Nat → α → Prop} (h : P 0 a)
    (hturn : ∀ i < n, ∀ a a', P i a → f a i = .ok a' → P (i + 1) a')
    (hrun : (List.range n).foldlM f a = .ok b) : P n b := by
  induction n generalizing b with
  | zero =>
      cases hrun
      exact h
  | succ n ih =>
      rw [List.range_succ, List.foldlM_append] at hrun
      obtain ⟨c, hbefore, hlast⟩ := exists_of_bind_ok hrun
      obtain ⟨d, hturned, hd⟩ := exists_of_bind_ok hlast
      cases hd
      exact hturn n (Nat.lt_succ_self n) c b
        (ih (fun i hi => hturn i (Nat.lt_succ_of_lt hi)) hbefore) hturned

end

end EventLoop.Iteration
