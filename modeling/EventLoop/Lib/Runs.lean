import Mathlib.Tactic.Common

/-!
Finite runs of a partial step function. A machine is a state type, an action
type and `step : σ → α → Option σ`, where `none` means that the action is not
possible in that state. An invariant is proved once for a step and holds then
of every state a run reaches; a guarded run is one whose every step meets a
condition on the action and the state before it.
-/

namespace EventLoop.Runs

variable {σ α : Type*}

/-- Perform the actions in order. -/
def run (step : σ → α → Option σ) : σ → List α → Option σ
  | s, [] => some s
  | s, action :: rest => (step s action).bind (fun s' => run step s' rest)

/-- Every step of the run meets `guard` in the state it is taken from. -/
def Guarded (step : σ → α → Option σ) (guard : σ → α → Prop) : σ → List α → Prop
  | _, [] => True
  | s, action :: rest =>
      guard s action ∧ ∀ s', step s action = some s' → Guarded step guard s' rest

variable {step : σ → α → Option σ} {guard : σ → α → Prop}

@[simp] theorem run_nil (s : σ) : run step s [] = some s := rfl

theorem run_cons_eq_some {s final : σ} {action : α} {rest : List α} :
    run step s (action :: rest) = some final ↔
      ∃ next, step s action = some next ∧ run step next rest = some final := by
  simp [run, Option.bind_eq_some_iff]

/-- A run in two parts goes through the state between them. -/
theorem run_append_eq_some {s final : σ} {before after : List α} :
    run step s (before ++ after) = some final ↔
      ∃ between, run step s before = some between ∧ run step between after = some final := by
  induction before generalizing s with
  | nil => simp
  | cons action rest ih =>
      rw [List.cons_append, run_cons_eq_some]
      constructor
      · rintro ⟨next, hnext, hrest⟩
        obtain ⟨between, hbetween, hafter⟩ := ih.mp hrest
        exact ⟨between, run_cons_eq_some.mpr ⟨next, hnext, hbetween⟩, hafter⟩
      · rintro ⟨between, hbefore, hafter⟩
        obtain ⟨next, hnext, hrest⟩ := run_cons_eq_some.mp hbefore
        exact ⟨next, hnext, ih.mpr ⟨between, hrest, hafter⟩⟩

/-- A guarded run, one step at a time. -/
theorem Guarded.cons {s next : σ} {action : α} {rest : List α} (hguard : guard s action)
    (hstep : step s action = some next) (hrest : Guarded step guard next rest) :
    Guarded step guard s (action :: rest) := by
  refine ⟨hguard, ?_⟩
  intro s' hs'
  obtain rfl : next = s' := Option.some.inj (hstep.symm.trans hs')
  exact hrest

/-- A property kept by every guarded step holds at the end of every guarded
run, hence in every state such a run reaches. -/
theorem guarded_run_invariant {Inv : σ → Prop}
    (hstep : ∀ s action s', Inv s → guard s action →
      step s action = some s' → Inv s')
    {s final : σ} {actions : List α} (hstart : Inv s)
    (hguard : Guarded step guard s actions)
    (hrun : run step s actions = some final) : Inv final := by
  induction actions generalizing s with
  | nil =>
      obtain rfl : s = final := by simpa using hrun
      exact hstart
  | cons action rest ih =>
      obtain ⟨next, hnext, hrest⟩ := run_cons_eq_some.mp hrun
      exact ih (hstep s action next hstart hguard.1 hnext)
        (hguard.2 next hnext) hrest

theorem guarded_of_forall (hall : ∀ s action, guard s action)
    (s : σ) (actions : List α) : Guarded step guard s actions := by
  induction actions generalizing s with
  | nil => trivial
  | cons action rest ih => exact ⟨hall s action, fun next _ => ih next⟩

/-- A property kept by every step holds in every state a run reaches. -/
theorem run_invariant {Inv : σ → Prop}
    (hstep : ∀ s action s', Inv s → step s action = some s' → Inv s')
    {s final : σ} {actions : List α} (hstart : Inv s)
    (hrun : run step s actions = some final) : Inv final :=
  @guarded_run_invariant σ α step (fun _ _ => True) Inv
    (fun s action s' hs _ hs' => hstep s action s' hs hs') s final actions hstart
    (guarded_of_forall (fun _ _ => trivial) s actions) hrun

/-- What guarded steps keep is seen in every state of a guarded run. -/
theorem prefixes_of_guarded {Good Seen : σ → Prop} (hseen : ∀ s, Good s → Seen s)
    (hkept : ∀ s action s', Good s → guard s action → step s action = some s' → Good s')
    {s final : σ} {actions : List α} (hgood : Good s) (hrun : run step s actions = some final)
    (hguarded : Guarded step guard s actions) :
    ∀ before after mid, actions = before ++ after → run step s before = some mid → Seen mid := by
  induction actions generalizing s with
  | nil =>
      intro before after mid happend hmid
      obtain ⟨rfl, -⟩ := List.append_eq_nil_iff.mp happend.symm
      obtain rfl : s = mid := Option.some.inj hmid
      exact hseen s hgood
  | cons action rest ih =>
      intro before after mid happend hmid
      obtain ⟨next, hnext, hrest⟩ := run_cons_eq_some.mp hrun
      cases before with
      | nil =>
          obtain rfl : s = mid := Option.some.inj hmid
          exact hseen s hgood
      | cons first before =>
          obtain ⟨rfl, hrest'⟩ := List.cons.inj happend
          obtain ⟨next', hnext', hmid'⟩ := run_cons_eq_some.mp hmid
          obtain rfl : next = next' := Option.some.inj (hnext.symm.trans hnext')
          exact ih (hkept s action next hgood hguarded.1 hnext) hrest (hguarded.2 next hnext)
            before after mid hrest' hmid'

/-- A run of allowed actions is guarded if what is seen in every state of it is seen, of what an
allowed action leaves, only behind a guarded step. -/
theorem guarded_of_prefixes {Good Seen : σ → Prop} {Allowed : α → Prop}
    (hkept : ∀ s action s', Good s → guard s action → step s action = some s' → Good s')
    (hmet : ∀ s action s', Allowed action → Good s → step s action = some s' → Seen s' →
      guard s action)
    {s final : σ} {actions : List α} (hallowed : ∀ action ∈ actions, Allowed action)
    (hgood : Good s) (hrun : run step s actions = some final)
    (hall : ∀ before after mid, actions = before ++ after → run step s before = some mid →
      Seen mid) :
    Guarded step guard s actions := by
  induction actions generalizing s with
  | nil => trivial
  | cons action rest ih =>
      obtain ⟨next, hnext, hrest⟩ := run_cons_eq_some.mp hrun
      obtain ⟨hfirst, hothers⟩ := List.forall_mem_cons.mp hallowed
      have hnextSeen : Seen next := hall [action] rest next rfl
        (run_cons_eq_some.mpr ⟨next, hnext, rfl⟩)
      have hguard := hmet s action next hfirst hgood hnext hnextSeen
      apply Guarded.cons hguard hnext
      apply ih hothers (hkept s action next hgood hguard hnext) hrest
      intro before after mid happend hmid
      exact hall (action :: before) after mid (congrArg _ happend)
        (run_cons_eq_some.mpr ⟨next, hnext, hmid⟩)

/-- Where guarded steps keep what can be seen in every state, together with what makes it so, and
it is seen after no other step, a run shows it in every state exactly if it is guarded. -/
theorem forall_prefix_seen_iff {Good Seen : σ → Prop} (hseen : ∀ s, Good s → Seen s)
    (hkept : ∀ s action s', Good s → guard s action → step s action = some s' → Good s')
    (hmet : ∀ s action s', Good s → step s action = some s' → Seen s' → guard s action)
    {s final : σ} {actions : List α} (hgood : Good s) (hrun : run step s actions = some final) :
    (∀ before after mid, actions = before ++ after → run step s before = some mid → Seen mid) ↔
      Guarded step guard s actions := by
  constructor
  · exact @guarded_of_prefixes σ α step guard Good Seen (fun _ => True) hkept
      (fun s action s' _ => hmet s action s') s final actions (fun _ _ => trivial) hgood hrun
  · exact prefixes_of_guarded hseen hkept hgood hrun

/-- Where a step keeps a property exactly if it meets the guard, a run has the property in
every state exactly if it is guarded. -/
theorem forall_prefix_iff_guarded {Inv Good : σ → Prop}
    (hinv : ∀ s action s', Inv s → step s action = some s' → Inv s')
    (hiff : ∀ s action s', Inv s → Good s → step s action = some s' → (Good s' ↔ guard s action))
    {s final : σ} {actions : List α} (hstart : Inv s) (hgood : Good s)
    (hrun : run step s actions = some final) :
    (∀ before after mid, actions = before ++ after → run step s before = some mid → Good mid) ↔
      Guarded step guard s actions := by
  refine @forall_prefix_seen_iff σ α step guard (fun s => Inv s ∧ Good s) Good ?_ ?_ ?_ s final
    actions ⟨hstart, hgood⟩ hrun
  · exact fun s h => h.2
  · intro s action s' h hguard hstep
    exact ⟨hinv s action s' h.1 hstep, (hiff s action s' h.1 h.2 hstep).mpr hguard⟩
  · intro s action s' h hstep hnext
    exact (hiff s action s' h.1 h.2 hstep).mp hnext

section

variable {τ β : Type*} {step' : τ → β → Option τ} {f : α → β}

theorem rel_mono {R R' : σ → τ → Prop} (h : ∀ s t, R s t → R' s t) {x : Option σ} {y : Option τ}
    (hrel : Option.Rel R x y) : Option.Rel R' x y := by
  cases hrel with
  | some hst => exact .some (h _ _ hst)
  | none => exact .none

/-- Where each step of the one machine is a step of the other and what is related stays so, for as
many steps as are bounded, the one run is possible exactly if the other is. -/
theorem run_rel {R : Nat → σ → τ → Prop} {bound : Nat}
    (hstep : ∀ n < bound, ∀ s t action, R n s t → guard s action →
      Option.Rel (R (n + 1)) (step s action) (step' t (f action)))
    {s : σ} {t : τ} {n : Nat} {actions : List α} (h : R n s t)
    (hbound : n + actions.length ≤ bound) (hguard : Guarded step guard s actions) :
    Option.Rel (R (n + actions.length)) (run step s actions) (run step' t (actions.map f)) := by
  induction actions generalizing s t n with
  | nil => exact .some h
  | cons action rest ih =>
      rw [List.length_cons] at hbound ⊢
      have hfirst := hstep n (by omega) s t action h hguard.1
      rw [List.map_cons, run, run]
      cases hs : step s action with
      | none =>
          rw [hs] at hfirst
          generalize step' t (f action) = y at hfirst ⊢
          cases hfirst
          exact .none
      | some s' =>
          rw [hs] at hfirst
          generalize step' t (f action) = y at hfirst ⊢
          cases hfirst with
          | some hst =>
              have hrest := ih hst (by omega) (hguard.2 s' hs)
              rwa [Nat.add_right_comm] at hrest

end

end EventLoop.Runs
