import EventLoop.Lib.Occupancy
import EventLoop.Lib.Runs
import Mathlib.Data.List.FinRange

/-!
The exception states of `cexceptNew.c`, one for each entry of a thread into a loop, which
the entry's macros find again by the thread's id.
-/

namespace EventLoop.Cexcept

open EventLoop.Occupancy EventLoop.Runs

/-- `MAX_THREAD` -/
abbrev maxThread : Nat := 20

/-- The ids in `g_state`, 0 in a free slot. -/
abbrev GState := Fin maxThread → Int

def allocstate (gState : GState) (pid : Int) : Option (GState × Fin maxThread) :=
  ((List.finRange maxThread).find? (fun i => gState i = 0)).map
    (fun i => (Function.update gState i pid, i))

def findstate (gState : GState) (pid : Int) : Option (Fin maxThread) :=
  (List.finRange maxThread).find? (fun i => gState i = pid)

def freestate (gState : GState) (pid : Int) : GState :=
  match (List.finRange maxThread).find? (fun i => gState i = pid) with
  | some i => Function.update gState i 0
  | none => gState

/-- The slots, and for each thread those that its entries obtained, the innermost first. -/
structure Threads (θ : Type*) where
  gState : GState
  entries : θ → List (Fin maxThread)

def Threads.init (θ : Type*) : Threads θ := ⟨fun _ => 0, fun _ => []⟩

/-- `NEW_THREAD_EXCEPT_CONTEXT` and `DEL_THREAD_EXCEPT_CONTEXT`, each in a thread. -/
inductive Action (θ : Type*) where
  | enter (t : θ)
  | exit (t : θ)
deriving Repr, DecidableEq

section

variable {θ : Type*} [DecidableEq θ] (getTid : θ → Int)

/-- An entry needs a free slot, and only the innermost entry of a thread can exit. -/
def step (s : Threads θ) : Action θ → Option (Threads θ)
  | .enter t =>
      (allocstate s.gState (getTid t)).map fun (gState, slot) =>
        ⟨gState, Function.update s.entries t (slot :: s.entries t)⟩
  | .exit t =>
      match s.entries t with
      | [] => none
      | _ :: outer =>
          some ⟨freestate s.gState (getTid t), Function.update s.entries t outer⟩

/-- For every thread inside, its id finds the slot of its innermost entry, and an exit frees that
slot and no other. -/
def Paired (s : Threads θ) : Prop :=
  ∀ t own outer, s.entries t = own :: outer →
    findstate s.gState (getTid t) = some own ∧
      freestate s.gState (getTid t) = Function.update s.gState own 0

/-- A thread enters where every slot with its id has a free slot before it and no other thread
with its id is inside. -/
def EntersInFront (s : Threads θ) : Action θ → Prop
  | .enter t =>
      (∀ i, s.gState i = getTid t → ∃ j < i, s.gState j = 0) ∧
        ∀ other, other ≠ t → getTid other = getTid t → s.entries other = []
  | .exit _ => True

instance [Fintype θ] (s : Threads θ) : (action : Action θ) →
    Decidable (EntersInFront getTid s action)
  | .enter t => inferInstanceAs (Decidable ((∀ i, s.gState i = getTid t → ∃ j < i, s.gState j = 0) ∧
      ∀ other, other ≠ t → getTid other = getTid t → s.entries other = []))
  | .exit _ => inferInstanceAs (Decidable True)

end

theorem findstate_iff {gState : GState} {pid : Int} {i : Fin maxThread} :
    findstate gState pid = some i ↔ gState i = pid ∧ ∀ j < i, gState j ≠ pid := by
  rw [findstate, find?_finRange_iff, decide_eq_true_iff]
  apply and_congr_right'
  exact forall₂_congr fun _ _ => decide_eq_false_iff_not

theorem allocstate_iff {gState gState' : GState} {pid : Int} {i : Fin maxThread} :
    allocstate gState pid = some (gState', i) ↔
      (gState i = 0 ∧ ∀ j < i, gState j ≠ 0) ∧ gState' = Function.update gState i pid := by
  rw [allocstate, Option.map_eq_some_iff]
  constructor
  · rintro ⟨slot, hfind, heq⟩
    obtain ⟨rfl, rfl⟩ := Prod.mk.inj heq
    rw [find?_finRange_iff, decide_eq_true_iff] at hfind
    exact ⟨⟨hfind.1, fun j hj => of_decide_eq_false (hfind.2 j hj)⟩, rfl⟩
  · rintro ⟨⟨hfree, hbefore⟩, rfl⟩
    refine ⟨i, ?_, rfl⟩
    rw [find?_finRange_iff, decide_eq_true_iff]
    exact ⟨hfree, fun j hj => decide_eq_false (hbefore j hj)⟩

/-- `freestate` frees the slot that `findstate` finds. -/
theorem freestate_eq {gState : GState} {pid : Int} {i : Fin maxThread}
    (h : findstate gState pid = some i) : freestate gState pid = Function.update gState i 0 := by
  rw [freestate, show (List.finRange maxThread).find? (fun i => gState i = pid) = some i from h]

section

variable {θ : Type*} {getTid : θ → Int} {s s' : Threads θ}

/-- The taken slots are those of the threads inside, no two of them with one id, and each
thread's slots ascend from the innermost entry outwards. -/
structure Nested (getTid : θ → Int) (s : Threads θ) : Prop where
  held : ∀ i, s.gState i ≠ 0 → ∃ t, i ∈ s.entries t
  owned : ∀ t, ∀ i ∈ s.entries t, s.gState i = getTid t
  alone : ∀ t t', getTid t = getTid t' → s.entries t ≠ [] → s.entries t' ≠ [] → t = t'
  ascending : ∀ t, (s.entries t).Pairwise (· < ·)

theorem nested_init (getTid : θ → Int) : Nested getTid (Threads.init θ) :=
  ⟨fun _ h => absurd rfl h, fun _ _ h => absurd h List.not_mem_nil,
    fun _ _ _ h => absurd rfl h, fun _ => .nil⟩

/-- A slot with a thread's id is one of the thread's, if the thread is inside. -/
theorem Nested.mem_of_id (h : Nested getTid s) (hid : ∀ t, getTid t ≠ 0) {t : θ}
    (hinside : s.entries t ≠ []) {i : Fin maxThread} (hi : s.gState i = getTid t) :
    i ∈ s.entries t := by
  obtain ⟨t', ht'⟩ := h.held i (by rw [hi]; exact hid t)
  have hsame : getTid t' = getTid t := (h.owned t' i ht').symm.trans hi
  exact h.alone t' t hsame (List.ne_nil_of_mem ht') hinside ▸ ht'

theorem Nested.paired (h : Nested getTid s) (hid : ∀ t, getTid t ≠ 0) : Paired getTid s := by
  intro t own outer hentries
  have hfind : findstate s.gState (getTid t) = some own := by
    rw [findstate_iff]
    refine ⟨h.owned t own (hentries ▸ List.mem_cons_self ..), ?_⟩
    intro j hj hid'
    have hmem := h.mem_of_id hid (by rw [hentries]; exact List.cons_ne_nil _ _) hid'
    have hascending := h.ascending t
    rw [hentries] at hmem hascending
    rcases List.mem_cons.mp hmem with rfl | houter
    · exact absurd hj (lt_irrefl _)
    · exact absurd hj (lt_asymm ((List.pairwise_cons.mp hascending).1 j houter))
  exact ⟨hfind, freestate_eq hfind⟩

variable [DecidableEq θ]

/-- What an entry does: it takes the first free slot. -/
theorem step_enter {t : θ} (hstep : step getTid s (.enter t) = some s') :
    ∃ slot, s.gState slot = 0 ∧ (∀ j < slot, s.gState j ≠ 0) ∧
      s' = ⟨Function.update s.gState slot (getTid t),
        Function.update s.entries t (slot :: s.entries t)⟩ := by
  obtain ⟨⟨gState, slot⟩, halloc, heq⟩ := Option.map_eq_some_iff.mp hstep
  obtain ⟨⟨hfree, hbefore⟩, rfl⟩ := allocstate_iff.mp halloc
  exact ⟨slot, hfree, hbefore, heq.symm⟩

theorem step_exit {t : θ} (hstep : step getTid s (.exit t) = some s') :
    ∃ own outer, s.entries t = own :: outer ∧
      s' = ⟨freestate s.gState (getTid t), Function.update s.entries t outer⟩ := by
  unfold step at hstep
  dsimp only at hstep
  split at hstep
  · cases hstep
  · rename_i own outer hentries
    exact ⟨own, outer, hentries, (Option.some.inj hstep).symm⟩

theorem Nested.enter (h : Nested getTid s) (hid : ∀ t, getTid t ≠ 0) {t : θ}
    (hguard : EntersInFront getTid s (.enter t)) {slot : Fin maxThread}
    (hfree : s.gState slot = 0) (hbefore : ∀ j < slot, s.gState j ≠ 0) :
    Nested getTid ⟨Function.update s.gState slot (getTid t),
      Function.update s.entries t (slot :: s.entries t)⟩ := by
  obtain ⟨hbehind, hothers⟩ := hguard
  have howned (t' : θ) (i : Fin maxThread) (hi : i ∈ s.entries t') :
      Function.update s.gState slot (getTid t) i = getTid t' := by
    have hne : i ≠ slot := by
      rintro rfl
      exact hid t' ((h.owned t' i hi).symm.trans hfree)
    rw [Function.update_of_ne hne]
    exact h.owned t' i hi
  refine ⟨?_, ?_, ?_, ?_⟩
  · intro i hi
    dsimp only at hi ⊢
    rcases eq_or_ne i slot with rfl | hne
    · exact ⟨t, by rw [Function.update_self]; exact List.mem_cons_self ..⟩
    · rw [Function.update_of_ne hne] at hi
      obtain ⟨t', ht'⟩ := h.held i hi
      refine ⟨t', ?_⟩
      rcases eq_or_ne t' t with rfl | hdifferent
      · rw [Function.update_self]
        exact List.mem_cons_of_mem _ ht'
      · rwa [Function.update_of_ne hdifferent]
  · intro t' i hi
    dsimp only at hi ⊢
    rcases eq_or_ne t' t with rfl | hdifferent
    · rw [Function.update_self] at hi
      rcases List.mem_cons.mp hi with rfl | hi
      · exact Function.update_self ..
      · exact howned t' i hi
    · rw [Function.update_of_ne hdifferent] at hi
      exact howned t' i hi
  · intro t₁ t₂ hsame hinside₁ hinside₂
    dsimp only at hinside₁ hinside₂
    rcases eq_or_ne t₁ t with rfl | hne₁
    · by_contra hne
      rw [Function.update_of_ne (Ne.symm hne)] at hinside₂
      exact hinside₂ (hothers t₂ (Ne.symm hne) hsame.symm)
    · rw [Function.update_of_ne hne₁] at hinside₁
      rcases eq_or_ne t₂ t with rfl | hne₂
      · exact absurd (hothers t₁ hne₁ hsame) hinside₁
      · rw [Function.update_of_ne hne₂] at hinside₂
        exact h.alone t₁ t₂ hsame hinside₁ hinside₂
  · intro t'
    dsimp only
    rcases eq_or_ne t' t with rfl | hdifferent
    · rw [Function.update_self]
      refine List.pairwise_cons.mpr ⟨?_, h.ascending t'⟩
      intro i hi
      obtain ⟨j, hj, hfree'⟩ := hbehind i (h.owned t' i hi)
      exact lt_of_le_of_lt (not_lt.mp fun hlt => hbefore j hlt hfree') hj
    · rw [Function.update_of_ne hdifferent]
      exact h.ascending t'

theorem Nested.exit (h : Nested getTid s) (hid : ∀ t, getTid t ≠ 0) {t : θ}
    {own : Fin maxThread} {outer : List (Fin maxThread)} (hentries : s.entries t = own :: outer) :
    Nested getTid ⟨freestate s.gState (getTid t), Function.update s.entries t outer⟩ := by
  have hown : s.gState own = getTid t := h.owned t own (hentries ▸ List.mem_cons_self ..)
  have hinside : s.entries t ≠ [] := by
    rw [hentries]
    exact List.cons_ne_nil _ _
  have hascending := h.ascending t
  rw [hentries] at hascending
  obtain ⟨hfirst, hascending⟩ := List.pairwise_cons.mp hascending
  have hkept {t' : θ} {i : Fin maxThread} (hi : i ∈ Function.update s.entries t outer t') :
      i ∈ s.entries t' := by
    rcases eq_or_ne t' t with rfl | hdifferent
    · rw [Function.update_self] at hi
      rw [hentries]
      exact List.mem_cons_of_mem _ hi
    · rwa [Function.update_of_ne hdifferent] at hi
  rw [((h.paired hid) t own outer hentries).2]
  refine ⟨?_, ?_, ?_, ?_⟩
  · intro i hi
    dsimp only at hi ⊢
    rcases eq_or_ne i own with rfl | hne
    · exact absurd (Function.update_self ..) hi
    · rw [Function.update_of_ne hne] at hi
      obtain ⟨t', ht'⟩ := h.held i hi
      refine ⟨t', ?_⟩
      rcases eq_or_ne t' t with rfl | hdifferent
      · rw [Function.update_self]
        rw [hentries] at ht'
        exact (List.mem_cons.mp ht').resolve_left hne
      · rwa [Function.update_of_ne hdifferent]
  · intro t' i hi
    dsimp only at hi ⊢
    have hi' := hkept hi
    have hne : i ≠ own := by
      rintro rfl
      have hsame : t' = t := h.alone t' t ((h.owned t' i hi').symm.trans hown)
        (List.ne_nil_of_mem hi') hinside
      rw [hsame, Function.update_self] at hi
      exact lt_irrefl _ (hfirst i hi)
    rw [Function.update_of_ne hne]
    exact h.owned t' i hi'
  · intro t₁ t₂ hsame hinside₁ hinside₂
    obtain ⟨i, hi⟩ := List.exists_mem_of_ne_nil _ hinside₁
    obtain ⟨j, hj⟩ := List.exists_mem_of_ne_nil _ hinside₂
    exact h.alone t₁ t₂ hsame (List.ne_nil_of_mem (hkept hi)) (List.ne_nil_of_mem (hkept hj))
  · intro t'
    dsimp only
    rcases eq_or_ne t' t with rfl | hdifferent
    · rwa [Function.update_self]
    · rw [Function.update_of_ne hdifferent]
      exact h.ascending t'

/-- An entry that leaves the slots paired met the condition. -/
theorem Nested.entersInFront (h : Nested getTid s) (hid : ∀ t, getTid t ≠ 0) {t : θ}
    (hstep : step getTid s (.enter t) = some s') (hpaired : Paired getTid s') :
    EntersInFront getTid s (.enter t) := by
  obtain ⟨slot, hfree, hbefore, rfl⟩ := step_enter hstep
  obtain ⟨hfind, -⟩ := hpaired t slot (s.entries t) (Function.update_self ..)
  obtain ⟨-, hfirst⟩ := findstate_iff.mp hfind
  dsimp only at hfirst hfind
  constructor
  · intro i hi
    have hne : i ≠ slot := by
      rintro rfl
      exact hid t (hi.symm.trans hfree)
    refine ⟨slot, lt_of_le_of_ne (not_lt.mp fun hlt => ?_) hne.symm, hfree⟩
    exact hfirst i hlt (by rw [Function.update_of_ne hne]; exact hi)
  · intro other hne hsame
    by_contra hinside
    obtain ⟨own, outer, hentries⟩ := List.exists_cons_of_ne_nil hinside
    obtain ⟨hother, -⟩ := hpaired other own outer
      ((Function.update_of_ne hne _ _).trans hentries)
    dsimp only at hother
    rw [hsame] at hother
    obtain rfl : slot = own := Option.some.inj (hfind.symm.trans hother)
    exact hid other ((h.owned other slot (hentries ▸ List.mem_cons_self ..)).symm.trans hfree)

/-- Entries and exits are paired in a run, in every state that it goes through, exactly if every
entry finds a free slot before the slots with its id and no other thread with its id inside. -/
theorem slots_paired_iff (hid : ∀ t, getTid t ≠ 0) {actions : List (Action θ)}
    {final : Threads θ} (hrun : run (step getTid) (Threads.init θ) actions = some final) :
    (∀ before after mid, actions = before ++ after →
      run (step getTid) (Threads.init θ) before = some mid → Paired getTid mid) ↔
      Guarded (step getTid) (EntersInFront getTid) (Threads.init θ) actions := by
  refine forall_prefix_seen_iff (fun s h => h.paired hid) ?_ ?_ (nested_init getTid) hrun
  · intro s action s' h hguard hstep
    cases action with
    | enter t =>
        obtain ⟨slot, hfree, hbefore, rfl⟩ := step_enter hstep
        exact h.enter hid hguard hfree hbefore
    | exit t =>
        obtain ⟨own, outer, hentries, rfl⟩ := step_exit hstep
        exact h.exit hid hentries
  · intro s action s' h hstep hpaired
    cases action with
    | enter t => exact h.entersInFront hid hstep hpaired
    | exit t => trivial

end

/-- Two threads of different ids. -/
def twoTids : Bool → Int
  | false => 7
  | true => 8

/-- A thread enters behind another, and once more when that one has left the slot in front. -/
def nestedInFront : List (Action Bool) :=
  [.enter true, .enter false, .exit true, .enter false, .exit false, .exit false]

theorem nestedInFront_paired :
    ∃ final, run (step twoTids) (Threads.init Bool) nestedInFront = some final ∧
      ∀ before after mid, nestedInFront = before ++ after →
        run (step twoTids) (Threads.init Bool) before = some mid → Paired twoTids mid := by
  have hguard : Guarded (step twoTids) (EntersInFront twoTids) (Threads.init Bool)
      nestedInFront := by
    apply Guarded.cons (by decide +kernel) rfl
    apply Guarded.cons (by decide +kernel) rfl
    apply Guarded.cons trivial rfl
    apply Guarded.cons (by decide +kernel) rfl
    apply Guarded.cons trivial rfl
    apply Guarded.cons trivial rfl
    trivial
  exact ⟨_, rfl, (slots_paired_iff (by decide) rfl).mpr hguard⟩

/-- A thread that enters twice finds the outer entry's slot and frees it at its first exit. Of two
threads with one id, as all of a process have, the second finds the first one's slot. -/
theorem nested_entry_not_paired :
    (∃ s, run (step fun _ : Unit => 7) (Threads.init Unit) [.enter (), .enter ()] = some s ∧
      s.entries () = [1, 0] ∧ findstate s.gState 7 = some 0 ∧
      freestate s.gState 7 = Function.update s.gState 0 0 ∧
      ¬ Paired (fun _ : Unit => 7) s) ∧
    ∃ s, run (step fun _ : Bool => 7) (Threads.init Bool) [.enter false, .enter true] = some s ∧
      s.entries true = [1] ∧ findstate s.gState 7 = some 0 ∧
      ¬ Paired (fun _ : Bool => 7) s := by
  refine ⟨⟨_, rfl, rfl, ?_, ?_, ?_⟩, _, rfl, rfl, ?_, ?_⟩
  · rfl
  · rfl
  · exact fun h => absurd (h () 1 [0] rfl).1 (by decide)
  · rfl
  · exact fun h => absurd (h true 1 [] rfl).1 (by decide)

end EventLoop.Cexcept
