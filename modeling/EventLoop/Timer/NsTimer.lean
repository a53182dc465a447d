import EventLoop.Lib.Runs
import EventLoop.Timer.Queue

/-!
`ns_timer_support.c`: registration, cancellation and expiry of the timers of
one context. A run performs the calls one by one; a call of `expire_timers`
stays open while the signal handlers and the timer handler it runs make calls
of their own, to any depth. The record of the run numbers the blocks in
registration order and the calls of `expire_timers` in call order.
-/

namespace EventLoop.NsTimer

/-- `eloop_register_timeout` with the result of `os_malloc`; no watchdog flag
is compiled in. -/
def eloopRegisterTimeout (malloc : Option Nat) (now : OsTime) (secs usecs : UInt32)
    (handler eloopData userData : Ptr) (timeout : List EloopTimeout) :
    Int × List EloopTimeout :=
  match malloc with
  | none => (-1, timeout)
  | some block =>
      (0, linkTimeout ⟨block, expiry now secs usecs, eloopData, userData, false, handler⟩
        timeout)

structure Cancelled where
  removed : Nat
  freed : List Nat
  timeout : List EloopTimeout

/-- The walk of `eloop_cancel_timeout`: unlink, free and count every match. -/
def eloopCancelTimeout (handler eloopData userData : Ptr) :
    List EloopTimeout → Cancelled
  | [] => ⟨0, [], []⟩
  | timeout :: next =>
      let rest := eloopCancelTimeout handler eloopData userData next
      if matchesTimeout handler eloopData userData timeout then
        ⟨rest.removed + 1, timeout.block :: rest.freed, rest.timeout⟩
      else ⟨rest.removed, rest.freed, timeout :: rest.timeout⟩

theorem eloopCancelTimeout_eq (handler eloopData userData : Ptr)
    (list : List EloopTimeout) :
    eloopCancelTimeout handler eloopData userData list =
      ⟨(list.filter (matchesTimeout handler eloopData userData)).length,
       (list.filter (matchesTimeout handler eloopData userData)).map (·.block),
       list.filter (fun t => !matchesTimeout handler eloopData userData t)⟩ := by
  induction list with
  | nil => rfl
  | cons timeout next ih =>
      rw [eloopCancelTimeout, ih]
      by_cases h : matchesTimeout handler eloopData userData timeout <;> simp [h]

/-- How far an open call of `expire_timers` has come. -/
inductive ExpireCall where
  | pendingSignals (call : Nat)
  | runningHandler (call : Nat) (tmp : EloopTimeout)

/-- The context with the record of its run: every registered timer, the
handler invocations as (call of `expire_timers`, block), and the blocks that
cancellations counted. -/
structure Context where
  timeout : List EloopTimeout
  registered : List EloopTimeout
  openCalls : List ExpireCall
  calls : Nat
  fired : List (Nat × Nat)
  cancelled : List Nat

def Context.init : Context := ⟨[], [], [], 0, [], []⟩

inductive Action where
  | registerTimeout (mallocOk : Bool) (now : WallTime) (secs usecs : UInt32)
      (handler eloopData userData : Ptr)
  | cancelTimeout (handler eloopData userData : Ptr)
  | expireTimers
  | examineHead (now : WallTime)
  | handlerReturn

/-- `expire_timers` after `eloop_process_pending_signals`, up to the handler
call: the head is unlinked before its handler runs. -/
def examineHead (now : OsTime) (call : Nat) (below : List ExpireCall) (c : Context) :
    Context :=
  match c.timeout with
  | [] => {c with openCalls := below}
  | tmp :: next =>
      if osTimeBefore now tmp.time then {c with openCalls := below}
      else {c with
        timeout := next
        openCalls := .runningHandler call tmp :: below
        fired := c.fired ++ [(call, tmp.block)]}

def step (c : Context) : Action → Option Context
  | .registerTimeout mallocOk now secs usecs handler eloopData userData =>
      let block := c.registered.length
      let result := eloopRegisterTimeout (if mallocOk then some block else none)
        now.toOsTime secs usecs handler eloopData userData c.timeout
      some {c with
        timeout := result.2
        registered := if result.1 = 0 then c.registered ++
          [⟨block, expiry now.toOsTime secs usecs, eloopData, userData, false, handler⟩]
          else c.registered}
  | .cancelTimeout handler eloopData userData =>
      let result := eloopCancelTimeout handler eloopData userData c.timeout
      some {c with
        timeout := result.timeout
        cancelled := c.cancelled ++ result.freed}
  | .expireTimers =>
      some {c with openCalls := .pendingSignals c.calls :: c.openCalls, calls := c.calls + 1}
  | .examineHead now =>
      match c.openCalls with
      | .pendingSignals call :: below => some (examineHead now.toOsTime call below c)
      | _ => none
  | .handlerReturn =>
      match c.openCalls with
      | .runningHandler _ _ :: below => some {c with openCalls := below}
      | _ => none

/-- Registered, and neither fired nor cancelled so far. -/
def Pending (c : Context) (t : EloopTimeout) : Prop :=
  t ∈ c.registered ∧ t.block ∉ c.fired.map Prod.snd ∧ t.block ∉ c.cancelled

/-- The calls of `expire_timers` that may still run a handler. -/
def mayFire : List ExpireCall → List Nat
  | [] => []
  | .pendingSignals call :: below => call :: mayFire below
  | .runningHandler _ _ :: below => mayFire below

/-- What every step keeps. `fates` counts, for each block number, its
occurrences in the list, in the handler record and in the cancel record. -/
structure Invariant (c : Context) : Prop where
  numbered : c.registered.map (·.block) = List.range c.registered.length
  normal : ∀ t ∈ c.registered, t.time.Normal
  linked : ∀ t ∈ c.timeout, t ∈ c.registered
  ranked : StableQueue.Ranked EloopTimeout.key (·.block) c.timeout
  fates : ∀ block,
    (c.timeout.map (·.block)).count block + (c.fired.map Prod.snd).count block +
      c.cancelled.count block = if block < c.registered.length then 1 else 0
  oneHandler : (mayFire c.openCalls ++ c.fired.map Prod.fst).Nodup
  numberedCalls : ∀ call ∈ mayFire c.openCalls ++ c.fired.map Prod.fst, call < c.calls

theorem Invariant.block_lt {c : Context} (h : Invariant c) {t : EloopTimeout}
    (ht : t ∈ c.registered) : t.block < c.registered.length := by
  have hmem : t.block ∈ c.registered.map (·.block) := List.mem_map_of_mem ht
  rw [h.numbered] at hmem
  exact List.mem_range.mp hmem

theorem Invariant.block_injective {c : Context} (h : Invariant c)
    {t u : EloopTimeout} (ht : t ∈ c.registered) (hu : u ∈ c.registered)
    (hblock : t.block = u.block) : t = u := by
  have hnodup : (c.registered.map (·.block)).Nodup := h.numbered ▸ List.nodup_range
  exact List.inj_on_of_nodup_map hnodup ht hu hblock

theorem init_invariant : Invariant .init where
  numbered := rfl
  normal := by simp [Context.init]
  linked := by simp [Context.init]
  ranked := List.Pairwise.nil
  fates := by simp [Context.init]
  oneHandler := by simp [Context.init, mayFire]
  numberedCalls := by simp [Context.init, mayFire]

/-- The registered timer has the largest number, so it is linked in behind
every entry that does not expire strictly later. -/
theorem registered_invariant {c : Context} (h : Invariant c) (t : EloopTimeout)
    (hblock : t.block = c.registered.length) (hnormal : t.time.Normal) :
    Invariant {c with
      timeout := linkTimeout t c.timeout
      registered := c.registered ++ [t]} where
  numbered := by
    simp [h.numbered, hblock, List.range_succ]
  normal := by
    intro u hu
    rcases List.mem_append.mp hu with hold | hnew
    · exact h.normal u hold
    · rw [List.mem_singleton.mp hnew]
      exact hnormal
  linked := by
    intro u hu
    rcases mem_linkTimeout.mp hu with rfl | hold
    · simp
    · exact List.mem_append_left _ (h.linked u hold)
  ranked := by
    rw [linkTimeout_eq_orderedInsert]
    apply h.ranked.insert_newest
    intro u hu
    rw [hblock]
    exact h.block_lt (h.linked u hu)
  fates := by
    intro block
    have hperm := (linkTimeout_perm t c.timeout).map (·.block)
    have hfates := h.fates block
    have hnone := h.fates c.registered.length
    simp only [hperm.count_eq, List.map_cons, List.count_cons, hblock,
      List.length_append, List.length_singleton]
    by_cases heq : block = c.registered.length
    · subst heq
      simp at hnone ⊢
      omega
    · have hne : c.registered.length ≠ block := Ne.symm heq
      have hiff : block < c.registered.length + 1 ↔ block < c.registered.length := by omega
      simp only [hiff, beq_iff_eq, hne, if_false]
      omega
  oneHandler := h.oneHandler
  numberedCalls := h.numberedCalls

theorem cancelled_invariant {c : Context} (h : Invariant c)
    (handler eloopData userData : Ptr) :
    Invariant {c with
      timeout := (eloopCancelTimeout handler eloopData userData c.timeout).timeout
      cancelled := c.cancelled ++
        (eloopCancelTimeout handler eloopData userData c.timeout).freed} where
  numbered := h.numbered
  normal := h.normal
  linked := by
    intro t ht
    rw [eloopCancelTimeout_eq] at ht
    exact h.linked t (List.mem_of_mem_filter ht)
  ranked := by
    rw [eloopCancelTimeout_eq]
    exact h.ranked.of_sublist List.filter_sublist
  fates := by
    intro block
    rw [eloopCancelTimeout_eq, ← h.fates block]
    have hsplit := (List.filter_append_perm
      (matchesTimeout handler eloopData userData) c.timeout).map (·.block)
    have hcount := hsplit.count_eq block
    simp only [List.map_append, List.count_append] at hcount ⊢
    omega
  oneHandler := h.oneHandler
  numberedCalls := h.numberedCalls

theorem closeCall_invariant {c : Context} (h : Invariant c) (below : List ExpireCall)
    (hsub : (mayFire below).Sublist (mayFire c.openCalls)) :
    Invariant {c with openCalls := below} where
  numbered := h.numbered
  normal := h.normal
  linked := h.linked
  ranked := h.ranked
  fates := h.fates
  oneHandler := h.oneHandler.sublist (hsub.append_right _)
  numberedCalls := fun call hcall =>
    h.numberedCalls call ((hsub.append_right _).subset hcall)

/-- The head moves from the list to the handler record; the call that runs it
may run no other. -/
theorem fireHead_invariant {c : Context} (h : Invariant c) {call : Nat}
    {below : List ExpireCall} (hopen : c.openCalls = .pendingSignals call :: below)
    {tmp : EloopTimeout} {next : List EloopTimeout} (hhead : c.timeout = tmp :: next) :
    Invariant {c with
      timeout := next
      openCalls := .runningHandler call tmp :: below
      fired := c.fired ++ [(call, tmp.block)]} where
  numbered := h.numbered
  normal := h.normal
  linked := fun t ht => h.linked t (hhead ▸ List.mem_cons_of_mem _ ht)
  ranked := h.ranked.of_sublist (hhead ▸ List.sublist_cons_self _ _)
  fates := by
    intro block
    rw [← h.fates block, hhead]
    simp only [List.map_append, List.map_cons, List.map_nil, List.count_append,
      List.count_cons, List.count_nil]
    omega
  oneHandler := by
    have hold := h.oneHandler
    simp only [hopen, mayFire] at hold
    have hperm : (mayFire below ++ (c.fired.map Prod.fst ++ [call])).Perm
        (call :: mayFire below ++ c.fired.map Prod.fst) := by
      rw [← List.append_assoc]
      exact List.perm_append_singleton _ _
    simpa [mayFire] using hperm.nodup_iff.mpr hold
  numberedCalls := by
    intro number hnumber
    apply h.numberedCalls
    simp only [hopen, mayFire]
    simp only [mayFire, List.map_append, List.map_cons, List.map_nil, List.mem_append,
      List.mem_cons, List.not_mem_nil, or_false] at hnumber ⊢
    tauto

/-- The head is looked at before signals or a handler run: the call ends, or it fires the head. -/
theorem step_examineHead {c c' : Context} {now : WallTime}
    (hstep : step c (.examineHead now) = some c') :
    ∃ call below, c.openCalls = .pendingSignals call :: below ∧
      (c' = {c with openCalls := below} ∨
        ∃ tmp next, c.timeout = tmp :: next ∧ osTimeBefore now.toOsTime tmp.time = false ∧
          c' = {c with
            timeout := next
            openCalls := .runningHandler call tmp :: below
            fired := c.fired ++ [(call, tmp.block)]}) := by
  simp only [step] at hstep
  split at hstep
  · rename_i call below hopen
    obtain rfl := Option.some.inj hstep
    refine ⟨call, below, hopen, ?_⟩
    unfold examineHead
    split
    · exact .inl rfl
    · rename_i tmp next hhead
      split
      · exact .inl rfl
      · rename_i hdue
        exact .inr ⟨tmp, next, hhead, Bool.eq_false_iff.mpr hdue, rfl⟩
  · cases hstep

theorem step_handlerReturn {c c' : Context} (hstep : step c .handlerReturn = some c') :
    ∃ call tmp below, c.openCalls = .runningHandler call tmp :: below ∧
      c' = {c with openCalls := below} := by
  simp only [step] at hstep
  split at hstep
  · rename_i call tmp below hopen
    exact ⟨call, tmp, below, hopen, (Option.some.inj hstep).symm⟩
  · cases hstep

theorem step_invariant (c : Context) (action : Action) (c' : Context)
    (h : Invariant c) (hstep : step c action = some c') : Invariant c' := by
  cases action with
  | registerTimeout mallocOk now secs usecs handler eloopData userData =>
      cases mallocOk with
      | false =>
          obtain rfl : c = c' := by simpa [step, eloopRegisterTimeout] using hstep
          exact h
      | true =>
          simp only [step, eloopRegisterTimeout, if_true, Option.some.injEq] at hstep
          subst hstep
          exact registered_invariant h _ rfl (expiry_normal now.normal secs usecs)
  | cancelTimeout handler eloopData userData =>
      simp only [step, Option.some.injEq] at hstep
      subst hstep
      exact cancelled_invariant h handler eloopData userData
  | expireTimers =>
      simp only [step, Option.some.injEq] at hstep
      subst hstep
      have hfresh : c.calls ∉ mayFire c.openCalls ++ c.fired.map Prod.fst :=
        fun hmem => absurd (h.numberedCalls _ hmem) (by omega)
      exact {h with
        oneHandler := List.nodup_cons.mpr ⟨hfresh, h.oneHandler⟩
        numberedCalls := by
          intro call hcall
          rcases List.mem_cons.mp hcall with rfl | hold
          · exact Nat.lt_succ_self _
          · exact Nat.lt_succ_of_lt (h.numberedCalls call hold)}
  | examineHead now =>
      obtain ⟨call, below, hopen, rfl | ⟨tmp, next, hhead, -, rfl⟩⟩ := step_examineHead hstep
      · exact closeCall_invariant h below (by simp [hopen, mayFire])
      · exact fireHead_invariant h hopen hhead
  | handlerReturn =>
      obtain ⟨call, tmp, below, hopen, rfl⟩ := step_handlerReturn hstep
      exact closeCall_invariant h below (by simp [hopen, mayFire])

theorem Invariant.mem_timeout_iff {c : Context} (h : Invariant c) (t : EloopTimeout) :
    t ∈ c.timeout ↔ Pending c t := by
  have hfates := h.fates t.block
  constructor
  · intro ht
    have hregistered := h.linked t ht
    have hone : 0 < (c.timeout.map (·.block)).count t.block :=
      List.count_pos_iff.mpr (List.mem_map_of_mem ht)
    rw [if_pos (h.block_lt hregistered)] at hfates
    refine ⟨hregistered, ?_, ?_⟩ <;> rw [← List.count_eq_zero] <;> omega
  · rintro ⟨hregistered, hfired, hcancelled⟩
    rw [if_pos (h.block_lt hregistered), List.count_eq_zero.mpr hfired,
      List.count_eq_zero.mpr hcancelled] at hfates
    have hlisted : t.block ∈ c.timeout.map (·.block) :=
      List.count_pos_iff.mp (by omega)
    obtain ⟨u, hu, hblock⟩ := List.mem_map.mp hlisted
    rwa [← h.block_injective (h.linked u hu) hregistered hblock]

theorem step_fired (c : Context) (action : Action) (c' : Context)
    (hstep : step c action = some c') :
    c'.fired = c.fired ∨
      ∃ now call tmp next below, action = .examineHead now ∧
        c.openCalls = .pendingSignals call :: below ∧ c.timeout = tmp :: next ∧
        osTimeBefore now.toOsTime tmp.time = false ∧
        c' = {c with
          timeout := next
          openCalls := .runningHandler call tmp :: below
          fired := c.fired ++ [(call, tmp.block)]} := by
  cases action with
  | registerTimeout | cancelTimeout | expireTimers =>
      simp only [step, Option.some.injEq] at hstep
      subst hstep
      exact Or.inl rfl
  | examineHead now =>
      obtain ⟨call, below, hopen, rfl | ⟨tmp, next, hhead, hdue, rfl⟩⟩ := step_examineHead hstep
      · exact Or.inl rfl
      · exact Or.inr ⟨now, call, tmp, next, below, rfl, hopen, hhead, hdue, rfl⟩
  | handlerReturn =>
      obtain ⟨call, tmp, below, -, rfl⟩ := step_handlerReturn hstep
      exact Or.inl rfl

/-- The registration is pending, or fired once, or counted once by a cancel,
and nothing else. -/
def OneFate (c : Context) (t : EloopTimeout) : Prop :=
  let fired := (c.fired.map Prod.snd).count t.block
  let cancelled := c.cancelled.count t.block
  (t ∈ c.timeout ∧ fired = 0 ∧ cancelled = 0) ∨
    (t ∉ c.timeout ∧ fired = 1 ∧ cancelled = 0) ∨
    (t ∉ c.timeout ∧ fired = 0 ∧ cancelled = 1)

theorem Invariant.oneFate {c : Context} (h : Invariant c) {t : EloopTimeout}
    (ht : t ∈ c.registered) : OneFate c t := by
  have hfates := h.fates t.block
  rw [if_pos (h.block_lt ht)] at hfates
  have hpending := h.mem_timeout_iff t
  unfold OneFate
  by_cases hlisted : t ∈ c.timeout
  · have hone : 0 < (c.timeout.map (·.block)).count t.block :=
      List.count_pos_iff.mpr (List.mem_map_of_mem hlisted)
    exact Or.inl ⟨hlisted, by omega, by omega⟩
  · have hzero : (c.timeout.map (·.block)).count t.block = 0 := by
      apply List.count_eq_zero.mpr
      intro hmem
      obtain ⟨u, hu, hblock⟩ := List.mem_map.mp hmem
      exact hlisted (h.block_injective (h.linked u hu) ht hblock ▸ hu)
    refine Or.inr ?_
    simp only [hlisted, not_false_eq_true, true_and]
    omega

/-- What the timer queue of one context is for. Block numbers are the order of
registration (`numbered`). -/
structure StablePriorityQueue (c : Context) : Prop where
  numbered : c.registered.map (·.block) = List.range c.registered.length
  ordered : StableQueue.Ranked EloopTimeout.key (·.block) c.timeout
  pending : ∀ t, t ∈ c.timeout ↔ Pending c t
  normal : ∀ t ∈ c.timeout, t.time.Normal
  registers : ∀ (now : WallTime) secs usecs handler eloopData userData,
    ∃ t, t.eloopData = eloopData ∧ t.userData = userData ∧ t.handler = handler ∧
      t.time.micros = now.micros + secs.toNat * 1000000 + usecs.toNat ∧
      step c (.registerTimeout true now secs usecs handler eloopData userData) =
        some {c with
          timeout := linkTimeout t c.timeout
          registered := c.registered ++ [t]}
  failedRegister : ∀ (now : WallTime) secs usecs handler eloopData userData,
    (eloopRegisterTimeout none now.toOsTime secs usecs handler eloopData userData
      c.timeout).1 = -1 ∧
    step c (.registerTimeout false now secs usecs handler eloopData userData) = some c
  cancels : ∀ handler eloopData userData,
    let matching := c.timeout.filter (matchesTimeout handler eloopData userData)
    (eloopCancelTimeout handler eloopData userData c.timeout).removed = matching.length ∧
    step c (.cancelTimeout handler eloopData userData) = some {c with
      timeout := c.timeout.filter (fun t => !matchesTimeout handler eloopData userData t)
      cancelled := c.cancelled ++ matching.map (·.block)}
  firesDueHead : ∀ action c', step c action = some c' →
    c'.fired = c.fired ∨
      ∃ now call tmp next below, action = .examineHead now ∧
        c.openCalls = .pendingSignals call :: below ∧ c.timeout = tmp :: next ∧
        osTimeBefore now.toOsTime tmp.time = false ∧
        c' = {c with
          timeout := next
          openCalls := .runningHandler call tmp :: below
          fired := c.fired ++ [(call, tmp.block)]}
  oneHandlerPerCall : (c.fired.map Prod.fst).Nodup
  oneFate : ∀ t ∈ c.registered, OneFate c t

/-- In every state of every run of registrations, cancellations and expiry
calls, with handlers that make any of these calls while their own entry is
already unlinked, the list is a stable priority queue. -/
theorem timeout_list_is_stable_priority_queue {actions : List Action} {c : Context}
    (hrun : Runs.run step .init actions = some c) : StablePriorityQueue c := by
  have h : Invariant c := Runs.run_invariant step_invariant init_invariant hrun
  exact {
    numbered := h.numbered
    ordered := h.ranked
    pending := h.mem_timeout_iff
    normal := fun t ht => h.normal t (h.linked t ht)
    registers := fun now secs usecs handler eloopData userData =>
      ⟨_, rfl, rfl, rfl, expiry_micros now.toOsTime secs usecs, rfl⟩
    failedRegister := fun _ _ _ _ _ _ => ⟨rfl, rfl⟩
    cancels := fun handler eloopData userData => by
      simp [step, eloopCancelTimeout_eq]
    firesDueHead := step_fired c
    oneHandlerPerCall := h.oneHandler.of_append_right
    oneFate := fun t ht => h.oneFate ht }

/-- Two timers with one expiry and a failed registration; a call whose handler
cancels the second timer while the first runs. -/
def sampleRun : List Action :=
  let now : WallTime := ⟨⟨100, 0⟩, by decide⟩
  let later : WallTime := ⟨⟨102, 0⟩, by decide⟩
  [.registerTimeout true now 1 500000 7 1 2, .registerTimeout true now 1 500000 7 1 3,
   .registerTimeout false now 1 0 7 1 4, .expireTimers, .examineHead later,
   .cancelTimeout 7 eloopAllCtx 3, .handlerReturn]

theorem sampleRun_is_stable_priority_queue :
    ∃ c, Runs.run step .init sampleRun = some c ∧ c.fired = [(0, 0)] ∧
      c.cancelled = [1] ∧ StablePriorityQueue c := by
  have hrun : ∃ c, Runs.run step .init sampleRun = some c ∧ c.fired = [(0, 0)] ∧
      c.cancelled = [1] := by
    simp [sampleRun, Runs.run, step, eloopRegisterTimeout, linkTimeout, expiry, carryUsec,
      Context.init, osTimeBefore, examineHead, eloopCancelTimeout, matchesTimeout,
      eloopAllCtx]
  obtain ⟨c, hc, hfired, hcancelled⟩ := hrun
  exact ⟨c, hc, hfired, hcancelled, timeout_list_is_stable_priority_queue hc⟩

end EventLoop.NsTimer
