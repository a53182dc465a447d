import EventLoop.Task.Context
import EventLoop.Timer.Watchdog

/-!
A call of `sleep_task_on_defaultloop`. It registers a timer with
`defaultloop_timeout_handler_for_task` and its `callback_ctx`, and sleeps until something
resumes the task. What did is told by `bIsTimeout` alone, for which the user data of an
expired timer is cut to an `int`; whether the timer is cancelled is taken from it too, and
the cancellation takes every timer with the same data.
-/

namespace EventLoop.TaskSleep

open EventLoop.Task (Scheduler Frame Owner timeoutValue)
open EventLoop.WatchdogTimer (Eloop register cancel checkTimeouts)

/-- The address of `defaultloop_timeout_handler_for_task`, and the arguments of the call. -/
structure SleepCall where
  timeoutHandler : Ptr
  ctx : Ptr
  callbackCtx : Ptr
deriving DecidableEq, Repr

/-- What resumes the task. -/
inductive Resumption where
  /-- A timer with `defaultloop_timeout_handler_for_task` and the task. -/
  | expiry (block : Nat) (userData : Ptr)
  /-- Another call of `defaultloop_handler_for_task`, such as that of a socket. -/
  | handlerForTask (userData : Ptr) (bTimeout : Bool)
  | schedTask
deriving DecidableEq, Repr

/-- What `bIsTimeout` is behind it, from what it was before. -/
def Resumption.writes : Resumption → Int → Int
  | .expiry _ userData, _ => timeoutValue userData true
  | .handlerForTask userData bTimeout, _ => timeoutValue userData bTimeout
  | .schedTask, isTimeout => isTimeout

/-- What a sleeping task, with -1 in `bIsTimeout`, has there behind it. -/
def Resumption.value (resumption : Resumption) : Int := resumption.writes (-1)

/-- The loop during the call; `own` is the timer that the call has registered. -/
structure Asleep where
  eloop : Eloop
  own : Option Nat
  bIsTimeout : Int
  resumed : Option Resumption

/-- The call up to `callback_on_defaultloop`. -/
def fallAsleep (call : SleepCall) (mallocOk : Bool) (now curtime : WallTime) (secs usecs : UInt32)
    (eloop : Eloop) : Asleep :=
  ⟨register eloop mallocOk now.toOsTime curtime.toOsTime secs usecs call.timeoutHandler call.ctx
    call.callbackCtx false, if mallocOk then some eloop.blocks else none, -1, none⟩

/-- The call from where the task is resumed: its result, and the loop behind it. -/
def wakeUp (call : SleepCall) (clock : Nat → OsTime) (s : Asleep) : Int × Eloop :=
  let isTimeout := s.bIsTimeout
  (isTimeout,
    if isTimeout ≠ 1 then
      cancel s.eloop clock call.timeoutHandler call.ctx call.callbackCtx false
    else s.eloop)

/-- What the loop does while the task sleeps. -/
inductive LoopEvent where
  /-- `eloop_run` looks at the timers, and other code registers and cancels timers. -/
  | timers (action : WatchdogTimer.Action)
  /-- `defaultloop_sock_handler_for_task` with the task. -/
  | sockHandlerForTask (userData : Ptr)
  /-- Other code calls `defaultloop_handler_for_task` with the task. -/
  | handlerForTask (userData : Ptr) (bTimeout : Bool)
  | schedTask

def Asleep.resume (s : Asleep) (resumption : Resumption) : Asleep :=
  { s with bIsTimeout := resumption.writes s.bIsTimeout, resumed := some resumption }

/-- The timer check of `eloop_run`, with the call of the handler of a due timer. -/
def expire (call : SleepCall) (now : OsTime) (s : Asleep) : Asleep :=
  match s.eloop.timeout with
  | [] => s
  | tmp :: _ =>
      let s' := { s with eloop := checkTimeouts now s.eloop }
      if osTimeBefore now tmp.time then s'
      else if tmp.handler = call.timeoutHandler ∧ tmp.eloopData = call.ctx then
        s'.resume (.expiry tmp.block tmp.userData)
      else s'

/-- Nothing of this happens to a task that has been resumed. -/
def step (call : SleepCall) (handlerForWDT : Ptr) (s : Asleep) (event : LoopEvent) : Option Asleep :=
  if s.resumed.isSome then none
  else match event with
    | .timers (.checkTimeouts now) => some (expire call now s)
    | .timers action => (WatchdogTimer.step handlerForWDT s.eloop action).map (fun eloop =>
        { s with eloop })
    | .sockHandlerForTask userData => some (s.resume (.handlerForTask userData false))
    | .handlerForTask userData bTimeout => some (s.resume (.handlerForTask userData bTimeout))
    | .schedTask => some (s.resume .schedTask)

/-- The task was resumed by the timer that the call has registered. -/
def Asleep.OwnExpired (s : Asleep) : Prop :=
  ∃ block userData, s.own = some block ∧ s.resumed = some (.expiry block userData)

/-- The timer that the call has registered is pending. -/
def Asleep.OwnPending (s : Asleep) : Prop := ∃ t ∈ s.eloop.timeout, s.own = some t.block

/-- The result tells the timer of the call from everything else; behind the call its timer is
not pending, and every other timer that was still is. -/
structure SleepsExactly (call : SleepCall) (clock : Nat → OsTime) (s : Asleep) : Prop where
  own : s.OwnExpired → (wakeUp call clock s).1 ≠ 0
  other : ¬ s.OwnExpired → (wakeUp call clock s).1 ≠ timeoutValue call.callbackCtx true
  gone : ∀ t ∈ (wakeUp call clock s).2.timeout, s.own ≠ some t.block
  kept : ∀ t ∈ s.eloop.timeout, s.own ≠ some t.block → t ∈ (wakeUp call clock s).2.timeout

/-- No timer but that of the call is pending with the same handler, task and data. -/
def NoTwin (call : SleepCall) (s : Asleep) : Prop :=
  ∀ t ∈ s.eloop.timeout, s.own ≠ some t.block →
    ¬ matchesTimeout call.timeoutHandler call.ctx call.callbackCtx t

/-- The low half of `callback_ctx` is not all zeros unless all of it is. -/
def Narrow (callbackCtx : Ptr) : Prop := callbackCtx = 0 ∨ callbackCtx.toBitVec.setWidth 32 ≠ 0

/-- The resumption is told from the timer of the call, which alone has its data. -/
structure Told (call : SleepCall) (s : Asleep) (resumption : Resumption) : Prop where
  own : s.OwnExpired → Narrow call.callbackCtx
  other : ¬ s.OwnExpired → resumption.value ≠ timeoutValue call.callbackCtx true
  one : resumption.value = 1 → ¬ s.OwnPending
  twins : resumption.value ≠ 1 → NoTwin call s

variable {call : SleepCall} {s s' : Asleep} {handlerForWDT : Ptr}

theorem timeoutValue_ne_zero_iff {userData : Ptr} :
    timeoutValue userData true ≠ 0 ↔ Narrow userData := by
  rw [timeoutValue, if_pos rfl, Narrow]
  split
  · rename_i hzero
    exact iff_of_true (by decide) (.inl hzero)
  · rename_i hnonzero
    have hint : (userData.toBitVec.setWidth 32).toInt = 0 ↔ userData.toBitVec.setWidth 32 = 0 := by
      rw [← BitVec.toInt_inj]
      rfl
    rw [or_iff_right hnonzero, ne_eq, hint]

/-- What the scheduler does to resume the task. -/
def Resumption.perform (resumption : Resumption) (s : Scheduler) (ctx : Nat) : Option Scheduler :=
  match resumption with
  | .expiry _ userData => Task.defaultloopHandlerForTask s ctx userData true
  | .handlerForTask userData bTimeout => Task.defaultloopHandlerForTask s ctx userData bTimeout
  | .schedTask => Task.schedTask s ctx

/-- The task sleeps in the call, with the frames of its caller below. -/
structure SleepsOn (s : Scheduler) (default ctx : Nat) (owner : Owner) (rest : List Frame) :
    Prop where
  ne : ctx ≠ default
  defaultCtx : s.defaultCtx = some default
  curTaskCtx : s.curTaskCtx = some default
  saved : (s.ctxs ctx).taskUc =
    .at owner (.afterSwap default :: .callbackOn ctx :: .sleeping ctx :: rest)

/-- `swapcontext` saves the executing stack, and changes nothing else of the contexts. -/
theorem swapcontext_spec {s s' : Scheduler} {curCtx newCtx : Nat}
    (h : Task.swapcontext s curCtx newCtx = some s') :
    s'.defaultCtx = s.defaultCtx ∧ s'.curTaskCtx = s.curTaskCtx ∧ s'.ctxs =
      Function.update s.ctxs curCtx { s.ctxs curCtx with taskUc := .at s.running s.frames } := by
  unfold Task.swapcontext at h
  dsimp only at h
  split at h
  · simp at h
  · obtain rfl := Option.some.inj h
    exact ⟨rfl, rfl, rfl⟩
  · obtain rfl := Option.some.inj h
    exact ⟨rfl, rfl, rfl⟩

/-- It goes on with what the other context has saved. -/
theorem swapcontext_saved {s s' : Scheduler} {curCtx newCtx : Nat} {owner : Owner}
    {frames : List Frame} (h : Task.swapcontext s curCtx newCtx = some s') (hne : newCtx ≠ curCtx)
    (hsaved : (s.ctxs newCtx).taskUc = .at owner frames) :
    s'.running = owner ∧ s'.frames = frames ∧ s'.control = .library := by
  have hpoint : (((Task.saveContext s curCtx).access newCtx).ctxs newCtx).taskUc =
      .at owner frames := by
    change (Function.update s.ctxs curCtx _ newCtx).taskUc = _
    rw [Function.update_of_ne hne, hsaved]
  unfold Task.swapcontext at h
  dsimp only at h
  rw [hpoint] at h
  obtain rfl := Option.some.inj h
  exact ⟨rfl, rfl, rfl⟩

theorem switch2task_cur {s : Scheduler} {curCtx newCtx : Nat} (hcur : s.curTaskCtx = some curCtx) :
    Task.switch2task s curCtx newCtx = Task.swapcontext
      { s with curTaskCtx := some newCtx, frames := .afterSwap newCtx :: s.frames } curCtx newCtx := by
  rw [Task.switch2task, if_pos hcur]

/-- A call of `sleep_task_on_defaultloop` leaves its task asleep with -1 in `bIsTimeout`. -/
theorem sleepTaskOnDefaultloop_sleeps {s s' : Scheduler} {default ctx : Nat}
    {callback callbackCtx : Option Ptr} (hne : ctx ≠ default) (hdefault : s.defaultCtx = some default)
    (hcur : s.curTaskCtx = some ctx)
    (h : Task.sleepTaskOnDefaultloop s ctx callback callbackCtx = some s') :
    SleepsOn s' default ctx s.running s.frames ∧ (s'.ctxs ctx).bIsTimeout = -1 := by
  have hdefault' : (Task.setCallback (Task.setSleeping s ctx) ctx callback callbackCtx).defaultCtx =
      some default := hdefault
  have hcur' : (Task.setCallback (Task.setSleeping s ctx) ctx callback callbackCtx).curTaskCtx =
      some ctx := hcur
  rw [Task.sleepTaskOnDefaultloop, Task.callbackOnDefaultloop, Task.schedDefaultloop, hdefault',
    Option.bind_some, switch2task_cur hcur'] at h
  obtain ⟨hdefault'', hcur'', hctxs⟩ := swapcontext_spec h
  refine ⟨⟨hne, hdefault''.trans hdefault', hcur'', ?_⟩, ?_⟩
  · rw [hctxs, Function.update_self]
    rfl
  · rw [hctxs, Function.update_self]
    simp [Task.setCallback, Task.setSleeping, Scheduler.modify]

/-- The library calls that the task was suspended in return one after the other. -/
theorem library_returns {s : Scheduler} {default ctx : Nat} {rest : List Frame}
    (hne : ctx ≠ default) (hdefault : s.defaultCtx = some default) (hcur : s.curTaskCtx = some ctx)
    (hframes : s.frames = .afterSwap default :: .callbackOn ctx :: .sleeping ctx :: rest)
    (hcontrol : s.control = .library) :
    ∃ s', Runs.run Task.step s [.library, .library, .library] = some s' ∧
      s'.running = s.running ∧ s'.frames = rest ∧ s'.ctxs = s.ctxs := by
  have hother : s.curTaskCtx ≠ s.defaultCtx := by
    rw [hcur, hdefault]
    exact fun heq => hne (Option.some.inj heq)
  have hswap : Task.step s .library =
      some (s.returnTo (.callbackOn ctx :: .sleeping ctx :: rest)) := by
    simp only [Task.step, if_pos hcontrol, Task.libraryStep, hframes, if_neg hother]
  refine ⟨((((s.returnTo (.callbackOn ctx :: .sleeping ctx :: rest)).access ctx).returnTo
    (.sleeping ctx :: rest)).access ctx).returnTo rest, ?_, rfl, rfl, rfl⟩
  rw [Runs.run, hswap]
  rfl

/-- A task that is resumed goes on behind the call, where the result is what the resumption
has made of `bIsTimeout`. -/
theorem resumption_returns {s s' : Scheduler} {default ctx : Nat} {owner : Owner}
    {rest : List Frame} (hsleeps : SleepsOn s default ctx owner rest) (resumption : Resumption)
    (h : resumption.perform s ctx = some s') :
    ∃ s'', Runs.run Task.step s' [.library, .library, .library] = some s'' ∧
      s''.running = owner ∧ s''.frames = rest ∧
      (s''.ctxs ctx).bIsTimeout = resumption.writes (s.ctxs ctx).bIsTimeout := by
  have hsched {t : Scheduler} (ht : SleepsOn t default ctx owner rest)
      (h : Task.schedTask t ctx = some s') :
      ∃ s'', Runs.run Task.step s' [.library, .library, .library] = some s'' ∧
        s''.running = owner ∧ s''.frames = rest ∧
        (s''.ctxs ctx).bIsTimeout = (t.ctxs ctx).bIsTimeout := by
    rw [Task.schedTask, ht.defaultCtx, Option.bind_some, switch2task_cur ht.curTaskCtx] at h
    obtain ⟨hdefault, hcur, hctxs⟩ := swapcontext_spec h
    obtain ⟨hrunning, hframes, hcontrol⟩ := swapcontext_saved h ht.ne ht.saved
    obtain ⟨s'', hrun, hrunning', hframes', hctxs'⟩ :=
      library_returns ht.ne (hdefault.trans ht.defaultCtx) hcur hframes hcontrol
    refine ⟨s'', hrun, hrunning'.trans hrunning, hframes', ?_⟩
    rw [hctxs', hctxs, Function.update_of_ne ht.ne]
  have hhandler (userData : Ptr) (bTimeout : Bool)
      (h : Task.defaultloopHandlerForTask s ctx userData bTimeout = some s') :
      ∃ s'', Runs.run Task.step s' [.library, .library, .library] = some s'' ∧
        s''.running = owner ∧ s''.frames = rest ∧
        (s''.ctxs ctx).bIsTimeout = timeoutValue userData bTimeout := by
    have hmade : Task.makeDefaultTask s = s := by rw [Task.makeDefaultTask, hsleeps.defaultCtx]
    rw [Task.defaultloopHandlerForTask, hmade] at h
    have hmodified : (s.modify ctx (fun c =>
        { c with bIsTimeout := timeoutValue userData bTimeout })).ctxs ctx =
          { s.ctxs ctx with bIsTimeout := timeoutValue userData bTimeout } :=
      Function.update_self ..
    have ht : SleepsOn (s.modify ctx (fun c =>
        { c with bIsTimeout := timeoutValue userData bTimeout })) default ctx owner rest :=
      ⟨hsleeps.ne, hsleeps.defaultCtx, hsleeps.curTaskCtx, by rw [hmodified]; exact hsleeps.saved⟩
    obtain ⟨s'', hrun, hrunning, hframes, hvalue⟩ := hsched ht h
    exact ⟨s'', hrun, hrunning, hframes, hvalue.trans (by rw [hmodified])⟩
  cases resumption with
  | expiry block userData => exact hhandler userData true h
  | handlerForTask userData bTimeout => exact hhandler userData bTimeout h
  | schedTask => exact hsched hsleeps h

/-- A timer that is pending behind a step was before, but for one just registered. -/
theorem step_timer {e e' : Eloop} {action : WatchdogTimer.Action}
    (hstep : WatchdogTimer.step handlerForWDT e action = some e') :
    e.blocks ≤ e'.blocks ∧ ∀ t' ∈ e'.timeout, t'.block = e.blocks ∨ ∃ t ∈ e.timeout,
      (t.block, t.eloopData, t.userData, t.handler) =
        (t'.block, t'.eloopData, t'.userData, t'.handler) := by
  have hregister (mallocOk : Bool) (now curtime : OsTime) (secs usecs : UInt32)
      (handler eloopData userData : Ptr) (bIsWDTimeout : Bool) (t' : EloopTimeout)
      (ht' : t' ∈ (register e mallocOk now curtime secs usecs handler eloopData userData
        bIsWDTimeout).timeout) : t'.block = e.blocks ∨ t' ∈ e.timeout := by
    cases mallocOk with
    | false => exact .inr ht'
    | true =>
        rcases mem_linkTimeout.mp ht' with rfl | hold
        · exact .inl rfl
        · exact .inr hold
  cases action with
  | registerTimeout mallocOk | registerWatchdogTimeout mallocOk =>
      obtain rfl := Option.some.inj hstep
      refine ⟨by cases mallocOk <;> simp [register], fun t' ht' => ?_⟩
      exact (hregister _ _ _ _ _ _ _ _ _ t' ht').imp_right (fun hold => ⟨t', hold, rfl⟩)
  | cancelTimeout | cancelWatchdogTimeout =>
      obtain rfl := Option.some.inj hstep
      refine ⟨Nat.le_refl _, fun t' ht' => .inr ⟨t', ?_, rfl⟩⟩
      rw [WatchdogTimer.cancel_timeout] at ht'
      exact List.mem_of_mem_filter ht'
  | timeChange newTime curtime =>
      obtain rfl := Option.some.inj hstep
      refine ⟨Nat.le_refl _, fun t' ht' => .inr ?_⟩
      have hsame := @WatchdogTimer.eloopTimeChange0_map _
        (fun t => (t.block, t.eloopData, t.userData, t.handler)) (fun _ _ _ => rfl) newTime curtime
        e.timeout
      exact List.mem_map.mp (hsame ▸ List.mem_map_of_mem ht')
  | checkTimeouts now =>
      obtain rfl := Option.some.inj hstep
      refine ⟨Nat.le_of_eq (WatchdogTimer.checkTimeouts_blocks now e).symm, fun t' ht' => ?_⟩
      exact .inr ⟨t', (WatchdogTimer.checkTimeouts_sublist now e).subset ht', rfl⟩

/-- The timer of the call keeps its data while it is pending, and is not pending behind its
expiry; `bIsTimeout` is what the resumption has made of -1. -/
structure Slept (call : SleepCall) (s : Asleep) : Prop where
  allocated : WatchdogTimer.Allocated s.eloop
  ownAllocated : ∀ block, s.own = some block → block < s.eloop.blocks
  ownTimer : ∀ t ∈ s.eloop.timeout, s.own = some t.block →
    (t.eloopData, t.userData, t.handler) = (call.ctx, call.callbackCtx, call.timeoutHandler)
  value : s.bIsTimeout = s.resumed.elim (-1) Resumption.value
  expired : ∀ block userData, s.resumed = some (.expiry block userData) → s.own = some block →
    userData = call.callbackCtx ∧ ¬ s.OwnPending

theorem fallAsleep_slept (call : SleepCall) (mallocOk : Bool) (now curtime : WallTime)
    (secs usecs : UInt32) {eloop : Eloop} (h : WatchdogTimer.Allocated eloop) :
    Slept call (fallAsleep call mallocOk now curtime secs usecs eloop) := by
  refine ⟨WatchdogTimer.register_allocated h _ _ _ _ _ _ _ _ _, ?_, ?_, rfl, by simp [fallAsleep]⟩
  · cases mallocOk <;> simp [fallAsleep, register]
  · intro t ht hown
    cases mallocOk with
    | false => simp [fallAsleep] at hown
    | true =>
        rcases mem_linkTimeout.mp ht with rfl | hold
        · rfl
        · have hlt := h.allocated t hold
          have hblock : eloop.blocks = t.block := by simpa [fallAsleep] using hown
          omega

theorem Slept.timers (h : Slept call s) (hasleep : s.resumed = none) {action : WatchdogTimer.Action}
    {eloop : Eloop} (hstep : WatchdogTimer.step handlerForWDT s.eloop action = some eloop) :
    Slept call { s with eloop } := by
  obtain ⟨hallocated, hown, howner, hvalue, hexpired⟩ := h
  obtain ⟨hblocks, htimers⟩ := step_timer hstep
  refine ⟨WatchdogTimer.step_allocated handlerForWDT _ _ _ hallocated hstep,
    fun block hblock => Nat.lt_of_lt_of_le (hown block hblock) hblocks, ?_, hvalue, ?_⟩
  · intro t ht howned
    rcases htimers t ht with hnew | ⟨old, hold, hsame⟩
    · exact absurd (hown _ howned) (by omega)
    · simp only [Prod.mk.injEq] at hsame
      have hdata := howner old hold (hsame.1 ▸ howned)
      rwa [hsame.2.1, hsame.2.2.1, hsame.2.2.2] at hdata
  · intro block userData hresumed
    simp [hasleep] at hresumed

theorem Slept.resume (h : Slept call s) (hasleep : s.resumed = none) (resumption : Resumption)
    (hexpiry : ∀ block userData, resumption = .expiry block userData → s.own = some block →
      userData = call.callbackCtx ∧ ¬ s.OwnPending) : Slept call (s.resume resumption) := by
  obtain ⟨hallocated, hown, howner, hvalue, -⟩ := h
  refine ⟨hallocated, hown, howner, ?_, fun block userData hresumed =>
    hexpiry block userData (Option.some.inj hresumed)⟩
  rw [hasleep, Option.elim_none] at hvalue
  simp [Asleep.resume, hvalue, Resumption.value]

theorem Slept.expire (h : Slept call s) (hasleep : s.resumed = none) (now : OsTime) :
    Slept call (expire call now s) := by
  rw [TaskSleep.expire]
  split
  · exact h
  · rename_i tmp next hlist
    have hcheck : WatchdogTimer.step 0 s.eloop (.checkTimeouts now) =
        some (checkTimeouts now s.eloop) := rfl
    have hchecked := h.timers hasleep hcheck
    dsimp only
    split
    · exact hchecked
    · rename_i hdue
      split
      · refine hchecked.resume hasleep _ ?_
        rintro block userData hexpiry howned
        obtain ⟨rfl, rfl⟩ := Resumption.expiry.inj hexpiry
        have hmem : tmp ∈ s.eloop.timeout := hlist ▸ List.mem_cons_self
        refine ⟨(Prod.mk.inj (Prod.mk.inj (h.ownTimer tmp hmem howned)).2).1, ?_⟩
        rintro ⟨t, ht, hpending⟩
        have hblock : tmp.block = t.block := Option.some.inj (howned.symm.trans hpending)
        have hdistinct := h.allocated.distinct
        rw [hlist, List.map_cons, List.nodup_cons] at hdistinct
        have htail : t ∈ next := by
          simpa [checkTimeouts, hlist, hdue] using ht
        exact hdistinct.1 (hblock ▸ List.mem_map_of_mem htail)
      · exact hchecked

theorem step_slept (s : Asleep) (event : LoopEvent) (s' : Asleep) (h : Slept call s)
    (hstep : step call handlerForWDT s event = some s') : Slept call s' := by
  unfold step at hstep
  split at hstep
  · simp at hstep
  rename_i hawake
  have hasleep : s.resumed = none := by simpa using hawake
  cases event with
  | timers action =>
      cases action with
      | checkTimeouts now =>
          obtain rfl := Option.some.inj hstep
          exact h.expire hasleep now
      | registerTimeout | registerWatchdogTimeout | cancelTimeout | cancelWatchdogTimeout
        | timeChange =>
          obtain ⟨eloop, heloop, rfl⟩ := Option.map_eq_some_iff.mp hstep
          exact h.timers hasleep heloop
  | sockHandlerForTask | handlerForTask | schedTask =>
      obtain rfl := Option.some.inj hstep
      exact h.resume hasleep _ (by simp)

/-- The timers behind the call. -/
theorem wakeUp_timeout (call : SleepCall) (clock : Nat → OsTime) (s : Asleep) :
    (wakeUp call clock s).2.timeout =
      if s.bIsTimeout ≠ 1 then
        s.eloop.timeout.filter (fun t =>
          !matchesTimeout call.timeoutHandler call.ctx call.callbackCtx t)
      else s.eloop.timeout := by
  rw [wakeUp]
  dsimp only
  split
  · exact WatchdogTimer.cancel_timeout ..
  · rfl

theorem matches_own {t : EloopTimeout}
    (h : (t.eloopData, t.userData, t.handler) = (call.ctx, call.callbackCtx, call.timeoutHandler)) :
    matchesTimeout call.timeoutHandler call.ctx call.callbackCtx t = true := by
  simp only [Prod.mk.injEq] at h
  simp [matchesTimeout, h.1, h.2.1, h.2.2]

theorem gone_iff (hslept : Slept call s) (clock : Nat → OsTime) :
    (∀ t ∈ (wakeUp call clock s).2.timeout, s.own ≠ some t.block) ↔
      (s.bIsTimeout = 1 → ¬ s.OwnPending) := by
  rw [wakeUp_timeout]
  split
  · rename_i hcancels
    refine iff_of_true (fun t ht hown => ?_) (fun hone => absurd hone hcancels)
    obtain ⟨ht, hnot⟩ := List.mem_filter.mp ht
    rw [matches_own (hslept.ownTimer t ht hown)] at hnot
    exact absurd hnot (by simp)
  · rename_i hone
    rw [not_not] at hone
    constructor
    · rintro hgone - ⟨t, ht, hown⟩
      exact hgone t ht hown
    · exact fun hnone t ht hown => hnone hone ⟨t, ht, hown⟩

theorem kept_iff (clock : Nat → OsTime) :
    (∀ t ∈ s.eloop.timeout, s.own ≠ some t.block → t ∈ (wakeUp call clock s).2.timeout) ↔
      (s.bIsTimeout ≠ 1 → NoTwin call s) := by
  rw [wakeUp_timeout]
  split
  · rename_i hcancels
    rw [NoTwin, forall_prop_of_true hcancels]
    refine forall_congr' (fun t => forall_congr' (fun ht => forall_congr' (fun _ => ?_)))
    rw [List.mem_filter, and_iff_right ht]
    simp
  · rename_i hone
    exact iff_of_true (fun t ht _ => ht) (fun hnot => absurd hnot hone)

/-- From any state of the loop, whatever resumes the task: the result and the timers behind
the call are right exactly if the resumption is told from the timer of the call. -/
theorem sleeps_exactly_iff {handlerForWDT : Ptr} {actions : List WatchdogTimer.Action}
    {eloop : Eloop} (hloop : Runs.run (WatchdogTimer.step handlerForWDT) .init actions = some eloop)
    (call : SleepCall) (mallocOk : Bool) (now curtime : WallTime) (secs usecs : UInt32)
    {events : List LoopEvent} {s : Asleep}
    (hrun : Runs.run (step call handlerForWDT)
      (fallAsleep call mallocOk now curtime secs usecs eloop) events = some s)
    {resumption : Resumption} (hresumed : s.resumed = some resumption) (clock : Nat → OsTime) :
    SleepsExactly call clock s ↔ Told call s resumption := by
  have hallocated : WatchdogTimer.Allocated eloop :=
    Runs.run_invariant (WatchdogTimer.step_allocated handlerForWDT)
      WatchdogTimer.init_invariant.blocks hloop
  have hslept : Slept call s :=
    Runs.run_invariant step_slept
      (fallAsleep_slept call mallocOk now curtime secs usecs hallocated) hrun
  have hvalue : s.bIsTimeout = resumption.value := by
    rw [hslept.value, hresumed, Option.elim_some]
  have hown : s.OwnExpired → (resumption.value ≠ 0 ↔ Narrow call.callbackCtx) := by
    rintro ⟨block, userData, hblock, hexpiry⟩
    obtain rfl := Option.some.inj (hresumed.symm.trans hexpiry)
    rw [← (hslept.expired block userData hexpiry hblock).1]
    exact timeoutValue_ne_zero_iff
  have hgone := gone_iff hslept clock
  have hkept := @kept_iff call s clock
  rw [hvalue] at hgone hkept
  constructor
  · intro h
    refine ⟨fun hexpired => (hown hexpired).mp ?_, ?_, hgone.mp h.gone, hkept.mp h.kept⟩
    · rw [← hvalue]
      exact h.own hexpired
    · rw [← hvalue]
      exact h.other
  · intro h
    refine ⟨fun hexpired => ?_, ?_, hgone.mpr h.one, hkept.mpr h.twins⟩
    · change s.bIsTimeout ≠ 0
      rw [hvalue]
      exact (hown hexpired).mpr (h.own hexpired)
    · change ¬ s.OwnExpired → s.bIsTimeout ≠ _
      rw [hvalue]
      exact h.other

/-- A sleep of five seconds with 5 as its data, which lasts that long. -/
theorem timedOut_sleeps_exactly_iff :
    let now : WallTime := ⟨⟨200, 0⟩, by decide⟩
    ∃ s resumption, Runs.run (step ⟨7, 0x1000, 5⟩ 9) (fallAsleep ⟨7, 0x1000, 5⟩ true now now 5 0 .init)
        [.timers (.checkTimeouts ⟨205, 0⟩)] = some s ∧ s.resumed = some resumption ∧
      (SleepsExactly ⟨7, 0x1000, 5⟩ (fun _ => ⟨205, 0⟩) s ↔ Told ⟨7, 0x1000, 5⟩ s resumption) := by
  have hrun : ∃ s, Runs.run (step ⟨7, 0x1000, 5⟩ 9)
      (fallAsleep ⟨7, 0x1000, 5⟩ true ⟨⟨200, 0⟩, by decide⟩ ⟨⟨200, 0⟩, by decide⟩ 5 0 .init)
        [.timers (.checkTimeouts ⟨205, 0⟩)] = some s ∧ s.resumed = some (.expiry 0 5) := by
    simp [Runs.run, step, fallAsleep, expire, register, WatchdogTimer.eloopRegisterTimeout0, expiry,
      carryUsec, Eloop.init, linkTimeout, osTimeBefore, Asleep.resume]
  obtain ⟨s, hs, hresumed⟩ := hrun
  have hloop : Runs.run (WatchdogTimer.step 9) .init [] = some .init := rfl
  exact ⟨s, _, hs, hresumed, sleeps_exactly_iff hloop _ _ _ _ _ _ hs hresumed _⟩

/-- A timer of the task itself, without data like the sleep, expires during the sleep: the
result says that the sleep is over, and its timer stays. -/
theorem otherTimer_ends_sleep :
    let now : WallTime := ⟨⟨200, 0⟩, by decide⟩
    let call : SleepCall := ⟨7, 0x1000, 0⟩
    ∃ eloop s, Runs.run (WatchdogTimer.step 9) .init [.registerTimeout true now now 1 0 7 0x1000 0] =
        some eloop ∧
      Runs.run (step call 9) (fallAsleep call true now now 5 0 eloop)
        [.timers (.checkTimeouts ⟨201, 0⟩)] = some s ∧ s.resumed = some (.expiry 0 0) ∧
      ¬ SleepsExactly call (fun _ => ⟨201, 0⟩) s := by
  have hruns : ∃ eloop s, Runs.run (WatchdogTimer.step 9) .init
        [.registerTimeout true ⟨⟨200, 0⟩, by decide⟩ ⟨⟨200, 0⟩, by decide⟩ 1 0 7 0x1000 0] =
          some eloop ∧
      Runs.run (step ⟨7, 0x1000, 0⟩ 9)
        (fallAsleep ⟨7, 0x1000, 0⟩ true ⟨⟨200, 0⟩, by decide⟩ ⟨⟨200, 0⟩, by decide⟩ 5 0 eloop)
        [.timers (.checkTimeouts ⟨201, 0⟩)] = some s ∧ s.resumed = some (.expiry 0 0) ∧
      s.own = some 1 ∧ s.bIsTimeout = 1 := by
    simp [Runs.run, step, fallAsleep, expire, WatchdogTimer.step, register,
      WatchdogTimer.eloopRegisterTimeout0, expiry, carryUsec, Eloop.init, linkTimeout, osTimeBefore,
      Asleep.resume, Resumption.writes, timeoutValue]
  obtain ⟨eloop, s, hloop, hs, hresumed, hown, hvalue⟩ := hruns
  refine ⟨eloop, s, hloop, hs, hresumed, ?_⟩
  intro h
  refine h.other ?_ hvalue
  rintro ⟨block, userData, hblock, hexpiry⟩
  rw [hown, Option.some.injEq] at hblock
  rw [hresumed, Option.some.injEq, Resumption.expiry.injEq] at hexpiry
  omega

end EventLoop.TaskSleep
