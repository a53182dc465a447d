import EventLoop.Lib.Lifetimes
import EventLoop.Lib.Runs
import EventLoop.Task.Destruction

/-!
Tasks as objects: `TaskCallbackInterface` of `eloop_callback_itf.h`. An object keeps the
context that it has made in `pTaskCtx`, and its `TaskStopSelf` destroys that context.
Timers and sockets of the event loop have contexts as their data as well. The entry of
the task is `RunFunc`, which takes the context for the object.
-/

namespace EventLoop.TaskObject

open EventLoop.Task (Scheduler Call Owner Extends Refers AtEntry LoopInTurn)

/-- An object, and the contexts that its `TaskStartSelf` has made. -/
structure TaskCallbackInterface where
  pTaskCtx : Option Nat
  started : List Nat
deriving DecidableEq, Repr

/-- A timer with `defaultloop_timeout_handler_for_task` as its handler. -/
structure TaskTimer where
  eloopData : Nat
  userData : Ptr
deriving DecidableEq, Repr

/-- A registered socket. No handler stands for `defaultloop_sock_handler_for_task`. -/
structure TaskSock where
  sock : Int
  handler : Option Ptr
  eloopData : Nat
  userData : Ptr
deriving DecidableEq, Repr

/-- The scheduler, the objects, and what the event loop has of the tasks. A call of
`sleep_task_on_defaultloop` keeps its `callback_ctx` in its frame: `callbackCtx` has it
by the stack and the depth of the frame there. `started` are the contexts of all objects,
and `orphans` those of the objects that are gone. -/
structure TaskProcess where
  scheduler : Scheduler
  objects : Ptr → Option TaskCallbackInterface
  timers : List TaskTimer
  readSocks : List TaskSock
  callbackCtx : Owner → Nat → Ptr
  started : List Nat
  orphans : List Nat

/-- `this->pTaskCtx` -/
def TaskProcess.pTaskCtx (p : TaskProcess) (this : Ptr) : Option Nat :=
  (p.objects this).bind TaskCallbackInterface.pTaskCtx

def TaskProcess.init : TaskProcess :=
  ⟨.init, fun _ => none, [], [], fun _ _ => 0, [], []⟩

/-- `RunFunc` has been entered. It takes the context itself for the object, and so calls the virtual
`Run` through the first word of the context: the `uc_flags` of `task_uc`, which `make_task` clears.
Nothing is executed behind that. -/
def Crashed (p : TaskProcess) : Prop := ∃ ctx ∈ p.started, p.scheduler.running = .task ctx

instance (p : TaskProcess) : Decidable (Crashed p) :=
  inferInstanceAs (Decidable (∃ ctx ∈ p.started, p.scheduler.running = .task ctx))

/-- User code is executing. -/
def inUserCode (p : TaskProcess) : Bool := p.scheduler.control = .user

/-- `eloop_cancel_timeout(defaultloop_timeout_handler_for_task, ctx, userData)` -/
def cancelTimeout (ctx : Nat) (userData : Ptr) (timers : List TaskTimer) : List TaskTimer :=
  timers.filter (fun timer =>
    !(timer.eloopData = ctx ∧ (timer.userData = userData ∨ userData = eloopAllCtx)))

/-- A call of the scheduler with contexts that have been made. -/
def callStep (p : TaskProcess) (call : Call) : Option TaskProcess :=
  if ∀ ctx ∈ call.contexts, ctx < p.scheduler.made then
    (Task.step p.scheduler (.call call)).map (fun scheduler => { p with scheduler })
  else none

/-- `sleep_task_on_defaultloop` up to where the task sleeps. -/
def sleepStep (p : TaskProcess) (ctx : Nat) (callback : Option Ptr) (callbackCtx : Option Ptr) :
    Option TaskProcess :=
  let userData := callbackCtx.getD 0
  callStep { p with
      timers := p.timers ++ [⟨ctx, userData⟩]
      callbackCtx := Function.update p.callbackCtx p.scheduler.running
        (Function.update (p.callbackCtx p.scheduler.running) p.scheduler.frames.length userData) }
    (.sleepTaskOnDefaultloop ctx callback callbackCtx)

/-- A call of user code, where `sleep_task_on_defaultloop` registers a timer. -/
def userCall (p : TaskProcess) (call : Call) : Option TaskProcess :=
  match call with
  | .sleepTaskOnDefaultloop ctx callback callbackCtx => sleepStep p ctx callback callbackCtx
  | _ => callStep p call

/-- The timers behind `if(isTimeout!=1)defaultloop_cancel_timeout(..)`, where the innermost
call is one of `sleep_task_on_defaultloop`. -/
def timersBehindSleep (p : TaskProcess) : List TaskTimer :=
  match p.scheduler.frames with
  | .sleeping ctx :: rest =>
      if (p.scheduler.ctxs ctx).bIsTimeout = 1 then p.timers
      else cancelTimeout ctx (p.callbackCtx p.scheduler.running rest.length) p.timers
  | _ => p.timers

def taskStartSelf (this : Ptr) (p : TaskProcess) : Option TaskProcess :=
  (p.objects this).bind (fun object =>
    let ctx := p.scheduler.made
    (Task.step (Task.makeTask p.scheduler .entry) (.call (.startTask ctx))).map (fun scheduler =>
      { p with
        scheduler
        objects := Function.update p.objects this (some ⟨some ctx, object.started ++ [ctx]⟩)
        started := p.started ++ [ctx] }))

def taskStopSelf (this : Ptr) (p : TaskProcess) : Option TaskProcess :=
  (p.objects this).bind (fun object =>
    if inUserCode p then
      match object.pTaskCtx with
      | some ctx => some { p with
          scheduler := Task.destroyTask p.scheduler ctx
          objects := Function.update p.objects this (some { object with pTaskCtx := none }) }
      | none => some p
    else none)

/-- The constructor. -/
def construct (this : Ptr) (p : TaskProcess) : Option TaskProcess :=
  if p.objects this = none then
    taskStartSelf this { p with objects := Function.update p.objects this (some ⟨none, []⟩) }
  else none

/-- The destructor. -/
def destruct (this : Ptr) (p : TaskProcess) : Option TaskProcess :=
  (p.objects this).bind (fun object =>
    (taskStopSelf this p).map (fun p => { p with
      objects := Function.update p.objects this none
      orphans := p.orphans ++ object.started }))

/-- `register_read_sock`, where `pTaskCtx` is not `NULL`. -/
def registerReadSock (this : Ptr) (sock : Int) (handler : Option Ptr) (userData : Ptr)
    (p : TaskProcess) : Option TaskProcess :=
  (p.pTaskCtx this).bind (fun ctx =>
    if inUserCode p then
      some { p with readSocks := p.readSocks ++ [⟨sock, handler, ctx, userData⟩] }
    else none)

def unregisterReadSock (sock : Int) (p : TaskProcess) : Option TaskProcess :=
  if inUserCode p then some { p with readSocks := p.readSocks.eraseP (·.sock = sock) } else none

/-- `sleep_wait` and, with other times, `yield_wait`. -/
def sleepWait (this : Ptr) (callback : Option Ptr) (callbackCtx : Option Ptr) (p : TaskProcess) :
    Option TaskProcess :=
  (p.pTaskCtx this).bind (fun ctx =>
    sleepStep p ctx callback
      (if callback.isSome ∧ callbackCtx = none then some this else callbackCtx))

inductive ObjectAction where
  | defaultloopTaskInit (onExit : Option Ptr)
  | construct (this : Ptr)
  | taskStartSelf (this : Ptr)
  | taskStopSelf (this : Ptr)
  | destruct (this : Ptr)
  | registerReadSock (this : Ptr) (sock : Int) (handler : Option Ptr) (userData : Ptr)
  | unregisterReadSock (sock : Int)
  | sleepWait (this : Ptr) (callback : Option Ptr) (callbackCtx : Option Ptr)
  /-- A timer that is due. -/
  | timerFires (i : Nat)
  | sockReady (i : Nat)
  /-- Any other call of user code, such as that of `exit_task`. -/
  | call (call : Call)
  | userReturn
  | library
deriving DecidableEq, Repr

def objectAct (p : TaskProcess) : ObjectAction → Option TaskProcess
  | .defaultloopTaskInit onExit =>
      if inUserCode p then
        some { p with scheduler := Task.defaultloopTaskInit onExit p.scheduler }
      else none
  | .construct this => construct this p
  | .taskStartSelf this => taskStartSelf this p
  | .taskStopSelf this => taskStopSelf this p
  | .destruct this => destruct this p
  | .registerReadSock this sock handler userData => registerReadSock this sock handler userData p
  | .unregisterReadSock sock => unregisterReadSock sock p
  | .sleepWait this callback callbackCtx => sleepWait this callback callbackCtx p
  | .timerFires i =>
      if p.scheduler.running = .loop then
        p.timers[i]?.bind (fun timer =>
          callStep { p with timers := p.timers.eraseIdx i }
            (.defaultloopHandlerForTask timer.eloopData timer.userData true))
      else none
  | .sockReady i =>
      if p.scheduler.running = .loop then
        p.readSocks[i]?.bind (fun entry =>
          match entry.handler with
          | none => callStep p (.defaultloopHandlerForTask entry.eloopData entry.userData false)
          | some _ => some p)
      else none
  | .call call => userCall p call
  | .userReturn =>
      (Task.step p.scheduler .userReturn).map (fun scheduler => { p with scheduler })
  | .library =>
      (Task.step p.scheduler .library).map (fun scheduler =>
        { p with scheduler, timers := timersBehindSleep p })

/-- A pending timer or a registered socket has the context as its data. -/
def HeldByLoop (p : TaskProcess) (ctx : Nat) : Prop :=
  (∃ timer ∈ p.timers, timer.eloopData = ctx) ∨ ∃ entry ∈ p.readSocks, entry.eloopData = ctx

def objectStep (p : TaskProcess) (action : ObjectAction) : Option TaskProcess :=
  if Crashed p then none else objectAct p action

/-- The context of a task object is destroyed once at most, and the event loop does not have it
behind that. That it is not destroyed less often is asked when its object is gone. -/
def LifetimesSound (p : TaskProcess) : Prop :=
  Lifetimes.Sound p.started p.scheduler.destroys p.orphans (HeldByLoop p)

/-- What is to be destroyed once is so only where the process goes on. -/
structure DestroyedOnce (p : TaskProcess) : Prop where
  sound : LifetimesSound p
  runs : ¬ Crashed p

/-- The call does not go to the context of a task object. -/
def Avoids (p : TaskProcess) (call : Call) : Prop := ∀ ctx ∈ p.started, ¬ call.goesTo p.scheduler ctx

/-- The event loop does not have what is in `pTaskCtx`. -/
def StopsReleased (p : TaskProcess) (this : Ptr) : Prop :=
  ∀ ctx, p.pTaskCtx this = some ctx → ¬ HeldByLoop p ctx

/-- The object has lost no context that still lives. -/
def LeavesNone (p : TaskProcess) (this : Ptr) : Prop :=
  ∀ object, p.objects this = some object → ∀ ctx ∈ object.started,
    ctx ∈ p.scheduler.destroys ∨ object.pTaskCtx = some ctx

/-- What a step must meet. -/
def InTime (p : TaskProcess) : ObjectAction → Prop
  | .construct _ | .taskStartSelf _ => ¬ LoopInTurn p.scheduler
  | .taskStopSelf this => StopsReleased p this
  | .destruct this => StopsReleased p this ∧ LeavesNone p this
  | .timerFires i => ∀ timer, p.timers[i]? = some timer → timer.eloopData ∈ p.started →
      ¬ LoopInTurn p.scheduler
  | .sockReady i => ∀ entry, p.readSocks[i]? = some entry → entry.handler = none →
      entry.eloopData ∈ p.started → ¬ LoopInTurn p.scheduler
  | .call (.sleepTaskOnDefaultloop ctx _ _) => ctx ∈ p.started → ctx ∉ p.scheduler.destroys
  | .call call => Avoids p call
  | _ => True

/-- The tasks of objects are at their entry, and what an object has in `pTaskCtx` is its own and has
not been destroyed. -/
structure Unentered (p : TaskProcess) : Prop where
  atEntry : ∀ ctx ∈ p.started, AtEntry p.scheduler ctx
  refers : ∀ ctx, Refers p.scheduler ctx → ctx < p.scheduler.made
  destroyed : ∀ ctx ∈ p.scheduler.destroys, ctx < p.scheduler.made
  owned : ∀ this ctx, p.pTaskCtx this = some ctx → ctx ∈ p.started ∧ ctx ∉ p.scheduler.destroys
  apart : ∀ this that ctx, p.pTaskCtx this = some ctx → p.pTaskCtx that = some ctx → this = that

variable {p p' : TaskProcess} {this : Ptr} {ctx : Nat}

theorem callStep_spec {call : Call} (h : callStep p call = some p') :
    (∀ ctx ∈ call.contexts, ctx < p.scheduler.made) ∧
      Task.performCall p.scheduler call = some p'.scheduler ∧
      p' = { p with scheduler := p'.scheduler } := by
  rw [callStep] at h
  split at h
  · rename_i hmade
    obtain ⟨scheduler, hstep, rfl⟩ := Option.map_eq_some_iff.mp h
    exact ⟨hmade, (Task.step_control hstep).2, rfl⟩
  · simp at h

theorem registerReadSock_spec {sock : Int} {handler : Option Ptr} {userData : Ptr}
    (h : registerReadSock this sock handler userData p = some p') :
    ∃ ctx, p.pTaskCtx this = some ctx ∧
      p' = { p with readSocks := p.readSocks ++ [⟨sock, handler, ctx, userData⟩] } := by
  rw [registerReadSock] at h
  obtain ⟨ctx, hctx, hregister⟩ := Option.bind_eq_some_iff.mp h
  obtain ⟨-, hregister⟩ := Option.ite_none_right_eq_some.mp hregister
  exact ⟨ctx, hctx, (Option.some.inj hregister).symm⟩

theorem sleepWait_spec {callback callbackCtx : Option Ptr}
    (h : sleepWait this callback callbackCtx p = some p') :
    ∃ ctx given, p.pTaskCtx this = some ctx ∧ sleepStep p ctx callback given = some p' := by
  rw [sleepWait] at h
  obtain ⟨ctx, hctx, hsleep⟩ := Option.bind_eq_some_iff.mp h
  exact ⟨ctx, _, hctx, hsleep⟩

theorem taskStartSelf_spec (h : taskStartSelf this p = some p') :
    Task.performCall (Task.makeTask p.scheduler .entry) (.startTask p.scheduler.made) =
        some p'.scheduler ∧
      p'.started = p.started ++ [p.scheduler.made] ∧ p'.orphans = p.orphans ∧
      p'.timers = p.timers ∧ p'.readSocks = p.readSocks ∧ ∃ started, p'.objects =
        Function.update p.objects this (some ⟨some p.scheduler.made, started⟩) := by
  obtain ⟨object, -, hmap⟩ := Option.bind_eq_some_iff.mp h
  obtain ⟨scheduler, hstep, rfl⟩ := Option.map_eq_some_iff.mp hmap
  exact ⟨(Task.step_control hstep).2, rfl, rfl, rfl, rfl, _, rfl⟩

theorem taskStopSelf_spec (h : taskStopSelf this p = some p') :
    ∃ object, p.objects this = some object ∧ ((object.pTaskCtx = none ∧ p' = p) ∨
      ∃ ctx, object.pTaskCtx = some ctx ∧ p' = { p with
        scheduler := Task.destroyTask p.scheduler ctx
        objects := Function.update p.objects this (some { object with pTaskCtx := none }) }) := by
  obtain ⟨object, hobject, hstop⟩ := Option.bind_eq_some_iff.mp h
  split at hstop
  · cases hctx : object.pTaskCtx with
    | none =>
        simp only [hctx, Option.some.injEq] at hstop
        exact ⟨object, hobject, .inl ⟨hctx, hstop.symm⟩⟩
    | some ctx =>
        simp only [hctx, Option.some.injEq] at hstop
        exact ⟨object, hobject, .inr ⟨ctx, hctx, hstop.symm⟩⟩
  · simp at hstop

theorem pTaskCtx_of_object {object : TaskCallbackInterface} (h : p.objects this = some object) :
    p.pTaskCtx this = object.pTaskCtx := by
  rw [TaskProcess.pTaskCtx, h, Option.bind_some]

theorem pTaskCtx_update {new : Option TaskCallbackInterface} (that : Ptr)
    (h : p'.objects = Function.update p.objects this new) :
    p'.pTaskCtx that =
      if that = this then new.bind TaskCallbackInterface.pTaskCtx else p.pTaskCtx that := by
  rw [TaskProcess.pTaskCtx, h, Function.update_apply]
  split <;> rfl

theorem Unentered.runs (h : Unentered p) : ¬ Crashed p := by
  rintro ⟨ctx, hctx, hrunning⟩
  exact (h.atEntry ctx hctx).unreferred (.running hrunning)

/-- A step of the scheduler that comes to no task of an object. -/
theorem Unentered.extends (h : Unentered p) {goes : Nat → Prop}
    (hext : Extends p.scheduler p'.scheduler goes) (hobjects : p'.objects = p.objects)
    (hstarted : p'.started = p.started) (havoids : ∀ ctx ∈ p.started, ¬ goes ctx)
    (hgoes : ∀ ctx, goes ctx → ctx < p.scheduler.made) : Unentered p' := by
  have hpTaskCtx (that : Ptr) : p'.pTaskCtx that = p.pTaskCtx that := by
    rw [TaskProcess.pTaskCtx, hobjects, TaskProcess.pTaskCtx]
  constructor
  · intro ctx hctx
    rw [hstarted] at hctx
    exact (h.atEntry ctx hctx).extends hext (havoids ctx hctx)
  · intro ctx hctx
    rcases hext.refers ctx hctx with hold | hctx | hnew
    · exact Nat.lt_of_lt_of_le (h.refers ctx hold) hext.made
    · exact Nat.lt_of_lt_of_le (hgoes ctx hctx) hext.made
    · exact hnew.2
  · intro ctx hctx
    rw [hext.destroys] at hctx
    exact Nat.lt_of_lt_of_le (h.destroyed ctx hctx) hext.made
  · intro that ctx hctx
    rw [hpTaskCtx] at hctx
    rw [hstarted, hext.destroys]
    exact h.owned that ctx hctx
  · intro this that ctx hthis hthat
    rw [hpTaskCtx] at hthis hthat
    exact h.apart this that ctx hthis hthat

theorem Unentered.call (h : Unentered p) {call : Call} (havoids : Avoids p call)
    (hstep : callStep p call = some p') : Unentered p' := by
  obtain ⟨hmade, hperform, hp'⟩ := callStep_spec hstep
  apply h.extends (Task.performCall_extends hperform)
  · rw [hp']
  · rw [hp']
  · exact havoids
  · exact fun ctx hgoes => hmade ctx (Task.Call.goesTo_contexts hgoes)

/-- A call that goes to the task of an object enters `RunFunc`. -/
theorem Unentered.crashes (h : Unentered p) {call : Call} (hctx : ctx ∈ p.started)
    (hgoes : call.goesTo p.scheduler ctx) (hstep : callStep p call = some p') : Crashed p' := by
  obtain ⟨-, hperform, hp'⟩ := callStep_spec hstep
  refine ⟨ctx, ?_, (h.atEntry ctx hctx).performCall hgoes hperform⟩
  rw [hp']
  exact hctx

/-- An object that has nothing in `pTaskCtx` is put in another's place, or is gone. -/
theorem Unentered.clear (h : Unentered p) {new : Option TaskCallbackInterface}
    (hnew : new.bind TaskCallbackInterface.pTaskCtx = none)
    (hobjects : p'.objects = Function.update p.objects this new)
    (hscheduler : p'.scheduler = p.scheduler) (hstarted : p'.started = p.started) :
    Unentered p' := by
  have hkept {that : Ptr} {ctx : Nat} (hctx : p'.pTaskCtx that = some ctx) :
      p.pTaskCtx that = some ctx := by
    rw [pTaskCtx_update that hobjects, hnew] at hctx
    exact (Option.ite_none_left_eq_some.mp hctx).2
  constructor
  · rw [hscheduler, hstarted]
    exact h.atEntry
  · rw [hscheduler]
    exact h.refers
  · rw [hscheduler]
    exact h.destroyed
  · rw [hscheduler, hstarted]
    exact fun that ctx hctx => h.owned that ctx (hkept hctx)
  · exact fun this that ctx hthis hthat => h.apart this that ctx (hkept hthis) (hkept hthat)

/-- A task that is not gone to is made and waits at its entry. -/
theorem Unentered.start (h : Unentered p) (hturn : ¬ LoopInTurn p.scheduler)
    (hstep : taskStartSelf this p = some p') : Unentered p' := by
  obtain ⟨hperform, hstarted, -, -, -, started, hobjects⟩ := taskStartSelf_spec hstep
  have hmake := @Task.extends_makeTask p.scheduler .entry (by simp)
  have hstays (ctx : Nat) :
      ¬ (Call.startTask p.scheduler.made).goesTo (Task.makeTask p.scheduler .entry) ctx :=
    fun hgoes => hturn ((Task.loopInTurn_makeTask h.refers).mp hgoes.2)
  have hext := Task.performCall_extends hperform
  have hmade : p.scheduler.made < p'.scheduler.made :=
    Nat.lt_of_lt_of_le (Nat.lt_succ_self _) hext.made
  have hdestroys : p'.scheduler.destroys = p.scheduler.destroys := hext.destroys
  have hpTaskCtx {that : Ptr} {ctx : Nat} (hctx : p'.pTaskCtx that = some ctx) :
      that = this ∧ ctx = p.scheduler.made ∨ that ≠ this ∧ p.pTaskCtx that = some ctx := by
    rw [pTaskCtx_update that hobjects] at hctx
    split at hctx
    · exact .inl ⟨‹_›, (Option.some.inj hctx).symm⟩
    · exact .inr ⟨‹_›, hctx⟩
  have hother {that : Ptr} {ctx : Nat} (hctx : p.pTaskCtx that = some ctx) :
      ctx ≠ p.scheduler.made :=
    Nat.ne_of_lt (h.atEntry ctx (h.owned that ctx hctx).1).made
  constructor
  · intro ctx hctx
    rw [hstarted] at hctx
    rcases List.mem_append.mp hctx with hctx | hctx
    · exact ((h.atEntry ctx hctx).extends hmake id).extends hext (hstays ctx)
    · obtain rfl := List.mem_singleton.mp hctx
      exact (Task.makeTask_atEntry h.refers).extends hext (hstays _)
  · intro ctx hctx
    rcases hext.refers ctx hctx with hold | hgoes | hlater
    · exact Nat.lt_trans (h.refers ctx (Task.refers_makeTask (by simp) hold)) hmade
    · exact absurd hgoes (hstays ctx)
    · exact hlater.2
  · rw [hdestroys]
    exact fun ctx hctx => Nat.lt_trans (h.destroyed ctx hctx) hmade
  · intro that ctx hctx
    rw [hstarted, hdestroys]
    rcases hpTaskCtx hctx with ⟨-, rfl⟩ | ⟨-, hctx⟩
    · exact ⟨by simp, fun hdestroyed => Nat.lt_irrefl _ (h.destroyed _ hdestroyed)⟩
    · exact (h.owned that ctx hctx).imp_left (List.mem_append_left _)
  · intro one that ctx hone hthat
    rcases hpTaskCtx hone with ⟨rfl, rfl⟩ | ⟨-, hone⟩
    · rcases hpTaskCtx hthat with ⟨rfl, -⟩ | ⟨-, hthat⟩
      · rfl
      · exact absurd rfl (hother hthat)
    · rcases hpTaskCtx hthat with ⟨-, rfl⟩ | ⟨-, hthat⟩
      · exact absurd rfl (hother hone)
      · exact h.apart one that ctx hone hthat

/-- A task that is gone to enters `RunFunc`. -/
theorem Unentered.start_crashes (h : Unentered p) (hturn : LoopInTurn p.scheduler)
    (hstep : taskStartSelf this p = some p') : Crashed p' := by
  obtain ⟨hperform, hstarted, -⟩ := taskStartSelf_spec hstep
  have hgoes : (Call.startTask p.scheduler.made).goesTo (Task.makeTask p.scheduler .entry)
      p.scheduler.made := ⟨rfl, (Task.loopInTurn_makeTask h.refers).mpr hturn⟩
  refine ⟨p.scheduler.made, ?_, (Task.makeTask_atEntry h.refers).performCall hgoes hperform⟩
  rw [hstarted]
  exact List.mem_append_right _ (List.mem_singleton_self _)

theorem Unentered.stop (h : Unentered p) (hstep : taskStopSelf this p = some p') :
    Unentered p' := by
  obtain ⟨object, hobject, ⟨-, rfl⟩ | ⟨ctx, hctx, rfl⟩⟩ := taskStopSelf_spec hstep
  · exact h
  have hown : p.pTaskCtx this = some ctx := (pTaskCtx_of_object hobject).trans hctx
  have hkept {that : Ptr} {c : Nat} (hc : TaskProcess.pTaskCtx { p with
      scheduler := Task.destroyTask p.scheduler ctx
      objects := Function.update p.objects this (some { object with pTaskCtx := none }) } that =
        some c) : that ≠ this ∧ p.pTaskCtx that = some c := by
    rw [pTaskCtx_update that rfl] at hc
    exact Option.ite_none_left_eq_some.mp hc
  constructor
  · intro c hc
    obtain ⟨hmade, hentry, hunreferred⟩ := h.atEntry c hc
    exact ⟨hmade, (Task.taskUc_destroyTask _ _ _).trans hentry,
      fun hrefers => hunreferred (Task.refers_destroyTask hrefers)⟩
  · exact fun c hc => h.refers c (Task.refers_destroyTask hc)
  · intro c hc
    rcases List.mem_append.mp hc with hc | hc
    · exact h.destroyed c hc
    · obtain rfl := List.mem_singleton.mp hc
      exact (h.atEntry c (h.owned this c hown).1).made
  · intro that c hc
    obtain ⟨hne, hthat⟩ := hkept hc
    obtain ⟨hstarted, hlive⟩ := h.owned that c hthat
    refine ⟨hstarted, ?_⟩
    intro hdestroyed
    rcases List.mem_append.mp hdestroyed with hdestroyed | hlast
    · exact hlive hdestroyed
    · obtain rfl := List.mem_singleton.mp hlast
      exact hne (h.apart that this c hthat hown)
  · intro one that c hone hthat
    exact h.apart one that c (hkept hone).2 (hkept hthat).2

theorem Unentered.destruct (h : Unentered p) (hstep : destruct this p = some p') :
    Unentered p' := by
  obtain ⟨object, -, hmap⟩ := Option.bind_eq_some_iff.mp hstep
  obtain ⟨stopped, hstop, rfl⟩ := Option.map_eq_some_iff.mp hmap
  exact (h.stop hstop).clear rfl rfl rfl rfl

/-- A step that ends a user function, or is one of the library. -/
theorem Unentered.destroys (h : Unentered p) {destroyed : Option Nat}
    (hstep : Task.Destroys p.scheduler p'.scheduler destroyed) (hobjects : p'.objects = p.objects)
    (hstarted : p'.started = p.started) : Unentered p' := by
  have hpTaskCtx (that : Ptr) : p'.pTaskCtx that = p.pTaskCtx that := by
    rw [TaskProcess.pTaskCtx, hobjects, TaskProcess.pTaskCtx]
  have hdestroys {c : Nat} (hc : c ∈ p'.scheduler.destroys) :
      c ∈ p.scheduler.destroys ∨ Refers p.scheduler c := by
    rw [hstep.destroys] at hc
    exact (List.mem_append.mp hc).imp_right (fun hc => hstep.known c (Option.mem_toList.mp hc))
  constructor
  · intro c hc
    rw [hstarted] at hc
    obtain ⟨hmade, hentry, hunreferred⟩ := h.atEntry c hc
    exact ⟨hstep.made ▸ hmade, (hstep.entry c).trans hentry,
      fun hrefers => hunreferred (hstep.refers c hrefers)⟩
  · intro c hc
    rw [hstep.made]
    exact h.refers c (hstep.refers c hc)
  · intro c hc
    rw [hstep.made]
    exact (hdestroys hc).elim (h.destroyed c) (h.refers c)
  · intro that c hc
    rw [hpTaskCtx] at hc
    obtain ⟨hc, hlive⟩ := h.owned that c hc
    rw [hstarted]
    exact ⟨hc, fun hdestroyed =>
      (hdestroys hdestroyed).elim hlive (h.atEntry c hc).unreferred⟩
  · intro one that c hone hthat
    rw [hpTaskCtx] at hone hthat
    exact h.apart one that c hone hthat

/-- A step that makes and destroys nothing, and registers nothing. -/
theorem LifetimesSound.kept (h : LifetimesSound p)
    (hdestroys : p'.scheduler.destroys = p.scheduler.destroys) (hstarted : p'.started = p.started)
    (horphans : p'.orphans = p.orphans) (hheld : ∀ c, HeldByLoop p' c → HeldByLoop p c) :
    LifetimesSound p' := by
  rw [LifetimesSound, hdestroys, hstarted, horphans]
  exact Lifetimes.Sound.release h hheld

theorem LifetimesSound.call (h : LifetimesSound p) {call : Call}
    (hstep : callStep p call = some p') : LifetimesSound p' := by
  obtain ⟨-, hperform, hp'⟩ := callStep_spec hstep
  refine h.kept (Task.performCall_extends hperform).destroys (by rw [hp']) (by rw [hp']) ?_
  intro c hc
  rw [hp'] at hc
  exact hc

theorem heldByLoop_timer {timer : TaskTimer} (htimers : p'.timers = p.timers ++ [timer])
    (hsocks : p'.readSocks = p.readSocks) (c : Nat) :
    HeldByLoop p' c ↔ HeldByLoop p c ∨ c = timer.eloopData := by
  rw [HeldByLoop, htimers, hsocks, HeldByLoop]
  simp [or_and_right, exists_or, or_right_comm, eq_comm]

theorem heldByLoop_sock {entry : TaskSock} (htimers : p'.timers = p.timers)
    (hsocks : p'.readSocks = p.readSocks ++ [entry]) (c : Nat) :
    HeldByLoop p' c ↔ HeldByLoop p c ∨ c = entry.eloopData := by
  rw [HeldByLoop, htimers, hsocks, HeldByLoop]
  simp [or_and_right, exists_or, or_assoc, eq_comm]

theorem LifetimesSound.sleep_iff (h : LifetimesSound p) {callback callbackCtx : Option Ptr}
    (hstep : sleepStep p ctx callback callbackCtx = some p') :
    LifetimesSound p' ↔ (ctx ∈ p.started → ctx ∉ p.scheduler.destroys) := by
  obtain ⟨-, hperform, hp'⟩ := callStep_spec hstep
  have hdestroys : p'.scheduler.destroys = p.scheduler.destroys :=
    (Task.performCall_extends hperform).destroys
  have hheld := @heldByLoop_timer p p' ⟨ctx, callbackCtx.getD 0⟩ (by rw [hp']) (by rw [hp'])
  have hstarted : p'.started = p.started := by rw [hp']
  have horphans : p'.orphans = p.orphans := by rw [hp']
  rw [LifetimesSound, hdestroys, hstarted, horphans]
  exact Lifetimes.Sound.hold_iff h hheld

theorem LifetimesSound.start (h : LifetimesSound p) (hun : Unentered p)
    (hstep : taskStartSelf this p = some p') : LifetimesSound p' := by
  obtain ⟨hperform, hstarted, horphans, htimers, hsocks, -⟩ := taskStartSelf_spec hstep
  have hdestroys : p'.scheduler.destroys = p.scheduler.destroys :=
    (Task.performCall_extends hperform).destroys
  have hnew : p.scheduler.made ∉ p.scheduler.destroys :=
    fun hdestroyed => Nat.lt_irrefl _ (hun.destroyed _ hdestroyed)
  rw [LifetimesSound, hdestroys, hstarted, horphans]
  apply (Lifetimes.Sound.make h hnew).release
  intro c hc
  rw [HeldByLoop, htimers, hsocks] at hc
  exact hc

theorem LifetimesSound.stop_iff (h : LifetimesSound p) (hun : Unentered p)
    (hstep : taskStopSelf this p = some p') : LifetimesSound p' ↔ StopsReleased p this := by
  obtain ⟨object, hobject, ⟨hnone, rfl⟩ | ⟨ctx, hctx, rfl⟩⟩ := taskStopSelf_spec hstep
  · refine iff_of_true h ?_
    intro ctx hctx
    rw [pTaskCtx_of_object hobject, hnone] at hctx
    exact nomatch hctx
  · have hown : p.pTaskCtx this = some ctx := (pTaskCtx_of_object hobject).trans hctx
    obtain ⟨hstarted, hlive⟩ := hun.owned this ctx hown
    refine Iff.trans (Lifetimes.Sound.destroy_iff h) ?_
    constructor
    · intro hdisposable c hc
      obtain rfl := Option.some.inj (hown.symm.trans hc)
      exact (hdisposable hstarted).2
    · exact fun hreleased _ => ⟨hlive, hreleased ctx hown⟩

theorem LifetimesSound.destruct_iff (h : LifetimesSound p) (hun : Unentered p)
    (hstep : destruct this p = some p') :
    LifetimesSound p' ↔ StopsReleased p this ∧ LeavesNone p this := by
  obtain ⟨object, hobject, hmap⟩ := Option.bind_eq_some_iff.mp hstep
  obtain ⟨stopped, hstop, rfl⟩ := Option.map_eq_some_iff.mp hmap
  have hleaves : (∀ c ∈ object.started, c ∈ stopped.scheduler.destroys) ↔ LeavesNone p this := by
    obtain ⟨same, hsame, hcases⟩ := taskStopSelf_spec hstop
    obtain rfl := Option.some.inj (hobject.symm.trans hsame)
    rcases hcases with ⟨hnone, rfl⟩ | ⟨ctx, hctx, rfl⟩
    · constructor
      · intro hall other hother c hc
        obtain rfl := Option.some.inj (hobject.symm.trans hother)
        exact .inl (hall c hc)
      · intro hleaves c hc
        apply (hleaves object hobject c hc).resolve_right
        simp [hnone]
    · constructor
      · intro hall other hother c hc
        obtain rfl := Option.some.inj (hobject.symm.trans hother)
        refine (List.mem_append.mp (hall c hc)).imp_right ?_
        intro hlast
        rw [hctx, List.mem_singleton.mp hlast]
      · intro hleaves c hc
        apply List.mem_append.mpr
        refine (hleaves object hobject c hc).imp_right ?_
        intro hpTaskCtx
        obtain rfl := Option.some.inj (hctx.symm.trans hpTaskCtx)
        exact List.mem_singleton_self ctx
  rw [← h.stop_iff hun hstop, ← hleaves]
  exact Lifetimes.sound_append_iff

/-- The scheduler destroys no context of an object: it has come to none. -/
theorem LifetimesSound.destroys (h : LifetimesSound p) (hun : Unentered p)
    {destroyed : Option Nat} (hstep : Task.Destroys p.scheduler p'.scheduler destroyed)
    (hstarted : p'.started = p.started) (horphans : p'.orphans = p.orphans)
    (hheld : ∀ c, HeldByLoop p' c → HeldByLoop p c) : LifetimesSound p' := by
  cases destroyed with
  | none =>
      refine h.kept ?_ hstarted horphans hheld
      rw [hstep.destroys]
      exact List.append_nil _
  | some ctx =>
      have hforeign : ctx ∉ p.started :=
        fun hctx => (hun.atEntry ctx hctx).unreferred (hstep.known ctx rfl)
      have hdestroyed := (Lifetimes.Sound.destroy_iff h).mpr (fun hctx => absurd hctx hforeign)
      rw [LifetimesSound, hstep.destroys, hstarted, horphans]
      exact hdestroyed.release hheld

theorem mem_timersBehindSleep {timer : TaskTimer} (h : timer ∈ timersBehindSleep p) :
    timer ∈ p.timers := by
  rw [timersBehindSleep] at h
  split at h
  · split at h
    · exact h
    · exact List.mem_of_mem_filter h
  · exact h

/-- What the event loop has registered does not matter. -/
theorem Unentered.registers (h : Unentered p) (hscheduler : p'.scheduler = p.scheduler)
    (hobjects : p'.objects = p.objects) (hstarted : p'.started = p.started) : Unentered p' := by
  have hpTaskCtx : p'.pTaskCtx = p.pTaskCtx := by
    funext that
    rw [TaskProcess.pTaskCtx, hobjects, TaskProcess.pTaskCtx]
  constructor
  · rw [hscheduler, hstarted]
    exact h.atEntry
  · rw [hscheduler]
    exact h.refers
  · rw [hscheduler]
    exact h.destroyed
  · rw [hscheduler, hstarted, hpTaskCtx]
    exact h.owned
  · rw [hpTaskCtx]
    exact h.apart

theorem Unentered.sleep (h : Unentered p) {callback callbackCtx : Option Ptr}
    (hstep : sleepStep p ctx callback callbackCtx = some p') : Unentered p' := by
  rw [sleepStep] at hstep
  refine Unentered.call ?_ ?_ hstep
  · exact h.registers rfl rfl rfl
  · exact fun _ _ hgoes => hgoes

/-- What a step from `p` to `p'` keeps if it meets a condition, and only then is all well behind
it. -/
def StepKeeps (condition : Prop) (p' : TaskProcess) : Prop :=
  (condition → Unentered p' ∧ LifetimesSound p') ∧ (DestroyedOnce p' → condition)

theorem stepKeeps_of_kept (hun : Unentered p') {condition : Prop}
    (hiff : LifetimesSound p' ↔ condition) : StepKeeps condition p' :=
  ⟨fun h => ⟨hun, hiff.mpr h⟩, fun h => hiff.mp h.sound⟩

theorem StepKeeps.iff {condition condition' : Prop} (h : StepKeeps condition p')
    (hiff : condition ↔ condition') : StepKeeps condition' p' :=
  ⟨fun hc => h.1 (hiff.mpr hc), fun honce => hiff.mp (h.2 honce)⟩

theorem callStep_keeps (hun : Unentered p) (h : LifetimesSound p) {call : Call}
    (hstep : callStep p call = some p') : StepKeeps (Avoids p call) p' := by
  constructor
  · exact fun havoids => ⟨hun.call havoids hstep, h.call hstep⟩
  · intro honce ctx hctx hgoes
    exact honce.runs (hun.crashes hctx hgoes hstep)

theorem avoids_handler_iff {userData : Ptr} {bTimeout : Bool} :
    Avoids p (.defaultloopHandlerForTask ctx userData bTimeout) ↔
      (ctx ∈ p.started → ¬ LoopInTurn p.scheduler) := by
  constructor
  · exact fun havoids hctx hturn => havoids ctx hctx ⟨rfl, hturn⟩
  · rintro hwaits _ hctx ⟨rfl, hturn⟩
    exact hwaits hctx hturn

theorem taskStartSelf_keeps (hun : Unentered p) (h : LifetimesSound p)
    (hstep : taskStartSelf this p = some p') : StepKeeps (¬ LoopInTurn p.scheduler) p' := by
  constructor
  · exact fun hturn => ⟨hun.start hturn hstep, h.start hun hstep⟩
  · exact fun honce hturn => honce.runs (hun.start_crashes hturn hstep)

theorem registerReadSock_keeps (hun : Unentered p) (h : LifetimesSound p) {sock : Int}
    {handler : Option Ptr} {userData : Ptr}
    (hstep : objectAct p (.registerReadSock this sock handler userData) = some p') :
    StepKeeps True p' := by
  obtain ⟨ctx, hctx, rfl⟩ := registerReadSock_spec hstep
  refine stepKeeps_of_kept ?_ (iff_of_true ?_ trivial)
  · exact hun.registers rfl rfl rfl
  · have hheld := @heldByLoop_sock p { p with
      readSocks := p.readSocks ++ [⟨sock, handler, ctx, userData⟩] } _ rfl rfl
    exact (Lifetimes.Sound.hold_iff h hheld).mpr (fun _ => (hun.owned this ctx hctx).2)

/-- What is registered may only become less. -/
theorem Unentered.fewer (hun : Unentered p) (h : LifetimesSound p) (timers : List TaskTimer)
    (readSocks : List TaskSock) (htimers : timers ⊆ p.timers) (hsocks : readSocks ⊆ p.readSocks) :
    Unentered { p with timers, readSocks } ∧ LifetimesSound { p with timers, readSocks } := by
  refine ⟨hun.registers rfl rfl rfl, h.kept rfl rfl rfl ?_⟩
  rintro c (⟨timer, htimer, hdata⟩ | ⟨entry, hentry, hdata⟩)
  · exact .inl ⟨timer, htimers htimer, hdata⟩
  · exact .inr ⟨entry, hsocks hentry, hdata⟩

theorem timerFires_keeps (hun : Unentered p) (h : LifetimesSound p) {i : Nat}
    (hstep : objectAct p (.timerFires i) = some p') : StepKeeps (InTime p (.timerFires i)) p' := by
  obtain ⟨-, hfires⟩ := Option.ite_none_right_eq_some.mp hstep
  obtain ⟨timer, htimer, hcall⟩ := Option.bind_eq_some_iff.mp hfires
  obtain ⟨hsame, hfired⟩ := hun.fewer h (p.timers.eraseIdx i) p.readSocks
    List.eraseIdx_subset (List.Subset.refl _)
  apply (callStep_keeps hsame hfired hcall).iff
  rw [avoids_handler_iff]
  simp [InTime, htimer]

theorem sockReady_keeps (hun : Unentered p) (h : LifetimesSound p) {i : Nat}
    (hstep : objectAct p (.sockReady i) = some p') : StepKeeps (InTime p (.sockReady i)) p' := by
  obtain ⟨-, hready⟩ := Option.ite_none_right_eq_some.mp hstep
  obtain ⟨entry, hentry, hhandler⟩ := Option.bind_eq_some_iff.mp hready
  cases hgiven : entry.handler with
  | none =>
      simp only [hgiven] at hhandler
      apply (callStep_keeps hun h hhandler).iff
      rw [avoids_handler_iff]
      simp [InTime, hentry, hgiven]
  | some handler =>
      simp only [hgiven, Option.some.injEq] at hhandler
      subst hhandler
      refine stepKeeps_of_kept hun (iff_of_true h ?_)
      simp [InTime, hentry, hgiven]

theorem library_keeps (hun : Unentered p) (h : LifetimesSound p)
    (hstep : objectAct p .library = some p') : StepKeeps True p' := by
  obtain ⟨scheduler, hlibrary, rfl⟩ := Option.map_eq_some_iff.mp hstep
  have hdestroys := Task.libraryStep_destroys (Task.step_control hlibrary).2
  refine stepKeeps_of_kept ?_ (iff_of_true ?_ trivial)
  · exact hun.destroys hdestroys rfl rfl
  · refine h.destroys hun hdestroys rfl rfl ?_
    rintro c (⟨timer, htimer, hdata⟩ | hc)
    · exact .inl ⟨timer, mem_timersBehindSleep htimer, hdata⟩
    · exact .inr hc

/-- All is well behind a step exactly if it is in time. -/
theorem objectAct_keeps (hun : Unentered p) (h : LifetimesSound p) {action : ObjectAction}
    (hstep : objectAct p action = some p') : StepKeeps (InTime p action) p' := by
  cases action with
  | defaultloopTaskInit onExit =>
      obtain ⟨-, hinit⟩ := Option.ite_none_right_eq_some.mp hstep
      obtain rfl := Option.some.inj hinit
      have hext := Task.extends_defaultloopTaskInit onExit p.scheduler
      refine stepKeeps_of_kept ?_ (iff_of_true ?_ trivial)
      · exact hun.extends hext rfl rfl (fun _ _ hgoes => hgoes) (fun _ hgoes => hgoes.elim)
      · exact h.kept hext.destroys rfl rfl (fun _ hc => hc)
  | construct this =>
      obtain ⟨-, hstart⟩ := Option.ite_none_right_eq_some.mp hstep
      have hmade : Unentered { p with objects := Function.update p.objects this (some ⟨none, []⟩) } :=
        hun.clear rfl rfl rfl rfl
      have hkeeps := taskStartSelf_keeps hmade h hstart
      exact hkeeps
  | taskStartSelf this => exact taskStartSelf_keeps hun h hstep
  | taskStopSelf this => exact stepKeeps_of_kept (hun.stop hstep) (h.stop_iff hun hstep)
  | destruct this => exact stepKeeps_of_kept (hun.destruct hstep) (h.destruct_iff hun hstep)
  | registerReadSock this sock handler userData => exact registerReadSock_keeps hun h hstep
  | unregisterReadSock sock =>
      obtain ⟨-, hunregister⟩ := Option.ite_none_right_eq_some.mp hstep
      obtain rfl := Option.some.inj hunregister
      obtain ⟨hsame, hsound⟩ := hun.fewer h p.timers _ (List.Subset.refl _)
        List.eraseP_subset
      exact stepKeeps_of_kept hsame (iff_of_true hsound trivial)
  | sleepWait this callback callbackCtx =>
      obtain ⟨ctx, given, hctx, hsleep⟩ := sleepWait_spec hstep
      refine stepKeeps_of_kept (hun.sleep hsleep) (iff_of_true ?_ trivial)
      exact (h.sleep_iff hsleep).mpr (fun _ => (hun.owned this ctx hctx).2)
  | timerFires i => exact timerFires_keeps hun h hstep
  | sockReady i => exact sockReady_keeps hun h hstep
  | call call =>
      cases call with
      | sleepTaskOnDefaultloop ctx callback callbackCtx =>
          exact stepKeeps_of_kept (hun.sleep hstep) (h.sleep_iff hstep)
      | _ => exact callStep_keeps hun h hstep
  | userReturn =>
      obtain ⟨scheduler, hreturn, rfl⟩ := Option.map_eq_some_iff.mp hstep
      have hdestroys := Task.userReturn_destroys (Task.step_control hreturn).2
      refine stepKeeps_of_kept ?_ (iff_of_true ?_ trivial)
      · exact hun.destroys hdestroys rfl rfl
      · exact h.destroys hun hdestroys rfl rfl (fun _ hc => hc)
  | library => exact library_keeps hun h hstep

theorem init_unentered : Unentered .init where
  atEntry := fun _ hctx => absurd hctx List.not_mem_nil
  refers := by
    intro ctx hctx
    cases hctx with
    | turn h | default h | running h => exact nomatch h
    | frames h =>
        obtain ⟨frame, hframe, -⟩ := h
        exact absurd hframe List.not_mem_nil
    | saved curCtx hat h => exact nomatch hat
  destroyed := fun _ hctx => absurd hctx List.not_mem_nil
  owned := fun _ _ hctx => nomatch hctx
  apart := fun _ _ _ hctx => nomatch hctx

/-- In every state of a run the contexts of task objects are destroyed once and not held
behind that, exactly if every step of the run is in time. -/
theorem contexts_destroyed_once_iff {actions : List ObjectAction} {final : TaskProcess}
    (hrun : Runs.run objectStep .init actions = some final) :
    (∀ before after mid, actions = before ++ after →
        Runs.run objectStep .init before = some mid → DestroyedOnce mid) ↔
      Runs.Guarded objectStep InTime .init actions := by
  have hkeeps {p p' : TaskProcess} {action : ObjectAction} (h : Unentered p ∧ LifetimesSound p)
      (hstep : objectStep p action = some p') : StepKeeps (InTime p action) p' :=
    objectAct_keeps h.1 h.2 (Option.ite_none_left_eq_some.mp hstep).2
  refine @Runs.forall_prefix_seen_iff _ _ objectStep InTime
    (fun p => Unentered p ∧ LifetimesSound p) DestroyedOnce ?_ ?_ ?_ .init final actions ?_ hrun
  · exact fun p h => ⟨h.2, h.1.runs⟩
  · exact fun p action p' h hintime hstep => (hkeeps h hstep).1 hintime
  · exact fun p action p' h hstep honce => (hkeeps h hstep).2 honce
  · exact ⟨init_unentered, Lifetimes.sound_nil⟩

/-- An object is made before there is a default context in turn, waits for a socket, sleeps where
nothing can wake it, and goes. -/
def stoppedUnentered : List ObjectAction :=
  [.construct 0x1000, .registerReadSock 0x1000 5 none 0, .unregisterReadSock 5,
   .sleepWait 0x1000 none none, .library, .library, .defaultloopTaskInit none, .destruct 0x1000]

theorem stoppedUnentered_destroyed_once :
    ∃ p, Runs.run objectStep .init stoppedUnentered = some p ∧ DestroyedOnce p := by
  have hstart : InTime .init (.construct 0x1000) := by
    intro hturn
    exact nomatch (show none = some 0 from hturn)
  have hdestruct {q : TaskProcess} (hobject : q.objects 0x1000 = some ⟨some 0, [0]⟩)
      (htimers : q.timers = []) (hsocks : q.readSocks = []) : InTime q (.destruct 0x1000) := by
    constructor
    · intro ctx _
      rw [HeldByLoop, htimers, hsocks]
      simp
    · intro object hother ctx hctx
      obtain rfl := Option.some.inj (hobject.symm.trans hother)
      obtain rfl := List.mem_singleton.mp hctx
      exact .inr rfl
  have hguard : Runs.Guarded objectStep InTime .init stoppedUnentered := by
    apply Runs.Guarded.cons hstart rfl
    apply Runs.Guarded.cons trivial rfl
    apply Runs.Guarded.cons trivial rfl
    apply Runs.Guarded.cons trivial rfl
    apply Runs.Guarded.cons trivial rfl
    apply Runs.Guarded.cons trivial rfl
    apply Runs.Guarded.cons trivial rfl
    apply Runs.Guarded.cons (hdestruct rfl rfl rfl) rfl
    trivial
  have hrun : ∃ p, Runs.run objectStep .init stoppedUnentered = some p := ⟨_, rfl⟩
  obtain ⟨p, hp⟩ := hrun
  have honce := (contexts_destroyed_once_iff hp).mpr hguard
  exact ⟨p, hp, honce stoppedUnentered [] p (List.append_nil _).symm hp⟩

/-- An object that is made behind `defaultloop_task_init` crashes, and one that goes with a socket
registered leaves it behind. -/
theorem started_task_crashes :
    (∃ p, Runs.run objectStep .init [.defaultloopTaskInit none, .construct 0x1000] = some p ∧
        ¬ DestroyedOnce p) ∧
      ∃ p, Runs.run objectStep .init
          [.construct 0x1000, .registerReadSock 0x1000 5 none 0, .destruct 0x1000] = some p ∧
        ¬ DestroyedOnce p := by
  constructor
  · refine ⟨_, rfl, ?_⟩
    intro honce
    exact honce.runs ⟨1, List.mem_singleton_self 1, rfl⟩
  · refine ⟨_, rfl, ?_⟩
    intro honce
    apply honce.sound.unheld 0 (List.mem_singleton_self 0) (List.mem_singleton_self 0)
    exact .inr ⟨_, List.mem_singleton_self _, rfl⟩

end EventLoop.TaskObject
