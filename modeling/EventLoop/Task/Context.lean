import EventLoop.Lib.Runs
import EventLoop.Timer.Queue
import Mathlib.Logic.Function.Basic

/-!
The task scheduler of `context.c`. Every context has a stack of its own; the
stack of the default context is the one of the process. A stack is the list of
the library calls that are open on it, innermost first, with user code above
and between them. `swapcontext` saves the executing stack in one context and
goes on with what another has saved. User code calls the interface; in between
the library runs on alone. A context that `make_task` returned is named by a
number that is never used again.
-/

namespace EventLoop.Task

/-- Whose stack is executing: that of the loop or that of a task. -/
inductive Owner where
  | loop
  | task (ctx : Nat)
deriving DecidableEq, Repr

/-- An open library call, by what it still has to do. -/
inductive Frame where
  /-- `switch2task(curCtx, newCtx)` behind `swapcontext`. -/
  | afterSwap (newCtx : Nat)
  /-- `ifCompleted_task(ctx)` behind the call of `ctx->callback`. -/
  | ifCompletedCallback (ctx : Nat)
  /-- `ifCompleted_task(ctx)` behind the call of `g_OnExit_task_callback`. -/
  | ifCompletedExit (ctx : Nat)
  /-- `callback_on_defaultloop(ctx)` behind `sched_defaultloop`. -/
  | callbackOn (ctx : Nat)
  /-- `sleep_task_on_defaultloop(ctx)` behind `callback_on_defaultloop`. -/
  | sleeping (ctx : Nat)
  /-- `exit_task` behind `callback_on_defaultloop`. -/
  | exiting
deriving DecidableEq, Repr

/-- What a `ucontext_t` holds: nothing, the entry of `makecontext`, or a place in a stack. -/
inductive Point where
  | unset
  | entry
  | at (owner : Owner) (frames : List Frame)
deriving DecidableEq, Repr

/-- A `callback_ctx` argument: the context itself stands in for `NULL`. -/
inductive CallbackCtx where
  | self (ctx : Nat)
  | given (value : Ptr)
deriving DecidableEq, Repr

structure TaskCtx where
  taskUc : Point
  bCompleted : Bool
  bIsTimeout : Int
  callback : Option Ptr
  callbackCtx : Option CallbackCtx
  live : Bool
deriving DecidableEq, Repr

/-- No context: nothing was allocated under this number yet. -/
def TaskCtx.blank : TaskCtx := ⟨.unset, false, 0, none, none, false⟩

/-- A context as `make_task` leaves it. -/
def TaskCtx.fresh (taskUc : Point) : TaskCtx := { TaskCtx.blank with taskUc, live := true }

inductive Control where
  /-- User code is executing, above the frames of its stack. -/
  | user
  /-- The innermost open library call goes on. -/
  | library
deriving DecidableEq, Repr

/-- A callback that `callback_on_defaultloop` or `exit_task` was given. -/
structure Request where
  ctx : Nat
  callback : Ptr
  callbackCtx : CallbackCtx
deriving DecidableEq, Repr

/-- A callback that was called, with its arguments and the stack it was called on. -/
structure CallbackRun where
  on : Owner
  ctx : Nat
  callback : Ptr
  callbackCtx : Option CallbackCtx
deriving DecidableEq, Repr

/-- The scheduler's globals and contexts, the executing stack, and the record of the
run: where each stack was last left, the callbacks requested and run, the calls of
`exit_task` and `destroy_task`, the switches that the guard of `switch2task` dropped, and
whether a field of a destroyed context was accessed. -/
structure Scheduler where
  ctxs : Nat → TaskCtx
  made : Nat
  defaultCtx : Option Nat
  curTaskCtx : Option Nat
  onExit : Option Ptr
  running : Owner
  frames : List Frame
  control : Control
  suspended : Owner → Option (List Frame)
  requests : List Request
  runs : List CallbackRun
  exits : List Nat
  destroys : List Nat
  dropped : Nat
  staleAccess : Bool

/-- A process that has not used the scheduler yet. -/
def Scheduler.init : Scheduler :=
  ⟨fun _ => .blank, 0, none, none, none, .loop, [], .user, fun _ => none, [], [], [], [], 0, false⟩

/-- The library accesses a field of this context. -/
def Scheduler.access (s : Scheduler) (ctx : Nat) : Scheduler :=
  { s with staleAccess := s.staleAccess || !(s.ctxs ctx).live }

def Scheduler.modify (s : Scheduler) (ctx : Nat) (f : TaskCtx → TaskCtx) : Scheduler :=
  { s.access ctx with ctxs := Function.update s.ctxs ctx (f (s.ctxs ctx)) }

/-- Who goes on when a library call returns: the library call that made it, or user code. -/
def callerControl : List Frame → Control
  | .callbackOn _ :: _ | .sleeping _ :: _ | .exiting :: _ => .library
  | _ => .user

def Scheduler.returnTo (s : Scheduler) (frames : List Frame) : Scheduler :=
  { s with frames, control := callerControl frames }

/-- `make_task`; the entry is set but for the default context. -/
def makeTask (s : Scheduler) (taskUc : Point) : Scheduler :=
  { s with ctxs := Function.update s.ctxs s.made (.fresh taskUc), made := s.made + 1 }

def makeDefaultTask (s : Scheduler) : Scheduler :=
  match s.defaultCtx with
  | none => { makeTask s .unset with defaultCtx := some s.made }
  | some _ => s

def destroyTask (s : Scheduler) (ctx : Nat) : Scheduler :=
  { s with
    ctxs := Function.update s.ctxs ctx { s.ctxs ctx with live := false }
    destroys := s.destroys ++ [ctx] }

/-- `defaultloop_task_init` -/
def defaultloopTaskInit (onExit : Option Ptr) (s : Scheduler) : Scheduler :=
  let s := makeDefaultTask s
  { s with onExit, curTaskCtx := s.curTaskCtx.or s.defaultCtx }

/-- `defaultloop_task_final`; its first part is `destroy_default_task`. -/
def defaultloopTaskFinal (s : Scheduler) : Scheduler :=
  let s := match s.defaultCtx with
    | some default => { destroyTask s default with defaultCtx := none }
    | none => s
  { s with onExit := none, curTaskCtx := none }

/-- The half of `swapcontext` that saves the executing stack in `curCtx->task_uc`. -/
def saveContext (s : Scheduler) (curCtx : Nat) : Scheduler :=
  let s := { s with suspended := Function.update s.suspended s.running (some s.frames) }
  s.modify curCtx (fun ctx => { ctx with taskUc := .at s.running s.frames })

/-- `swapcontext(&curCtx->task_uc, &newCtx->task_uc)`; `none` if `newCtx` holds nothing. -/
def swapcontext (s : Scheduler) (curCtx newCtx : Nat) : Option Scheduler :=
  let s := (saveContext s curCtx).access newCtx
  match (s.ctxs newCtx).taskUc with
  | .unset => none
  | .entry => some { s with running := .task newCtx, frames := [], control := .user }
  | .at owner frames => some { s with running := owner, frames, control := .library }

/-- `switch2task` up to `swapcontext`, or to its end if the guard drops the switch. -/
def switch2task (s : Scheduler) (curCtx newCtx : Nat) : Option Scheduler :=
  if s.curTaskCtx = some curCtx then
    swapcontext { s with curTaskCtx := some newCtx, frames := .afterSwap newCtx :: s.frames }
      curCtx newCtx
  else some ({ s with dropped := s.dropped + 1 }.returnTo s.frames)

/-- `sched_task`; before there is a default context the guard compares with `NULL`. -/
def schedTask (s : Scheduler) (ctx : Nat) : Option Scheduler :=
  s.defaultCtx.bind (fun default => switch2task s default ctx)

def startTask (s : Scheduler) (ctx : Nat) : Option Scheduler := schedTask (makeDefaultTask s) ctx

/-- `bTimeout? (user_data? (int)user_data : 1) : 0` -/
def timeoutValue (userData : Ptr) (bTimeout : Bool) : Int :=
  if bTimeout then if userData = 0 then 1 else (userData.toBitVec.setWidth 32).toInt else 0

def defaultloopHandlerForTask (s : Scheduler) (ctx : Nat) (userData : Ptr) (bTimeout : Bool) :
    Option Scheduler :=
  let s := makeDefaultTask s
  schedTask (s.modify ctx (fun c => { c with bIsTimeout := timeoutValue userData bTimeout })) ctx

def schedDefaultloop (s : Scheduler) (ctx : Nat) : Option Scheduler :=
  s.defaultCtx.bind (fun default => switch2task s ctx default)

/-- `callback_on_defaultloop` up to `sched_defaultloop`. -/
def setCallback (s : Scheduler) (ctx : Nat) (callback : Option Ptr) (callbackCtx : Option Ptr) :
    Scheduler :=
  let arg : CallbackCtx := (callbackCtx.map .given).getD (.self ctx)
  let s := s.modify ctx (fun c => { c with callbackCtx := some arg, callback })
  { s with
    requests := s.requests ++ (callback.map (fun function => Request.mk ctx function arg)).toList
    frames := .callbackOn ctx :: s.frames }

def callbackOnDefaultloop (s : Scheduler) (ctx : Nat) (callback : Option Ptr)
    (callbackCtx : Option Ptr) : Option Scheduler :=
  schedDefaultloop (setCallback s ctx callback callbackCtx) ctx

/-- `exit_task` up to `callback_on_defaultloop`. -/
def setCompleted (s : Scheduler) (ctx : Nat) : Scheduler :=
  let s := s.modify ctx (fun c => { c with bCompleted := true })
  { s with exits := s.exits ++ [ctx], frames := .exiting :: s.frames }

def exitTask (s : Scheduler) (ctx : Nat) (callback : Option Ptr) (callbackCtx : Option Ptr) :
    Option Scheduler :=
  callbackOnDefaultloop (setCompleted s ctx) ctx callback callbackCtx

/-- `sleep_task_on_defaultloop` up to `callback_on_defaultloop`. -/
def setSleeping (s : Scheduler) (ctx : Nat) : Scheduler :=
  let s := s.modify ctx (fun c => { c with bIsTimeout := -1 })
  { s with frames := .sleeping ctx :: s.frames }

/-- `sleep_task_on_defaultloop` and, with other times, `yield_task_to_defaultloop`. The
timer is one of the loop's timers. -/
def sleepTaskOnDefaultloop (s : Scheduler) (ctx : Nat) (callback : Option Ptr)
    (callbackCtx : Option Ptr) : Option Scheduler :=
  callbackOnDefaultloop (setSleeping s ctx) ctx callback callbackCtx

/-- `ifCompleted_task` from the test of `bCompleted`, below which the stack is `rest`. -/
def completedCheck (s : Scheduler) (ctx : Nat) (hasExitCallback : Bool) (rest : List Frame) :
    Scheduler :=
  let s := s.access ctx
  if (s.ctxs ctx).bCompleted then
    if !hasExitCallback && s.onExit.isSome then
      { s with frames := .ifCompletedExit ctx :: rest, control := .user }
    else (destroyTask s ctx).returnTo rest
  else s.returnTo rest

/-- `ifCompleted_task` from its entry. -/
def ifCompletedTask (s : Scheduler) (ctx : Nat) (rest : List Frame) : Scheduler :=
  let s := s.access ctx
  match (s.ctxs ctx).callback with
  | some callback =>
      { s with
        runs := s.runs ++ [⟨s.running, ctx, callback, (s.ctxs ctx).callbackCtx⟩]
        frames := .ifCompletedCallback ctx :: rest
        control := .user }
  | none => completedCheck s ctx false rest

/-- The innermost library call goes on. -/
def libraryStep (s : Scheduler) : Option Scheduler :=
  match s.frames with
  | .afterSwap newCtx :: rest =>
      if s.curTaskCtx = s.defaultCtx then some (ifCompletedTask s newCtx rest)
      else some (s.returnTo rest)
  | .callbackOn ctx :: rest | .sleeping ctx :: rest => some ((s.access ctx).returnTo rest)
  | .exiting :: rest => some (s.returnTo rest)
  | _ => none

/-- The user function on top returns. An entry function never does. -/
def userReturn (s : Scheduler) : Option Scheduler :=
  match s.frames with
  | .ifCompletedCallback ctx :: rest =>
      let s := s.modify ctx (fun c => { c with callback := none, callbackCtx := none })
      some (completedCheck s ctx true rest)
  | .ifCompletedExit ctx :: rest => some ((destroyTask s ctx).returnTo rest)
  | _ => none

/-- The exported interface. -/
inductive Call where
  | makeTask
  | startTask (ctx : Nat)
  | schedTask (ctx : Nat)
  | defaultloopHandlerForTask (ctx : Nat) (userData : Ptr) (bTimeout : Bool)
  | switch2task (curCtx newCtx : Nat)
  | schedDefaultloop (ctx : Nat)
  | callbackOnDefaultloop (ctx : Nat) (callback : Option Ptr) (callbackCtx : Option Ptr)
  | sleepTaskOnDefaultloop (ctx : Nat) (callback : Option Ptr) (callbackCtx : Option Ptr)
  | exitTask (ctx : Nat) (callback : Option Ptr) (callbackCtx : Option Ptr)
deriving DecidableEq, Repr

def performCall (s : Scheduler) : Call → Option Scheduler
  | .makeTask => some (makeTask s .entry)
  | .startTask ctx => startTask s ctx
  | .schedTask ctx => schedTask s ctx
  | .defaultloopHandlerForTask ctx userData bTimeout =>
      defaultloopHandlerForTask s ctx userData bTimeout
  | .switch2task curCtx newCtx => switch2task s curCtx newCtx
  | .schedDefaultloop ctx => schedDefaultloop s ctx
  | .callbackOnDefaultloop ctx callback callbackCtx =>
      callbackOnDefaultloop s ctx callback callbackCtx
  | .sleepTaskOnDefaultloop ctx callback callbackCtx =>
      sleepTaskOnDefaultloop s ctx callback callbackCtx
  | .exitTask ctx callback callbackCtx => exitTask s ctx callback callbackCtx

inductive Action where
  | call (call : Call)
  | userReturn
  | library
deriving DecidableEq, Repr

def step (s : Scheduler) : Action → Option Scheduler
  | .call call => if s.control = .user then performCall s call else none
  | .userReturn => if s.control = .user then userReturn s else none
  | .library => if s.control = .library then libraryStep s else none

end EventLoop.Task
