import EventLoop.Loop.Signals
import EventLoop.Loop.TryCatch

/-!
The calls of the handlers of `eloop.c`: each is the Try clause of a statement whose Catch clause
ends the program.
-/

namespace EventLoop.Loop

open EventLoop.TryCatch EventLoop.Exceptions EventLoop.Iteration

/-- What a thread of the event loop works on. `user` is what belongs to the handlers. -/
structure Monitored (α : Type*) where
  gPendingMonitorType : Int
  pendingTerminate : Bool
  terminate : Bool
  user : α
deriving DecidableEq, Repr

variable {α π ε : Type*}

def setPendingMonitor (pendingMonitorType : Int) (s : Monitored α) : Monitored α :=
  if s.gPendingMonitorType ≠ -1 ∨ s.pendingTerminate then s
  else { s with gPendingMonitorType := pendingMonitorType }

def clrPendingMonitor (s : Monitored α) : Monitored α :=
  if s.gPendingMonitorType = -1 ∨ s.pendingTerminate then s
  else { s with gPendingMonitorType := -1 }

def eloopTerminate (s : Monitored α) : Monitored α := { s with terminate := true }

/-- The handler between what is done before and behind it. The exception is assigned to a variable
that is only printed. -/
def callEloopHandler (before behind : Monitored α → Monitored α) (handler : π) :
    Cmd π (Monitored α) ε :=
  .tryCatch (.seq (.act before) (.seq (.call (fun _ => handler)) (.act behind))) (fun _ s => s)
    (.seq (.act eloopTerminate) (.exit (-99)))

def callEloopSockHandler (handler : π) : Cmd π (Monitored α) ε :=
  callEloopHandler (setPendingMonitor 1) clrPendingMonitor handler

def callEloopSignalHandler (handler : π) (sig : Int) : Cmd π (Monitored α) ε :=
  callEloopHandler (if sig ≠ sigint ∧ sig ≠ sigterm then setPendingMonitor 4 else id)
    (if sig ≠ sigint ∧ sig ≠ sigterm then clrPendingMonitor else id) handler

def callEloopTimeoutHandler (handler : π) : Cmd π (Monitored α) ε :=
  callEloopHandler (setPendingMonitor 2) clrPendingMonitor handler

def callEloopEventHandler (handler : π) : Cmd π (Monitored α) ε :=
  callEloopHandler (setPendingMonitor 3) clrPendingMonitor handler

/-- The procedures of a program: the handlers that it registers, and the calls of them. -/
inductive Proc (η : Type*) where
  | handler (h : η)
  | sockCall (h : η)
  | signalCall (h : η) (sig : Int)
  | timeoutCall (h : η)
  | eventCall (h : η)
deriving DecidableEq, Repr

variable {η : Type*}

/-- The handlers may do anything, also run the loop again and so have handlers called. -/
def procs (handlers : η → Cmd (Proc η) (Monitored α) ε) : Proc η → Cmd (Proc η) (Monitored α) ε
  | .handler h => handlers h
  | .sockCall h => callEloopSockHandler (.handler h)
  | .signalCall h sig => callEloopSignalHandler (.handler h) sig
  | .timeoutCall h => callEloopTimeoutHandler (.handler h)
  | .eventCall h => callEloopEventHandler (.handler h)

/-- All but the handlers themselves. -/
def calls : Set (Proc η) := {p | ∀ h, p ≠ .handler h}

variable {handlers : η → Cmd (Proc η) (Monitored α) ε}

theorem contained_procs (p : Proc η) (hp : p ∈ calls) :
    Contained calls (procs (ε := ε) handlers p) := by
  cases p with
  | handler h => exact absurd rfl (hp h)
  | sockCall | signalCall | timeoutCall | eventCall => exact ⟨trivial, trivial⟩

/-- How a call ends is how its handler ends, but for an exception. -/
theorem exec_callEloopHandler_iff {prog : π → Cmd π (Monitored α) ε}
    {before behind : Monitored α → Monitored α} {handler : π} {s s' : Monitored α}
    {o : Outcome ε} :
    Exec .handle prog (callEloopHandler before behind handler) s o s' ↔
      (∃ mid, Exec .handle prog (.call (fun _ => handler)) (before s) .normal mid ∧
        o = .normal ∧ s' = behind mid) ∨
      (∃ e mid, Exec .handle prog (.call (fun _ => handler)) (before s) (.thrown e) mid ∧
        o = .exited (-99) ∧ s' = eloopTerminate mid) ∨
      ∃ code, Exec .handle prog (.call (fun _ => handler)) (before s) (.exited code) s' ∧
        o = .exited code := by
  constructor
  · intro hexec
    -- the Try clause: `before`, the handler, `behind`
    have hclause {o s'} (h : Exec .handle prog (.seq (.act before)
        (.seq (.call (fun _ => handler)) (.act behind))) s o s') :
        (∃ mid, Exec .handle prog (.call (fun _ => handler)) (before s) .normal mid ∧
          o = .normal ∧ s' = behind mid) ∨
        (Exec .handle prog (.call (fun _ => handler)) (before s) o s' ∧ o ≠ .normal) := by
      cases h with
      | seqAbrupt hact ho =>
          cases hact
          exact absurd rfl ho
      | seq hact hrest =>
          cases hact
          cases hrest with
          | seqAbrupt hcall ho => exact .inr ⟨hcall, ho⟩
          | seq hcall hbehind =>
              cases hbehind
              exact .inl ⟨_, hcall, rfl, rfl⟩
    cases hexec with
    | tryDone hbody ho =>
        rcases hclause hbody with hdone | ⟨hcall, habrupt⟩
        · exact .inl hdone
        · cases o with
          | normal => exact absurd rfl habrupt
          | thrown e => exact absurd rfl (ho e)
          | exited code => exact .inr (.inr ⟨code, hcall, rfl⟩)
    | tryHandled _ hbody hcatch =>
        rcases hclause hbody with ⟨_, -, hnormal, -⟩ | ⟨hcall, -⟩
        · cases hnormal
        · cases hcatch with
          | seqAbrupt hact ho =>
              cases hact
              exact absurd rfl ho
          | seq hact hexit =>
              cases hact
              cases hexit
              exact .inr (.inl ⟨_, _, hcall, rfl, rfl⟩)
    | tryAgain hpolicy => cases hpolicy
  · rintro (⟨mid, hcall, rfl, rfl⟩ | ⟨e, mid, hcall, rfl, rfl⟩ | ⟨code, hcall, rfl⟩)
    · exact .tryDone (.seq (.act _ _) (.seq hcall (.act _ _))) (by simp)
    · exact .tryHandled rfl (.seq (.act _ _) (.seqAbrupt hcall (by simp)))
        (.seq (.act _ _) (.exit _ _))
    · exact .tryDone (.seq (.act _ _) (.seqAbrupt hcall (by simp))) (by simp)

/-- A loop that runs its handlers through the calls, or itself in the body of a Try, is left by no
exception, whatever the handlers do and however the loops are nested: its thread comes to its end
or the program exits. -/
theorem yields_of_contained (handlers : η → Cmd (Proc η) (Monitored α) ε)
    (c : Cmd (Proc η) (Monitored α) ε) (hc : Contained calls c) (s s' : Monitored α)
    (caught : Bool) (etmp : ε) (result : Result ε)
    (hyields : Yields (step .handle (procs handlers)) (Thread.start c s caught etmp)
      (result, s')) :
    result = .finished ∨ ∃ code, result = .exited code := by
  obtain ⟨o, hexec, rfl⟩ := (yields_start_iff _ _ c s s' caught etmp result).mp hyields
  cases o with
  | normal => exact .inl rfl
  | thrown e => exact absurd rfl (hexec.not_thrown contained_procs hc e)
  | exited code => exact .inr ⟨code, rfl⟩

/-- A handler whose exception comes out of a nested loop, which has the program exit. -/
theorem yields_of_contained_nested :
    let handlers : Bool → Cmd (Proc Bool) (Monitored Unit) Nat := fun h =>
      if h then .throw (fun _ => 11) else .call (fun _ => .timeoutCall true)
    let s : Monitored Unit := ⟨-1, false, false, ()⟩
    Yields (step .handle (procs handlers))
        (Thread.start (.loop (fun s => !s.terminate) (.call (fun _ => .sockCall false))) s false 0)
        (.exited (-99), ⟨1, false, true, ()⟩) ∧
      (Result.exited (ε := Nat) (-99) = .finished ∨
        ∃ code, Result.exited (ε := Nat) (-99) = .exited code) := by
  intro handlers s
  have hrun : Yields (step .handle (procs handlers))
      (Thread.start (.loop (fun s => !s.terminate) (.call (fun _ => .sockCall false))) s false 0)
      (.exited (-99), ⟨1, false, true, ()⟩) := ⟨20, rfl⟩
  have hcontained : Contained calls
      (.loop (fun s => !s.terminate) (.call (fun _ => .sockCall false)) :
        Cmd (Proc Bool) (Monitored Unit) Nat) := by
    intro _ h
    simp
  exact ⟨hrun, yields_of_contained handlers _ hcontained s _ false 0 _ hrun⟩

/-- A call of a handler ends as the handler would end alone, but that an exception has the loop
terminated and the program exit with -99. -/
theorem yields_callEloopHandler_iff (handlers : η → Cmd (Proc η) (Monitored α) ε)
    (before behind : Monitored α → Monitored α) (h : η) (s s' : Monitored α) (caught : Bool)
    (etmp : ε) (result : Result ε) :
    Yields (step .handle (procs handlers))
        (Thread.start (callEloopHandler before behind (.handler h)) s caught etmp) (result, s') ↔
      (∃ mid, Yields (step .handle (procs handlers))
          (Thread.start (handlers h) (before s) caught etmp) (.finished, mid) ∧
        result = .finished ∧ s' = behind mid) ∨
      (∃ e mid, Yields (step .handle (procs handlers))
          (Thread.start (handlers h) (before s) caught etmp) (.outerJump e, mid) ∧
        result = .exited (-99) ∧ s' = eloopTerminate mid) ∨
      ∃ code, Yields (step .handle (procs handlers))
          (Thread.start (handlers h) (before s) caught etmp) (.exited code, s') ∧
        result = .exited code := by
  have halone {mid : Monitored α} (o : Outcome ε) :
      Yields (step .handle (procs handlers))
          (Thread.start (handlers h) (before s) caught etmp) (resultOf o, mid) ↔
        Exec .handle (procs handlers) (.call (fun _ => Proc.handler h)) (before s) o mid :=
    (yields_resultOf_iff o).trans (exec_call_iff (fun _ => Proc.handler h)).symm
  rw [yields_start_iff]
  simp only [exec_callEloopHandler_iff, ← halone, resultOf]
  constructor
  · rintro ⟨o, ⟨mid, hcall, rfl, rfl⟩ | ⟨e, mid, hcall, rfl, rfl⟩ | ⟨code, hcall, rfl⟩, rfl⟩
    · exact .inl ⟨mid, hcall, rfl, rfl⟩
    · exact .inr (.inl ⟨e, mid, hcall, rfl, rfl⟩)
    · exact .inr (.inr ⟨code, hcall, rfl⟩)
  · rintro (⟨mid, hcall, rfl, rfl⟩ | ⟨e, mid, hcall, rfl, rfl⟩ | ⟨code, hcall, rfl⟩)
    · exact ⟨.normal, .inl ⟨mid, hcall, rfl, rfl⟩, rfl⟩
    · exact ⟨.exited (-99), .inr (.inl ⟨e, mid, hcall, rfl, rfl⟩), rfl⟩
    · exact ⟨.exited code, .inr (.inr ⟨code, hcall, rfl⟩), rfl⟩

end EventLoop.Loop
