import EventLoop.Lib.Runs
import EventLoop.Loop.LateEntries
import EventLoop.Timer.ClockStep

/-!
One iteration of `eloop_run` and the age of the registrations it dispatches to.
Signal handlers, the timer handler and earlier passes run between the building
of the descriptor sets and a pass; a descriptor that one of them registers anew
finds the old readiness bit set.
-/

namespace EventLoop.Loop

/-- `times` and `os_get_time`. -/
structure ClockReading where
  ticks : Int64
  time : OsTime
deriving DecidableEq, Repr

/-- What one iteration meets: the clocks, the result of `pselect` with the
descriptors it leaves in each set, and whether `errno` is `EINTR` or 0. -/
structure Turn where
  previous : ClockReading
  beforeSelect : ClockReading
  afterSelect : ClockReading
  res : Int
  selected : EventType → Int → Bool
  errnoIgnored : Bool
  now : OsTime

/-- The condition of the `while` loop. -/
def loopContinues (s : Eloop) : Bool :=
  !s.tmpTerminate && !s.terminate &&
    (!s.timeout.isEmpty || !s.socks.readers.table.isEmpty || !s.socks.writers.table.isEmpty ||
      !s.socks.exceptions.table.isEmpty)

def timeChange (previous current : ClockReading) (s : Eloop) : Eloop :=
  { s with
    timeout := eloopTimeChangeAuto current.ticks previous.ticks current.time previous.time
      s.timeout }

/-- `eloop_sock_table_set_fds` -/
def setFds (table : SockTable) (sock : Int) : Bool := table.table.any (·.sock == sock)

/-- The sets behind `pselect`, which only ever clears bits. -/
def readyFds (turn : Turn) (s : Eloop) (type : EventType) (sock : Int) : Bool :=
  setFds (s.sockTable type) sock && turn.selected type sock

/-- One turn of the loop of `eloop_process_pending_signals`. -/
def processSignal (script : Script) (s : Eloop) (i : Nat) : Eloop :=
  match s.signals[i]? with
  | none => s
  | some signal =>
      if signal.signaled = 0 then s
      else runHandler script { s with signals := s.signals.set i { signal with signaled := 0 } }

def processPendingSignals (script : Script) (s : Eloop) : Eloop :=
  if s.signaled = 0 then s
  else (List.range s.signals.length).foldl (processSignal script)
    { s with signaled := 0, pendingTerminate := false }

/-- The head of the timer list, if it is due, is unlinked and its handler runs. -/
def checkTimeouts (script : Script) (now : OsTime) (s : Eloop) : Eloop :=
  match s.timeout with
  | [] => s
  | tmp :: next =>
      if osTimeBefore now tmp.time then s else runHandler script { s with timeout := next }

/-- The iteration up to the passes, and whether it comes to them. -/
def beforePasses (script : Script) (turn : Turn) (s : Eloop) : Eloop × Bool :=
  let s := { s with invoked := [] }
  if loopContinues s then
    let s := timeChange turn.beforeSelect turn.afterSelect
      (timeChange turn.previous turn.beforeSelect s)
    if turn.res < 0 ∧ !turn.errnoIgnored then (s, false)
    else (checkTimeouts script turn.now (processPendingSignals script s), 0 < turn.res)
  else (s, false)

def iteration (script : Script) (turn : Turn) (s : Eloop) : Eloop :=
  let fds := readyFds turn s
  let prepared := beforePasses script turn s
  if prepared.2 then
    let s := eloopSockTableDispatch script (fds .read) .read prepared.1
    let s := eloopSockTableDispatch script (fds .write) .write s
    eloopSockTableDispatch script (fds .exception) .exception s
  else prepared.1

/-- Every handler invoked by the passes belongs to a registration that was there
when the sets were built and whose descriptor was reported ready. -/
def NoStaleReadiness (turn : Turn) (s s' : Eloop) : Prop :=
  ∀ call ∈ s'.invoked,
    call.2 ∈ (s.sockTable call.1).table ∧ turn.selected call.1 call.2.sock = true

def EloopSignal.pending (signal : EloopSignal) : Bool := signal.signaled ≠ 0

/-- The signals that are pending behind `pselect`, if none comes in later. -/
def pendingSignals (s : Eloop) : Nat :=
  if s.signaled = 0 then 0 else s.signals.countP EloopSignal.pending

/-- The timers, and the block of the next, behind calls. -/
def timersBehind (calls : List Call) (timers : Nat × List EloopTimeout) :
    Nat × List EloopTimeout :=
  calls.foldl (fun timers call =>
    match call with
    | .registerTimeout now secs usecs handler eloopData userData =>
        (timers.1 + 1, linkTimeout
          ⟨timers.1, expiry now secs usecs, eloopData, userData, false, handler⟩ timers.2)
    | .cancelTimeout handler eloopData userData =>
        (timers.1, timers.2.filter (fun t => !matchesTimeout handler eloopData userData t))
    | _ => timers) timers

/-- The first timer is due, behind the two clock readings and the handlers of the signals. -/
def timerDue (script : Script) (turn : Turn) (s : Eloop) : Bool :=
  let timeout := eloopTimeChangeAuto turn.afterSelect.ticks turn.beforeSelect.ticks
    turn.afterSelect.time turn.beforeSelect.time
    (eloopTimeChangeAuto turn.beforeSelect.ticks turn.previous.ticks turn.beforeSelect.time
      turn.previous.time s.timeout)
  let calls := handlerCalls script s.calls (pendingSignals s)
  (timersBehind calls (s.blocks, timeout)).2.head?.any (fun tmp => !osTimeBefore turn.now tmp.time)

/-- The handlers that run before the passes. -/
def handlersBefore (script : Script) (turn : Turn) (s : Eloop) : Nat :=
  pendingSignals s + (timerDue script turn s).toNat

/-- The iteration comes to its passes. -/
def ComesToPasses (turn : Turn) (s : Eloop) : Prop :=
  loopContinues s = true ∧ 0 < turn.res

/-- In each of the three passes no late entry has its turn. -/
def LateNeverReached (script : Script) (turn : Turn) (s : Eloop) : Prop :=
  let fds := readyFds turn s
  let readers := handlersBefore script turn s
  let writers := readers + oldInvoked script (fds .read) .read s readers
  let exceptions := writers + oldInvoked script (fds .write) .write s writers
  ComesToPasses turn s →
    LateKeptOut script (fds .read) .read s readers ∧
      LateKeptOut script (fds .write) .write s writers ∧
        LateKeptOut script (fds .exception) .exception s exceptions

theorem processSignal_invoked (script : Script) (s : Eloop) (i : Nat) :
    (processSignal script s i).invoked = s.invoked := by
  rw [processSignal]
  split
  · rfl
  · split
    · rfl
    · rw [runHandler_invoked]

theorem processPendingSignals_invoked (script : Script) (s : Eloop) :
    (processPendingSignals script s).invoked = s.invoked := by
  have hloop (indices : List Nat) (s : Eloop) :
      (indices.foldl (processSignal script) s).invoked = s.invoked := by
    induction indices generalizing s with
    | nil => rfl
    | cons i rest ih => rw [List.foldl_cons, ih, processSignal_invoked]
  rw [processPendingSignals]
  split
  · rfl
  · exact hloop _ _

theorem checkTimeouts_invoked (script : Script) (now : OsTime) (s : Eloop) :
    (checkTimeouts script now s).invoked = s.invoked := by
  rw [checkTimeouts]
  split
  · rfl
  · split
    · rfl
    · rw [runHandler_invoked]

theorem beforePasses_invoked (script : Script) (turn : Turn) (s : Eloop) :
    (beforePasses script turn s).1.invoked = [] := by
  rw [beforePasses]
  split
  · split
    · rfl
    · rw [checkTimeouts_invoked, processPendingSignals_invoked]
      rfl
  · rfl

@[simp] theorem performCall_signals (s : Eloop) (call : Call) :
    (performCall s call).signals = s.signals := by
  cases call <;> rfl

@[simp] theorem runHandler_signals (script : Script) (s : Eloop) :
    (runHandler script s).signals = s.signals := by
  have hloop (calls : List Call) (s : Eloop) : (calls.foldl performCall s).signals = s.signals := by
    induction calls generalizing s with
    | nil => rfl
    | cons call rest ih => rw [List.foldl_cons, ih, performCall_signals]
  exact hloop _ _

theorem foldl_performCall_timers (calls : List Call) (s : Eloop) :
    ((calls.foldl performCall s).blocks, (calls.foldl performCall s).timeout) =
      timersBehind calls (s.blocks, s.timeout) := by
  induction calls generalizing s with
  | nil => rfl
  | cons call rest ih =>
      rw [List.foldl_cons, ih]
      cases call <;> rfl

theorem timersBehind_append (front back : List Call) (timers : Nat × List EloopTimeout) :
    timersBehind (front ++ back) timers = timersBehind back (timersBehind front timers) :=
  List.foldl_append

theorem runHandler_timers (script : Script) (s : Eloop) :
    ((runHandler script s).blocks, (runHandler script s).timeout) =
      timersBehind (script s.calls) (s.blocks, s.timeout) :=
  foldl_performCall_timers (script s.calls) { s with calls := s.calls + 1 }

/-- What the handlers of the signals have made of the loop when `i` of them have been looked at. -/
structure SignalsServed (script : Script) (start : Eloop) (i : Nat) (s : Eloop) : Prop where
  signals : s.signals.drop i = start.signals.drop i
  ran : Ran script start s ((start.signals.take i).countP EloopSignal.pending)
  timers : (s.blocks, s.timeout) = timersBehind
    (handlerCalls script start.calls
      ((start.signals.take i).countP EloopSignal.pending))
    (start.blocks, start.timeout)

theorem SignalsServed.next {script : Script} {start s : Eloop} {i : Nat}
    (h : SignalsServed script start i s) (hi : i < start.signals.length) :
    SignalsServed script start (i + 1) (processSignal script s i) := by
  have htake : start.signals.take (i + 1) = start.signals.take i ++ [start.signals[i]] :=
    List.take_succ_eq_append_getElem hi
  have hget : s.signals[i]? = some start.signals[i] := by
    have hhead := congrArg List.head? h.signals
    rwa [List.head?_drop, List.head?_drop, List.getElem?_eq_getElem hi] at hhead
  have hdrop : s.signals.drop (i + 1) = start.signals.drop (i + 1) := by
    simpa [List.drop_drop] using congrArg (List.drop 1) h.signals
  rw [processSignal, hget]
  dsimp only
  split
  · rename_i hclear
    have hcount : (start.signals.take (i + 1)).countP EloopSignal.pending =
        (start.signals.take i).countP EloopSignal.pending := by
      have hnot : ¬ start.signals[i].pending = true := by simp [EloopSignal.pending, hclear]
      rw [htake, List.countP_append, List.countP_singleton, if_neg hnot, Nat.add_zero]
    exact ⟨hdrop, hcount ▸ h.ran, hcount ▸ h.timers⟩
  · rename_i hsignaled
    let served := { s with signals := s.signals.set i { start.signals[i] with signaled := 0 } }
    have hran : Ran script start served _ := ⟨h.ran.calls, h.ran.since⟩
    have hcount : (start.signals.take (i + 1)).countP EloopSignal.pending =
        (start.signals.take i).countP EloopSignal.pending + 1 := by
      have hpending : start.signals[i].pending = true := by simp [EloopSignal.pending, hsignaled]
      rw [htake, List.countP_append, List.countP_singleton, if_pos hpending]
    constructor
    · rw [runHandler_signals, ← hdrop]
      exact List.drop_set_of_lt (Nat.lt_succ_self i)
    · rw [hcount]
      exact hran.handler
    · rw [hcount, handlerCalls_succ, timersBehind_append, ← h.timers, ← h.ran.calls]
      exact runHandler_timers script served

theorem processPendingSignals_served (script : Script) (s : Eloop) :
    Ran script s (processPendingSignals script s) (pendingSignals s) ∧
      ((processPendingSignals script s).blocks, (processPendingSignals script s).timeout) =
        timersBehind (handlerCalls script s.calls (pendingSignals s)) (s.blocks, s.timeout) := by
  have hrefl (start : Eloop) (hsocks : start.socks = s.socks) (hcalls : start.calls = s.calls) :
      Ran script s start 0 := ⟨hcalls, fun type => by rw [hsocks]; exact .refl type _⟩
  rw [processPendingSignals, pendingSignals]
  split
  · exact ⟨hrefl s rfl rfl, rfl⟩
  · let cleared := { s with signaled := 0, pendingTerminate := false }
    have hloop : ∀ i ≤ s.signals.length,
        SignalsServed script s i ((List.range i).foldl (processSignal script) cleared) := by
      intro i hi
      induction i with
      | zero => exact ⟨rfl, hrefl cleared rfl rfl, rfl⟩
      | succ i ih =>
          rw [List.range_succ, List.foldl_append]
          exact (ih (Nat.le_of_succ_le hi)).next hi
    have hserved := hloop s.signals.length (Nat.le_refl _)
    have hran := hserved.ran
    have htimers := hserved.timers
    rw [List.take_length] at hran htimers
    exact ⟨hran, htimers⟩

theorem checkTimeouts_ran {script : Script} {start s : Eloop} {count : Nat} (now : OsTime)
    (h : Ran script start s count) :
    Ran script start (checkTimeouts script now s)
      (count + (s.timeout.head?.any (fun tmp => !osTimeBefore now tmp.time)).toNat) := by
  rw [checkTimeouts]
  cases htimeout : s.timeout with
  | nil => exact h
  | cons tmp next =>
      cases hbefore : osTimeBefore now tmp.time with
      | true => simpa [hbefore] using h
      | false =>
          simpa [hbefore] using
            Ran.handler (s := { s with timeout := next }) ⟨h.calls, h.since⟩

theorem beforePasses_ran {script : Script} {turn : Turn} {s : Eloop} :
    ((beforePasses script turn s).2 = true ↔ ComesToPasses turn s) ∧
      (ComesToPasses turn s →
        Ran script s (beforePasses script turn s).1 (handlersBefore script turn s)) := by
  rw [beforePasses, ComesToPasses]
  have hsame : loopContinues { s with invoked := [] } = loopContinues s := rfl
  dsimp only
  rw [hsame]
  cases hcontinues : loopContinues s with
  | false => simp
  | true =>
      rw [if_pos rfl]
      split
      · rename_i herror
        exact ⟨by simp; omega, fun h => absurd h.2 (by omega)⟩
      · refine ⟨by simp, fun _ => ?_⟩
        let clocked := timeChange turn.beforeSelect turn.afterSelect
          (timeChange turn.previous turn.beforeSelect { s with invoked := [] })
        obtain ⟨hran, htimers⟩ := processPendingSignals_served script clocked
        have htimeout : (processPendingSignals script clocked).timeout =
            (timersBehind (handlerCalls script s.calls (pendingSignals s))
              (s.blocks, clocked.timeout)).2 := congrArg Prod.snd htimers
        have hsignals : Ran script s (processPendingSignals script clocked) (pendingSignals s) :=
          ⟨hran.calls, hran.since⟩
        have hchecked := checkTimeouts_ran turn.now hsignals
        rw [htimeout] at hchecked
        exact hchecked

/-- What the program does to the loop: calls of its own, and iterations of `eloop_run`. -/
inductive Action where
  | call (call : Call)
  | iteration (turn : Turn)

def step (script : Script) (s : Eloop) : Action → Option Eloop
  | .call call => some (performCall s call)
  | .iteration turn => some (iteration script turn s)

/-- What every call keeps, and the clearing of a flag, a run keeps. -/
structure KeptByCalls (P : Socks → Prop) : Prop where
  call : ∀ s call, P s.socks → P (performCall s call).socks
  clear : ∀ socks type, P socks →
    P (socks.setSockTable type ⟨(socks.getSockTable type).table, false⟩)

section

variable {P : Socks → Prop} (hP : KeptByCalls P) (script : Script)
include hP

theorem runHandler_kept (s : Eloop) (h : P s.socks) : P (runHandler script s).socks := by
  have hloop (calls : List Call) (s : Eloop) (h : P s.socks) :
      P (calls.foldl performCall s).socks := by
    induction calls generalizing s with
    | nil => exact h
    | cons call rest ih => exact ih _ (hP.call s call h)
  exact hloop _ _ h

theorem dispatch_kept {s : Eloop} (fds : Int → Bool) (type : EventType) (h : P s.socks) :
    P (eloopSockTableDispatch script fds type s).socks := by
  rw [eloopSockTableDispatch_eq_foldl]
  refine List.foldlRecOn (motive := fun s : Eloop => P s.socks) _ _ (hP.clear s.socks type h) ?_
  intro s hs ready _
  exact runHandler_kept hP script { s with invoked := s.invoked ++ [(type, ready.1)] } hs

theorem processPendingSignals_kept {s : Eloop} (h : P s.socks) :
    P (processPendingSignals script s).socks := by
  have hloop (indices : List Nat) (s : Eloop) (h : P s.socks) :
      P (indices.foldl (processSignal script) s).socks := by
    induction indices generalizing s with
    | nil => exact h
    | cons i rest ih =>
        apply ih
        rw [processSignal]
        split
        · exact h
        · split
          · exact h
          · exact runHandler_kept hP script _ h
  rw [processPendingSignals]
  split
  · exact h
  · exact hloop _ _ h

theorem checkTimeouts_kept {s : Eloop} (now : OsTime) (h : P s.socks) :
    P (checkTimeouts script now s).socks := by
  rw [checkTimeouts]
  split
  · exact h
  · split
    · exact h
    · exact runHandler_kept hP script _ h

theorem beforePasses_kept {s : Eloop} (turn : Turn) (h : P s.socks) :
    P (beforePasses script turn s).1.socks := by
  rw [beforePasses]
  split
  · split
    · exact h
    · apply checkTimeouts_kept hP script
      apply processPendingSignals_kept hP script
      exact h
  · exact h

theorem iteration_kept {s : Eloop} (turn : Turn) (h : P s.socks) :
    P (iteration script turn s).socks := by
  have hbefore := beforePasses_kept hP script turn h
  rw [iteration]
  dsimp only
  split
  · apply dispatch_kept hP script
    apply dispatch_kept hP script
    exact dispatch_kept hP script _ _ hbefore
  · exact hbefore

theorem run_kept {actions : List Action} {s : Eloop} (hinit : P .init)
    (hrun : Runs.run (step script) .init actions = some s) : P s.socks := by
  refine @Runs.run_invariant _ _ (step script) (fun s => P s.socks) ?_ _ _ _ hinit hrun
  intro s action s' h hstep
  cases action with
  | call call =>
      obtain rfl := Option.some.inj hstep
      exact hP.call s call h
  | iteration turn =>
      obtain rfl := Option.some.inj hstep
      exact iteration_kept hP script turn h

end

/-- The registrations in force. -/
def Socks.registered (s : Socks) : List (EventType × EloopSock) :=
  s.readers.table.map (Prod.mk .read) ++ (s.writers.table.map (Prod.mk .write) ++
    s.exceptions.table.map (Prod.mk .exception))

theorem mem_registered {s : Socks} {type : EventType} {entry : EloopSock} :
    (type, entry) ∈ s.registered ↔ entry ∈ (s.getSockTable type).table := by
  cases type <;> simp [Socks.registered, Socks.getSockTable]

/-- No two registrations in force have the same number, and none has a number to come. -/
structure Numbered (s : Socks) : Prop where
  nodup : (s.registered.map (fun entry => entry.2.registration)).Nodup
  lt : ∀ entry ∈ s.registered, entry.2.registration < s.registrations

theorem Numbered.register {s : Socks} (h : Numbered s) (sock : Int) (type : EventType)
    (handler eloopData userData : Ptr) :
    Numbered (registerSock true sock type handler eloopData userData s).2 := by
  let entry : EventType × EloopSock := (type, ⟨sock, eloopData, userData, handler, s.registrations⟩)
  have hperm : (registerSock true sock type handler eloopData userData s).2.registered.Perm
      (entry :: s.registered) := by
    have hmiddle (first second : List (EventType × EloopSock)) :
        (first ++ entry :: second).Perm (entry :: (first ++ second)) := List.perm_middle
    cases type with
    | read =>
        have hread := hmiddle (s.readers.table.map (Prod.mk .read))
          (s.writers.table.map (Prod.mk .write) ++ s.exceptions.table.map (Prod.mk .exception))
        have heq : (registerSock true sock .read handler eloopData userData s).2.registered =
            s.readers.table.map (Prod.mk .read) ++ entry ::
              (s.writers.table.map (Prod.mk .write) ++
                s.exceptions.table.map (Prod.mk .exception)) := by
          simp [registerSock, Socks.registered, Socks.setSockTable, Socks.getSockTable, entry]
        rw [heq]
        exact hread
    | write =>
        have hwrite := hmiddle
          (s.readers.table.map (Prod.mk .read) ++ s.writers.table.map (Prod.mk .write))
          (s.exceptions.table.map (Prod.mk .exception))
        have heq : (registerSock true sock .write handler eloopData userData s).2.registered =
            s.readers.table.map (Prod.mk .read) ++ s.writers.table.map (Prod.mk .write) ++
              entry :: s.exceptions.table.map (Prod.mk .exception) := by
          simp [registerSock, Socks.registered, Socks.setSockTable, Socks.getSockTable, entry]
        rw [heq, Socks.registered, ← List.append_assoc]
        exact hwrite
    | exception =>
        simpa [registerSock, Socks.registered, Socks.setSockTable, Socks.getSockTable] using
          hmiddle s.registered []
  have hnext : (registerSock true sock type handler eloopData userData s).2.registrations =
      s.registrations + 1 := by
    cases type <;> rfl
  constructor
  · apply (hperm.map _).nodup_iff.mpr
    apply List.nodup_cons.mpr
    refine ⟨?_, h.nodup⟩
    intro hmem
    obtain ⟨old, hold, hnumber⟩ := List.mem_map.mp hmem
    exact absurd hnumber (h.lt old hold).ne
  · intro other hother
    rw [hnext]
    rcases List.mem_cons.mp (hperm.mem_iff.mp hother) with rfl | hold
    · exact Nat.lt_succ_self _
    · exact Nat.lt_succ_of_lt (h.lt other hold)

theorem removeSock_sublist (sock : Int) (table : SockTable) :
    (removeSock sock table).table.Sublist table.table := by
  rw [removeSock_table]
  exact List.eraseP_sublist

theorem Numbered.unregister {s : Socks} (h : Numbered s) (sock : Int) (type : EventType) :
    Numbered (unregisterSock sock type s) := by
  have hsublist : (unregisterSock sock type s).registered.Sublist s.registered := by
    have hremoved := (removeSock_sublist sock (s.getSockTable type)).map (Prod.mk type)
    cases type with
    | read => exact hremoved.append_right _
    | write => exact (hremoved.append_right _).append_left _
    | exception => exact (hremoved.append_left _).append_left _
  have hsame : (unregisterSock sock type s).registrations = s.registrations := by
    cases type <;> rfl
  constructor
  · exact h.nodup.sublist (hsublist.map _)
  · intro entry hentry
    rw [hsame]
    exact h.lt entry (hsublist.subset hentry)

theorem numbered_kept : KeptByCalls Numbered where
  call := by
    intro s call h
    cases call with
    | registerSock allocated sock type handler eloopData userData =>
        cases allocated with
        | false => exact h
        | true => exact h.register sock type handler eloopData userData
    | unregisterSock sock type => exact h.unregister sock type
    | registerTimeout | cancelTimeout | terminate | tmpTerminate => exact h
  clear := by
    intro socks type h
    cases type <;> exact ⟨h.nodup, h.lt⟩

variable {script : Script} {start s : Eloop} {count : Nat}

/-- A pass is left to the old entries exactly if the late ones are kept out, and then it invokes so
many. -/
theorem pass_fresh_iff (turn : Turn) (type : EventType) (hstart : Numbered start.socks)
    (h : Ran script start s count) :
    ((∀ call ∈ (passed script (readyFds turn start type) type (s.sockTable type).table
        (s.sockTable type).table s.calls).map (fun ready => (type, ready.1)),
      call.2 ∈ (start.sockTable call.1).table ∧ turn.selected call.1 call.2.sock = true) ↔
    LateKeptOut script (readyFds turn start type) type start count) ∧
    (LateKeptOut script (readyFds turn start type) type start count →
      (passed script (readyFds turn start type) type (s.sockTable type).table
        (s.sockTable type).table s.calls).length =
          oldInvoked script (readyFds turn start type) type start count) := by
  obtain ⟨late, hpassed, hnew, hnone⟩ := h.passed_eq (readyFds turn start type) type
  have hold : ∀ ready ∈ keptReady script (readyFds turn start type) type start count,
      ready.1 ∈ (start.sockTable type).table ∧ turn.selected type ready.1.sock = true := by
    intro ready hready
    obtain ⟨hkept, hfds⟩ := List.mem_filter.mp (List.fst_mem_of_mem_zipIdx hready)
    exact ⟨(keptEntries_sublist _ _ _).subset hkept, (Bool.and_eq_true_iff.mp hfds).2⟩
  have hlate : ∀ ready ∈ late, ready.1 ∉ (start.sockTable type).table := by
    intro ready hready hmem
    exact absurd (hstart.lt (type, ready.1) (mem_registered.mpr hmem))
      (Nat.not_lt.mpr (hnew ready hready))
  have hends : LateKeptOut script (readyFds turn start type) type start count ↔
      (keptReady script (readyFds turn start type) type start count).any
        (endsPass script type start count) = true ∨ late = [] := by
    rw [LateKeptOut, hnone, List.any_eq_true]
  rw [hends, hpassed, List.forall_mem_map]
  split
  · rename_i hany
    refine ⟨iff_of_true ?_ (.inl hany), fun _ => rfl⟩
    exact fun ready hready => hold ready (mem_of_mem_throughStop hready)
  · rename_i hany
    rw [or_iff_right hany]
    constructor
    · constructor
      · intro hfresh
        rw [← throughStop_eq_nil (endsPass script type start count)]
        apply List.eq_nil_iff_forall_not_mem.mpr
        intro ready hready
        exact hlate ready (mem_of_mem_throughStop hready)
          (hfresh ready (List.mem_append_right _ hready)).1
      · rintro rfl ready hready
        exact hold ready (by simpa [throughStop] using hready)
    · rintro rfl
      have hgo : ∀ ready ∈ keptReady script (readyFds turn start type) type start count,
          endsPass script type start count ready = false := by simpa using hany
      rw [oldInvoked, throughStop_eq_self hgo]
      simp [throughStop]

/-- No handler is invoked on an old readiness bit if and only if in each pass the entries that
came in since the sets were built are kept from their turn: none of them has its bit set, or an
older entry with its bit set has a handler that changes the table. -/
theorem no_stale_readiness_iff (script : Script) (turn : Turn) (s : Eloop)
    (hnumbered : Numbered s.socks) :
    NoStaleReadiness turn s (iteration script turn s) ↔ LateNeverReached script turn s := by
  obtain ⟨hcomes, hran⟩ := @beforePasses_ran script turn s
  rw [NoStaleReadiness, iteration, LateNeverReached]
  dsimp only
  have hnone := beforePasses_invoked script turn s
  cases hpasses : (beforePasses script turn s).2 with
  | false =>
      have hnot : ¬ ComesToPasses turn s := by simp [← hcomes, hpasses]
      simp [hnone, hnot]
  | true =>
      have hcome := hcomes.mp hpasses
      -- what the three passes start from
      have hreaders := hran hcome
      have hwriters := hreaders.pass (readyFds turn s .read) .read
      have hexceptions := hwriters.pass (readyFds turn s .write) .write
      obtain ⟨hread, hreadCount⟩ := pass_fresh_iff turn .read hnumbered hreaders
      obtain ⟨hwrite, hwriteCount⟩ :=
        pass_fresh_iff turn .write hnumbered hwriters
      have hexception :=
        (pass_fresh_iff turn .exception hnumbered hexceptions).1
      rw [if_pos rfl, eloopSockTableDispatch_invoked, eloopSockTableDispatch_invoked,
        eloopSockTableDispatch_invoked, hnone, List.nil_append, List.forall_mem_append,
        List.forall_mem_append, hread, hwrite, hexception, and_assoc]
      constructor
      · rintro ⟨hfirst, hsecond, hthird⟩ -
        rw [hreadCount hfirst] at hsecond hthird
        rw [hreadCount hfirst] at hwriteCount
        rw [hwriteCount hsecond] at hthird
        exact ⟨hfirst, hsecond, hthird⟩
      · intro h
        obtain ⟨hfirst, hsecond, hthird⟩ := h hcome
        rw [hreadCount hfirst] at hwriteCount ⊢
        refine ⟨hfirst, hsecond, ?_⟩
        rw [hwriteCount hsecond]
        exact hthird

/-- Descriptors 4 and 5 are registered for reading, and a timer is due. -/
def twoRegistered : Eloop :=
  { Eloop.init with
    socks :=
      { Socks.init with
        maxSock := 5
        readers := ⟨[⟨4, 12, 13, 4, 0⟩, ⟨5, 10, 11, 1, 1⟩], true⟩
        registrations := 2 }
    timeout := [⟨0, ⟨100, 0⟩, 20, 21, false, 2⟩]
    blocks := 1 }

/-- The timer handler renews descriptor 5, and the handler of descriptor 4 closes its own. -/
def reopenAndClose : Script
  | 0 => [.unregisterSock 5 .read, .registerSock true 5 .read 3 30 31]
  | 1 => [.unregisterSock 4 .read]
  | _ => []

/-- `pselect` reports both descriptors readable. -/
def readableBoth : Turn :=
  ⟨⟨1, ⟨100, 0⟩⟩, ⟨2, ⟨100, 10000⟩⟩, ⟨3, ⟨100, 20000⟩⟩, 2,
    fun type sock => type == .read && (sock == 4 || sock == 5), false, ⟨100, 20000⟩⟩

theorem reopened_kept_out :
    LateNeverReached reopenAndClose readableBoth twoRegistered ∧
      NoStaleReadiness readableBoth twoRegistered
        (iteration reopenAndClose readableBoth twoRegistered) := by
  have hnumbered : Numbered twoRegistered.socks := ⟨by decide, by decide⟩
  have hlate : LateNeverReached reopenAndClose readableBoth twoRegistered := by
    have hbefore : handlersBefore reopenAndClose readableBoth twoRegistered = 1 := rfl
    have hnone (type : EventType) (htype : (type == .read) = false) (count : Nat) :
        LateKeptOut reopenAndClose (readyFds readableBoth twoRegistered type) type twoRegistered
          count := by
      right
      intro sock hfds
      simp [readyFds, readableBoth, htype] at hfds
    rw [LateNeverReached, hbefore]
    intro _
    refine ⟨.inl ⟨(⟨4, 12, 13, 4, 0⟩, 1), by decide, by decide⟩, hnone .write rfl _,
      hnone .exception rfl _⟩
  exact ⟨hlate, (no_stale_readiness_iff _ _ _ hnumbered).mpr hlate⟩

/-- In every run a registration in force is known by its number. -/
theorem registration_identifies (script : Script) {actions : List Action} {s : Eloop}
    (hrun : Runs.run (step script) .init actions = some s) {type type' : EventType}
    {entry entry' : EloopSock} (hentry : entry ∈ (s.sockTable type).table)
    (hentry' : entry' ∈ (s.sockTable type').table)
    (hnumber : entry.registration = entry'.registration) : type = type' ∧ entry = entry' := by
  have hnumbered := run_kept numbered_kept script ⟨by simp [Socks.registered, Socks.init],
    by simp [Socks.registered, Socks.init]⟩ hrun
  have hpair := List.inj_on_of_nodup_map hnumbered.nodup (mem_registered.mpr hentry)
    (mem_registered.mpr hentry') hnumber
  exact Prod.mk.inj hpair

/-- Descriptor 5 is registered for reading and a timer is due at once. -/
def reusedDescriptor : List Action :=
  [.call (.registerSock true 5 .read 1 10 11), .call (.registerTimeout ⟨100, 0⟩ 0 0 2 20 21)]

/-- The timer handler closes descriptor 5 and registers the new descriptor 5. -/
def reopen : Script
  | 0 => [.unregisterSock 5 .read, .registerSock true 5 .read 3 30 31]
  | _ => []

/-- `pselect` reports descriptor 5 readable. -/
def readableFive : Turn :=
  ⟨⟨1, ⟨100, 0⟩⟩, ⟨2, ⟨100, 10000⟩⟩, ⟨3, ⟨100, 20000⟩⟩, 1,
    fun type sock => type == .read && sock == 5, false, ⟨100, 20000⟩⟩

theorem reused_descriptor_dispatched :
    ∃ s, Runs.run (step reopen) .init reusedDescriptor = some s ∧
      (iteration reopen readableFive s).invoked = [(.read, ⟨5, 30, 31, 3, 1⟩)] ∧
      ¬ NoStaleReadiness readableFive s (iteration reopen readableFive s) := by
  have hexpiry : expiry ⟨100, 0⟩ 0 0 = ⟨100, 0⟩ := by simp [expiry, carryUsec]
  refine ⟨{ Eloop.init with
    socks := { Socks.init with
      maxSock := 5, readers := ⟨[⟨5, 10, 11, 1, 0⟩], true⟩, registrations := 1 }
    timeout := [⟨0, ⟨100, 0⟩, 20, 21, false, 2⟩]
    blocks := 1 }, ?_, rfl, ?_⟩
  · simp only [Runs.run, reusedDescriptor, step, performCall, Option.bind_some, hexpiry]
    rfl
  · intro hfresh
    have hpresent := (hfresh (.read, ⟨5, 30, 31, 3, 1⟩) (List.mem_singleton_self _)).1
    exact absurd hpresent (by decide)

end EventLoop.Loop
