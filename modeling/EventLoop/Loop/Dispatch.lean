import EventLoop.Lib.ThroughStop
import EventLoop.Loop.SockTable

/-!
Handlers and one pass of `eloop_sock_table_dispatch`. What the handlers do is a
script: its n-th entry is the list of calls that the n-th handler invocation
makes. A pass invokes the ready entries in table order, through the first one
whose handler changes that table.
-/

namespace EventLoop.Loop

structure EloopSignal where
  sig : Int
  userData : Ptr
  handler : Ptr
  signaled : Nat
deriving DecidableEq, Repr

/-- `calls` counts the handler invocations; `invoked` records those of the passes
of the current iteration. -/
structure Eloop where
  socks : Socks
  timeout : List EloopTimeout
  blocks : Nat
  signals : List EloopSignal
  signaled : Nat
  pendingTerminate : Bool
  terminate : Bool
  tmpTerminate : Bool
  calls : Nat
  invoked : List (EventType × EloopSock)
deriving DecidableEq, Repr

def Eloop.init : Eloop := ⟨.init, [], 0, [], 0, false, false, false, 0, []⟩

/-- The calls of the interface that a handler can make. -/
inductive Call where
  | registerSock (allocated : Bool) (sock : Int) (type : EventType)
      (handler eloopData userData : Ptr)
  | unregisterSock (sock : Int) (type : EventType)
  | registerTimeout (now : OsTime) (secs usecs : UInt32) (handler eloopData userData : Ptr)
  | cancelTimeout (handler eloopData userData : Ptr)
  | terminate
  | tmpTerminate (value : Bool)
deriving DecidableEq, Repr

def performCall (s : Eloop) : Call → Eloop
  | .registerSock allocated sock type handler eloopData userData =>
      { s with socks := (registerSock allocated sock type handler eloopData userData s.socks).2 }
  | .unregisterSock sock type => { s with socks := unregisterSock sock type s.socks }
  | .registerTimeout now secs usecs handler eloopData userData =>
      { s with
        timeout := linkTimeout
          ⟨s.blocks, expiry now secs usecs, eloopData, userData, false, handler⟩ s.timeout
        blocks := s.blocks + 1 }
  | .cancelTimeout handler eloopData userData =>
      { s with
        timeout := s.timeout.filter (fun t => !matchesTimeout handler eloopData userData t) }
  | .terminate => { s with terminate := true }
  | .tmpTerminate value => { s with tmpTerminate := value }

abbrev Script := Nat → List Call

/-- The next handler invocation. -/
def runHandler (script : Script) (s : Eloop) : Eloop :=
  (script s.calls).foldl performCall { s with calls := s.calls + 1 }

def Eloop.sockTable (s : Eloop) (type : EventType) : SockTable := s.socks.getSockTable type

/-- The loop of `eloop_sock_table_dispatch` from index `i`. -/
def dispatchLoop (script : Script) (fds : Int → Bool) (type : EventType) :
    Nat → Nat → Eloop → Eloop
  | 0, _, s => s
  | fuel + 1, i, s =>
      match (s.sockTable type).table[i]? with
      | none => s
      | some entry =>
          if fds entry.sock then
            let s := runHandler script { s with invoked := s.invoked ++ [(type, entry)] }
            if (s.sockTable type).changed then s
            else dispatchLoop script fds type fuel (i + 1) s
          else dispatchLoop script fds type fuel (i + 1) s

/-- One turn for each entry and one to see the end. -/
def eloopSockTableDispatch (script : Script) (fds : Int → Bool) (type : EventType)
    (s : Eloop) : Eloop :=
  let s := { s with socks := s.socks.setSockTable type ⟨(s.sockTable type).table, false⟩ }
  dispatchLoop script fds type ((s.sockTable type).table.length + 1) 0 s

/-- The call adds to the table of this type or removes from it. -/
def touches (type : EventType) (table : List EloopSock) : Call → Bool
  | .registerSock allocated _ type' _ _ _ => allocated && type' = type
  | .unregisterSock sock type' => type' = type && table.any (·.sock == sock)
  | _ => false

@[simp] theorem performCall_calls (s : Eloop) (call : Call) :
    (performCall s call).calls = s.calls := by
  cases call <;> rfl

@[simp] theorem performCall_invoked (s : Eloop) (call : Call) :
    (performCall s call).invoked = s.invoked := by
  cases call <;> rfl

theorem performCall_untouched {s : Eloop} {type : EventType} {call : Call}
    (h : touches type (s.sockTable type).table call = false) :
    (performCall s call).sockTable type = s.sockTable type := by
  cases call with
  | registerSock allocated sock type' handler eloopData userData =>
      cases allocated with
      | false => rfl
      | true =>
          have hne : type ≠ type' := fun heq => by simp [touches, heq] at h
          exact getSockTable_registerSock_of_ne true sock hne _ _ _ _
  | unregisterSock sock type' =>
      by_cases heq : type' = type
      · subst heq
        have hnone : (s.sockTable type').table.any (·.sock == sock) = false := by
          simpa [touches] using h
        apply (getSockTable_unregisterSock_self sock type' s.socks).trans
        exact if_neg (by rw [← Eloop.sockTable, hnone]; simp)
      · exact getSockTable_unregisterSock_of_ne sock (Ne.symm heq) _
  | registerTimeout | cancelTimeout | terminate | tmpTerminate => rfl

theorem performCall_touched {s : Eloop} {type : EventType} {call : Call}
    (h : touches type (s.sockTable type).table call = true) :
    ((performCall s call).sockTable type).changed = true := by
  cases call with
  | registerSock allocated sock type' handler eloopData userData =>
      obtain ⟨rfl, rfl⟩ : allocated = true ∧ type' = type := by simpa [touches] using h
      exact congrArg SockTable.changed (getSockTable_registerSock_self sock type' _ _ _ _)
  | unregisterSock sock type' =>
      have hboth : type' = type ∧ (s.sockTable type).table.any (·.sock == sock) = true := by
        simpa [touches] using h
      obtain ⟨rfl, hsome⟩ := hboth
      have hremoved : removeSock sock (s.sockTable type') = _ := if_pos hsome
      exact congrArg SockTable.changed
        ((getSockTable_unregisterSock_self sock type' s.socks).trans hremoved)
  | registerTimeout | cancelTimeout | terminate | tmpTerminate => simp [touches] at h

/-- Only the dispatch pass clears the flag. -/
theorem performCall_changed {s : Eloop} {type : EventType} (call : Call)
    (h : (s.sockTable type).changed = true) :
    ((performCall s call).sockTable type).changed = true := by
  cases htouches : touches type (s.sockTable type).table call with
  | true => exact performCall_touched htouches
  | false => rw [performCall_untouched htouches, h]

@[simp] theorem foldl_performCall_calls (calls : List Call) (s : Eloop) :
    (calls.foldl performCall s).calls = s.calls := by
  induction calls generalizing s with
  | nil => rfl
  | cons call rest ih => rw [List.foldl_cons, ih, performCall_calls]

@[simp] theorem foldl_performCall_invoked (calls : List Call) (s : Eloop) :
    (calls.foldl performCall s).invoked = s.invoked := by
  induction calls generalizing s with
  | nil => rfl
  | cons call rest ih => rw [List.foldl_cons, ih, performCall_invoked]

theorem foldl_performCall_changed {type : EventType} (calls : List Call) {s : Eloop}
    (h : (s.sockTable type).changed = true) :
    ((calls.foldl performCall s).sockTable type).changed = true := by
  induction calls generalizing s with
  | nil => exact h
  | cons call rest ih => exact ih (performCall_changed call h)

/-- Calls that touch nothing leave the table, and one that touches it sets the flag. -/
theorem foldl_performCall_sockTable {type : EventType} (calls : List Call) (s : Eloop) :
    (calls.any (touches type (s.sockTable type).table) = false →
      (calls.foldl performCall s).sockTable type = s.sockTable type) ∧
    (calls.any (touches type (s.sockTable type).table) = true →
      ((calls.foldl performCall s).sockTable type).changed = true) := by
  induction calls generalizing s with
  | nil => exact ⟨fun _ => rfl, by simp⟩
  | cons call rest ih =>
      rw [List.any_cons, List.foldl_cons]
      cases htouches : touches type (s.sockTable type).table call with
      | true =>
          refine ⟨by simp, fun _ => ?_⟩
          exact foldl_performCall_changed rest (performCall_touched htouches)
      | false =>
          have hrest := ih (performCall s call)
          rw [performCall_untouched htouches] at hrest
          simpa using hrest

@[simp] theorem runHandler_calls (script : Script) (s : Eloop) :
    (runHandler script s).calls = s.calls + 1 :=
  foldl_performCall_calls _ _

@[simp] theorem runHandler_invoked (script : Script) (s : Eloop) :
    (runHandler script s).invoked = s.invoked :=
  foldl_performCall_invoked _ _

/-- The handler invocation with this number changes the table. -/
def handlerTouches (script : Script) (type : EventType) (table : List EloopSock) (call : Nat) :
    Bool :=
  (script call).any (touches type table)

theorem runHandler_untouched {script : Script} (s : Eloop) {type : EventType}
    (h : handlerTouches script type (s.sockTable type).table s.calls = false) :
    (runHandler script s).sockTable type = s.sockTable type :=
  (foldl_performCall_sockTable (script s.calls) { s with calls := s.calls + 1 }).1 h

theorem runHandler_touched {script : Script} (s : Eloop) {type : EventType}
    (h : handlerTouches script type (s.sockTable type).table s.calls = true) :
    ((runHandler script s).sockTable type).changed = true :=
  (foldl_performCall_sockTable (script s.calls) { s with calls := s.calls + 1 }).2 h

/-- The ready entries with the numbers their handler invocations would have if none
changed the table. -/
def readyCalls (fds : Int → Bool) (table : List EloopSock) (calls : Nat) :
    List (EloopSock × Nat) :=
  (table.filter (fun entry => fds entry.sock)).zipIdx calls

/-- The entries that a pass from `table` invokes. -/
def passed (script : Script) (fds : Int → Bool) (type : EventType) (table entries : List EloopSock)
    (calls : Nat) : List (EloopSock × Nat) :=
  throughStop (fun ready => handlerTouches script type table ready.2)
    (readyCalls fds entries calls)

theorem passed_cons_of_ready {script : Script} {fds : Int → Bool} {type : EventType}
    {table : List EloopSock} {entry : EloopSock} (h : fds entry.sock = true)
    (entries : List EloopSock) (calls : Nat) :
    passed script fds type table (entry :: entries) calls =
      if handlerTouches script type table calls then [(entry, calls)]
      else (entry, calls) :: passed script fds type table entries (calls + 1) := by
  rw [passed, readyCalls, List.filter_cons, if_pos h, List.zipIdx_cons, throughStop]
  rfl

theorem passed_cons_of_not_ready {script : Script} {fds : Int → Bool} {type : EventType}
    {table : List EloopSock} {entry : EloopSock} (h : fds entry.sock = false)
    (entries : List EloopSock) (calls : Nat) :
    passed script fds type table (entry :: entries) calls =
      passed script fds type table entries calls := by
  rw [passed, readyCalls, List.filter_cons, if_neg (by simp [h])]
  rfl

/-- The handler of a ready entry. -/
def runReady (script : Script) (type : EventType) (s : Eloop) (ready : EloopSock × Nat) : Eloop :=
  runHandler script { s with invoked := s.invoked ++ [(type, ready.1)] }

theorem foldl_runReady_invoked (script : Script) (type : EventType)
    (entries : List (EloopSock × Nat)) (s : Eloop) :
    (entries.foldl (runReady script type) s).invoked =
      s.invoked ++ entries.map (fun ready => (type, ready.1)) := by
  induction entries generalizing s with
  | nil => simp
  | cons ready rest ih => simp [ih, runReady]

/-- The loop is nothing but the handlers of the entries that it passes. -/
theorem dispatchLoop_eq_foldl (script : Script) (fds : Int → Bool) (type : EventType)
    (fuel i : Nat) (s : Eloop) (hclear : (s.sockTable type).changed = false)
    (hfuel : (s.sockTable type).table.length < fuel + i) :
    dispatchLoop script fds type fuel i s =
      (passed script fds type (s.sockTable type).table ((s.sockTable type).table.drop i)
        s.calls).foldl (runReady script type) s := by
  induction fuel generalizing i s with
  | zero =>
      have hdrop : (s.sockTable type).table.drop i = [] := List.drop_eq_nil_of_le (by omega)
      rw [hdrop]
      rfl
  | succ fuel ih =>
      cases hentry : (s.sockTable type).table[i]? with
      | none =>
          have hdrop : (s.sockTable type).table.drop i = [] :=
            List.drop_eq_nil_of_le (List.getElem?_eq_none_iff.mp hentry)
          rw [dispatchLoop, hentry, hdrop]
          rfl
      | some entry =>
          obtain ⟨hi, hget⟩ := List.getElem?_eq_some_iff.mp hentry
          have hdrop : (s.sockTable type).table.drop i =
              entry :: (s.sockTable type).table.drop (i + 1) := by
            rw [← hget, List.drop_eq_getElem_cons hi]
          rw [dispatchLoop, hentry, hdrop]
          dsimp only
          cases hready : fds entry.sock with
          | false =>
              rw [if_neg (by simp), ih (i + 1) s hclear (by omega)]
              rw [passed_cons_of_not_ready hready]
          | true =>
              rw [if_pos rfl]
              rw [passed_cons_of_ready hready]
              have htable : ({ s with invoked := s.invoked ++ [(type, entry)] } : Eloop).sockTable
                  type = s.sockTable type := rfl
              cases htouches :
                  handlerTouches script type (s.sockTable type).table s.calls with
              | true =>
                  have hchanged := runHandler_touched
                    { s with invoked := s.invoked ++ [(type, entry)] } htouches
                  rw [if_pos hchanged]
                  rfl
              | false =>
                  have hsame := runHandler_untouched
                    { s with invoked := s.invoked ++ [(type, entry)] } htouches
                  rw [htable] at hsame
                  rw [if_neg (by simp [hsame, hclear]), ih (i + 1) _ (by rw [hsame, hclear])
                    (by rw [hsame]; omega), hsame, runHandler_calls]
                  rfl

theorem eloopSockTableDispatch_eq_foldl (script : Script) (fds : Int → Bool) (type : EventType)
    (s : Eloop) :
    eloopSockTableDispatch script fds type s =
      (passed script fds type (s.sockTable type).table (s.sockTable type).table s.calls).foldl
        (runReady script type)
        { s with socks := s.socks.setSockTable type ⟨(s.sockTable type).table, false⟩ } := by
  have hcleared : ({ s with
      socks := s.socks.setSockTable type ⟨(s.sockTable type).table, false⟩ } : Eloop).sockTable
        type = ⟨(s.sockTable type).table, false⟩ := getSockTable_setSockTable_self _ _ _
  rw [eloopSockTableDispatch,
    dispatchLoop_eq_foldl _ _ _ _ _ _ (by rw [hcleared]) (by rw [hcleared]; simp), hcleared,
    List.drop_zero]

/-- A pass invokes the ready entries in table order, through the first whose handler
changes the table. -/
theorem eloopSockTableDispatch_invoked (script : Script) (fds : Int → Bool) (type : EventType)
    (s : Eloop) :
    (eloopSockTableDispatch script fds type s).invoked = s.invoked ++
      (passed script fds type (s.sockTable type).table (s.sockTable type).table s.calls).map
        (fun ready => (type, ready.1)) := by
  rw [eloopSockTableDispatch_eq_foldl, foldl_runReady_invoked]

/-- The reads of the loop: the index and the count of the table at that moment. -/
def dispatchLoopReads (script : Script) (fds : Int → Bool) (type : EventType) :
    Nat → Nat → Eloop → List (Nat × Nat)
  | 0, _, _ => []
  | fuel + 1, i, s =>
      if i < (s.sockTable type).table.length then
        (i, (s.sockTable type).table.length) ::
          match (s.sockTable type).table[i]? with
          | none => []
          | some entry =>
              if fds entry.sock then
                let s := runHandler script { s with invoked := s.invoked ++ [(type, entry)] }
                if (s.sockTable type).changed then []
                else dispatchLoopReads script fds type fuel (i + 1) s
              else dispatchLoopReads script fds type fuel (i + 1) s
      else []

/-- The body of the loop. -/
def dispatchEntry (script : Script) (fds : Int → Bool) (type : EventType) (s : Eloop)
    (read : Nat × Nat) : Eloop :=
  match (s.sockTable type).table[read.1]? with
  | none => s
  | some entry =>
      if fds entry.sock then
        runHandler script { s with invoked := s.invoked ++ [(type, entry)] }
      else s

/-- The loop does its body at the indices that it reads, and nothing else. -/
theorem dispatchLoop_eq_reads (script : Script) (fds : Int → Bool) (type : EventType)
    (fuel i : Nat) (s : Eloop) :
    dispatchLoop script fds type fuel i s =
      (dispatchLoopReads script fds type fuel i s).foldl (dispatchEntry script fds type) s := by
  induction fuel generalizing i s with
  | zero => rfl
  | succ fuel ih =>
      rw [dispatchLoop, dispatchLoopReads]
      cases hentry : (s.sockTable type).table[i]? with
      | none =>
          rw [if_neg (Nat.not_lt.mpr (List.getElem?_eq_none_iff.mp hentry))]
          rfl
      | some entry =>
          rw [if_pos (List.getElem?_eq_some_iff.mp hentry).1, List.foldl_cons]
          simp only [dispatchEntry, hentry]
          split
          · split
            · rfl
            · exact ih (i + 1) _
          · exact ih (i + 1) s

def eloopSockTableDispatchReads (script : Script) (fds : Int → Bool) (type : EventType)
    (s : Eloop) : List (Nat × Nat) :=
  let s := { s with socks := s.socks.setSockTable type ⟨(s.sockTable type).table, false⟩ }
  dispatchLoopReads script fds type ((s.sockTable type).table.length + 1) 0 s

/-- One of the calls, made in order, leaves other entries in the table. -/
def changesTable (type : EventType) : Eloop → List Call → Bool
  | _, [] => false
  | s, call :: rest =>
      decide (((performCall s call).sockTable type).table ≠ (s.sockTable type).table) ||
        changesTable type (performCall s call) rest

/-- The state after so many handlers. -/
def handlersRun (script : Script) (s : Eloop) : Nat → Eloop
  | 0 => s
  | k + 1 => runHandler script (handlersRun script s k)

/-- The handler with this number, behind the others, adds to the table or removes from it. -/
def HandlerChanges (script : Script) (type : EventType) (s : Eloop) (k : Nat) : Prop :=
  changesTable type (handlersRun script s k) (script (s.calls + k)) = true

/-- The entries of the table whose descriptor bit is set, with their indices. -/
def readyEntries (fds : Int → Bool) (table : List EloopSock) : List (EloopSock × Nat) :=
  table.zipIdx.filter (fun ready => fds ready.1.sock)

theorem readyEntries_sorted (fds : Int → Bool) (table : List EloopSock) :
    (readyEntries fds table).Pairwise (fun a b => a.2 < b.2) := by
  apply List.Pairwise.filter
  have hindices : (table.zipIdx.map Prod.snd).Pairwise (· < ·) := by
    rw [List.zipIdx_map_snd]
    exact List.pairwise_lt_range'
  exact List.pairwise_map.mp hindices

theorem readyEntries_map_fst (fds : Int → Bool) (table : List EloopSock) :
    (readyEntries fds table).map Prod.fst = table.filter (fun entry => fds entry.sock) := by
  conv_rhs => rw [← List.zipIdx_map_fst 0 table, List.filter_map]
  rfl

theorem performCall_table_ne_iff {s : Eloop} {type : EventType} {call : Call} :
    ((performCall s call).sockTable type).table ≠ (s.sockTable type).table ↔
      touches type (s.sockTable type).table call = true := by
  constructor
  · intro hne
    cases htouches : touches type (s.sockTable type).table call with
    | true => rfl
    | false => exact absurd (congrArg SockTable.table (performCall_untouched htouches)) hne
  · intro htouches hsame
    have hlength := congrArg List.length hsame
    cases call with
    | registerSock allocated sock type' handler eloopData userData =>
        obtain ⟨rfl, rfl⟩ : allocated = true ∧ type' = type := by simpa [touches] using htouches
        have hself := getSockTable_registerSock_self sock type' handler eloopData userData s.socks
        rw [Eloop.sockTable, performCall, hself, List.length_append] at hlength
        exact absurd hlength (by simp [Eloop.sockTable])
    | unregisterSock sock type' =>
        have hboth : type' = type ∧ (s.sockTable type).table.any (·.sock == sock) = true := by
          simpa [touches] using htouches
        obtain ⟨rfl, hsome⟩ := hboth
        obtain ⟨entry, hentry, hsock⟩ := List.any_eq_true.mp hsome
        have herase : ((s.sockTable type').table.eraseP (·.sock == sock)).length =
            (s.sockTable type').table.length - 1 := List.length_eraseP_of_mem hentry hsock
        have hpos := List.length_pos_of_mem hentry
        rw [Eloop.sockTable, performCall, getSockTable_unregisterSock_self, removeSock_table,
          ← Eloop.sockTable, herase] at hlength
        omega
    | registerTimeout | cancelTimeout | terminate | tmpTerminate => simp [touches] at htouches

theorem changesTable_eq (type : EventType) (s : Eloop) (calls : List Call) :
    changesTable type s calls = calls.any (touches type (s.sockTable type).table) := by
  induction calls generalizing s with
  | nil => rfl
  | cons call rest ih =>
      rw [changesTable, List.any_cons, ih]
      cases htouches : touches type (s.sockTable type).table call with
      | true => rw [decide_eq_true (performCall_table_ne_iff.mpr htouches), Bool.true_or, Bool.true_or]
      | false =>
          rw [performCall_untouched htouches]
          simp

theorem handlersRun_calls (script : Script) (s : Eloop) (k : Nat) :
    (handlersRun script s k).calls = s.calls + k := by
  induction k with
  | zero => rfl
  | succ k ih => rw [handlersRun, runHandler_calls, ih, Nat.add_assoc]

/-- Up to the first handler that touches the table, it stays as it was. -/
theorem handlersRun_untouched {script : Script} {type : EventType} {s : Eloop} {k : Nat}
    (h : ∀ j < k, handlerTouches script type (s.sockTable type).table (s.calls + j) = false) :
    (handlersRun script s k).sockTable type = s.sockTable type := by
  induction k with
  | zero => rfl
  | succ k ih =>
      have hbefore := ih (fun j hj => h j (Nat.lt_succ_of_lt hj))
      rw [handlersRun, runHandler_untouched, hbefore]
      rw [hbefore, handlersRun_calls]
      exact h k (Nat.lt_succ_self k)

theorem handlerChanges_iff {script : Script} {type : EventType} {s : Eloop} {k : Nat}
    (h : ∀ j < k, handlerTouches script type (s.sockTable type).table (s.calls + j) = false) :
    HandlerChanges script type s k ↔
      handlerTouches script type (s.sockTable type).table (s.calls + k) = true := by
  rw [HandlerChanges, changesTable_eq, handlersRun_untouched h, handlerTouches]

theorem dispatchLoopReads_lt (script : Script) (fds : Int → Bool) (type : EventType)
    (fuel i : Nat) (s : Eloop) :
    ∀ read ∈ dispatchLoopReads script fds type fuel i s, read.1 < read.2 := by
  induction fuel generalizing i s with
  | zero => simp [dispatchLoopReads]
  | succ fuel ih =>
      rw [dispatchLoopReads]
      split
      · rename_i hin
        refine List.forall_mem_cons.mpr ⟨hin, ?_⟩
        split
        · simp
        · split
          · dsimp only
            split
            · simp
            · exact ih (i + 1) _
          · exact ih (i + 1) s
      · simp

/-- A pass invokes the first `n` ready entries, in the order of their indices: none of their
handlers but the last changes the table, and the last does unless all are invoked. Every
entry is read below the count. -/
theorem dispatch_pass (script : Script) (fds : Int → Bool) (type : EventType) (s : Eloop) :
    (readyEntries fds (s.sockTable type).table).Pairwise (fun a b => a.2 < b.2) ∧
    (∃ n ≤ (readyEntries fds (s.sockTable type).table).length,
      (eloopSockTableDispatch script fds type s).invoked = s.invoked ++
        ((readyEntries fds (s.sockTable type).table).take n).map (fun ready => (type, ready.1)) ∧
      (∀ k, k + 1 < n → ¬ HandlerChanges script type s k) ∧
      (n < (readyEntries fds (s.sockTable type).table).length →
        ∃ k, n = k + 1 ∧ HandlerChanges script type s k)) ∧
    ∀ read ∈ eloopSockTableDispatchReads script fds type s, read.1 < read.2 := by
  refine ⟨readyEntries_sorted fds _, ?_, dispatchLoopReads_lt script fds type _ _ _⟩
  obtain ⟨n, hn, htake, hgo, hlast⟩ := @exists_take_throughStop _
    (fun ready => handlerTouches script type (s.sockTable type).table ready.2)
    (readyCalls fds (s.sockTable type).table s.calls)
  have hlength : (readyCalls fds (s.sockTable type).table s.calls).length =
      (readyEntries fds (s.sockTable type).table).length := by
    rw [readyCalls, List.length_zipIdx, ← readyEntries_map_fst, List.length_map]
  have hcall {k : Nat} (hk : k < (readyCalls fds (s.sockTable type).table s.calls).length) :
      (readyCalls fds (s.sockTable type).table s.calls)[k].2 = s.calls + k := by
    simp [readyCalls]
  have huntouched {k : Nat} (hk : k + 1 < n) :
      handlerTouches script type (s.sockTable type).table (s.calls + k) = false := by
    have hin : k < (readyCalls fds (s.sockTable type).table s.calls).length := by omega
    rw [← hcall hin]
    exact hgo k hin hk
  refine ⟨n, by rwa [← hlength], ?_, ?_, ?_⟩
  · rw [eloopSockTableDispatch_invoked, passed, htake]
    have hsame : (readyCalls fds (s.sockTable type).table s.calls).map Prod.fst =
        (readyEntries fds (s.sockTable type).table).map Prod.fst := by
      rw [readyCalls, List.zipIdx_map_fst, readyEntries_map_fst]
    have hpaired := congrArg (List.map (fun entry => (type, entry))) hsame
    rw [List.map_map, List.map_map] at hpaired
    rw [List.map_take, List.map_take]
    exact congrArg (fun invoked => s.invoked ++ invoked.take n) hpaired
  · intro k hk
    rw [handlerChanges_iff (fun j hj => huntouched (by omega)), huntouched hk]
    simp
  · intro hless
    obtain ⟨k, hk, rfl, hend⟩ := hlast (by rwa [hlength])
    refine ⟨k, rfl, ?_⟩
    rw [handlerChanges_iff (fun j hj => huntouched (by omega)), ← hcall hk]
    exact hend

end EventLoop.Loop
