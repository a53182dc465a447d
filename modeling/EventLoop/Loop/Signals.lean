import EventLoop.Lib.Runs
import EventLoop.Loop.Dispatch

/-!
`eloop_process_pending_signals` one statement at a time, with `eloop_handle_signal` as an
event that can come between any two of them. The counters are natural numbers: an `int`
that is counted past its maximum has no defined value.
-/

namespace EventLoop.Loop

def sigint : Int := 2

def sigterm : Int := 15

/-- The next statement of a pass. -/
inductive Pc where
  /-- No pass is running. -/
  | idle
  /-- `if (eloop.signaled == 0) return;` -/
  | testSignaled
  /-- `eloop.signaled = 0;` -/
  | clearSignaled
  /-- `if (eloop.pending_terminate)` -/
  | testPending
  /-- `alarm(0);` -/
  | alarmOff
  /-- `eloop.pending_terminate = 0;` -/
  | clearPending
  /-- `i < eloop.signal_count` -/
  | loopHead (i : Nat)
  /-- `if (eloop.signals[i].signaled)` -/
  | testEntry (i : Nat)
  /-- `eloop.signals[i].signaled = 0;` -/
  | clearEntry (i : Nat)
  /-- `eloop.signals[i].handler(...)` -/
  | callHandler (i : Nat)
  /-- The handler is executing. -/
  | inHandler (i : Nat)
deriving DecidableEq, Repr

/-- The arguments of a handler's call. -/
structure SignalCall where
  sig : Int
  handler : Ptr
  userData : Ptr
deriving DecidableEq, Repr

def EloopSignal.call (signal : EloopSignal) : SignalCall :=
  ⟨signal.sig, signal.handler, signal.userData⟩

/-- The signal table with a pass at `pc`; how many passes were started and finished, and
the calls of handlers. -/
structure Signals where
  signals : List EloopSignal
  signaled : Nat
  pendingTerminate : Bool
  alarm : Bool
  pc : Pc
  started : Nat
  finished : Nat
  invoked : List SignalCall
deriving DecidableEq, Repr

def Signals.init : Signals := ⟨[], 0, false, false, .idle, 0, 0, []⟩

/-- `signaled++` of the first entry with that number. -/
def raiseSignal (sig : Int) : List EloopSignal → List EloopSignal
  | [] => []
  | signal :: rest =>
      if signal.sig = sig then { signal with signaled := signal.signaled + 1 } :: rest
      else signal :: raiseSignal sig rest

/-- `eloop_handle_signal` -/
def handleSignal (s : Signals) (sig : Int) : Signals :=
  let s := if (sig = sigint ∨ sig = sigterm) ∧ !s.pendingTerminate then
      { s with pendingTerminate := true, alarm := true }
    else s
  { s with signaled := s.signaled + 1, signals := raiseSignal sig s.signals }

/-- `eloop_register_signal`; `allocated` is what `os_realloc` comes to. -/
def registerSignal (allocated : Bool) (sig : Int) (handler userData : Ptr) (s : Signals) :
    Int × Signals :=
  if allocated then (0, { s with signals := s.signals ++ [⟨sig, userData, handler, 0⟩] })
  else (-1, s)

def Signals.endPass (s : Signals) : Signals := { s with pc := .idle, finished := s.finished + 1 }

/-- The statement at `pc`. -/
def statement (s : Signals) : Option Signals :=
  match s.pc with
  | .idle | .inHandler _ => none
  | .testSignaled => some (if s.signaled = 0 then s.endPass else { s with pc := .clearSignaled })
  | .clearSignaled => some { s with signaled := 0, pc := .testPending }
  | .testPending => some { s with pc := if s.pendingTerminate then .alarmOff else .loopHead 0 }
  | .alarmOff => some { s with alarm := false, pc := .clearPending }
  | .clearPending => some { s with pendingTerminate := false, pc := .loopHead 0 }
  | .loopHead i => some (if i < s.signals.length then { s with pc := .testEntry i } else s.endPass)
  | .testEntry i => (s.signals[i]?).map (fun signal =>
      { s with pc := if signal.signaled = 0 then .loopHead (i + 1) else .clearEntry i })
  | .clearEntry i => (s.signals[i]?).map (fun signal =>
      { s with signals := s.signals.set i { signal with signaled := 0 }, pc := .callHandler i })
  | .callHandler i => (s.signals[i]?).map (fun signal =>
      { s with invoked := s.invoked ++ [signal.call], pc := .inHandler i })

inductive SignalAction where
  | deliver (sig : Int)
  | register (allocated : Bool) (sig : Int) (handler userData : Ptr)
  /-- `eloop_process_pending_signals` is called. -/
  | begin
  | statement
  | handlerReturn
deriving DecidableEq, Repr

/-- A signal can come at any time; the program registers between passes and in handlers. -/
def signalStep (s : Signals) : SignalAction → Option Signals
  | .deliver sig => some (handleSignal s sig)
  | .register allocated sig handler userData =>
      match s.pc with
      | .idle | .inHandler _ => some (registerSignal allocated sig handler userData s).2
      | _ => none
  | .begin => if s.pc = .idle then some { s with pc := .testSignaled, started := s.started + 1 }
      else none
  | .statement => statement s
  | .handlerReturn =>
      match s.pc with
      | .inHandler i => some { s with pc := .loopHead (i + 1) }
      | _ => none

/-- The running pass has yet to come to the entry. -/
def Pc.unvisited (i : Nat) : Pc → Prop
  | .testPending | .alarmOff | .clearPending => True
  | .loopHead j | .testEntry j | .clearEntry j => j ≤ i
  | .callHandler j | .inHandler j => j < i
  | .idle | .testSignaled | .clearSignaled => False

/-- A delivered signal is handed to the handler of its entry by the end of the first pass
that starts after the delivery; a signaled entry that the running pass has not yet to come
to keeps the global counter up. -/
structure NoSignalLost (actions : List SignalAction) (s : Signals) : Prop where
  handled : ∀ before sig after s₀ signal, actions = before ++ .deliver sig :: after →
    Runs.run signalStep .init before = some s₀ →
    s₀.signals.find? (·.sig = sig) = some signal → s₀.started < s.finished →
    signal.call ∈ s.invoked.drop s₀.invoked.length
  covered : ∀ i signal, s.signals[i]? = some signal → 0 < signal.signaled →
    0 < s.signaled ∨ s.pc.unvisited i

/-- A delivery counts up, and changes nothing else of an entry. -/
theorem raiseSignal_get {sig : Int} {signals : List EloopSignal} {i : Nat} {signal : EloopSignal}
    (h : signals[i]? = some signal) :
    ∃ raised : EloopSignal, (raiseSignal sig signals)[i]? = some raised ∧
      raised.call = signal.call ∧ signal.signaled ≤ raised.signaled := by
  induction signals generalizing i with
  | nil => simp at h
  | cons first rest ih =>
      rw [raiseSignal]
      cases i with
      | zero =>
          obtain rfl : first = signal := by simpa using h
          split
          · exact ⟨_, rfl, rfl, Nat.le_succ _⟩
          · exact ⟨_, rfl, rfl, Nat.le_refl _⟩
      | succ i =>
          have hrest : rest[i]? = some signal := by simpa using h
          split
          · exact ⟨signal, hrest, rfl, Nat.le_refl _⟩
          · obtain ⟨raised, hraised, hcall, hle⟩ := ih hrest
            exact ⟨raised, hraised, hcall, hle⟩

/-- The first entry of a signal that is delivered is signaled. -/
theorem raiseSignal_find {sig : Int} {signals : List EloopSignal} {signal : EloopSignal}
    (h : signals.find? (·.sig = sig) = some signal) :
    ∃ i : Nat, ∃ raised : EloopSignal, (raiseSignal sig signals)[i]? = some raised ∧
      raised.call = signal.call ∧ 0 < raised.signaled := by
  induction signals with
  | nil => simp at h
  | cons first rest ih =>
      rw [List.find?_cons] at h
      rw [raiseSignal]
      by_cases hsig : first.sig = sig
      · rw [decide_eq_true hsig] at h
        obtain rfl : first = signal := Option.some.inj h
        rw [if_pos hsig]
        exact ⟨0, _, rfl, rfl, Nat.succ_pos _⟩
      · rw [decide_eq_false hsig] at h
        rw [if_neg hsig]
        obtain ⟨i, raised, hraised, hcall, hpos⟩ := ih h
        exact ⟨i + 1, raised, hraised, hcall, hpos⟩

@[simp] theorem handleSignal_fields (s : Signals) (sig : Int) :
    (handleSignal s sig).signals = raiseSignal sig s.signals ∧
      (handleSignal s sig).signaled = s.signaled + 1 ∧ (handleSignal s sig).pc = s.pc ∧
      (handleSignal s sig).started = s.started ∧ (handleSignal s sig).finished = s.finished ∧
      (handleSignal s sig).invoked = s.invoked := by
  rw [handleSignal]
  split <;> exact ⟨rfl, rfl, rfl, rfl, rfl, rfl⟩

/-- The statements that take the alarm back. -/
def DisarmCases (s s' : Signals) : Prop :=
  (s.pc = .testPending ∧
    s' = { s with pc := if s.pendingTerminate then .alarmOff else .loopHead 0 }) ∨
  (s.pc = .alarmOff ∧ s' = { s with alarm := false, pc := .clearPending }) ∨
  (s.pc = .clearPending ∧ s' = { s with pendingTerminate := false, pc := .loopHead 0 })

/-- Every statement, by the place it is at. -/
theorem statement_cases {s s' : Signals} (h : statement s = some s') :
    (s.pc = .testSignaled ∧ s.signaled = 0 ∧ s' = s.endPass) ∨
    (s.pc = .testSignaled ∧ 0 < s.signaled ∧ s' = { s with pc := .clearSignaled }) ∨
    (s.pc = .clearSignaled ∧ s' = { s with signaled := 0, pc := .testPending }) ∨
    DisarmCases s s' ∨
    (∃ i, s.pc = .loopHead i ∧ i < s.signals.length ∧ s' = { s with pc := .testEntry i }) ∨
    (∃ i, s.pc = .loopHead i ∧ s.signals.length ≤ i ∧ s' = s.endPass) ∨
    (∃ i signal, s.pc = .testEntry i ∧ s.signals[i]? = some signal ∧ signal.signaled = 0 ∧
      s' = { s with pc := .loopHead (i + 1) }) ∨
    (∃ i signal, s.pc = .testEntry i ∧ s.signals[i]? = some signal ∧ 0 < signal.signaled ∧
      s' = { s with pc := .clearEntry i }) ∨
    (∃ i signal, s.pc = .clearEntry i ∧ s.signals[i]? = some signal ∧
      s' = { s with
        signals := s.signals.set i { signal with signaled := 0 }, pc := .callHandler i }) ∨
    (∃ i signal, s.pc = .callHandler i ∧ s.signals[i]? = some signal ∧
      s' = { s with invoked := s.invoked ++ [signal.call], pc := .inHandler i }) := by
  rw [statement] at h
  cases hpc : s.pc with
  | idle | inHandler => simp [hpc] at h
  | testSignaled => grind
  | clearSignaled => grind
  | testPending => grind [DisarmCases]
  | alarmOff => grind [DisarmCases]
  | clearPending => grind [DisarmCases]
  | loopHead i => grind
  | testEntry i => grind
  | clearEntry i => grind
  | callHandler i => grind

theorem DisarmCases.fields {s s' : Signals} (h : DisarmCases s s') :
    (s.pc = .testPending ∨ s.pc = .alarmOff ∨ s.pc = .clearPending) ∧
      s'.signals = s.signals ∧ s'.signaled = s.signaled ∧ s'.started = s.started ∧
      s'.finished = s.finished ∧ s'.invoked = s.invoked ∧
      (s'.pc = .alarmOff ∨ s'.pc = .clearPending ∨ s'.pc = .loopHead 0) := by
  rcases h with ⟨hpc, rfl⟩ | ⟨hpc, rfl⟩ | ⟨hpc, rfl⟩
  · refine ⟨.inl hpc, rfl, rfl, rfl, rfl, rfl, ?_⟩
    cases s.pendingTerminate with
    | true => exact .inl rfl
    | false => exact .inr (.inr rfl)
  · exact ⟨.inr (.inl hpc), rfl, rfl, rfl, rfl, rfl, .inr (.inl rfl)⟩
  · exact ⟨.inr (.inr hpc), rfl, rfl, rfl, rfl, rfl, .inr (.inr rfl)⟩

/-- A pass that was started and is not over is running. -/
def Counted (s : Signals) : Prop :=
  (s.pc = .idle → s.started = s.finished) ∧ (s.pc ≠ .idle → s.started = s.finished + 1)

def Covered (s : Signals) : Prop :=
  ∀ i signal, s.signals[i]? = some signal → 0 < signal.signaled → 0 < s.signaled ∨ s.pc.unvisited i

theorem step_counted (s : Signals) (action : SignalAction) (s' : Signals) (h : Counted s)
    (hstep : signalStep s action = some s') : Counted s' := by
  obtain ⟨hidle, hrunning⟩ := h
  cases action with
  | deliver sig =>
      obtain rfl := Option.some.inj hstep
      obtain ⟨-, -, hpc, hstarted, hfinished, -⟩ := handleSignal_fields s sig
      rw [Counted, hpc, hstarted, hfinished]
      exact ⟨hidle, hrunning⟩
  | register allocated sig handler userData =>
      cases allocated <;> grind [signalStep, registerSignal, Counted]
  | begin => grind [signalStep, Counted]
  | statement =>
      rcases statement_cases hstep with h | h | h | h | h | h | h | h | h | h <;>
        grind [Signals.endPass, Counted, DisarmCases]
  | handlerReturn => grind [signalStep, Counted]

/-- A move within a pass passes no signaled entry. -/
def PassesNone (s s' : Signals) : Prop :=
  ∀ i signal, s.signals[i]? = some signal → 0 < signal.signaled → s.pc.unvisited i →
    s'.pc.unvisited i

theorem Covered.move {s s' : Signals} (h : Covered s) (hsignals : s'.signals = s.signals)
    (hsignaled : s'.signaled = s.signaled) (hpasses : PassesNone s s') : Covered s' := by
  intro i signal hget hpos
  rw [hsignals] at hget
  rw [hsignaled]
  exact (h i signal hget hpos).imp_right (hpasses i signal hget hpos)

/-- Behind the test of an entry that is not signaled the pass is at the next one. -/
theorem passesNone_unsignaled {s : Signals} {j : Nat} {tested : EloopSignal}
    (hpc : s.pc = .testEntry j) (hget : s.signals[j]? = some tested) (hzero : tested.signaled = 0) :
    PassesNone s { s with pc := .loopHead (j + 1) } := by
  intro i signal hsignal hpos hahead
  rw [hpc] at hahead
  refine Nat.lt_of_le_of_ne hahead ?_
  rintro rfl
  obtain rfl : tested = signal := Option.some.inj (hget.symm.trans hsignal)
  exact absurd hzero (Nat.ne_of_gt hpos)

/-- The statements between the test of the global counter and the loop. -/
theorem passesNone_pending {s s' : Signals}
    (hpc' : s'.pc = .alarmOff ∨ s'.pc = .clearPending ∨ s'.pc = .loopHead 0) :
    PassesNone s s' := by
  intro i signal _ _ _
  rcases hpc' with hpc' | hpc' | hpc'
  · rw [hpc']
    trivial
  · rw [hpc']
    trivial
  · rw [hpc']
    exact Nat.zero_le i

/-- The end of the table is behind every entry. -/
theorem not_unvisited_of_length_le {s : Signals} {i j : Nat} {signal : EloopSignal}
    (hpc : s.pc = .loopHead j) (hend : s.signals.length ≤ j) (hget : s.signals[i]? = some signal) :
    ¬ s.pc.unvisited i := by
  rw [hpc]
  intro hahead
  have hlt := (List.getElem?_eq_some_iff.mp hget).1
  exact absurd (Nat.le_trans hend hahead) (Nat.not_le.mpr hlt)

theorem Covered.clearEntry {s : Signals} {j : Nat} {cleared : EloopSignal} (h : Covered s)
    (hpc : s.pc = .clearEntry j) :
    Covered { s with
      signals := s.signals.set j { cleared with signaled := 0 }, pc := .callHandler j } := by
  intro i signal hsignal hpos
  by_cases hij : j = i
  · subst hij
    have hlt : j < s.signals.length := by
      simpa using (List.getElem?_eq_some_iff.mp hsignal).1
    rw [List.getElem?_set_self hlt] at hsignal
    obtain rfl := Option.some.inj hsignal
    exact absurd hpos (Nat.lt_irrefl 0)
  · rw [List.getElem?_set_ne hij] at hsignal
    refine (h i signal hsignal hpos).imp_right ?_
    intro hahead
    rw [hpc] at hahead
    exact Nat.lt_of_le_of_ne hahead hij

theorem step_covered (s : Signals) (action : SignalAction) (s' : Signals) (h : Covered s)
    (hstep : signalStep s action = some s') : Covered s' := by
  cases action with
  | deliver sig =>
      obtain rfl := Option.some.inj hstep
      intro i signal _ _
      left
      rw [(handleSignal_fields s sig).2.1]
      exact Nat.succ_pos _
  | register allocated sig handler userData =>
      cases allocated <;> grind [signalStep, registerSignal, Covered]
  | begin => grind [signalStep, Covered, Pc.unvisited]
  | statement =>
      rcases statement_cases hstep with ⟨hpc, hzero, rfl⟩ | ⟨hpc, hcounter, rfl⟩ | ⟨hpc, rfl⟩ |
        hdisarm | ⟨j, hpc, -, rfl⟩ | ⟨j, hpc, hend, rfl⟩ |
        ⟨j, tested, hpc, hget, hzero, rfl⟩ | ⟨j, tested, hpc, -, -, rfl⟩ |
        ⟨j, cleared, hpc, -, rfl⟩ | ⟨j, called, hpc, -, rfl⟩
      · -- no entry is signaled
        intro i signal hsignal hpos
        refine absurd (h i signal hsignal hpos) ?_
        simp [hpc, hzero, Pc.unvisited]
      · exact fun i signal _ _ => .inl hcounter
      · exact fun i signal _ _ => .inr trivial
      · obtain ⟨-, hsignals, hsignaled, -, -, -, hpc'⟩ := hdisarm.fields
        exact h.move hsignals hsignaled (passesNone_pending hpc')
      · exact h.move rfl rfl (fun i signal _ _ hahead => by rwa [hpc] at hahead)
      · intro i signal hsignal hpos
        exact .inl ((h i signal hsignal hpos).resolve_right
          (not_unvisited_of_length_le hpc hend hsignal))
      · exact h.move rfl rfl (passesNone_unsignaled hpc hget hzero)
      · exact h.move rfl rfl (fun i signal _ _ hahead => by rwa [hpc] at hahead)
      · exact h.clearEntry hpc
      · exact h.move rfl rfl (fun i signal _ _ hahead => by rwa [hpc] at hahead)
  | handlerReturn => grind [signalStep, Covered, Pc.unvisited]

/-- The pass has not cleared the global counter yet. -/
def Pc.early : Pc → Prop
  | .testSignaled | .clearSignaled => True
  | _ => False

/-- No pass from number `base + 1` on is over, and the one that makes the call has still to
come or is on its way to the entry. -/
def Due (base : Nat) (call : SignalCall) (s : Signals) : Prop :=
  s.finished ≤ base ∧ ∃ i signal, s.signals[i]? = some signal ∧ signal.call = call ∧
    ((0 < signal.signaled ∧ 0 < s.signaled ∧ (s.started ≤ base ∨ s.pc.early)) ∨
      (0 < signal.signaled ∧ s.pc.unvisited i) ∨ s.pc = .callHandler i)

/-- The call was made behind the first `made` ones, or is due. -/
structure Owed (base made : Nat) (call : SignalCall) (s : Signals) : Prop where
  counted : Counted s
  behind : made ≤ s.invoked.length
  called : call ∈ s.invoked.drop made ∨ Due base call s

/-- The entry that the call is due for keeps its place when an entry is cleared. -/
theorem Due.clearEntry {base : Nat} {call : SignalCall} {s : Signals} {j : Nat}
    {cleared : EloopSignal} (h : Due base call s) (hpc : s.pc = .clearEntry j)
    (hget : s.signals[j]? = some cleared) :
    Due base call { s with
      signals := s.signals.set j { cleared with signaled := 0 }, pc := .callHandler j } := by
  obtain ⟨hfinished, i, signal, hsignal, hcall, hdue⟩ := h
  rw [hpc] at hdue
  by_cases hij : j = i
  · subst hij
    obtain rfl : cleared = signal := Option.some.inj (hget.symm.trans hsignal)
    have hlt : j < s.signals.length := (List.getElem?_eq_some_iff.mp hget).1
    exact ⟨hfinished, j, { cleared with signaled := 0 }, List.getElem?_set_self hlt, hcall,
      .inr (.inr rfl)⟩
  · refine ⟨hfinished, i, signal, (List.getElem?_set_ne hij).trans hsignal, hcall, ?_⟩
    rcases hdue with ⟨hpos, hcounter, hpass | hearly⟩ | ⟨hpos, hahead⟩ | hat
    · exact .inl ⟨hpos, hcounter, .inl hpass⟩
    · exact absurd hearly (by simp [Pc.early])
    · exact .inr (.inl ⟨hpos, Nat.lt_of_le_of_ne hahead hij⟩)
    · exact absurd hat (by simp)

/-- A move within a pass that does not end it. -/
theorem Due.move {base : Nat} {call : SignalCall} {s s' : Signals} (h : Due base call s)
    (hsignals : s'.signals = s.signals) (hsignaled : s'.signaled = s.signaled)
    (hstarted : s'.started = s.started) (hfinished : s'.finished = s.finished)
    (hearly : s.pc.early → s'.pc.early) (hpasses : PassesNone s s')
    (hcalls : ∀ i, s.pc ≠ .callHandler i) : Due base call s' := by
  obtain ⟨hbefore, i, signal, hsignal, hcall, hdue⟩ := h
  rw [Due, hsignals, hsignaled, hstarted, hfinished]
  refine ⟨hbefore, i, signal, hsignal, hcall, ?_⟩
  rcases hdue with ⟨hpos, hcounter, hpass⟩ | ⟨hpos, hahead⟩ | hat
  · exact .inl ⟨hpos, hcounter, hpass.imp_right hearly⟩
  · exact .inr (.inl ⟨hpos, hpasses i signal hsignal hpos hahead⟩)
  · exact absurd hat (hcalls i)

theorem statement_due {base : Nat} {call : SignalCall} {s s' : Signals} (hcounted : Counted s)
    (h : Due base call s) (hstep : statement s = some s') :
    Due base call s' ∨ s'.invoked = s.invoked ++ [call] := by
  have hdue := h
  obtain ⟨hfinished, i, signal, hsignal, hcall, hcases⟩ := h
  rcases statement_cases hstep with ⟨hpc, hzero, rfl⟩ | ⟨hpc, hcounter, rfl⟩ | ⟨hpc, rfl⟩ |
    hdisarm | ⟨j, hpc, -, rfl⟩ |
    ⟨j, hpc, hend, rfl⟩ | ⟨j, tested, hpc, hget, hzero, rfl⟩ | ⟨j, tested, hpc, -, -, rfl⟩ |
    ⟨j, cleared, hpc, hget, rfl⟩ | ⟨j, called, hpc, hget, rfl⟩
  · -- the counter is zero, and nothing is due
    simp [hpc, hzero, Pc.unvisited] at hcases
  · exact .inl (hdue.move rfl rfl rfl rfl (fun _ => trivial)
      (fun i signal _ _ hahead => by simp [hpc, Pc.unvisited] at hahead) (by simp [hpc]))
  · left
    refine ⟨hfinished, i, signal, hsignal, hcall, .inr (.inl ⟨?_, trivial⟩)⟩
    rcases hcases with ⟨hpos, -⟩ | ⟨hpos, -⟩ | hat
    · exact hpos
    · exact hpos
    · simp [hpc] at hat
  · obtain ⟨hpc, hsignals, hsignaled, hstarted, hfinished', -, hpc'⟩ := hdisarm.fields
    refine .inl (hdue.move hsignals hsignaled hstarted hfinished' ?_ (passesNone_pending hpc') ?_)
    · rcases hpc with hpc | hpc | hpc <;> simp [hpc, Pc.early]
    · rcases hpc with hpc | hpc | hpc <;> simp [hpc]
  · exact .inl (hdue.move rfl rfl rfl rfl (by simp [hpc, Pc.early])
      (fun i signal _ _ hahead => by rwa [hpc] at hahead) (by simp [hpc]))
  · -- the pass that ends is not the one that has to make the call
    left
    have hrunning : s.started = s.finished + 1 := hcounted.2 (by simp [hpc])
    rcases hcases with ⟨hpos, hcounter, hpass | hearly⟩ | ⟨-, hahead⟩ | hat
    · exact ⟨Nat.le_trans (Nat.le_of_eq hrunning.symm) hpass, i, signal, hsignal, hcall,
        .inl ⟨hpos, hcounter, .inl hpass⟩⟩
    · simp [hpc, Pc.early] at hearly
    · exact absurd hahead (not_unvisited_of_length_le hpc hend hsignal)
    · simp [hpc] at hat
  · exact .inl (hdue.move rfl rfl rfl rfl (by simp [hpc, Pc.early])
      (passesNone_unsignaled hpc hget hzero) (by simp [hpc]))
  · exact .inl (hdue.move rfl rfl rfl rfl (by simp [hpc, Pc.early])
      (fun i signal _ _ hahead => by rwa [hpc] at hahead) (by simp [hpc]))
  · exact .inl (hdue.clearEntry hpc hget)
  · rcases hcases with ⟨hpos, hcounter, hpass | hearly⟩ | ⟨hpos, hahead⟩ | hat
    · exact .inl ⟨hfinished, i, signal, hsignal, hcall, .inl ⟨hpos, hcounter, .inl hpass⟩⟩
    · simp [hpc, Pc.early] at hearly
    · rw [hpc] at hahead
      exact .inl ⟨hfinished, i, signal, hsignal, hcall, .inr (.inl ⟨hpos, hahead⟩)⟩
    · obtain rfl : j = i := Pc.callHandler.inj (hpc.symm.trans hat)
      obtain rfl : called = signal := Option.some.inj (hget.symm.trans hsignal)
      exact .inr (by rw [hcall])

theorem step_due {base : Nat} {call : SignalCall} {s s' : Signals} {action : SignalAction}
    (hcounted : Counted s) (h : Due base call s) (hstep : signalStep s action = some s') :
    Due base call s' ∨ s'.invoked = s.invoked ++ [call] := by
  cases action with
  | deliver sig =>
      obtain ⟨hfinished, i, signal, hsignal, hcall, hdue⟩ := h
      obtain rfl := Option.some.inj hstep
      obtain ⟨hsignals, hsignaled, hpc, hstarted, hfinished', -⟩ := handleSignal_fields s sig
      obtain ⟨raised, hraised, hsame, hle⟩ := @raiseSignal_get sig _ _ _ hsignal
      left
      rw [Due, hsignals, hsignaled, hpc, hstarted, hfinished']
      refine ⟨hfinished, i, raised, hraised, hsame.trans hcall, ?_⟩
      rcases hdue with ⟨hpos, -, hpass⟩ | ⟨hpos, hahead⟩ | hat
      · exact .inl ⟨Nat.lt_of_lt_of_le hpos hle, Nat.succ_pos _, hpass⟩
      · exact .inr (.inl ⟨Nat.lt_of_lt_of_le hpos hle, hahead⟩)
      · exact .inr (.inr hat)
  | register allocated sig handler userData =>
      cases allocated <;> grind [signalStep, registerSignal, Due, Pc.early, Pc.unvisited]
  | begin => grind [signalStep, Due, Counted, Pc.early, Pc.unvisited]
  | statement => exact statement_due hcounted h hstep
  | handlerReturn => grind [signalStep, Due, Pc.early, Pc.unvisited]

/-- A step makes at most one call. -/
theorem step_invoked {s s' : Signals} {action : SignalAction}
    (hstep : signalStep s action = some s') :
    s'.invoked = s.invoked ∨ ∃ call, s'.invoked = s.invoked ++ [call] := by
  cases action with
  | deliver sig =>
      obtain rfl := Option.some.inj hstep
      exact .inl (handleSignal_fields s sig).2.2.2.2.2
  | register allocated sig handler userData =>
      cases allocated <;> grind [signalStep, registerSignal]
  | begin => grind [signalStep]
  | statement =>
      rcases statement_cases hstep with h | h | h | h | h | h | h | h | h | h <;>
        grind [Signals.endPass, DisarmCases]
  | handlerReturn => grind [signalStep]

theorem step_owed {base made : Nat} {call : SignalCall} (s : Signals) (action : SignalAction)
    (s' : Signals) (h : Owed base made call s) (hstep : signalStep s action = some s') :
    Owed base made call s' := by
  obtain ⟨hcounted, hbehind, hcalled⟩ := h
  have hinvoked := step_invoked hstep
  refine ⟨step_counted s action s' hcounted hstep, ?_, ?_⟩
  · rcases hinvoked with hsame | ⟨last, hmore⟩
    · rwa [hsame]
    · rw [hmore, List.length_append]
      exact Nat.le_add_right_of_le hbehind
  · rcases hcalled with hmem | hdue
    · left
      rcases hinvoked with hsame | ⟨last, hmore⟩
      · rwa [hsame]
      · rw [hmore, List.drop_append_of_le_length hbehind]
        exact List.mem_append_left _ hmem
    · rcases step_due hcounted hdue hstep with hdue' | hmore
      · exact .inr hdue'
      · left
        rw [hmore, List.drop_append_of_le_length hbehind]
        exact List.mem_append_right _ (List.mem_singleton_self call)

/-- A delivery makes the call of its entry due. -/
theorem owed_deliver {s : Signals} {sig : Int} {signal : EloopSignal} (hcounted : Counted s)
    (hfind : s.signals.find? (·.sig = sig) = some signal) :
    Owed s.started s.invoked.length signal.call (handleSignal s sig) := by
  obtain ⟨hsignals, hsignaled, -, hstarted, hfinished, hinvoked⟩ := handleSignal_fields s sig
  obtain ⟨i, raised, hraised, hcall, hpos⟩ := raiseSignal_find hfind
  have hpasses : s.finished ≤ s.started := by
    by_cases hidle : s.pc = .idle
    · exact Nat.le_of_eq (hcounted.1 hidle).symm
    · exact Nat.le_trans (Nat.le_succ _) (Nat.le_of_eq (hcounted.2 hidle).symm)
  refine ⟨step_counted s (.deliver sig) _ hcounted rfl, Nat.le_of_eq (by rw [hinvoked]),
    .inr ⟨by rwa [hfinished], i, raised, ?_, hcall, .inl ⟨hpos, ?_, .inl ?_⟩⟩⟩
  · rw [hsignals]
    exact hraised
  · rw [hsignaled]
    exact Nat.succ_pos _
  · exact Nat.le_of_eq hstarted

theorem no_signal_lost {actions : List SignalAction} {s : Signals}
    (hrun : Runs.run signalStep .init actions = some s) : NoSignalLost actions s := by
  have hcovered : Covered s :=
    Runs.run_invariant step_covered (by intro i signal h; simp [Signals.init] at h) hrun
  refine ⟨?_, hcovered⟩
  rintro before sig after s₀ signal rfl hbefore hfind hpass
  have hcounted : Counted s₀ :=
    Runs.run_invariant step_counted (by simp [Counted, Signals.init]) hbefore
  obtain ⟨s₁, hs₁, hafter⟩ := Runs.run_append_eq_some.mp hrun
  obtain rfl : s₀ = s₁ := Option.some.inj (hbefore.symm.trans hs₁)
  obtain ⟨s₂, hdeliver, hrest⟩ := Runs.run_cons_eq_some.mp hafter
  obtain rfl : handleSignal s₀ sig = s₂ := Option.some.inj hdeliver
  have howed := Runs.run_invariant step_owed (owed_deliver hcounted hfind) hrest
  rcases howed.called with hcalled | hdue
  · exact hcalled
  · exact absurd hdue.1 (Nat.not_le.mpr hpass)

/-- The second delivery falls between the clearing of the entry and the call. -/
def deliveryBehindClear : List SignalAction :=
  [.register true sigterm 1 2, .deliver sigterm, .begin] ++ List.replicate 8 .statement ++
    [.deliver sigterm, .statement, .handlerReturn, .statement, .begin] ++
    List.replicate 9 .statement ++ [.handlerReturn, .statement]

theorem deliveryBehindClear_run : Runs.run signalStep .init deliveryBehindClear =
    some ⟨[⟨sigterm, 2, 1, 0⟩], 0, false, false, .idle, 2, 2,
      [⟨sigterm, 1, 2⟩, ⟨sigterm, 1, 2⟩]⟩ := by
  decide

theorem deliveryBehindClear_kept :
    NoSignalLost deliveryBehindClear
      ⟨[⟨sigterm, 2, 1, 0⟩], 0, false, false, .idle, 2, 2,
        [⟨sigterm, 1, 2⟩, ⟨sigterm, 1, 2⟩]⟩ :=
  no_signal_lost deliveryBehindClear_run

end EventLoop.Loop
