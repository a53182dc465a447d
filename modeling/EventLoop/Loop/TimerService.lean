import EventLoop.Loop.Readiness

/-!
How long a timer that is due can wait: an iteration runs the handler of at most one timer, the
first of the list.
-/

namespace EventLoop.Loop

/-- By how much the clock is off the time that the ticks since the last reading predict. -/
def believedError (previous current : ClockReading) : Int :=
  current.time.micros -
    (previous.time.micros + clockdiff current.ticks previous.ticks * 10000)

/-- The clock is not taken to have been set. -/
structure Turn.Steady (turn : Turn) : Prop where
  normal : turn.previous.time.Normal ∧ turn.beforeSelect.time.Normal ∧
    turn.afterSelect.time.Normal
  before : (believedError turn.previous turn.beforeSelect).natAbs ≤ 900000
  after : (believedError turn.beforeSelect turn.afterSelect).natAbs ≤ 900000

theorem timeChange_of_small {previous current : ClockReading} (hprevious : previous.time.Normal)
    (hcurrent : current.time.Normal) (h : (believedError previous current).natAbs ≤ 900000)
    (s : Eloop) : timeChange previous current s = s := by
  have hcases := eloopTimeChangeAuto_cases current.ticks previous.ticks current.time hcurrent
    hprevious s.timeout
  rcases hcases with ⟨-, hsame⟩ | ⟨hlarge, -⟩
  · rw [timeChange, hsame]
  · rw [believedError] at h
    omega

/-- What the timer check of an iteration finds, if the iteration comes to it. -/
def beforeTimeouts (script : Script) (turn : Turn) (s : Eloop) : Option Eloop :=
  let s := { s with invoked := [] }
  if loopContinues s then
    let s := timeChange turn.beforeSelect turn.afterSelect
      (timeChange turn.previous turn.beforeSelect s)
    if turn.res < 0 ∧ !turn.errnoIgnored then none
    else some (processPendingSignals script s)
  else none

/-- The timer whose handler an iteration runs. -/
def servedTimer (script : Script) (turn : Turn) (s : Eloop) : Option EloopTimeout :=
  (beforeTimeouts script turn s).bind fun s =>
    match s.timeout with
    | [] => none
    | tmp :: _ => if osTimeBefore turn.now tmp.time then none else some tmp

/-- The loop after so many iterations. -/
def runTurns (script : Script) (turns : Nat → Turn) (s : Eloop) : Nat → Eloop
  | 0 => s
  | n + 1 => iteration script (turns n) (runTurns script turns s n)

/-- The call does not cancel the timer, and registers others only when the timer is due. -/
def Call.LeavesDue (t : EloopTimeout) : Call → Prop
  | .registerTimeout now _ _ _ _ _ => now.Normal ∧ t.time.micros ≤ now.micros
  | .cancelTimeout handler eloopData userData => matchesTimeout handler eloopData userData t = false
  | _ => True

instance (t : EloopTimeout) : DecidablePred (Call.LeavesDue t)
  | .registerTimeout .. => inferInstanceAs (Decidable (_ ∧ _))
  | .cancelTimeout .. => inferInstanceAs (Decidable (_ = _))
  | .registerSock .. | .unregisterSock .. | .terminate | .tmpTerminate .. => isTrue trivial

/-- The timer stands behind at most `k` others, and none of them expires later. -/
def StandsWithin (t : EloopTimeout) (k : Nat) (timeout : List EloopTimeout) : Prop :=
  ∃ front back, timeout = front ++ t :: back ∧ front.length ≤ k ∧ ∀ u ∈ front, u.key ≤ t.key

theorem linkTimeout_append {u : EloopTimeout} {front : List EloopTimeout}
    (back : List EloopTimeout) (h : ∀ v ∈ front, v.key ≤ u.key) :
    linkTimeout u (front ++ back) = front ++ linkTimeout u back := by
  induction front with
  | nil => rfl
  | cons v front ih =>
      obtain ⟨hv, hfront⟩ := List.forall_mem_cons.mp h
      have hbehind : ¬ osTimeBefore u.time v.time = true := by
        rw [osTimeBefore_iff]
        exact not_lt.mpr hv
      rw [List.cons_append, linkTimeout, if_neg hbehind, ih hfront, List.cons_append]

variable {t : EloopTimeout} {k n : Nat} {script : Script} {s : Eloop}

theorem performCall_stands (ht : t.time.Normal) {call : Call} (hcall : call.LeavesDue t)
    (h : StandsWithin t k s.timeout) : StandsWithin t k (performCall s call).timeout := by
  obtain ⟨front, back, htimeout, hlength, hfront⟩ := h
  cases call with
  | registerTimeout now secs usecs handler eloopData userData =>
      obtain ⟨hnow, hdue⟩ := hcall
      have hkey : t.time.key ≤ (expiry now secs usecs).key := by
        rw [← not_lt, OsTime.key_lt_iff_micros (expiry_normal hnow secs usecs) ht, expiry_micros]
        omega
      let u : EloopTimeout :=
        ⟨s.blocks, expiry now secs usecs, eloopData, userData, false, handler⟩
      have hbehind : ∀ v ∈ front ++ [t], v.key ≤ u.key := by
        simp only [List.mem_append, List.mem_singleton]
        rintro v (hv | rfl)
        · exact le_trans (hfront v hv) hkey
        · exact hkey
      refine ⟨front, linkTimeout u back, ?_, hlength, hfront⟩
      calc
        (performCall s (.registerTimeout now secs usecs handler eloopData userData)).timeout =
            linkTimeout u (front ++ t :: back) := congrArg (linkTimeout u) htimeout
        _ = linkTimeout u ((front ++ [t]) ++ back) := by simp
        _ = (front ++ [t]) ++ linkTimeout u back := linkTimeout_append back hbehind
        _ = front ++ t :: linkTimeout u back := by simp
  | cancelTimeout handler eloopData userData =>
      rw [Call.LeavesDue] at hcall
      let stays (u : EloopTimeout) : Bool := !matchesTimeout handler eloopData userData u
      refine ⟨front.filter stays, back.filter stays, ?_,
        le_trans (List.length_filter_le _ front) hlength,
        fun u hu => hfront u (List.mem_of_mem_filter hu)⟩
      simp [performCall, htimeout, hcall, stays]
  | registerSock | unregisterSock | terminate | tmpTerminate =>
      exact ⟨front, back, htimeout, hlength, hfront⟩

/-- From the `n`-th handler invocation on, the handlers leave the timer to its turn. -/
def LeaveDue (script : Script) (n : Nat) (t : EloopTimeout) : Prop :=
  ∀ m, n ≤ m → ∀ call ∈ script m, call.LeavesDue t

/-- What holds of the loop while the timer waits. -/
def Waits (n : Nat) (t : EloopTimeout) (k : Nat) (s : Eloop) : Prop :=
  n ≤ s.calls ∧ StandsWithin t k s.timeout

section

variable (hscript : LeaveDue script n t) (ht : t.time.Normal)
include hscript ht

theorem runHandler_waits (h : Waits n t k s) : Waits n t k (runHandler script s) := by
  have hloop (calls : List Call) (hcalls : ∀ call ∈ calls, call.LeavesDue t) (s : Eloop)
      (h : Waits n t k s) : Waits n t k (calls.foldl performCall s) := by
    induction calls generalizing s with
    | nil => exact h
    | cons call rest ih =>
        obtain ⟨hcall, hrest⟩ := List.forall_mem_cons.mp hcalls
        apply ih hrest
        exact ⟨by simpa using h.1, performCall_stands ht hcall h.2⟩
  exact hloop _ (hscript s.calls h.1) _ ⟨Nat.le_succ_of_le h.1, h.2⟩

theorem dispatch_waits (fds : Int → Bool) (type : EventType) (h : Waits n t k s) :
    Waits n t k (eloopSockTableDispatch script fds type s) := by
  rw [eloopSockTableDispatch_eq_foldl]
  refine List.foldlRecOn (motive := Waits n t k) _ _ h ?_
  intro s hs ready _
  exact runHandler_waits hscript ht hs

theorem processPendingSignals_waits (h : Waits n t k s) :
    Waits n t k (processPendingSignals script s) := by
  have hloop (indices : List Nat) (s : Eloop) (h : Waits n t k s) :
      Waits n t k (indices.foldl (processSignal script) s) := by
    induction indices generalizing s with
    | nil => exact h
    | cons i rest ih =>
        apply ih
        rw [processSignal]
        split
        · exact h
        · split
          · exact h
          · exact runHandler_waits hscript ht h
  rw [processPendingSignals]
  split
  · exact h
  · exact hloop _ _ h

/-- One iteration runs the handler of the timer, or brings it one place forward. -/
theorem iteration_waits {turn : Turn} (hsteady : turn.Steady)
    (hselect : ¬ (turn.res < 0 ∧ turn.errnoIgnored = false))
    (hdue : osTimeBefore turn.now t.time = false)
    (hterminate : s.terminate = false ∧ s.tmpTerminate = false) (h : Waits n t k s) :
    servedTimer script turn s = some t ∨
      ∃ less, k = less + 1 ∧ Waits n t less (iteration script turn s) := by
  have hcontinues : loopContinues { s with invoked := [] } = true := by
    obtain ⟨-, front, back, htimeout, -⟩ := h
    simp [loopContinues, hterminate, htimeout]
  have hbefore := timeChange_of_small hsteady.normal.1 hsteady.normal.2.1 hsteady.before
    { s with invoked := [] }
  have hafter := timeChange_of_small hsteady.normal.2.1 hsteady.normal.2.2 hsteady.after
    { s with invoked := [] }
  have hsignals : Waits n t k (processPendingSignals script { s with invoked := [] }) :=
    processPendingSignals_waits hscript ht h
  obtain ⟨hcalls, front, back, htimeout, hlength, hfront⟩ := hsignals
  cases front with
  | nil =>
      left
      simp [servedTimer, beforeTimeouts, hcontinues, hbefore, hafter, hselect, htimeout, hdue]
  | cons u front =>
      right
      obtain ⟨less, rfl⟩ := Nat.exists_eq_add_of_le' (Nat.le_trans (Nat.succ_pos _) hlength)
      obtain ⟨hu, hrest⟩ := List.forall_mem_cons.mp hfront
      have hudue : osTimeBefore turn.now u.time = false := by
        rw [← Bool.not_eq_true, osTimeBefore_iff, not_lt] at hdue ⊢
        exact le_trans hu hdue
      have hserved : Waits n t less (checkTimeouts script turn.now
          (processPendingSignals script { s with invoked := [] })) := by
        simp only [checkTimeouts, htimeout, List.cons_append, hudue]
        exact runHandler_waits hscript ht
          ⟨hcalls, front, back, rfl, Nat.le_of_succ_le_succ hlength, hrest⟩
      have hprepared : beforePasses script turn s = (checkTimeouts script turn.now
          (processPendingSignals script { s with invoked := [] }), decide (0 < turn.res)) := by
        simp [beforePasses, hcontinues, hbefore, hafter, hselect]
      refine ⟨less, rfl, ?_⟩
      rw [iteration, hprepared]
      dsimp only
      split
      · apply dispatch_waits hscript ht
        apply dispatch_waits hscript ht
        exact dispatch_waits hscript ht _ _ hserved
      · exact hserved

end

/-- No timer starves: one that stands behind `k` others is served by the iteration with number `k`
at the latest, from when it is due on, unless it is cancelled, the loop is told to end, or
`pselect` fails. -/
theorem due_timer_served (script : Script) (turns : Nat → Turn) (s : Eloop) (t : EloopTimeout)
    (ht : t.time.Normal) {front back : List EloopTimeout} (htimeout : s.timeout = front ++ t :: back)
    (hsorted : SortedByExpiry s.timeout) (hscript : LeaveDue script s.calls t)
    (hsteady : ∀ n ≤ front.length, (turns n).Steady)
    (hselect : ∀ n ≤ front.length, ¬ ((turns n).res < 0 ∧ (turns n).errnoIgnored = false))
    (hdue : ∀ n ≤ front.length, osTimeBefore (turns n).now t.time = false)
    (hterminate : ∀ n ≤ front.length, (runTurns script turns s n).terminate = false ∧
      (runTurns script turns s n).tmpTerminate = false) :
    ∃ n ≤ front.length, servedTimer script (turns n) (runTurns script turns s n) = some t := by
  have hfront : ∀ u ∈ front, u.key ≤ t.key := by
    intro u hu
    rw [SortedByExpiry, htimeout] at hsorted
    have hlater := (List.pairwise_append.mp hsorted).2.2 u hu t (List.mem_cons_self ..)
    rwa [← Bool.not_eq_true, osTimeBefore_iff, not_lt] at hlater
  -- after `n` iterations that have not served it, it stands behind `front.length - n` others
  have hturns : ∀ n ≤ front.length,
      (∃ m < n, servedTimer script (turns m) (runTurns script turns s m) = some t) ∨
        Waits s.calls t (front.length - n) (runTurns script turns s n) := by
    intro n hn
    induction n with
    | zero => exact .inr ⟨Nat.le_refl _, front, back, htimeout, Nat.le_refl _, hfront⟩
    | succ n ih =>
        rcases ih (Nat.le_of_succ_le hn) with ⟨m, hm, hserved⟩ | hwaits
        · exact .inl ⟨m, Nat.lt_succ_of_lt hm, hserved⟩
        · have hle := Nat.le_of_succ_le hn
          rcases iteration_waits hscript ht (hsteady n hle) (hselect n hle) (hdue n hle)
            (hterminate n hle) hwaits with hserved | ⟨less, hless, hwaits⟩
          · exact .inl ⟨n, Nat.lt_succ_self n, hserved⟩
          · obtain rfl : less = front.length - (n + 1) := by omega
            exact .inr hwaits
  rcases hturns front.length (Nat.le_refl _) with ⟨n, hn, hserved⟩ | hwaits
  · exact ⟨n, Nat.le_of_lt hn, hserved⟩
  · refine ⟨front.length, Nat.le_refl _, ?_⟩
    have hle := Nat.le_refl front.length
    rcases iteration_waits hscript ht (hsteady _ hle) (hselect _ hle) (hdue _ hle)
      (hterminate _ hle) hwaits with hserved | ⟨less, hless, -⟩
    · exact hserved
    · omega

/-- The second of two timers that are due, the first of which registers a third one. -/
theorem due_timer_served_second :
    let script : Script := fun m => if m = 0 then [.registerTimeout ⟨5, 0⟩ 0 0 9 0 0] else []
    let turn : Turn :=
      ⟨⟨0, ⟨5, 0⟩⟩, ⟨1, ⟨5, 10000⟩⟩, ⟨2, ⟨5, 20000⟩⟩, 0, fun _ _ => false, true, ⟨5, 20000⟩⟩
    let t : EloopTimeout := ⟨1, ⟨2, 0⟩, 0, 0, false, 8⟩
    let s : Eloop := { Eloop.init with timeout := [⟨0, ⟨1, 0⟩, 0, 0, false, 7⟩, t], blocks := 2 }
    ∃ n ≤ 1, servedTimer script turn (runTurns script (fun _ => turn) s n) = some t := by
  intro script turn t s
  have hscript : LeaveDue script s.calls t := by
    intro m _ call hcall
    by_cases hm : m = 0
    · simp only [script, hm, if_true, List.mem_singleton] at hcall
      subst hcall
      decide
    · simp [script, hm] at hcall
  have hsteady : turn.Steady := ⟨by decide, by decide, by decide⟩
  have htimeout : s.timeout = [⟨0, ⟨1, 0⟩, 0, 0, false, 7⟩] ++ t :: [] := rfl
  apply due_timer_served script (fun _ => turn) s t (by decide) htimeout
    (by simp [SortedByExpiry, s]; decide) hscript (fun _ _ => hsteady) (fun _ _ => by decide) (fun _ _ => by decide)
  intro n hn
  have hn : n = 0 ∨ n = 1 := by
    simp only [List.length_cons, List.length_nil] at hn
    omega
  rcases hn with rfl | rfl <;> decide

end EventLoop.Loop
