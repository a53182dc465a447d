import EventLoop.Lib.Runs
import EventLoop.Timer.ClockStep

/-!
The watchdog timers of `eloop.c`: `eloop.timeout_currentWDT` caches the first
pending timer that has `bIsWDTimeout` set, and the hardware watchdog runs while
there is one. Registration and cancellation repair the cache; the expiry path
of `eloop_run` unlinks the head without doing so.
-/

namespace EventLoop.WatchdogTimer

/-- Calls of the hardware watchdog. The seconds and microseconds are passed as an `int`. -/
inductive WdtCall where
  | startWDT (secs usecs : Int32)
  | restartWDT (secs usecs : Int32)
  | stopWDT
deriving DecidableEq, Repr

/-- Armed by a start or a restart after the last stop. -/
def armed (calls : List WdtCall) : Bool :=
  calls.foldl (fun _ call => call != .stopWDT) false

@[simp] theorem armed_nil : armed [] = false := rfl

@[simp] theorem armed_append (calls : List WdtCall) (call : WdtCall) :
    armed (calls ++ [call]) = (call != .stopWDT) := by
  simp [armed]

structure WdtState where
  currentWDT : Option Nat
  calls : List WdtCall

/-- The block of the first timer with the watchdog flag. -/
def firstWDT (timeout : List EloopTimeout) : Option Nat :=
  (timeout.find? (·.bIsWDTimeout)).map (·.block)

@[simp] theorem firstWDT_nil : firstWDT [] = none := rfl

theorem firstWDT_cons (t : EloopTimeout) (next : List EloopTimeout) :
    firstWDT (t :: next) = if t.bIsWDTimeout then some t.block else firstWDT next := by
  cases h : t.bIsWDTimeout <;> simp [firstWDT, h]

/-- Called after `timeout` was linked into the list. -/
def onRegisterWDT (curtime : OsTime) (timeout : EloopTimeout) (secs usecs : UInt32)
    (list : List EloopTimeout) (w : WdtState) : WdtState :=
  match w.currentWDT with
  | none => ⟨some timeout.block, w.calls ++ [.startWDT secs.toInt32 usecs.toInt32]⟩
  | some _ =>
      match list.find? (·.bIsWDTimeout) with
      | none => w
      | some timeoutWDT =>
          if timeoutWDT.block = timeout.block then
            let timeleft := getTimeLeft curtime timeoutWDT.time
            ⟨some timeoutWDT.block,
              w.calls ++ [.restartWDT (.ofInt timeleft.sec) (.ofInt timeleft.usec)]⟩
          else w

/-- Called before `timeout` is unlinked; `next` is the list behind it. -/
def onUnregisterWDT (curtime : OsTime) (timeout : EloopTimeout) (next : List EloopTimeout)
    (w : WdtState) : WdtState :=
  if w.currentWDT = some timeout.block then
    match next.find? (·.bIsWDTimeout) with
    | none => ⟨none, w.calls ++ [.stopWDT]⟩
    | some timeoutWDT =>
        let timeleft := getTimeLeft curtime timeoutWDT.time
        ⟨some timeoutWDT.block, w.calls ++ [.restartWDT (.ofInt timeleft.sec) (.ofInt timeleft.usec)]⟩
  else w

structure Eloop where
  timeout : List EloopTimeout
  watchdog : WdtState
  blocks : Nat

def Eloop.init : Eloop := ⟨[], ⟨none, []⟩, 0⟩

/-- `eloop_register_timeout0`; `curtime` is what `GetTimeLeft` reads. -/
def eloopRegisterTimeout0 (malloc : Option Nat) (now curtime : OsTime) (secs usecs : UInt32)
    (handler eloopData userData : Ptr) (bIsWDTimeout : Bool)
    (list : List EloopTimeout) (w : WdtState) : Int × List EloopTimeout × WdtState :=
  match malloc with
  | none => (-1, list, w)
  | some block =>
      let timeout : EloopTimeout :=
        ⟨block, expiry now secs usecs, eloopData, userData, bIsWDTimeout, handler⟩
      let linked := linkTimeout timeout list
      (0, linked,
        if bIsWDTimeout then onRegisterWDT curtime timeout secs usecs linked w else w)

structure Cancelled where
  timeout : List EloopTimeout
  removed : Nat
  watchdog : WdtState

/-- `eloop_cancel_timeout0`; `clock` gives the reading for each removal. -/
def eloopCancelTimeout0 (handler eloopData userData : Ptr) (bIsWDTimeout : Bool)
    (clock : Nat → OsTime) : List EloopTimeout → Nat → WdtState → Cancelled
  | [], removed, w => ⟨[], removed, w⟩
  | timeout :: next, removed, w =>
      if matchesTimeout handler eloopData userData timeout then
        let w := if timeout.bIsWDTimeout || bIsWDTimeout then
          onUnregisterWDT (clock removed) timeout next w else w
        eloopCancelTimeout0 handler eloopData userData bIsWDTimeout clock next (removed + 1) w
      else
        let rest := eloopCancelTimeout0 handler eloopData userData bIsWDTimeout clock next
          removed w
        {rest with timeout := timeout :: rest.timeout}

/-- Handlers make their calls as further actions; the expired entry is unlinked
before its handler runs, so the time of `os_free` leaves no trace. -/
inductive Action where
  | registerTimeout (mallocOk : Bool) (now curtime : WallTime) (secs usecs : UInt32)
      (handler eloopData userData : Ptr)
  | registerWatchdogTimeout (mallocOk : Bool) (now curtime : WallTime) (secs usecs : UInt32)
      (eloopData userData : Ptr)
  | cancelTimeout (clock : Nat → OsTime) (handler eloopData userData : Ptr)
  | cancelWatchdogTimeout (clock : Nat → OsTime) (eloopData userData : Ptr)
  | timeChange (newTime curtime : OsTime)
  | checkTimeouts (now : OsTime)

section Machine

-- The address of `eloop_timeout_handler_for_WDT`, which the application supplies.
variable (handlerForWDT : Ptr)

def register (s : Eloop) (mallocOk : Bool) (now curtime : OsTime) (secs usecs : UInt32)
    (handler eloopData userData : Ptr) (bIsWDTimeout : Bool) : Eloop :=
  let result := eloopRegisterTimeout0 (if mallocOk then some s.blocks else none) now curtime
    secs usecs handler eloopData userData bIsWDTimeout s.timeout s.watchdog
  ⟨result.2.1, result.2.2, if mallocOk then s.blocks + 1 else s.blocks⟩

def cancel (s : Eloop) (clock : Nat → OsTime) (handler eloopData userData : Ptr)
    (bIsWDTimeout : Bool) : Eloop :=
  let result := eloopCancelTimeout0 handler eloopData userData bIsWDTimeout clock s.timeout 0
    s.watchdog
  ⟨result.timeout, result.watchdog, s.blocks⟩

/-- The timer check of an iteration of `eloop_run`: a due head is unlinked and
`timeout_currentWDT` is left alone. -/
def checkTimeouts (now : OsTime) (s : Eloop) : Eloop :=
  match s.timeout with
  | [] => s
  | tmp :: next => if osTimeBefore now tmp.time then s else {s with timeout := next}

def step (s : Eloop) : Action → Option Eloop
  | .registerTimeout mallocOk now curtime secs usecs handler eloopData userData =>
      some (register s mallocOk now.toOsTime curtime.toOsTime secs usecs handler eloopData
        userData false)
  | .registerWatchdogTimeout mallocOk now curtime secs usecs eloopData userData =>
      some (register s mallocOk now.toOsTime curtime.toOsTime secs usecs handlerForWDT
        eloopData userData true)
  | .cancelTimeout clock handler eloopData userData =>
      some (cancel s clock handler eloopData userData false)
  | .cancelWatchdogTimeout clock eloopData userData =>
      some (cancel s clock handlerForWDT eloopData userData true)
  | .timeChange newTime curtime =>
      some {s with timeout := eloopTimeChange0 newTime curtime s.timeout}
  | .checkTimeouts now => some (checkTimeouts now s)

end Machine

/-- The cache points to the first pending watchdog timer and is `NULL` if there
is none, and the hardware is armed exactly while there is one. -/
def TracksWatchdog (s : Eloop) : Prop :=
  s.watchdog.currentWDT = firstWDT s.timeout ∧
    armed s.watchdog.calls = (firstWDT s.timeout).isSome

structure Invariant (s : Eloop) : Prop where
  tracks : TracksWatchdog s
  distinct : (s.timeout.map (·.block)).Nodup
  allocated : ∀ t ∈ s.timeout, t.block < s.blocks

/-- The pending timers are blocks of their own, and the next block is none of them. -/
structure Allocated (s : Eloop) : Prop where
  distinct : (s.timeout.map (·.block)).Nodup
  allocated : ∀ t ∈ s.timeout, t.block < s.blocks

theorem Invariant.blocks {s : Eloop} (h : Invariant s) : Allocated s := ⟨h.distinct, h.allocated⟩

theorem firstWDT_linkTimeout (t : EloopTimeout) (list : List EloopTimeout) :
    firstWDT (linkTimeout t list) = firstWDT list ∨
      (t.bIsWDTimeout = true ∧ firstWDT (linkTimeout t list) = some t.block) := by
  induction list with
  | nil => cases h : t.bIsWDTimeout <;> simp [linkTimeout, firstWDT_cons, h]
  | cons tmp next ih =>
      simp only [linkTimeout]
      split
      · cases h : t.bIsWDTimeout <;> simp [firstWDT_cons t, h]
      · simp only [firstWDT_cons tmp]
        cases tmp.bIsWDTimeout with
        | true => exact Or.inl rfl
        | false => exact ih

theorem firstWDT_isSome_of_mem {t : EloopTimeout} {list : List EloopTimeout}
    (ht : t ∈ list) (hflag : t.bIsWDTimeout = true) : (firstWDT list).isSome = true := by
  simp only [firstWDT, Option.isSome_map, List.find?_isSome]
  exact ⟨t, ht, hflag⟩

/-- Whether the new timer becomes the first or not, the cache ends up at the
first watchdog timer of the new list. -/
theorem onRegisterWDT_tracks (curtime : OsTime) {t : EloopTimeout}
    (hflag : t.bIsWDTimeout = true) (secs usecs : UInt32) (list : List EloopTimeout)
    (w : WdtState) (hcurrent : w.currentWDT = firstWDT list)
    (harmed : armed w.calls = w.currentWDT.isSome) :
    let w' := onRegisterWDT curtime t secs usecs (linkTimeout t list) w
    w'.currentWDT = firstWDT (linkTimeout t list) ∧ armed w'.calls = w'.currentWDT.isSome := by
  have hsome : (firstWDT (linkTimeout t list)).isSome = true :=
    firstWDT_isSome_of_mem (mem_linkTimeout.mpr (Or.inl rfl)) hflag
  have hfirst := firstWDT_linkTimeout t list
  unfold onRegisterWDT
  cases hold : w.currentWDT with
  | none =>
      rw [← hcurrent, hold] at hfirst
      rcases hfirst with hnone | ⟨_, hself⟩
      · rw [hnone] at hsome
        cases hsome
      · exact ⟨hself.symm, by simp⟩
  | some current =>
      dsimp only
      cases hfind : (linkTimeout t list).find? (·.bIsWDTimeout) with
      | none => simp [firstWDT, hfind] at hsome
      | some first =>
          have hlinked : firstWDT (linkTimeout t list) = some first.block := by
            simp [firstWDT, hfind]
          dsimp only
          by_cases hself : first.block = t.block
          · rw [if_pos hself]
            exact ⟨hlinked.symm, by simp⟩
          · rw [if_neg hself]
            rcases hfirst with hsame | ⟨_, hnew⟩
            · exact ⟨hcurrent.trans hsame.symm, harmed⟩
            · rw [hlinked] at hnew
              exact absurd (Option.some.inj hnew) hself

/-- Repair before `t` is unlinked. `kept` is the first watchdog timer among the
entries ahead of `t`. -/
theorem onUnregisterWDT_tracks (curtime : OsTime) (t : EloopTimeout)
    (next : List EloopTimeout) (w : WdtState) (kept : Option Nat)
    (hkept : kept ≠ some t.block)
    (hcurrent : w.currentWDT = kept.or (firstWDT (t :: next)))
    (harmed : armed w.calls = w.currentWDT.isSome) :
    let w' := onUnregisterWDT curtime t next w
    w'.currentWDT = kept.or (firstWDT next) ∧ armed w'.calls = w'.currentWDT.isSome := by
  unfold onUnregisterWDT
  by_cases hself : w.currentWDT = some t.block
  · have hnone : kept = none := by
      cases kept with
      | none => rfl
      | some block =>
          rw [hcurrent, Option.some_or] at hself
          exact absurd hself hkept
    subst hnone
    rw [if_pos hself]
    cases hfind : next.find? (·.bIsWDTimeout) <;> simp [firstWDT, hfind]
  · rw [if_neg hself]
    refine ⟨?_, harmed⟩
    rw [hcurrent, firstWDT_cons]
    cases hflag : t.bIsWDTimeout with
    | false => rfl
    | true =>
        cases kept with
        | none =>
            rw [hcurrent, firstWDT_cons, hflag] at hself
            exact absurd rfl hself
        | some block => rfl

theorem eloopCancelTimeout0_timeout (handler eloopData userData : Ptr) (bIsWDTimeout : Bool)
    (clock : Nat → OsTime) (list : List EloopTimeout) (removed : Nat) (w : WdtState) :
    (eloopCancelTimeout0 handler eloopData userData bIsWDTimeout clock list removed w).timeout =
      list.filter (fun t => !matchesTimeout handler eloopData userData t) := by
  induction list generalizing removed w with
  | nil => rfl
  | cons t next ih =>
      unfold eloopCancelTimeout0
      split
      · rename_i hmatch
        rw [List.filter_cons_of_neg (by simp [hmatch])]
        exact ih _ _
      · rename_i hmatch
        rw [List.filter_cons_of_pos (by simp [hmatch])]
        exact congrArg _ (ih _ _)

theorem eloopCancelTimeout0_tracks (handler eloopData userData : Ptr) (bIsWDTimeout : Bool)
    (clock : Nat → OsTime) (list : List EloopTimeout) (removed : Nat) (w : WdtState)
    (kept : Option Nat) (hdistinct : (list.map (·.block)).Nodup)
    (hkept : ∀ block, kept = some block → block ∉ list.map (·.block))
    (hcurrent : w.currentWDT = kept.or (firstWDT list))
    (harmed : armed w.calls = w.currentWDT.isSome) :
    let result := eloopCancelTimeout0 handler eloopData userData bIsWDTimeout clock list
      removed w
    result.watchdog.currentWDT = kept.or (firstWDT result.timeout) ∧
      armed result.watchdog.calls = result.watchdog.currentWDT.isSome := by
  induction list generalizing removed w kept with
  | nil => exact ⟨hcurrent, harmed⟩
  | cons t next ih =>
      obtain ⟨hfresh, hdistinct⟩ := List.nodup_cons.mp hdistinct
      have hkeptNext : ∀ block, kept = some block → block ∉ next.map (·.block) :=
        fun block hblock hmem => hkept block hblock (List.mem_cons_of_mem _ hmem)
      have hkeptSelf : kept ≠ some t.block :=
        fun h => hkept t.block h (List.mem_cons_self ..)
      unfold eloopCancelTimeout0
      by_cases hmatch : matchesTimeout handler eloopData userData t = true
      · rw [if_pos hmatch]
        have hrepaired : ∀ w' : WdtState, w' = (if t.bIsWDTimeout || bIsWDTimeout then
            onUnregisterWDT (clock removed) t next w else w) →
            w'.currentWDT = kept.or (firstWDT next) ∧
              armed w'.calls = w'.currentWDT.isSome := by
          rintro w' rfl
          split
          · exact onUnregisterWDT_tracks (clock removed) t next w kept hkeptSelf hcurrent harmed
          · rename_i hflags
            have hflag : t.bIsWDTimeout = false := by simp_all
            rw [firstWDT_cons, hflag] at hcurrent
            exact ⟨hcurrent, harmed⟩
        obtain ⟨hcurrent', harmed'⟩ := hrepaired _ rfl
        have hrest := ih (removed + 1) _ kept hdistinct hkeptNext hcurrent' harmed'
        exact hrest
      · rw [if_neg hmatch]
        have hrest := ih removed w
          (kept.or (if t.bIsWDTimeout then some t.block else none)) hdistinct
          (by
            intro block hblock
            cases kept with
            | some b => exact hkeptNext block hblock
            | none =>
                cases hflag : t.bIsWDTimeout with
                | false => simp [hflag] at hblock
                | true =>
                    simp only [hflag, if_true, Option.none_or, Option.some.injEq] at hblock
                    exact hblock ▸ hfresh)
          (by
            rw [hcurrent, firstWDT_cons]
            cases kept <;> cases t.bIsWDTimeout <;> simp)
          harmed
        obtain ⟨htracks, harmed'⟩ := hrest
        refine ⟨?_, harmed'⟩
        rw [htracks, firstWDT_cons]
        cases kept <;> cases t.bIsWDTimeout <;> simp

section ClockSteps

variable {α : Type*} {f : EloopTimeout → α}
  (hf : ∀ sign difftime t, f (shiftTimeout sign difftime t) = f t)

include hf

theorem timeUpdateLoop_map (sign : Int) (difftime : OsTime) (bHasPrehistoric : Bool)
    (list : List EloopTimeout) :
    (timeUpdateLoop sign difftime bHasPrehistoric list).map f = list.map f := by
  induction list generalizing bHasPrehistoric with
  | nil => rfl
  | cons t next ih =>
      simp only [timeUpdateLoop, List.map_cons, ih]
      split
      · rw [hf]
      · rfl

theorem eloopTimeUpdate_map (sign : Int) (difftime : OsTime) (list : List EloopTimeout) :
    (eloopTimeUpdate sign difftime list).map f = list.map f := by
  unfold eloopTimeUpdate
  split
  · rfl
  · exact timeUpdateLoop_map hf sign difftime false list

theorem eloopTimeChange0_map (newTime curtime : OsTime) (list : List EloopTimeout) :
    (eloopTimeChange0 newTime curtime list).map f = list.map f := by
  unfold eloopTimeChange0
  dsimp only
  by_cases hsame : cmpTime newTime curtime = 0
  · rw [if_pos hsame]
  · rw [if_neg hsame]
    exact eloopTimeUpdate_map hf _ _ list

end ClockSteps

theorem firstWDT_of_map_eq {left right : List EloopTimeout}
    (h : left.map (fun t => (t.block, t.bIsWDTimeout)) =
      right.map (fun t => (t.block, t.bIsWDTimeout))) :
    firstWDT left = firstWDT right := by
  have hfirst : ∀ list : List EloopTimeout, firstWDT list =
      ((list.map (fun t => (t.block, t.bIsWDTimeout))).find? (·.2)).map (·.1) := by
    intro list
    rw [List.find?_map, Option.map_map]
    rfl
  rw [hfirst, hfirst, h]

theorem init_invariant : Invariant .init where
  tracks := ⟨rfl, rfl⟩
  distinct := List.nodup_nil
  allocated := by simp [Eloop.init]

theorem register_allocated {s : Eloop} (h : Allocated s) (mallocOk : Bool)
    (now curtime : OsTime) (secs usecs : UInt32) (handler eloopData userData : Ptr)
    (bIsWDTimeout : Bool) :
    Allocated (register s mallocOk now curtime secs usecs handler eloopData userData
      bIsWDTimeout) := by
  obtain ⟨hdistinct, hallocated⟩ := h
  cases mallocOk with
  | false => exact ⟨hdistinct, hallocated⟩
  | true =>
      let t : EloopTimeout :=
        ⟨s.blocks, expiry now secs usecs, eloopData, userData, bIsWDTimeout, handler⟩
      have hperm := (linkTimeout_perm t s.timeout).map (·.block)
      constructor
      · change ((linkTimeout t s.timeout).map (·.block)).Nodup
        apply hperm.nodup_iff.mpr
        apply List.nodup_cons.mpr
        refine ⟨?_, hdistinct⟩
        intro hmem
        obtain ⟨u, hu, hblock⟩ := List.mem_map.mp hmem
        have := hallocated u hu
        simp only [t] at hblock
        omega
      · intro u hu
        change u.block < s.blocks + 1
        rcases mem_linkTimeout.mp hu with rfl | hold
        · exact Nat.lt_succ_self s.blocks
        · exact Nat.lt_succ_of_lt (hallocated u hold)

theorem cancel_timeout (s : Eloop) (clock : Nat → OsTime) (handler eloopData userData : Ptr)
    (bIsWDTimeout : Bool) :
    (cancel s clock handler eloopData userData bIsWDTimeout).timeout =
      s.timeout.filter (fun t => !matchesTimeout handler eloopData userData t) :=
  eloopCancelTimeout0_timeout handler eloopData userData bIsWDTimeout clock s.timeout 0 s.watchdog

theorem cancel_allocated {s : Eloop} (h : Allocated s) (clock : Nat → OsTime)
    (handler eloopData userData : Ptr) (bIsWDTimeout : Bool) :
    Allocated (cancel s clock handler eloopData userData bIsWDTimeout) := by
  obtain ⟨hdistinct, hallocated⟩ := h
  constructor
  · rw [cancel_timeout]
    exact hdistinct.sublist (List.filter_sublist.map _)
  · intro t ht
    rw [cancel_timeout] at ht
    exact hallocated t (List.mem_of_mem_filter ht)

theorem timeChange_allocated {s : Eloop} (h : Allocated s) (newTime curtime : OsTime) :
    Allocated {s with timeout := eloopTimeChange0 newTime curtime s.timeout} := by
  have hblocks : (eloopTimeChange0 newTime curtime s.timeout).map (·.block) =
      s.timeout.map (·.block) := eloopTimeChange0_map (fun _ _ _ => rfl) newTime curtime s.timeout
  constructor
  · dsimp only
    rw [hblocks]
    exact h.distinct
  · intro t ht
    have hmem : t.block ∈ s.timeout.map (·.block) := hblocks ▸ List.mem_map_of_mem ht
    obtain ⟨u, hu, hblock⟩ := List.mem_map.mp hmem
    exact hblock ▸ h.allocated u hu

theorem checkTimeouts_sublist (now : OsTime) (s : Eloop) :
    (checkTimeouts now s).timeout.Sublist s.timeout := by
  unfold checkTimeouts
  split
  · exact List.Sublist.refl _
  · rename_i tmp next hlist
    split
    · exact List.Sublist.refl _
    · rw [hlist]
      exact List.sublist_cons_self tmp next

@[simp] theorem checkTimeouts_blocks (now : OsTime) (s : Eloop) :
    (checkTimeouts now s).blocks = s.blocks := by
  unfold checkTimeouts
  split
  · rfl
  · split <;> rfl

theorem step_allocated (handlerForWDT : Ptr) (s : Eloop) (action : Action) (s' : Eloop)
    (h : Allocated s) (hstep : step handlerForWDT s action = some s') : Allocated s' := by
  cases action with
  | registerTimeout | registerWatchdogTimeout =>
      obtain rfl := Option.some.inj hstep
      exact register_allocated h _ _ _ _ _ _ _ _ _
  | cancelTimeout | cancelWatchdogTimeout =>
      obtain rfl := Option.some.inj hstep
      exact cancel_allocated h _ _ _ _ _
  | timeChange newTime curtime =>
      obtain rfl := Option.some.inj hstep
      exact timeChange_allocated h newTime curtime
  | checkTimeouts now =>
      obtain rfl := Option.some.inj hstep
      have hsublist := checkTimeouts_sublist now s
      constructor
      · exact h.distinct.sublist (hsublist.map _)
      · intro t ht
        rw [checkTimeouts_blocks]
        exact h.allocated t (hsublist.subset ht)

theorem register_invariant {s : Eloop} (h : Invariant s) (mallocOk : Bool)
    (now curtime : OsTime) (secs usecs : UInt32) (handler eloopData userData : Ptr)
    (bIsWDTimeout : Bool) :
    Invariant (register s mallocOk now curtime secs usecs handler eloopData userData
      bIsWDTimeout) := by
  obtain ⟨hdistinct', hallocated'⟩ := register_allocated h.blocks mallocOk now curtime secs usecs
    handler eloopData userData bIsWDTimeout
  refine ⟨?_, hdistinct', hallocated'⟩
  obtain ⟨⟨hcurrent, harmed⟩, -, -⟩ := h
  cases mallocOk with
  | false => exact ⟨hcurrent, harmed⟩
  | true =>
      let t : EloopTimeout :=
        ⟨s.blocks, expiry now secs usecs, eloopData, userData, bIsWDTimeout, handler⟩
      change TracksWatchdog ⟨linkTimeout t s.timeout,
        if bIsWDTimeout then onRegisterWDT curtime t secs usecs (linkTimeout t s.timeout)
          s.watchdog else s.watchdog, s.blocks + 1⟩
      unfold TracksWatchdog
      dsimp only
      cases hflag : bIsWDTimeout with
      | true =>
          have htracks := onRegisterWDT_tracks curtime (t := t) hflag secs usecs s.timeout
            s.watchdog hcurrent (by rw [harmed, hcurrent])
          simp only [if_true]
          exact ⟨htracks.1, by rw [htracks.2, htracks.1]⟩
      | false =>
          have hsame : firstWDT (linkTimeout t s.timeout) = firstWDT s.timeout := by
            rcases firstWDT_linkTimeout t s.timeout with hsame | ⟨hwd, _⟩
            · exact hsame
            · exact absurd hwd (by simp [t, hflag])
          simp only [Bool.false_eq_true, if_false, hsame]
          exact ⟨hcurrent, harmed⟩

theorem cancel_invariant {s : Eloop} (h : Invariant s) (clock : Nat → OsTime)
    (handler eloopData userData : Ptr) (bIsWDTimeout : Bool) :
    Invariant (cancel s clock handler eloopData userData bIsWDTimeout) := by
  obtain ⟨hdistinct', hallocated'⟩ :=
    cancel_allocated h.blocks clock handler eloopData userData bIsWDTimeout
  refine ⟨?_, hdistinct', hallocated'⟩
  obtain ⟨⟨hcurrent, harmed⟩, hdistinct, -⟩ := h
  obtain ⟨htracks, harmed'⟩ := eloopCancelTimeout0_tracks handler eloopData userData
    bIsWDTimeout clock s.timeout 0 s.watchdog none hdistinct (by simp) (by simpa using hcurrent)
    (by rw [harmed, hcurrent])
  rw [Option.none_or] at htracks
  exact ⟨htracks, harmed'.trans (congrArg Option.isSome htracks)⟩

/-- The timer that `eloop_run` takes off the list in this step is no watchdog
timer. -/
def NoWatchdogExpiry (s : Eloop) : Action → Prop
  | .checkTimeouts now => ∀ head next, s.timeout = head :: next →
      osTimeBefore now head.time = false → head.bIsWDTimeout = false
  | _ => True

/-- Expiry of a timer without the flag leaves the first watchdog timer the
first; expiry of a watchdog timer, which is the first one, leaves the cache at
the unlinked entry. -/
theorem checkTimeouts_invariant_iff {s : Eloop} (h : Invariant s) (now : OsTime) :
    Invariant (checkTimeouts now s) ↔ NoWatchdogExpiry s (.checkTimeouts now) := by
  obtain ⟨⟨hcurrent, harmed⟩, hdistinct, hallocated⟩ := h
  unfold checkTimeouts NoWatchdogExpiry
  cases hlist : s.timeout with
  | nil => exact iff_of_true ⟨⟨hcurrent, harmed⟩, hdistinct, hallocated⟩ (by simp)
  | cons head next =>
      dsimp only
      cases hdue : osTimeBefore now head.time with
      | true =>
          simp only [if_true]
          exact iff_of_true ⟨⟨hcurrent, harmed⟩, hdistinct, hallocated⟩
            (fun head' next' heq => by
              obtain ⟨rfl, rfl⟩ := List.cons.inj heq
              simp [hdue])
      | false =>
          rw [hlist] at hcurrent harmed hdistinct hallocated
          obtain ⟨hfresh, hdistinct⟩ := List.nodup_cons.mp hdistinct
          simp only [Bool.false_eq_true, if_false]
          constructor
          · rintro ⟨⟨hcurrent', _⟩, _, _⟩ head' next' heq _
            obtain ⟨rfl, rfl⟩ := List.cons.inj heq
            cases hflag : head.bIsWDTimeout with
            | false => rfl
            | true =>
                rw [hcurrent, firstWDT_cons, hflag, if_pos rfl] at hcurrent'
                obtain ⟨u, hu, hblock⟩ := Option.map_eq_some_iff.mp hcurrent'.symm
                exact absurd (List.mem_map.mpr ⟨u, List.mem_of_find?_eq_some hu, hblock⟩) hfresh
          · intro hnot
            have hflag := hnot head next rfl hdue
            rw [firstWDT_cons, hflag] at hcurrent harmed
            exact ⟨⟨hcurrent, harmed⟩, hdistinct,
              fun t ht => hallocated t (List.mem_cons_of_mem _ ht)⟩

theorem step_invariant (handlerForWDT : Ptr) (s : Eloop) (action : Action) (s' : Eloop)
    (h : Invariant s) (hguard : NoWatchdogExpiry s action)
    (hstep : step handlerForWDT s action = some s') : Invariant s' := by
  cases action with
  | registerTimeout | registerWatchdogTimeout =>
      simp only [step, Option.some.injEq] at hstep
      subst hstep
      exact register_invariant h _ _ _ _ _ _ _ _ _
  | cancelTimeout | cancelWatchdogTimeout =>
      simp only [step, Option.some.injEq] at hstep
      subst hstep
      exact cancel_invariant h _ _ _ _ _
  | timeChange newTime curtime =>
      simp only [step, Option.some.injEq] at hstep
      subst hstep
      obtain ⟨hdistinct', hallocated'⟩ := timeChange_allocated h.blocks newTime curtime
      refine ⟨?_, hdistinct', hallocated'⟩
      unfold TracksWatchdog
      dsimp only
      rw [firstWDT_of_map_eq (eloopTimeChange0_map (fun _ _ _ => rfl) newTime curtime s.timeout)]
      exact h.tracks
  | checkTimeouts now =>
      simp only [step, Option.some.injEq] at hstep
      subst hstep
      exact (checkTimeouts_invariant_iff h now).mpr hguard

/-- In every run in which `eloop_run` never takes an expired watchdog timer off
the list, the cached pointer and the hardware follow the list. -/
theorem watchdog_tracked_without_watchdog_expiry (handlerForWDT : Ptr)
    {actions : List Action} {s : Eloop}
    (hguard : Runs.Guarded (step handlerForWDT) NoWatchdogExpiry .init actions)
    (hrun : Runs.run (step handlerForWDT) .init actions = some s) : TracksWatchdog s :=
  (Runs.guarded_run_invariant (step_invariant handlerForWDT) init_invariant hguard hrun).tracks

/-- A watchdog timer behind an ordinary one: the ordinary one expires, then the
watchdog timer is cancelled. -/
def plainExpiry : List Action :=
  let now : WallTime := ⟨⟨200, 0⟩, by decide⟩
  [.registerTimeout true now now 1 0 7 1 2, .registerWatchdogTimeout true now now 5 0 1 3,
   .checkTimeouts ⟨202, 0⟩, .cancelWatchdogTimeout (fun _ => ⟨202, 0⟩) 1 3]

theorem plainExpiry_tracked : ∃ s, Runs.run (step 9) .init plainExpiry = some s ∧
    s.watchdog.calls = [.startWDT 5 0, .stopWDT] ∧ TracksWatchdog s := by
  have hguard : Runs.Guarded (step 9) NoWatchdogExpiry .init plainExpiry := by
    simp [plainExpiry, Runs.Guarded, NoWatchdogExpiry, step, register, eloopRegisterTimeout0,
      expiry, carryUsec, Eloop.init, linkTimeout, osTimeBefore, onRegisterWDT]
  have hrun : ∃ s, Runs.run (step 9) .init plainExpiry = some s ∧
      s.watchdog.calls = [.startWDT 5 0, .stopWDT] := by
    simp [plainExpiry, Runs.run, step, register, eloopRegisterTimeout0, expiry, carryUsec,
      Eloop.init, linkTimeout, osTimeBefore, onRegisterWDT, checkTimeouts, cancel,
      eloopCancelTimeout0, matchesTimeout, onUnregisterWDT]
  obtain ⟨s, hs, hcalls⟩ := hrun
  exact ⟨s, hs, hcalls, watchdog_tracked_without_watchdog_expiry 9 hguard hs⟩

/-- A watchdog timer expires: no timer is pending, the pointer still names the
freed block and the hardware is still armed. -/
theorem watchdog_expiry_leaves_dangling_pointer :
    ∃ s, Runs.run (step 9) .init
        [.registerWatchdogTimeout true ⟨⟨100, 0⟩, by decide⟩ ⟨⟨100, 0⟩, by decide⟩ 1 0 1 3,
         .checkTimeouts ⟨102, 0⟩] = some s ∧
      s.timeout = [] ∧ s.watchdog.currentWDT = some 0 ∧ armed s.watchdog.calls = true ∧
      ¬ TracksWatchdog s := by
  simp [Runs.run, step, register, eloopRegisterTimeout0, expiry, carryUsec, Eloop.init,
    linkTimeout, osTimeBefore, onRegisterWDT, checkTimeouts, TracksWatchdog, armed]

end EventLoop.WatchdogTimer
