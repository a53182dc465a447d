import EventLoop.Loop.Signals

/-!
The alarm of `eloop_handle_signal`. A pass takes it back before it goes through the table:
a SIGINT or SIGTERM that comes in between arms it once more, and is handed to its handler
by the pass that is running.
-/

namespace EventLoop.Loop

/-- The signals that `eloop_handle_signal` arms the alarm for. -/
def Terminates (sig : Int) : Prop := sig = sigint ∨ sig = sigterm

instance : DecidablePred Terminates := fun sig => inferInstanceAs (Decidable (sig = _ ∨ sig = _))

/-- The pass goes through the table. -/
def Pc.looping : Pc → Bool
  | .loopHead _ | .testEntry _ | .clearEntry _ | .callHandler _ | .inHandler _ => true
  | _ => false

/-- The pass has not come to the table yet. -/
def Pc.opening : Pc → Bool
  | .testSignaled | .clearSignaled | .testPending | .alarmOff | .clearPending => true
  | _ => false

theorem Pc.not_looping {pc : Pc} (h : pc.opening = true) : pc.looping = false := by
  cases pc with
  | testSignaled | clearSignaled | testPending | alarmOff | clearPending => rfl
  | idle | loopHead | testEntry | clearEntry | callHandler | inHandler => simp [opening] at h

instance (i : Nat) : DecidablePred (Pc.unvisited i)
  | .testPending | .alarmOff | .clearPending => isTrue trivial
  | .loopHead j | .testEntry j | .clearEntry j => inferInstanceAs (Decidable (j ≤ i))
  | .callHandler j | .inHandler j => inferInstanceAs (Decidable (j < i))
  | .idle | .testSignaled | .clearSignaled => isFalse (fun h => h)

/-- The entry that counts the deliveries of a signal. -/
def entryOf (sig : Int) (signals : List EloopSignal) : Nat := signals.findIdx (·.sig = sig)

/-- A delivery during the loop of a pass, and whether the loop was past its entry. -/
structure LoopDelivery where
  sig : Int
  passed : Bool
deriving DecidableEq, Repr

/-- The table, the SIGINT and SIGTERM that were delivered and not taken to be handed to
their handler, and those delivered during the loop of the last pass. -/
structure Watched where
  signals : Signals
  waiting : List Int
  inLoop : List LoopDelivery
deriving DecidableEq, Repr

namespace Watched

def init : Watched := ⟨.init, [], []⟩

/-- `signal` has installed `eloop_handle_signal` for what is registered. -/
def installed (h : Watched) : SignalAction → Prop
  | .deliver sig => ∃ signal ∈ h.signals.signals, signal.sig = sig
  | _ => True

instance (h : Watched) : DecidablePred h.installed
  | .deliver sig => inferInstanceAs (Decidable (∃ signal ∈ h.signals.signals, signal.sig = sig))
  | .register .. | .begin | .statement | .handlerReturn => isTrue trivial

/-- An entry that is cleared takes all the deliveries that it counts. -/
def waitingAfter (h : Watched) : SignalAction → List Int
  | .deliver sig => if Terminates sig then h.waiting ++ [sig] else h.waiting
  | .statement =>
      match h.signals.pc with
      | .clearEntry i => (h.signals.signals[i]?).elim h.waiting (fun signal =>
          h.waiting.filter (· ≠ signal.sig))
      | _ => h.waiting
  | _ => h.waiting

def inLoopAfter (h : Watched) : SignalAction → List LoopDelivery
  | .begin => []
  | .deliver sig =>
      if Terminates sig ∧ h.signals.pc.looping then
        h.inLoop ++ [⟨sig, !h.signals.pc.unvisited (entryOf sig h.signals.signals)⟩]
      else h.inLoop
  | _ => h.inLoop

def step (h : Watched) (action : SignalAction) : Option Watched :=
  if h.installed action then
    (signalStep h.signals action).map (fun s => ⟨s, h.waitingAfter action, h.inLoopAfter action⟩)
  else none

end Watched

/-- What holds whenever a pass of the run returns. -/
def AtReturns (actions : List SignalAction) (P : Watched → Prop) : Prop :=
  ∀ before h h', before ++ [.statement] <+: actions → Runs.run Watched.step .init before = some h →
    h.step .statement = some h' → h'.signals.pc = .idle → P h'

/-- The alarm is armed for a signal that waits. -/
def Watched.Accounted (h : Watched) : Prop :=
  h.signals.alarm = true ∨ h.signals.pendingTerminate = true → h.waiting ≠ []

/-- Of the deliveries during the loop one came behind its entry, if there were any. -/
def Watched.LeavesOne (h : Watched) : Prop :=
  h.inLoop ≠ [] → ∃ delivery ∈ h.inLoop, delivery.passed = true

section Table

variable {sig : Int} {signals : List EloopSignal} {i : Nat} {signal : EloopSignal}

theorem raiseSignal_eq (sig : Int) (signals : List EloopSignal) :
    raiseSignal sig signals = signals.modify (entryOf sig signals)
      (fun signal => { signal with signaled := signal.signaled + 1 }) := by
  induction signals with
  | nil => rfl
  | cons signal rest ih =>
      rw [raiseSignal, entryOf, List.findIdx_cons]
      by_cases hsig : signal.sig = sig
      · simp [hsig]
      · simp [hsig, ih, entryOf]

theorem entryOf_map (sig : Int) (signals : List EloopSignal) :
    entryOf sig signals = (signals.map EloopSignal.sig).findIdx (· = sig) := by
  rw [entryOf, List.findIdx_map]
  rfl

theorem get_entryOf (h : ∃ signal ∈ signals, signal.sig = sig) :
    ∃ signal : EloopSignal, signals[entryOf sig signals]? = some signal ∧ signal.sig = sig := by
  have hlt : entryOf sig signals < signals.length := by
    simpa [entryOf, List.findIdx_lt_length] using h
  refine ⟨_, List.getElem?_eq_getElem hlt, ?_⟩
  have hfound := @List.findIdx_getElem _ (fun signal : EloopSignal => decide (signal.sig = sig)) _ hlt
  exact of_decide_eq_true hfound

theorem raiseSignal_get_eq (sig : Int) (signals : List EloopSignal) (i : Nat) :
    (raiseSignal sig signals)[i]? = (signals[i]?).map (fun signal : EloopSignal =>
      if entryOf sig signals = i then { signal with signaled := signal.signaled + 1 }
      else signal) := by
  rw [raiseSignal_eq, List.getElem?_modify]
  rfl

@[simp] theorem entryOf_raiseSignal (sig sig' : Int) (signals : List EloopSignal) :
    entryOf sig (raiseSignal sig' signals) = entryOf sig signals := by
  have hsame : (raiseSignal sig' signals).map EloopSignal.sig = signals.map EloopSignal.sig := by
    apply List.ext_getElem?
    intro i
    rw [List.getElem?_map, List.getElem?_map, raiseSignal_get_eq, Option.map_map]
    congr 1
    funext signal
    simp only [Function.comp_apply]
    split <;> rfl
  rw [entryOf_map, entryOf_map, hsame]

theorem entryOf_clear (h : signals[i]? = some signal) (sig : Int) :
    entryOf sig (signals.set i { signal with signaled := 0 }) = entryOf sig signals := by
  have hget : (signals.map EloopSignal.sig)[i]? = some signal.sig := by
    rw [List.getElem?_map, h, Option.map_some]
  have hsame : (signals.map EloopSignal.sig).set i signal.sig = signals.map EloopSignal.sig := by
    obtain ⟨hi, hsig⟩ := List.getElem?_eq_some_iff.mp hget
    rw [← hsig, List.set_getElem_self hi]
  rw [entryOf_map, entryOf_map, List.map_set, hsame]

theorem entryOf_append (h : signals[i]? = some signal) (more : List EloopSignal) :
    entryOf signal.sig (signals ++ more) = entryOf signal.sig signals := by
  have hmem : ∃ other ∈ signals, other.sig = signal.sig := ⟨signal, List.mem_of_getElem? h, rfl⟩
  have hlt : entryOf signal.sig signals < signals.length := by
    simpa [entryOf, List.findIdx_lt_length] using hmem
  rw [entryOf, List.findIdx_append]
  exact if_pos hlt

/-- Deliveries of a signal are counted in its entry, and nowhere else. -/
def Sole (signals : List EloopSignal) : Prop :=
  ∀ i signal, signals[i]? = some signal → 0 < signal.signaled → entryOf signal.sig signals = i

theorem Sole.raise (h : Sole signals) (hentry : ∃ signal ∈ signals, signal.sig = sig) :
    Sole (raiseSignal sig signals) := by
  intro i raised hraised hpos
  rw [raiseSignal_get_eq, Option.map_eq_some_iff] at hraised
  obtain ⟨signal, hsignal, rfl⟩ := hraised
  rw [entryOf_raiseSignal]
  by_cases hat : entryOf sig signals = i
  · obtain ⟨counting, hcounting, hsig⟩ := get_entryOf hentry
    rw [hat, hsignal] at hcounting
    obtain rfl := Option.some.inj hcounting
    rw [if_pos hat, hsig]
    exact hat
  · rw [if_neg hat] at hpos ⊢
    exact h i signal hsignal hpos

theorem Sole.append (h : Sole signals) {more : EloopSignal} (hmore : more.signaled = 0) :
    Sole (signals ++ [more]) := by
  intro i signal hsignal hpos
  rcases Nat.lt_or_ge i signals.length with hi | hi
  · rw [List.getElem?_append_left hi] at hsignal
    rw [entryOf_append hsignal]
    exact h i signal hsignal hpos
  · rw [List.getElem?_append_right hi, List.getElem?_singleton] at hsignal
    split at hsignal
    · obtain rfl := Option.some.inj hsignal
      exact absurd hmore (Nat.ne_of_gt hpos)
    · simp at hsignal

theorem Sole.clear (h : Sole signals) (hget : signals[i]? = some signal) :
    Sole (signals.set i { signal with signaled := 0 }) := by
  intro j other hother hpos
  rw [entryOf_clear hget]
  by_cases hij : i = j
  · subst hij
    rw [List.getElem?_set_self (List.getElem?_eq_some_iff.mp hget).1] at hother
    obtain rfl := Option.some.inj hother
    exact absurd hpos (Nat.lt_irrefl 0)
  · rw [List.getElem?_set_ne hij] at hother
    exact h j other hother hpos

/-- Deliveries of the signal are counted. -/
def Counts (signals : List EloopSignal) (sig : Int) : Prop :=
  ∃ i : Nat, ∃ signal : EloopSignal, signals[i]? = some signal ∧ signal.sig = sig ∧
    0 < signal.signaled

theorem counts_raise {sig' : Int} (hentry : ∃ signal ∈ signals, signal.sig = sig') :
    Counts (raiseSignal sig' signals) sig ↔ Counts signals sig ∨ sig = sig' := by
  obtain ⟨counting, hcounting, hsig'⟩ := get_entryOf hentry
  constructor
  · rintro ⟨i, raised, hraised, hsig, hpos⟩
    rw [raiseSignal_get_eq, Option.map_eq_some_iff] at hraised
    obtain ⟨signal, hsignal, rfl⟩ := hraised
    by_cases hat : entryOf sig' signals = i
    · right
      rw [hat, hsignal] at hcounting
      obtain rfl := Option.some.inj hcounting
      rw [if_pos hat] at hsig
      exact hsig.symm.trans hsig'
    · left
      rw [if_neg hat] at hsig hpos
      exact ⟨i, signal, hsignal, hsig, hpos⟩
  · rintro (⟨i, signal, hsignal, hsig, hpos⟩ | rfl)
    · obtain ⟨raised, hraised, hcall, hle⟩ := @raiseSignal_get sig' _ _ _ hsignal
      exact ⟨i, raised, hraised, (congrArg SignalCall.sig hcall).trans hsig,
        Nat.lt_of_lt_of_le hpos hle⟩
    · refine ⟨entryOf sig signals, { counting with signaled := counting.signaled + 1 }, ?_, hsig',
        Nat.succ_pos _⟩
      rw [raiseSignal_get_eq, hcounting, Option.map_some, if_pos rfl]

theorem counts_append {more : EloopSignal} (hmore : more.signaled = 0) :
    Counts (signals ++ [more]) sig ↔ Counts signals sig := by
  constructor
  · rintro ⟨i, signal, hsignal, hsig, hpos⟩
    rcases List.mem_append.mp (List.mem_of_getElem? hsignal) with hmem | hmem
    · obtain ⟨j, hj⟩ := List.mem_iff_getElem?.mp hmem
      exact ⟨j, signal, hj, hsig, hpos⟩
    · obtain rfl := List.mem_singleton.mp hmem
      exact absurd hmore (Nat.ne_of_gt hpos)
  · rintro ⟨i, signal, hsignal, hsig, hpos⟩
    have hi := (List.getElem?_eq_some_iff.mp hsignal).1
    exact ⟨i, signal, (List.getElem?_append_left hi).trans hsignal, hsig, hpos⟩

/-- The entry that is cleared has counted all the deliveries of its signal. -/
theorem counts_clear (hsole : Sole signals) (hget : signals[i]? = some signal)
    (hpos : 0 < signal.signaled) :
    Counts (signals.set i { signal with signaled := 0 }) sig ↔
      Counts signals sig ∧ sig ≠ signal.sig := by
  constructor
  · rintro ⟨j, other, hother, hsig, hcounted⟩
    by_cases hij : i = j
    · subst hij
      rw [List.getElem?_set_self (List.getElem?_eq_some_iff.mp hget).1] at hother
      obtain rfl := Option.some.inj hother
      exact absurd hcounted (Nat.lt_irrefl 0)
    · rw [List.getElem?_set_ne hij] at hother
      refine ⟨⟨j, other, hother, hsig, hcounted⟩, ?_⟩
      intro hsame
      apply hij
      rw [← hsole i signal hget hpos, ← hsole j other hother hcounted, hsig, hsame]
  · rintro ⟨⟨j, other, hother, hsig, hcounted⟩, hne⟩
    refine ⟨j, other, (List.getElem?_set_ne ?_).trans hother, hsig, hcounted⟩
    rintro rfl
    obtain rfl : signal = other := Option.some.inj (hget.symm.trans hother)
    exact hne hsig.symm

end Table

/-- What an action does to the table. -/
theorem table_step {s s' : Signals} {action : SignalAction} (h : signalStep s action = some s') :
    (∃ sig, action = .deliver sig ∧ s'.signals = raiseSignal sig s.signals) ∨
    (∃ allocated sig handler userData, action = .register allocated sig handler userData ∧
      (s'.signals = s.signals ∨ s'.signals = s.signals ++ [⟨sig, userData, handler, 0⟩])) ∨
    (∃ i signal, action = .statement ∧ s.pc = .clearEntry i ∧ s.signals[i]? = some signal ∧
      s'.signals = s.signals.set i { signal with signaled := 0 }) ∨
    ((∀ sig, action ≠ .deliver sig) ∧ (action = .statement → ∀ i, s.pc ≠ .clearEntry i) ∧
      s'.signals = s.signals) := by
  cases action with
  | deliver sig =>
      obtain rfl := Option.some.inj h
      exact .inl ⟨sig, rfl, (handleSignal_fields s sig).1⟩
  | register allocated sig handler userData =>
      refine .inr (.inl ⟨allocated, sig, handler, userData, rfl, ?_⟩)
      cases allocated <;> grind [signalStep, registerSignal]
  | begin => grind [signalStep]
  | statement =>
      rcases statement_cases h with h | h | h | h | h | h | h | h | h | h <;>
        grind [Signals.endPass, DisarmCases]
  | handlerReturn => grind [signalStep]

/-- An entry that the pass is done with counts a SIGINT or SIGTERM. -/
def Behind (s : Signals) : Prop :=
  ∃ i : Nat, ∃ signal : EloopSignal, s.signals[i]? = some signal ∧ Terminates signal.sig ∧
    ¬ s.pc.unvisited i ∧ 0 < signal.signaled

/-- A move that passes no entry that counts. -/
theorem behind_move {s s' : Signals} (hsignals : s'.signals = s.signals)
    (hpc : ∀ i signal, s.signals[i]? = some signal → 0 < signal.signaled →
      (s'.pc.unvisited i ↔ s.pc.unvisited i)) : Behind s' ↔ Behind s := by
  rw [Behind, hsignals]
  refine exists_congr (fun i => exists_congr (fun signal => and_congr_right (fun hget => ?_)))
  refine and_congr_right (fun _ => ?_)
  rw [and_congr_left_iff]
  exact fun hpos => not_congr (hpc i signal hget hpos)

theorem behind_deliver {s : Signals} {sig : Int} (hentry : ∃ signal ∈ s.signals, signal.sig = sig) :
    Behind (handleSignal s sig) ↔
      Behind s ∨ (Terminates sig ∧ ¬ s.pc.unvisited (entryOf sig s.signals)) := by
  obtain ⟨hsignals, -, hpc, -⟩ := handleSignal_fields s sig
  obtain ⟨counting, hcounting, hsig⟩ := get_entryOf hentry
  rw [Behind, hsignals, hpc]
  constructor
  · rintro ⟨i, raised, hraised, hterminates, hvisited, hpos⟩
    rw [raiseSignal_get_eq, Option.map_eq_some_iff] at hraised
    obtain ⟨signal, hsignal, rfl⟩ := hraised
    by_cases hat : entryOf sig s.signals = i
    · right
      rw [hat, hsignal] at hcounting
      obtain rfl := Option.some.inj hcounting
      rw [if_pos hat] at hterminates
      rw [hat, ← hsig]
      exact ⟨hterminates, hvisited⟩
    · left
      rw [if_neg hat] at hterminates hpos
      exact ⟨i, signal, hsignal, hterminates, hvisited, hpos⟩
  · rintro (⟨i, signal, hsignal, hterminates, hvisited, hpos⟩ | ⟨hterminates, hvisited⟩)
    · obtain ⟨raised, hraised, hcall, hle⟩ := @raiseSignal_get sig _ _ _ hsignal
      have hsame : raised.sig = signal.sig := congrArg SignalCall.sig hcall
      exact ⟨i, raised, hraised, hsame ▸ hterminates, hvisited, Nat.lt_of_lt_of_le hpos hle⟩
    · refine ⟨entryOf sig s.signals, { counting with signaled := counting.signaled + 1 }, ?_,
        hsig ▸ hterminates, hvisited, Nat.succ_pos _⟩
      rw [raiseSignal_get_eq, hcounting, Option.map_some, if_pos rfl]

/-- The entry that is cleared does not count any more. -/
theorem behind_clear {s : Signals} {j : Nat} {cleared : EloopSignal} (hpc : s.pc = .clearEntry j)
    (hget : s.signals[j]? = some cleared) :
    Behind { s with
      signals := s.signals.set j { cleared with signaled := 0 }, pc := .callHandler j } ↔
        Behind s := by
  constructor
  · rintro ⟨i, signal, hsignal, hterminates, hvisited, hpos⟩
    by_cases hij : j = i
    · subst hij
      have hj := (List.getElem?_eq_some_iff.mp hget).1
      obtain rfl := Option.some.inj ((List.getElem?_set_self hj).symm.trans hsignal)
      exact absurd hpos (Nat.lt_irrefl 0)
    · refine ⟨i, signal, (List.getElem?_set_ne hij).symm.trans hsignal, hterminates, ?_, hpos⟩
      rw [hpc]
      exact fun hahead => hvisited (Nat.lt_of_le_of_ne hahead hij)
  · rintro ⟨i, signal, hsignal, hterminates, hvisited, hpos⟩
    rw [hpc] at hvisited
    have hij : j ≠ i := fun heq => hvisited (Nat.le_of_eq heq)
    exact ⟨i, signal, (List.getElem?_set_ne hij).trans hsignal, hterminates,
      fun hahead => hvisited (Nat.le_of_lt hahead), hpos⟩

/-- At the start of the loop every entry is still ahead. -/
theorem not_behind_start {s : Signals} (hpc : s.pc = .loopHead 0) : ¬ Behind s := by
  rintro ⟨i, signal, -, -, hvisited, -⟩
  rw [hpc] at hvisited
  exact hvisited (Nat.zero_le i)

/-- At its end every entry is behind. -/
theorem behind_end {s : Signals} {j : Nat} (hpc : s.pc = .loopHead j)
    (hend : s.signals.length ≤ j) :
    Behind s ↔ ∃ sig, Terminates sig ∧ Counts s.signals sig := by
  constructor
  · rintro ⟨i, signal, hsignal, hterminates, -, hpos⟩
    exact ⟨signal.sig, hterminates, i, signal, hsignal, rfl, hpos⟩
  · rintro ⟨sig, hterminates, i, signal, hsignal, rfl, hpos⟩
    exact ⟨i, signal, hsignal, hterminates, not_unvisited_of_length_le hpc hend hsignal, hpos⟩

namespace Watched

theorem step_eq_some {h h' : Watched} {action : SignalAction} :
    h.step action = some h' ↔ h.installed action ∧ signalStep h.signals action = some h'.signals ∧
      h'.waiting = h.waitingAfter action ∧ h'.inLoop = h.inLoopAfter action := by
  rw [step]
  split
  · rename_i hinstalled
    rw [Option.map_eq_some_iff]
    constructor
    · rintro ⟨s, hs, rfl⟩
      exact ⟨hinstalled, hs, rfl, rfl⟩
    · rintro ⟨-, hs, hwaiting, hloop⟩
      refine ⟨_, hs, ?_⟩
      rw [← hwaiting, ← hloop]
  · rename_i hnot
    exact iff_of_false (by simp) (fun hboth => hnot hboth.1)

/-- An entry that is about to be cleared has counted deliveries. -/
def Taking (h : Watched) : Prop :=
  ∀ i signal, h.signals.pc = .clearEntry i → h.signals.signals[i]? = some signal →
    0 < signal.signaled

theorem step_taking (h : Watched) (action : SignalAction) (h' : Watched) (htaking : h.Taking)
    (hstep : h.step action = some h') : h'.Taking := by
  obtain ⟨-, hs, -, -⟩ := step_eq_some.mp hstep
  intro i signal hpc hget
  cases action with
  | deliver sig =>
      have hdelivered := Option.some.inj hs
      obtain ⟨hsignals, -, hsame, -⟩ := handleSignal_fields h.signals sig
      rw [← hdelivered, hsame] at hpc
      rw [← hdelivered, hsignals, raiseSignal_get_eq, Option.map_eq_some_iff] at hget
      obtain ⟨before, hbefore, rfl⟩ := hget
      have hpos := htaking i before hpc hbefore
      split
      · exact Nat.succ_pos _
      · exact hpos
  | register allocated sig handler userData =>
      cases allocated <;> grind [signalStep, registerSignal]
  | begin => grind [signalStep]
  | statement =>
      rcases statement_cases hs with hs | hs | hs | hs | hs | hs | hs | hs | hs | hs <;>
        grind [Signals.endPass, DisarmCases]
  | handlerReturn => grind [signalStep]

/-- What waits is counted. -/
structure Waits (h : Watched) : Prop where
  sole : Sole h.signals.signals
  counted : ∀ sig, sig ∈ h.waiting ↔ Terminates sig ∧ Counts h.signals.signals sig

theorem step_waits (h : Watched) (action : SignalAction) (h' : Watched)
    (hwaits : h.Taking ∧ h.Waits) (hstep : h.step action = some h') : h'.Taking ∧ h'.Waits := by
  obtain ⟨htaking, hsole, hcounted⟩ := hwaits
  refine ⟨step_taking h action h' htaking hstep, ?_⟩
  obtain ⟨hinstalled, hs, hwaiting, -⟩ := step_eq_some.mp hstep
  rcases table_step hs with ⟨sig, rfl, htable⟩ | ⟨_, sig, handler, userData, rfl, htable⟩ |
    ⟨i, signal, rfl, hpc, hget, htable⟩ | ⟨hdeliver, hclear, htable⟩
  · refine ⟨htable ▸ hsole.raise hinstalled, fun sig' => ?_⟩
    rw [hwaiting, waitingAfter, htable, counts_raise hinstalled]
    split
    · rename_i hterminates
      rw [List.mem_append, List.mem_singleton, hcounted]
      constructor
      · rintro (⟨hterminates', hcounts⟩ | rfl)
        · exact ⟨hterminates', .inl hcounts⟩
        · exact ⟨hterminates, .inr rfl⟩
      · rintro ⟨hterminates', hcounts | rfl⟩
        · exact .inl ⟨hterminates', hcounts⟩
        · exact .inr rfl
    · rename_i hnot
      rw [hcounted]
      refine and_congr_right (fun hterminates => ?_)
      exact (or_iff_left (fun heq : sig' = sig => hnot (heq ▸ hterminates))).symm
  · rcases htable with htable | htable
    · exact ⟨htable ▸ hsole, fun sig' => by rw [hwaiting, htable]; exact hcounted sig'⟩
    · refine ⟨htable ▸ hsole.append rfl, fun sig' => ?_⟩
      rw [hwaiting, htable, counts_append rfl]
      exact hcounted sig'
  · refine ⟨htable ▸ hsole.clear hget, fun sig' => ?_⟩
    have hafter : h.waitingAfter .statement = h.waiting.filter (· ≠ signal.sig) := by
      simp only [waitingAfter, hpc, hget, Option.elim_some]
    rw [hwaiting, hafter, htable, counts_clear hsole hget (htaking i signal hpc hget),
      List.mem_filter, hcounted, and_assoc, decide_eq_true_iff]
  · have hafter : h.waitingAfter action = h.waiting := by
      cases action with
      | deliver sig => exact absurd rfl (hdeliver sig)
      | statement =>
          rw [waitingAfter]
          split
          · rename_i i hpc
            exact absurd hpc (hclear rfl i)
          · rfl
      | register | begin | handlerReturn => rfl
    refine ⟨htable ▸ hsole, fun sig' => ?_⟩
    rw [hwaiting, hafter, htable]
    exact hcounted sig'

/-- When the alarm is armed. -/
structure Armed (h : Watched) : Prop where
  alarm : h.signals.pc ≠ .clearPending → h.signals.alarm = h.signals.pendingTerminate
  pending : h.signals.pc = .alarmOff ∨ h.signals.pc = .clearPending →
    h.signals.pendingTerminate = true
  alarmOff : h.signals.pc = .clearPending → h.signals.alarm = false
  signaled : h.signals.pendingTerminate = true → 0 < h.signals.signaled ∨
    h.signals.pc = .testPending ∨ h.signals.pc = .alarmOff ∨ h.signals.pc = .clearPending
  opening : h.signals.pc.opening = true → h.inLoop = []
  looping : h.signals.pc.looping = true → (h.signals.pendingTerminate = true ↔ h.inLoop ≠ [])

/-- A move that leaves the alarm alone, and neither opens a pass nor starts its loop. -/
structure Quiet (s s' : Signals) : Prop where
  alarm : s'.alarm = s.alarm
  pending : s'.pendingTerminate = s.pendingTerminate
  signaled : s'.signaled = s.signaled
  from_pc : s.pc ≠ .testPending ∧ s.pc ≠ .alarmOff ∧ s.pc ≠ .clearPending
  to_pc : s'.pc ≠ .alarmOff ∧ s'.pc ≠ .clearPending
  opening : s'.pc.opening = true → s.pc.opening = true
  looping : s'.pc.looping = true → s.pc.looping = true

/-- The other statements clear the counter or take the alarm back. -/
theorem statement_quiet {s s' : Signals} (h : statement s = some s') :
    Quiet s s' ∨ (s.pc = .clearSignaled ∧ s' = { s with signaled := 0, pc := .testPending }) ∨
      DisarmCases s s' := by
  rcases statement_cases h with ⟨hpc, -, rfl⟩ | ⟨hpc, -, rfl⟩ | hclear | hdisarm |
    ⟨j, hpc, -, rfl⟩ | ⟨j, hpc, -, rfl⟩ | ⟨j, tested, hpc, -, -, rfl⟩ |
    ⟨j, tested, hpc, -, -, rfl⟩ | ⟨j, cleared, hpc, -, rfl⟩ | ⟨j, called, hpc, -, rfl⟩
  case inr.inr.inl => exact .inr (.inl hclear)
  case inr.inr.inr.inl => exact .inr (.inr hdisarm)
  all_goals
    left
    constructor <;> simp [hpc, Signals.endPass, Pc.opening, Pc.looping]

theorem Armed.move {h h' : Watched} (harmed : h.Armed) (hloop : h'.inLoop = h.inLoop)
    (hquiet : Quiet h.signals h'.signals) : h'.Armed := by
  obtain ⟨halarm, -, -, hsignaled, hopening, hlooping⟩ := harmed
  obtain ⟨hpending, hoff, hclear⟩ := hquiet.from_pc
  refine ⟨?_, ?_, fun hat => absurd hat hquiet.to_pc.2, ?_, ?_, ?_⟩
  · intro _
    rw [hquiet.alarm, hquiet.pending]
    exact halarm hclear
  · rintro (hat | hat)
    · exact absurd hat hquiet.to_pc.1
    · exact absurd hat hquiet.to_pc.2
  · rw [hquiet.pending, hquiet.signaled]
    intro hset
    rcases hsignaled hset with hpos | hat | hat | hat
    · exact .inl hpos
    · exact absurd hat hpending
    · exact absurd hat hoff
    · exact absurd hat hclear
  · rw [hloop]
    exact fun hopen => hopening (hquiet.opening hopen)
  · rw [hloop, hquiet.pending]
    exact fun hin => hlooping (hquiet.looping hin)

theorem armed_deliver {h h' : Watched} {sig : Int} (harmed : h.Armed)
    (hstep : h.step (.deliver sig) = some h') : h'.Armed := by
  obtain ⟨-, hs, -, hloop⟩ := step_eq_some.mp hstep
  have hdelivered := Option.some.inj hs
  obtain ⟨-, hsignaled, hpc, -⟩ := handleSignal_fields h.signals sig
  rw [hdelivered] at hsignaled hpc
  obtain ⟨halarm, hpending, halarmOff, -, hopening, hlooping⟩ := harmed
  by_cases hterminates : Terminates sig
  · have hpending' : h'.signals.pendingTerminate = true := by
      rw [← hdelivered, handleSignal]
      split <;> grind [Terminates]
    have halarm' : h.signals.pc ≠ .clearPending → h'.signals.alarm = true := by
      intro hne
      rw [← hdelivered, handleSignal]
      split <;> grind [Terminates]
    have halarmOff' : h.signals.pc = .clearPending → h'.signals.alarm = false := by
      intro hat
      rw [← hdelivered, handleSignal, if_neg (by simp [hpending (.inr hat)])]
      exact halarmOff hat
    refine ⟨?_, fun _ => hpending', ?_, fun _ => .inl (by omega), ?_, ?_⟩
    · rw [hpc, hpending']
      exact halarm'
    · rw [hpc]
      exact halarmOff'
    · rw [hpc, hloop, inLoopAfter]
      intro hopen
      rw [if_neg (fun hboth => absurd hboth.2 (by simp [Pc.not_looping hopen]))]
      exact hopening hopen
    · rw [hpc, hloop, inLoopAfter, hpending']
      intro hin
      rw [if_pos ⟨hterminates, hin⟩]
      simp
  · have hsame : h'.signals.alarm = h.signals.alarm ∧
        h'.signals.pendingTerminate = h.signals.pendingTerminate := by
      rw [← hdelivered, handleSignal, if_neg]
      · exact ⟨rfl, rfl⟩
      · exact fun hboth => hterminates hboth.1
    have hloop' : h'.inLoop = h.inLoop := by
      rw [hloop, inLoopAfter, if_neg (fun hboth => hterminates hboth.1)]
    refine ⟨?_, ?_, ?_, fun _ => .inl (by omega), ?_, ?_⟩
    · rwa [hpc, hsame.1, hsame.2]
    · rwa [hpc, hsame.2]
    · rwa [hpc, hsame.1]
    · rwa [hpc, hloop']
    · rwa [hpc, hloop', hsame.2]

theorem armed_disarm {h h' : Watched} (harmed : h.Armed) (hloop : h'.inLoop = h.inLoop)
    (hdisarm : DisarmCases h.signals h'.signals) : h'.Armed := by
  obtain ⟨s', waiting', inLoop'⟩ := h'
  rcases hdisarm with ⟨hpc, hs'⟩ | ⟨hpc, hs'⟩ | ⟨hpc, hs'⟩
  · obtain rfl := hs'
    have hnone : inLoop' = [] := hloop.trans (harmed.opening (by simp [hpc, Pc.opening]))
    have halarm := harmed.alarm (by simp [hpc])
    cases hpending : h.signals.pendingTerminate with
    | true =>
        refine ⟨fun _ => ?_, fun _ => rfl, by simp, fun _ => .inr (.inr (.inl rfl)),
          fun _ => hnone, by simp [Pc.looping]⟩
        exact halarm.trans hpending
    | false =>
        refine ⟨fun _ => ?_, by simp, by simp, by simp, fun _ => hnone, fun _ => ?_⟩
        · exact halarm.trans hpending
        · simp [hnone]
  · obtain rfl := hs'
    refine ⟨fun hne => absurd rfl hne, fun _ => harmed.pending (.inl hpc), fun _ => rfl,
      fun _ => .inr (.inr (.inr rfl)), fun _ => ?_, by simp [Pc.looping]⟩
    exact hloop.trans (harmed.opening (by simp [hpc, Pc.opening]))
  · obtain rfl := hs'
    have hnone : inLoop' = [] := hloop.trans (harmed.opening (by simp [hpc, Pc.opening]))
    refine ⟨fun _ => harmed.alarmOff hpc, by simp, by simp, by simp, fun _ => hnone, fun _ => ?_⟩
    simp [hnone]

theorem armed_statement {h h' : Watched} (harmed : h.Armed)
    (hstep : h.step .statement = some h') : h'.Armed := by
  obtain ⟨-, hs, -, hloop⟩ := step_eq_some.mp hstep
  change h'.inLoop = h.inLoop at hloop
  rcases statement_quiet hs with hquiet | ⟨hpc, hs'⟩ | hdisarm
  · exact harmed.move hloop hquiet
  · -- the counter is cleared in front of the test of `pending_terminate`
    obtain ⟨s', waiting', inLoop'⟩ := h'
    obtain rfl := hs'
    refine ⟨fun _ => harmed.alarm (by simp [hpc]), by simp, by simp, fun _ => .inr (.inl rfl),
      fun _ => ?_, by simp [Pc.looping]⟩
    exact hloop.trans (harmed.opening (by simp [hpc, Pc.opening]))
  · exact armed_disarm harmed hloop hdisarm

theorem step_armed (h : Watched) (action : SignalAction) (h' : Watched) (harmed : h.Armed)
    (hstep : h.step action = some h') : h'.Armed := by
  cases action with
  | deliver sig => exact armed_deliver harmed hstep
  | statement => exact armed_statement harmed hstep
  | register allocated sig handler userData =>
      obtain ⟨-, hs, -, hloop⟩ := step_eq_some.mp hstep
      have hsame : h'.signals.alarm = h.signals.alarm ∧
          h'.signals.pendingTerminate = h.signals.pendingTerminate ∧
          h'.signals.signaled = h.signals.signaled ∧ h'.signals.pc = h.signals.pc ∧
          (h.signals.pc = .idle ∨ ∃ i, h.signals.pc = .inHandler i) := by
        cases allocated <;> grind [signalStep, registerSignal]
      obtain ⟨halarm, hpending, hsignaled, hpc, hat⟩ := hsame
      refine harmed.move hloop ⟨halarm, hpending, hsignaled, ?_, ?_, fun hopen => hpc ▸ hopen,
        fun hin => hpc ▸ hin⟩
      · rcases hat with hat | ⟨i, hat⟩ <;> simp [hat]
      · rcases hat with hat | ⟨i, hat⟩ <;> simp [hpc, hat]
  | begin =>
      obtain ⟨-, hs, -, hloop⟩ := step_eq_some.mp hstep
      obtain ⟨s', waiting', inLoop'⟩ := h'
      rw [signalStep] at hs
      split at hs
      · rename_i hpc
        obtain rfl := Option.some.inj hs
        refine ⟨fun _ => harmed.alarm (by simp [hpc]), by simp, by simp, fun hpending => ?_,
          fun _ => hloop, by simp [Pc.looping]⟩
        have hsignaled := harmed.signaled hpending
        simpa [hpc] using hsignaled
      · simp at hs
  | handlerReturn =>
      obtain ⟨-, hs, -, hloop⟩ := step_eq_some.mp hstep
      obtain ⟨s', waiting', inLoop'⟩ := h'
      rw [signalStep] at hs
      split at hs
      · rename_i i hpc
        obtain rfl := Option.some.inj hs
        refine harmed.move hloop ?_
        constructor <;> simp [hpc, Pc.opening, Pc.looping]
      · simp at hs

/-- A delivery during the loop that came behind its entry is counted there. -/
def Passed (h : Watched) : Prop :=
  h.signals.pc.looping = true →
    ((∃ delivery ∈ h.inLoop, delivery.passed = true) ↔ Behind h.signals)

theorem passed_statement {h h' : Watched} (harmed : h.Armed) (hpassed : h.Passed)
    (hstep : h.step .statement = some h') : h'.Passed := by
  obtain ⟨-, hs, -, hloop⟩ := step_eq_some.mp hstep
  change h'.inLoop = h.inLoop at hloop
  intro hin
  have hmove (hin₀ : h.signals.pc.looping = true) (hsame : Behind h'.signals ↔ Behind h.signals) :
      (∃ delivery ∈ h'.inLoop, delivery.passed = true) ↔ Behind h'.signals := by
    rw [hloop, hpassed hin₀, hsame]
  rcases statement_cases hs with ⟨hpc, -, hs'⟩ | ⟨hpc, -, hs'⟩ | ⟨hpc, hs'⟩ | hdisarm |
    ⟨j, hpc, -, hs'⟩ | ⟨j, hpc, -, hs'⟩ | ⟨j, tested, hpc, hget, hzero, hs'⟩ |
    ⟨j, tested, hpc, -, -, hs'⟩ | ⟨j, cleared, hpc, hget, hs'⟩ | ⟨j, called, hpc, -, hs'⟩
  · simp [hs', Signals.endPass, Pc.looping] at hin
  · simp [hs', Pc.looping] at hin
  · simp [hs', Pc.looping] at hin
  · -- the loop starts, and nothing has come during it
    obtain ⟨hpc, -, -, -, -, -, hpc'⟩ := hdisarm.fields
    have hnone : h.inLoop = [] := by
      apply harmed.opening
      rcases hpc with hpc | hpc | hpc <;> rw [hpc, Pc.opening]
    rcases hpc' with hpc' | hpc' | hpc'
    · simp only [hpc', Pc.looping] at hin
      exact absurd hin (by simp)
    · simp only [hpc', Pc.looping] at hin
      exact absurd hin (by simp)
    · exact iff_of_false (by simp [hloop, hnone]) (not_behind_start hpc')
  · refine hmove (by rw [hpc, Pc.looping]) (behind_move (by rw [hs']) (fun i _ _ _ => ?_))
    rw [hs', hpc]
    rfl
  · simp [hs', Signals.endPass, Pc.looping] at hin
  · refine hmove (by rw [hpc, Pc.looping]) (behind_move (by rw [hs']) ?_)
    intro i signal hsignal hpos
    rw [hs', hpc]
    have hne : j ≠ i := by
      rintro rfl
      obtain rfl : tested = signal := Option.some.inj (hget.symm.trans hsignal)
      exact absurd hzero (Nat.ne_of_gt hpos)
    exact ⟨Nat.le_of_lt, fun hahead => Nat.lt_of_le_of_ne hahead hne⟩
  · refine hmove (by rw [hpc, Pc.looping]) (behind_move (by rw [hs']) (fun i _ _ _ => ?_))
    rw [hs', hpc]
    rfl
  · refine hmove (by rw [hpc, Pc.looping]) ?_
    rw [hs']
    exact behind_clear hpc hget
  · refine hmove (by rw [hpc, Pc.looping]) (behind_move (by rw [hs']) (fun i _ _ _ => ?_))
    rw [hs', hpc]
    rfl

theorem passed_deliver {h h' : Watched} {sig : Int} (hpassed : h.Passed)
    (hstep : h.step (.deliver sig) = some h') : h'.Passed := by
  obtain ⟨hentry, hs, -, hloop⟩ := step_eq_some.mp hstep
  have hdelivered := Option.some.inj hs
  obtain ⟨-, -, hpc, -⟩ := handleSignal_fields h.signals sig
  intro hin
  rw [← hdelivered, hpc] at hin
  rw [← hdelivered, behind_deliver hentry, ← hpassed hin, hloop, inLoopAfter]
  by_cases hterminates : Terminates sig
  · rw [if_pos ⟨hterminates, hin⟩]
    simp [or_and_right, exists_or, hterminates]
  · rw [if_neg (fun hboth => hterminates hboth.1)]
    exact (or_iff_left (fun hboth => hterminates hboth.1)).symm

theorem passed_register {h h' : Watched} {allocated : Bool} {sig : Int} {handler userData : Ptr}
    (hpassed : h.Passed) (hstep : h.step (.register allocated sig handler userData) = some h') :
    h'.Passed := by
  obtain ⟨-, hs, -, hloop⟩ := step_eq_some.mp hstep
  change h'.inLoop = h.inLoop at hloop
  have hpc : h'.signals.pc = h.signals.pc := by
    cases allocated <;> grind [signalStep, registerSignal]
  have hsignals : h'.signals.signals = h.signals.signals ∨
      h'.signals.signals = h.signals.signals ++ [⟨sig, userData, handler, 0⟩] := by
    cases allocated <;> grind [signalStep, registerSignal]
  intro hin
  rw [hpc] at hin
  rw [hloop, hpassed hin]
  rcases hsignals with hsignals | hsignals
  · exact (behind_move hsignals (fun i _ _ _ => by rw [hpc])).symm
  · rw [Behind, Behind, hsignals, hpc]
    constructor
    · rintro ⟨i, signal, hget, hrest⟩
      have hi := (List.getElem?_eq_some_iff.mp hget).1
      exact ⟨i, signal, (List.getElem?_append_left hi).trans hget, hrest⟩
    · rintro ⟨i, signal, hget, hterminates, hvisited, hpos⟩
      refine ⟨i, signal, ?_, hterminates, hvisited, hpos⟩
      rcases Nat.lt_or_ge i h.signals.signals.length with hi | hi
      · rwa [List.getElem?_append_left hi] at hget
      · rw [List.getElem?_append_right hi, List.getElem?_singleton] at hget
        split at hget
        · obtain rfl := Option.some.inj hget
          exact absurd hpos (Nat.lt_irrefl 0)
        · simp at hget

theorem step_passed (h : Watched) (action : SignalAction) (h' : Watched)
    (hboth : h.Armed ∧ h.Passed) (hstep : h.step action = some h') : h'.Armed ∧ h'.Passed := by
  obtain ⟨harmed, hpassed⟩ := hboth
  refine ⟨step_armed h action h' harmed hstep, ?_⟩
  cases action with
  | deliver sig => exact passed_deliver hpassed hstep
  | statement => exact passed_statement harmed hpassed hstep
  | register allocated sig handler userData => exact passed_register hpassed hstep
  | begin =>
      obtain ⟨-, hs, -, -⟩ := step_eq_some.mp hstep
      intro hin
      grind [signalStep, Pc.looping]
  | handlerReturn =>
      obtain ⟨-, hs, -, hloop⟩ := step_eq_some.mp hstep
      change h'.inLoop = h.inLoop at hloop
      intro _
      rw [signalStep] at hs
      split at hs
      · rename_i i hpc
        have hs' := Option.some.inj hs
        rw [hloop, hpassed (by rw [hpc, Pc.looping])]
        refine (behind_move (by rw [← hs']) (fun j _ _ _ => ?_)).symm
        rw [← hs', hpc]
        rfl
      · simp at hs

/-- Where a pass returns, the alarm is armed for a signal that waits exactly if a delivery
during its loop, if there was one, came behind its entry. -/
theorem accounted_iff {h h' : Watched} (hkept : h.Taking ∧ h.Waits) (hboth : h.Armed ∧ h.Passed)
    (hstep : h.step .statement = some h') (hreturns : h'.signals.pc = .idle) :
    h'.Accounted ↔ h'.LeavesOne := by
  obtain ⟨-, -, hcounted⟩ := step_waits h _ h' hkept hstep
  obtain ⟨harmed, hpassed⟩ := hboth
  obtain ⟨-, hs, -, hloop⟩ := step_eq_some.mp hstep
  change h'.inLoop = h.inLoop at hloop
  have harmed' := step_armed h _ h' harmed hstep
  have halarm := harmed'.alarm (by simp [hreturns])
  rw [Accounted, LeavesOne, halarm, or_self]
  rcases statement_cases hs with ⟨hpc, hzero, hs'⟩ | ⟨hpc, -, hs'⟩ | ⟨hpc, hs'⟩ | hdisarm |
    ⟨j, hpc, -, hs'⟩ | ⟨j, hpc, hend, hs'⟩ | ⟨j, tested, hpc, -, -, hs'⟩ |
    ⟨j, tested, hpc, -, -, hs'⟩ | ⟨j, cleared, hpc, -, hs'⟩ | ⟨j, called, hpc, -, hs'⟩
  · -- nothing is signaled, and the pass returns at once
    have hunarmed : h'.signals.pendingTerminate ≠ true := by
      intro hpending
      have hsignaled := harmed.signaled (by simpa [hs', Signals.endPass] using hpending)
      simp [hpc, hzero] at hsignaled
    have hnone : h'.inLoop = [] := hloop.trans (harmed.opening (by simp [hpc, Pc.opening]))
    exact iff_of_true (fun hpending => absurd hpending hunarmed) (fun hsome => absurd hnone hsome)
  · simp [hs'] at hreturns
  · simp [hs'] at hreturns
  · obtain ⟨-, -, -, -, -, -, hpc'⟩ := hdisarm.fields
    rcases hpc' with hpc' | hpc' | hpc' <;> simp [hpc'] at hreturns
  · simp [hs'] at hreturns
  · have hin : h.signals.pc.looping = true := by simp [hpc, Pc.looping]
    have hpending : h'.signals.pendingTerminate = true ↔ h'.inLoop ≠ [] := by
      rw [hs', hloop]
      exact harmed.looping hin
    have hwaiting : h'.waiting ≠ [] ↔ ∃ delivery ∈ h'.inLoop, delivery.passed = true := by
      have hsome : h'.waiting ≠ [] ↔ ∃ sig, sig ∈ h'.waiting := by
        rw [ne_eq, List.eq_nil_iff_forall_not_mem]
        exact not_forall_not
      rw [hsome, hloop, hpassed hin, behind_end hpc hend]
      refine exists_congr (fun sig => ?_)
      rw [hcounted, hs']
      rfl
    rw [hpending, hwaiting]
  · simp [hs'] at hreturns
  · simp [hs'] at hreturns
  · simp [hs'] at hreturns
  · simp [hs'] at hreturns

end Watched

/-- The alarm is armed for a signal that waits whenever a pass of the run returns, exactly if
in every pass one of the SIGINT and SIGTERM delivered during the loop, if there were any,
came behind its entry. -/
theorem alarm_accounted_iff (actions : List SignalAction) :
    AtReturns actions Watched.Accounted ↔ AtReturns actions Watched.LeavesOne := by
  refine forall_congr' (fun before => forall_congr' (fun h => forall_congr' (fun h' => ?_)))
  refine forall_congr' (fun _ => forall_congr' (fun hrun => ?_))
  have hkept : h.Taking ∧ h.Waits := by
    refine Runs.run_invariant Watched.step_waits ?_ hrun
    refine ⟨?_, ?_, ?_⟩
    · intro i signal _ hget
      simp [Watched.init, Signals.init] at hget
    · intro i signal hget
      simp [Watched.init, Signals.init] at hget
    · simp [Watched.init, Signals.init, Counts]
  have hboth : h.Armed ∧ h.Passed := by
    refine Runs.run_invariant Watched.step_passed ⟨⟨?_, ?_, ?_, ?_, ?_, ?_⟩, ?_⟩ hrun <;>
      simp [Watched.init, Signals.init, Watched.Passed, Pc.looping]
  refine forall_congr' (fun hstep => forall_congr' (fun hreturns => ?_))
  exact Watched.accounted_iff hkept hboth hstep hreturns

/-- SIGTERM comes twice, the second time between the clearing of `pending_terminate` and
that of its entry. -/
def deliveryInGap : List SignalAction :=
  [.register true sigterm 1 2, .deliver sigterm, .begin] ++ List.replicate 5 .statement ++
    [.deliver sigterm] ++ List.replicate 4 .statement ++ [.handlerReturn, .statement]

/-- Both deliveries have been handed to the handler, and the alarm is armed. -/
theorem deliveryInGap_unaccounted : ¬ AtReturns deliveryInGap Watched.Accounted := by
  intro h
  have hrun := h deliveryInGap.dropLast _ _ (List.prefix_rfl) rfl rfl rfl
  exact absurd hrun (by unfold Watched.Accounted; decide)

end EventLoop.Loop
