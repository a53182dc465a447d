import EventLoop.Timer.NsTimer

/-!
How long the poll of `ns_timer_support.c` waits: `find_nearest_timeout_ms` makes milliseconds of
what `get_eloop_timeval` says of the first timer. The product is a `long` and the result an
`unsigned int`, between 2^32 milliseconds and the seconds that stand for no timer at all the
result wraps.
-/

namespace EventLoop.NsTimer

/-- The seconds of a context without timers. -/
def noTimeoutSec : Int := 0x7FFFFFF

/-- `get_eloop_timeval`; `now` is read only if there is a timer. -/
def getEloopTimeval (now : OsTime) (timeout : List EloopTimeout) : OsTime :=
  match timeout with
  | [] => ⟨noTimeoutSec, 0⟩
  | head :: _ => if osTimeBefore now head.time then osTimeSub head.time now else ⟨0, 0⟩

def findNearestTimeoutMs (now : OsTime) (timeout : List EloopTimeout) : UInt32 :=
  let tv := getEloopTimeval now timeout
  if noTimeoutSec ≤ tv.sec then 0xFFFFFFFF
  else UInt32.ofInt (tv.sec * 1000 + tv.usec.tdiv 1000)

/-- The time left of a timer in microseconds, 0 if it is due. -/
def remaining (now : OsTime) (t : EloopTimeout) : Nat := (t.time.micros - now.micros).toNat

/-- What the poll is to wait: the milliseconds left of the first timer, as far as they can be
said, and the largest number for ever. -/
def nearestMs (now : OsTime) : List EloopTimeout → Nat
  | [] => 0xFFFFFFFF
  | head :: _ => min 0xFFFFFFFF (remaining now head / 1000)

variable {now : OsTime} {head : EloopTimeout} {next : List EloopTimeout}

theorem osTimeSub_micros (a b : OsTime) : (osTimeSub a b).micros = a.micros - b.micros := by
  unfold osTimeSub OsTime.micros
  dsimp only
  split <;> dsimp only <;> omega

theorem osTimeSub_normal {a b : OsTime} (ha : a.Normal) (hb : b.Normal) :
    (osTimeSub a b).Normal := by
  unfold osTimeSub OsTime.Normal at *
  dsimp only
  split <;> dsimp only <;> omega

/-- What is left of the first timer, normalised. -/
theorem getEloopTimeval_cons (hnow : now.Normal) (hhead : head.time.Normal) :
    (getEloopTimeval now (head :: next)).Normal ∧
      (getEloopTimeval now (head :: next)).micros = remaining now head := by
  rw [getEloopTimeval, remaining]
  cases hbefore : osTimeBefore now head.time with
  | true =>
      have hlt := (OsTime.key_lt_iff_micros hnow hhead).mp ((osTimeBefore_iff _ _).mp hbefore)
      refine ⟨osTimeSub_normal hhead hnow, ?_⟩
      rw [if_pos rfl, osTimeSub_micros]
      omega
  | false =>
      have hle : ¬ now.micros < head.time.micros := by
        rw [← OsTime.key_lt_iff_micros hnow hhead, ← osTimeBefore_iff, hbefore]
        exact Bool.false_ne_true
      rw [if_neg Bool.false_ne_true]
      refine ⟨by decide, ?_⟩
      change 0 * 1000000 + (0 : Int) = _
      omega

/-- The milliseconds of a normalised time, whole ones. -/
theorem millis_of_normal {tv : OsTime} (hnormal : tv.Normal) (hmicros : tv.micros = (r : Nat)) :
    tv.sec * 1000 + tv.usec.tdiv 1000 = (r / 1000 : Nat) := by
  obtain ⟨hnonneg, hlt⟩ := hnormal
  rw [OsTime.micros] at hmicros
  rw [Int.tdiv_eq_ediv_of_nonneg hnonneg]
  omega

theorem findNearestTimeoutMs_cons (hnow : now.Normal) (hhead : head.time.Normal) :
    (findNearestTimeoutMs now (head :: next)).toNat =
      if 0x7FFFFFF * 1000000 ≤ remaining now head then 0xFFFFFFFF
      else remaining now head / 1000 % 2 ^ 32 := by
  obtain ⟨hnormal, hmicros⟩ := @getEloopTimeval_cons now head next hnow hhead
  have hsec : noTimeoutSec ≤ (getEloopTimeval now (head :: next)).sec ↔
      0x7FFFFFF * 1000000 ≤ remaining now head := by
    obtain ⟨hnonneg, hlt⟩ := hnormal
    rw [OsTime.micros] at hmicros
    rw [noTimeoutSec]
    omega
  rw [findNearestTimeoutMs, millis_of_normal hnormal hmicros]
  by_cases hlong : 0x7FFFFFF * 1000000 ≤ remaining now head
  · rw [if_pos (hsec.mpr hlong), if_pos hlong]
    rfl
  · rw [if_neg (mt hsec.mp hlong), if_neg hlong]
    rw [UInt32.ofInt, UInt32.toNat_ofNat']
    omega

/-- In every context that registrations, cancellations and expiries lead to, and at every reading
of the clock: the poll waits as long as it is to wait exactly if less than 2^32 milliseconds are
left of the first timer, or as many seconds as stand for no timer, or milliseconds that happen to
be one less than a multiple of 2^32. -/
theorem nearest_timeout_iff {actions : List Action} {c : Context}
    (hrun : Runs.run step .init actions = some c) (now : WallTime) :
    (findNearestTimeoutMs now.toOsTime c.timeout).toNat = nearestMs now.toOsTime c.timeout ↔
      ∀ head ∈ c.timeout.head?, remaining now.toOsTime head / 1000 < 2 ^ 32 ∨
        0x7FFFFFF * 1000000 ≤ remaining now.toOsTime head ∨
        remaining now.toOsTime head / 1000 % 2 ^ 32 = 2 ^ 32 - 1 := by
  have h : Invariant c := Runs.run_invariant step_invariant init_invariant hrun
  cases hlist : c.timeout with
  | nil => exact iff_of_true rfl nofun
  | cons head next =>
      have hhead : head.time.Normal :=
        h.normal head (h.linked head (hlist ▸ List.mem_cons_self ..))
      rw [findNearestTimeoutMs_cons now.normal hhead, nearestMs]
      simp only [List.head?_cons, Option.mem_some_iff, forall_eq']
      split <;> omega

/-- One timer of so many seconds, registered at 100 seconds. -/
def oneTimer (secs : UInt32) : List Action :=
  [.registerTimeout true (.atSecond 100) secs 0 7 1 2]

theorem oneTimer_run (secs : UInt32) : ∃ c, Runs.run step .init (oneTimer secs) = some c ∧
    c.timeout = [⟨0, ⟨100 + secs.toNat, 0⟩, 1, 2, false, 7⟩] := by
  have hexpiry : expiry ⟨100, 0⟩ secs 0 = ⟨100 + secs.toNat, 0⟩ := by
    have hsmall : ¬ 1000000 ≤ (0 : Int) + (0 : UInt32).toNat := by decide
    rw [expiry, carryUsec, if_neg hsmall]
    rfl
  refine ⟨_, rfl, ?_⟩
  change linkTimeout ⟨0, expiry ⟨100, 0⟩ secs 0, 1, 2, false, 7⟩ [] = _
  rw [hexpiry]
  rfl

theorem tenSeconds_nearest : ∃ c, Runs.run step .init (oneTimer 10) = some c ∧
    (findNearestTimeoutMs ⟨100, 500000⟩ c.timeout).toNat = nearestMs ⟨100, 500000⟩ c.timeout := by
  obtain ⟨c, hrun, htimeout⟩ := oneTimer_run 10
  refine ⟨c, hrun, (nearest_timeout_iff hrun ⟨⟨100, 500000⟩, by decide⟩).mpr ?_⟩
  rw [htimeout]
  exact fun head hhead => .inl (Option.some.inj hhead ▸ by decide)

/-- A timer of 4294968 seconds, 49.7 days, makes the poll wait 704 milliseconds; with one second
less it waits for all of them. -/
theorem long_timeout_wraps :
    (∃ c, Runs.run step .init (oneTimer 4294968) = some c ∧
      (findNearestTimeoutMs ⟨100, 0⟩ c.timeout).toNat = 704 ∧
      nearestMs ⟨100, 0⟩ c.timeout = 0xFFFFFFFF) ∧
    ∃ c, Runs.run step .init (oneTimer 4294967) = some c ∧
      (findNearestTimeoutMs ⟨100, 0⟩ c.timeout).toNat = 4294967000 := by
  obtain ⟨c, hrun, htimeout⟩ := oneTimer_run 4294968
  obtain ⟨c', hrun', htimeout'⟩ := oneTimer_run 4294967
  refine ⟨⟨c, hrun, ?_, ?_⟩, c', hrun', ?_⟩
  · rw [htimeout]
    decide
  · rw [htimeout]
    decide
  · rw [htimeout']
    decide

end EventLoop.NsTimer
