import EventLoop.Timer.Queue
import EventLoop.Lib.MonotoneSplit

/-!
Clock-step compensation of `eloop.c`: `eloop_timeChangeAuto` predicts the wall
time from the tick counter, and `eloop_timeUpdate` moves the timers by the
difference between the real and the predicted time. Expiries at or below
second 1000000000 count as set before the clock was; once the walk has met one,
it leaves every later one where it is.
-/

namespace EventLoop

def isPrehistoric (timeout : EloopTimeout) : Bool :=
  timeout.time.sec ≤ 1000000000

/-- The new time of one entry. -/
def shiftTimeout (sign : Int) (difftime : OsTime) (timeout : EloopTimeout) : EloopTimeout :=
  {timeout with
    time := if sign > 0 then addTime timeout.time difftime else subTime timeout.time difftime}

def timeUpdateLoop (sign : Int) (difftime : OsTime) (bHasPrehistoric : Bool) :
    List EloopTimeout → List EloopTimeout
  | [] => []
  | timeout :: next =>
      let bIsPrehistoric := isPrehistoric timeout
      let bHasPrehistoric := bHasPrehistoric || bIsPrehistoric
      (if bIsPrehistoric || (!bIsPrehistoric && !bHasPrehistoric) then
        shiftTimeout sign difftime timeout else timeout) ::
        timeUpdateLoop sign difftime bHasPrehistoric next

def eloopTimeUpdate (sign : Int) (difftime : OsTime) (timeout : List EloopTimeout) :
    List EloopTimeout :=
  if sign = 0 ∨ (difftime.sec ≤ 0 ∧ difftime.usec ≤ 900000) then timeout
  else timeUpdateLoop sign difftime false timeout

def eloopTimeChange0 (newTime curtime : OsTime) (timeout : List EloopTimeout) :
    List EloopTimeout :=
  let sign := cmpTime newTime curtime
  if sign = 0 then timeout
  else
    let difftime := if sign > 0 then subTime newTime curtime else subTime curtime newTime
    eloopTimeUpdate sign difftime timeout

def myClocksPerSec : Int := 100

/-- `unsigned long clockdiff`. The wrap formula is for a 32-bit counter; with a
64-bit `clock_t` it makes `0x100000000` of equal counts. -/
def clockdiff (t1 t0 : Int64) : Int :=
  (if t1 > t0 then t1.toInt - t0.toInt else 0xFFFFFFFF - t0.toInt + t1.toInt + 1) % 2 ^ 64

/-- The wall time predicted from the previous one and the ticks since. -/
def predictedTime (clockdiff : Int) (prevTime : OsTime) : OsTime :=
  let sec := prevTime.sec + clockdiff / myClocksPerSec
  let usec := prevTime.usec + clockdiff % myClocksPerSec * 1000000 / myClocksPerSec
  if usec > 1000000 then ⟨sec + 1, usec - 1000000⟩
  else if usec < 0 then ⟨sec - 1, usec + 1000000⟩
  else ⟨sec, usec⟩

def eloopTimeChangeAuto (t1 t0 : Int64) (newTime prevTime : OsTime)
    (timeout : List EloopTimeout) : List EloopTimeout :=
  eloopTimeChange0 newTime (predictedTime (clockdiff t1 t0) prevTime) timeout

theorem predictedTime_micros (ticks : Int) (prevTime : OsTime) :
    (predictedTime ticks prevTime).micros = prevTime.micros + ticks * 10000 := by
  unfold predictedTime OsTime.micros myClocksPerSec
  dsimp only
  split
  · dsimp only
    omega
  · split <;> dsimp only <;> omega

/-- The second is not carried when the microseconds are exactly 1000000. -/
theorem predictedTime_usec (ticks : Int) {prevTime : OsTime} (h : prevTime.Normal) :
    0 ≤ (predictedTime ticks prevTime).usec ∧ (predictedTime ticks prevTime).usec ≤ 1000000 := by
  unfold OsTime.Normal at h
  unfold predictedTime myClocksPerSec
  dsimp only
  split
  · dsimp only
    omega
  · split <;> dsimp only <;> omega

/-- The shift in microseconds that the sign and the difference stand for. -/
def signedMicros (sign : Int) (difftime : OsTime) : Int :=
  if sign > 0 then difftime.micros else -difftime.micros

theorem shiftTimeout_micros (sign : Int) (difftime : OsTime) (timeout : EloopTimeout) :
    (shiftTimeout sign difftime timeout).time.micros =
      timeout.time.micros + signedMicros sign difftime := by
  unfold shiftTimeout signedMicros
  split
  · exact addTime_micros _ _
  · rw [subTime_micros]
    rfl

theorem shiftTimeout_normal (sign : Int) {difftime : OsTime} {timeout : EloopTimeout}
    (ht : timeout.time.Normal) (hd : difftime.Normal) :
    (shiftTimeout sign difftime timeout).time.Normal := by
  unfold shiftTimeout
  dsimp only
  split
  · exact addTime_normal ht hd
  · exact subTime_normal ht hd

/-- Behind a prehistoric entry only prehistoric ones move. -/
theorem timeUpdateLoop_behind (sign : Int) (difftime : OsTime) (timeout : List EloopTimeout) :
    timeUpdateLoop sign difftime true timeout =
      timeout.map (fun t => if isPrehistoric t then shiftTimeout sign difftime t else t) := by
  induction timeout with
  | nil => rfl
  | cons t next ih =>
      simp only [timeUpdateLoop, Bool.true_or, ih, List.map_cons, Bool.not_true, Bool.and_false,
        Bool.or_false]

theorem timeUpdateLoop_later (sign : Int) (difftime : OsTime) {timeout : List EloopTimeout}
    (h : ∀ t ∈ timeout, ¬ isPrehistoric t) :
    timeUpdateLoop sign difftime false timeout =
      timeout.map (shiftTimeout sign difftime) := by
  induction timeout with
  | nil => rfl
  | cons t next ih =>
      have ht : isPrehistoric t = false := by simpa using h t (List.mem_cons_self ..)
      simp [timeUpdateLoop, ht, ih (fun u hu => h u (List.mem_cons_of_mem _ hu))]

theorem timeUpdateLoop_prehistoric_head (sign : Int) (difftime : OsTime)
    {t : EloopTimeout} (ht : isPrehistoric t = true) (next : List EloopTimeout) :
    timeUpdateLoop sign difftime false (t :: next) =
      (t :: next).map
        (fun t => if isPrehistoric t then shiftTimeout sign difftime t else t) := by
  simp [timeUpdateLoop, ht, timeUpdateLoop_behind]

/-- The first entry moves whatever it is. -/
theorem timeUpdateLoop_head (sign : Int) (difftime : OsTime) (t : EloopTimeout)
    (next : List EloopTimeout) :
    ∃ rest, timeUpdateLoop sign difftime false (t :: next) =
      shiftTimeout sign difftime t :: rest := by
  cases ht : isPrehistoric t <;> simp [timeUpdateLoop, ht]

theorem cmpTime_cases (dst src : OsTime) :
    (cmpTime dst src = 1 ∧ src.key < dst.key) ∨ (cmpTime dst src = 0 ∧ dst.micros = src.micros) ∨
      (cmpTime dst src = -1 ∧ dst.key < src.key) := by
  rw [OsTime.key_lt_iff, OsTime.key_lt_iff]
  unfold cmpTime OsTime.micros
  split
  · omega
  · split
    · omega
    · split <;> omega

/-- The difference to an earlier time, of at most 0.9 s. -/
theorem subTime_small_iff {a b : OsTime} (ha : 0 ≤ a.usec ∧ a.usec ≤ 1000000)
    (hb : 0 ≤ b.usec ∧ b.usec ≤ 1000000) (h : b.key < a.key) :
    ((subTime a b).sec ≤ 0 ∧ (subTime a b).usec ≤ 900000) ↔
      (a.micros - b.micros).natAbs ≤ 900000 := by
  rw [OsTime.key_lt_iff] at h
  unfold subTime OsTime.micros
  dsimp only
  split <;> dsimp only <;> omega

theorem eloopTimeUpdate_cases {sign e : Int} {difftime : OsTime} (hsign : sign ≠ 0)
    (he : signedMicros sign difftime = e)
    (hsmall : (difftime.sec ≤ 0 ∧ difftime.usec ≤ 900000) ↔ e.natAbs ≤ 900000)
    (timeout : List EloopTimeout) :
    (e.natAbs ≤ 900000 ∧ eloopTimeUpdate sign difftime timeout = timeout) ∨
      (900000 < e.natAbs ∧ ∃ sign' difftime', signedMicros sign' difftime' = e ∧
        eloopTimeUpdate sign difftime timeout =
          timeUpdateLoop sign' difftime' false timeout) := by
  unfold eloopTimeUpdate
  by_cases hlarge : e.natAbs ≤ 900000
  · exact Or.inl ⟨hlarge, if_pos (Or.inr (hsmall.mpr hlarge))⟩
  · refine Or.inr ⟨by omega, sign, difftime, he, if_neg ?_⟩
    rintro (hzero | hle)
    · exact hsign hzero
    · exact hlarge (hsmall.mp hle)

/-- `eloop_timeChange0` moves nothing for differences up to 0.9 s, and runs the
loop on the signed difference for larger ones. The predicted time may hold
1000000 microseconds. -/
theorem eloopTimeChange0_cases {newTime curtime : OsTime} (hnew : newTime.Normal)
    (hcur : 0 ≤ curtime.usec ∧ curtime.usec ≤ 1000000) (timeout : List EloopTimeout) :
    let e := newTime.micros - curtime.micros
    (e.natAbs ≤ 900000 ∧ eloopTimeChange0 newTime curtime timeout = timeout) ∨
      (900000 < e.natAbs ∧ ∃ sign difftime, signedMicros sign difftime = e ∧
        eloopTimeChange0 newTime curtime timeout =
          timeUpdateLoop sign difftime false timeout) := by
  intro e
  have hnew' : 0 ≤ newTime.usec ∧ newTime.usec ≤ 1000000 := ⟨hnew.1, le_trans hnew.2 (by decide)⟩
  rcases cmpTime_cases newTime curtime with ⟨hsign, hlater⟩ | ⟨hsign, hsame⟩ | ⟨hsign, hearlier⟩
  · have hchange : eloopTimeChange0 newTime curtime timeout =
        eloopTimeUpdate 1 (subTime newTime curtime) timeout := by
      unfold eloopTimeChange0
      rw [hsign]
      rfl
    rw [hchange]
    apply eloopTimeUpdate_cases (by decide)
    · exact subTime_micros _ _
    · exact subTime_small_iff hnew' hcur hlater
  · refine Or.inl ⟨?_, by simp [eloopTimeChange0, hsign]⟩
    omega
  · have hchange : eloopTimeChange0 newTime curtime timeout =
        eloopTimeUpdate (-1) (subTime curtime newTime) timeout := by
      unfold eloopTimeChange0
      rw [hsign]
      rfl
    have hmicros : (subTime curtime newTime).micros = -e := by
      rw [subTime_micros]
      omega
    rw [hchange]
    apply eloopTimeUpdate_cases (by decide)
    · rw [signedMicros, if_neg (by decide), hmicros, neg_neg]
    · rw [subTime_small_iff hcur hnew' hearlier]
      omega

/-- Every expiry moved by exactly `e` microseconds, nothing else changed. -/
def MovedBy (e : Int) (before after : List EloopTimeout) : Prop :=
  List.Forall₂ (fun t t' => t'.time.micros = t.time.micros + e ∧ t' = {t with time := t'.time})
    before after

/-- No expiry above second 1000000000 stands behind a prehistoric one. -/
def NoLaterBehindPrehistoric (timeout : List EloopTimeout) : Prop :=
  timeout.Pairwise (fun a b => isPrehistoric a → isPrehistoric b)

theorem map_shiftTimeout_movedBy (sign : Int) (difftime : OsTime) (timeout : List EloopTimeout) :
    MovedBy (signedMicros sign difftime) timeout
      (timeout.map (shiftTimeout sign difftime)) := by
  induction timeout with
  | nil => exact .nil
  | cons t next ih => exact .cons ⟨shiftTimeout_micros sign difftime t, rfl⟩ ih

theorem timeUpdateLoop_eq_map (sign : Int) (difftime : OsTime) {timeout : List EloopTimeout}
    (h : NoLaterBehindPrehistoric timeout) :
    timeUpdateLoop sign difftime false timeout =
      timeout.map (shiftTimeout sign difftime) := by
  induction timeout with
  | nil => rfl
  | cons t next ih =>
      obtain ⟨hhead, htail⟩ := List.pairwise_cons.mp h
      cases ht : isPrehistoric t with
      | false => simp [timeUpdateLoop, ht, ih htail]
      | true =>
          rw [timeUpdateLoop_prehistoric_head sign difftime ht]
          apply List.map_congr_left
          intro u hu
          rcases List.mem_cons.mp hu with rfl | hu
          · simp [ht]
          · simp [hhead u hu ht]

/-- If the loop moved everything by a nonzero amount, it met no later expiry
behind a prehistoric one. -/
theorem noLaterBehindPrehistoric_of_movedBy {sign : Int} {difftime : OsTime} {e : Int}
    (he : e ≠ 0) {timeout : List EloopTimeout}
    (h : MovedBy e timeout (timeUpdateLoop sign difftime false timeout)) :
    NoLaterBehindPrehistoric timeout := by
  induction timeout with
  | nil => exact List.Pairwise.nil
  | cons t next ih =>
      cases ht : isPrehistoric t with
      | false =>
          simp only [timeUpdateLoop, ht, Bool.or_false] at h
          exact List.pairwise_cons.mpr
            ⟨fun u _ habs => absurd habs (by simp [ht]), ih (List.forall₂_cons.mp h).2⟩
      | true =>
          rw [timeUpdateLoop_prehistoric_head sign difftime ht] at h
          have hall : ∀ u ∈ t :: next, isPrehistoric u = true := by
            intro u hu
            by_contra hnot
            have hmoved := List.forall₂_map_right_iff.mp h
            have hu' := (List.forall₂_same.mp hmoved u hu).1
            simp only [hnot] at hu'
            simp at hu'
            exact he hu'
          exact List.pairwise_iff_forall_sublist.mpr
            (fun hsub _ => hall _ (hsub.subset (by simp)))

/-- The error of the prediction: `new - (prev + (t1 - t0) * 10 ms)`. -/
def clockError (t1 t0 : Int64) (newTime prevTime : OsTime) : Int :=
  newTime.micros - (prevTime.micros + (t1.toInt - t0.toInt) * 10000)

/-- Timers stay for errors up to 0.9 s and move by exactly the error above. -/
def CompensatesExactly (t1 t0 : Int64) (newTime prevTime : OsTime)
    (timeout : List EloopTimeout) : Prop :=
  let e := clockError t1 t0 newTime prevTime
  let result := eloopTimeChangeAuto t1 t0 newTime prevTime timeout
  (e.natAbs ≤ 900000 → result = timeout) ∧ (900000 < e.natAbs → MovedBy e timeout result)

theorem clockdiff_of_lt {t1 t0 : Int64} (h : t0 < t1) :
    clockdiff t1 t0 = t1.toInt - t0.toInt := by
  have hlt : t0.toInt < t1.toInt := Int64.lt_iff_toInt_lt.mp h
  have h1 := t1.toInt_lt
  have h0 := t0.le_toInt
  rw [clockdiff, if_pos h]
  exact Int.emod_eq_of_lt (by omega) (by omega)

/-- Equal counts are taken for a full turn of a 32-bit counter. -/
theorem clockdiff_self (t : Int64) : clockdiff t t = 0x100000000 := by
  have hnot : ¬ t > t := fun h => by
    have := Int64.lt_iff_toInt_lt.mp h
    omega
  rw [clockdiff, if_neg hnot]
  omega

/-- What one call does, in terms of the ticks it believes to have passed. -/
theorem eloopTimeChangeAuto_cases (t1 t0 : Int64) (newTime : OsTime) {prevTime : OsTime}
    (hnew : newTime.Normal) (hprev : prevTime.Normal) (timeout : List EloopTimeout) :
    let believed := newTime.micros - (prevTime.micros + clockdiff t1 t0 * 10000)
    let result := eloopTimeChangeAuto t1 t0 newTime prevTime timeout
    (believed.natAbs ≤ 900000 ∧ result = timeout) ∨
      (900000 < believed.natAbs ∧ ∃ sign difftime, signedMicros sign difftime = believed ∧
        result = timeUpdateLoop sign difftime false timeout) := by
  have hcases := eloopTimeChange0_cases hnew
    (predictedTime_usec (clockdiff t1 t0) hprev) timeout
  rwa [predictedTime_micros] at hcases

theorem compensates_of_lt {t1 t0 : Int64} (h : t0 < t1) (newTime prevTime : WallTime)
    (timeout : List EloopTimeout) :
    CompensatesExactly t1 t0 newTime.toOsTime prevTime.toOsTime timeout ↔
      ((clockError t1 t0 newTime.toOsTime prevTime.toOsTime).natAbs ≤ 900000 ∨
        NoLaterBehindPrehistoric timeout) := by
  have hcases := eloopTimeChangeAuto_cases t1 t0 newTime.toOsTime newTime.normal
    prevTime.normal timeout
  dsimp only at hcases
  rw [clockdiff_of_lt h] at hcases
  unfold CompensatesExactly
  dsimp only
  rw [show clockError t1 t0 newTime.toOsTime prevTime.toOsTime =
    newTime.micros - (prevTime.micros + (t1.toInt - t0.toInt) * 10000) from rfl]
  rcases hcases with ⟨hsmall, hsame⟩ | ⟨hlarge, sign, difftime, hsigned, hloop⟩
  · exact ⟨fun _ => Or.inl hsmall, fun _ => ⟨fun _ => hsame, fun hlarge => by omega⟩⟩
  · constructor
    · rintro ⟨_, hmoved⟩
      have hmoved := hmoved hlarge
      rw [hloop] at hmoved
      exact Or.inr (noLaterBehindPrehistoric_of_movedBy (by omega) hmoved)
    · rintro (hsmall | hbehind)
      · omega
      · refine ⟨fun hsmall => by omega, fun _ => ?_⟩
        rw [hloop, timeUpdateLoop_eq_map sign difftime hbehind, ← hsigned]
        exact map_shiftTimeout_movedBy sign difftime timeout

/-- With equal counts the head, if there is one, is off by 2^32 ticks. -/
theorem not_compensates_self (t : Int64) (newTime prevTime : WallTime)
    (head : EloopTimeout) (next : List EloopTimeout) :
    ¬ CompensatesExactly t t newTime.toOsTime prevTime.toOsTime (head :: next) := by
  have hcases := eloopTimeChangeAuto_cases t t newTime.toOsTime newTime.normal
    prevTime.normal (head :: next)
  dsimp only at hcases
  rw [clockdiff_self] at hcases
  rintro ⟨hstay, hmove⟩
  have herror : clockError t t newTime.toOsTime prevTime.toOsTime =
      newTime.micros - prevTime.micros := by
    unfold clockError
    omega
  rw [herror] at hstay hmove
  rcases hcases with ⟨hsmall, hsame⟩ | ⟨hlarge, sign, difftime, hsigned, hloop⟩
  · have hmoved := hmove (by omega)
    rw [hsame] at hmoved
    have := (List.forall₂_cons.mp hmoved).1.1
    omega
  · obtain ⟨rest, hrest⟩ := timeUpdateLoop_head sign difftime head next
    have hmicros := shiftTimeout_micros sign difftime head
    by_cases hsmall : (newTime.micros - prevTime.micros).natAbs ≤ 900000
    · have heq := hstay hsmall
      rw [hloop, hrest] at heq
      have hhead := (List.cons.inj heq).1
      rw [hhead] at hmicros
      omega
    · have hmoved := hmove (by omega)
      rw [hloop, hrest] at hmoved
      have := (List.forall₂_cons.mp hmoved).1.1
      omega

/-- For tick counts in order and normalised wall times, compensation is exact
if and only if time has passed or no timer is pending, and a moved list has no
later expiry behind a prehistoric one. -/
theorem compensation_exact_iff {t1 t0 : Int64} (hticks : t0 ≤ t1)
    (newTime prevTime : WallTime) (timeout : List EloopTimeout) :
    CompensatesExactly t1 t0 newTime.toOsTime prevTime.toOsTime timeout ↔
      (t0 < t1 ∨ timeout = []) ∧
        ((clockError t1 t0 newTime.toOsTime prevTime.toOsTime).natAbs ≤ 900000 ∨
          NoLaterBehindPrehistoric timeout) := by
  by_cases hlt : t0 < t1
  · simp only [compensates_of_lt hlt, hlt, true_or, true_and]
  · have heq : t1 = t0 := by
      apply Int64.toInt_inj.mp
      have hle := Int64.le_iff_toInt_le.mp hticks
      have hnot := mt Int64.lt_iff_toInt_lt.mpr hlt
      omega
    subst heq
    cases timeout with
    | nil =>
        have hcases := eloopTimeChangeAuto_cases t1 t1 newTime.toOsTime newTime.normal
          prevTime.normal []
        have hnil : eloopTimeChangeAuto t1 t1 newTime.toOsTime prevTime.toOsTime [] = [] := by
          rcases hcases with ⟨_, hsame⟩ | ⟨_, sign, difftime, _, hloop⟩
          · exact hsame
          · exact hloop
        have hexact : CompensatesExactly t1 t1 newTime.toOsTime prevTime.toOsTime [] := by
          refine ⟨fun _ => hnil, fun _ => ?_⟩
          rw [hnil]
          exact .nil
        exact iff_of_true hexact ⟨Or.inr rfl, Or.inr List.Pairwise.nil⟩
    | cons head next =>
        simp only [hlt, reduceCtorEq, or_self, false_and, iff_false]
        exact not_compensates_self t1 newTime prevTime head next

theorem compensation_exact_one_tick :
    CompensatesExactly 1 0 ⟨1600000000, 0⟩ ⟨1599999999, 990000⟩
      [⟨0, ⟨1600000010, 0⟩, 1, 2, false, 7⟩] :=
  (compensation_exact_iff (by decide) ⟨⟨1600000000, 0⟩, by decide⟩
    ⟨⟨1599999999, 990000⟩, by decide⟩ _).mpr
    ⟨Or.inl (by decide), Or.inl (by decide)⟩

/-- Two iterations of the loop within one tick and an undisturbed clock: the
timer is moved back by 42949672.96 s. -/
theorem equal_ticks_move_timer :
    let timer : EloopTimeout := ⟨0, ⟨1600000010, 0⟩, 1, 2, false, 7⟩
    eloopTimeChangeAuto 5 5 ⟨1600000000, 0⟩ ⟨1600000000, 0⟩ [timer] =
        [{timer with time := ⟨1557050337, 40000⟩}] ∧
      ¬ CompensatesExactly 5 5 ⟨1600000000, 0⟩ ⟨1600000000, 0⟩ [timer] := by
  intro timer
  have hmoved : eloopTimeChangeAuto 5 5 ⟨1600000000, 0⟩ ⟨1600000000, 0⟩ [timer] =
      [{timer with time := ⟨1557050337, 40000⟩}] := by decide
  refine ⟨hmoved, fun h => ?_⟩
  have hstay := h.1 (by decide)
  rw [hmoved] at hstay
  revert hstay
  decide

/-- In the order `eloop_register_timeout0` keeps: no entry expires before one
ahead of it. -/
def SortedByExpiry (timeout : List EloopTimeout) : Prop :=
  timeout.Pairwise (fun a b => osTimeBefore b.time a.time = false)

/-- `eloop_run` examines only the head: in a sorted list nothing behind a head
that is not yet due is due. -/
theorem SortedByExpiry.none_due {head : EloopTimeout} {next : List EloopTimeout}
    (h : SortedByExpiry (head :: next)) (now : OsTime)
    (hhead : osTimeBefore now head.time = true) :
    ∀ t ∈ next, osTimeBefore now t.time = true := by
  intro t ht
  have hle := (List.pairwise_cons.mp h).1 t ht
  rw [← Bool.not_eq_true, osTimeBefore_iff, not_lt] at hle
  rw [osTimeBefore_iff] at hhead ⊢
  exact lt_of_lt_of_le hhead hle

theorem sortedByExpiry_iff_micros {timeout : List EloopTimeout}
    (hnormal : ∀ t ∈ timeout, t.time.Normal) :
    SortedByExpiry timeout ↔
      timeout.Pairwise (fun a b => a.time.micros ≤ b.time.micros) := by
  have hpair : ∀ {a b : EloopTimeout}, a ∈ timeout → b ∈ timeout →
      (osTimeBefore b.time a.time = false ↔ a.time.micros ≤ b.time.micros) := by
    intro a b ha hb
    rw [← Bool.not_eq_true, osTimeBefore_iff,
      OsTime.key_lt_iff_micros (hnormal b hb) (hnormal a ha), not_lt]
  exact List.Pairwise.iff_of_mem hpair

/-- A sorted list holds its prehistoric entries first. -/
theorem SortedByExpiry.downward {timeout : List EloopTimeout} (h : SortedByExpiry timeout) :
    MonotoneSplit.Downward (fun t => isPrehistoric t = true) timeout := by
  apply MonotoneSplit.Downward.of_pairwise h
  intro a b hab hb
  rw [← Bool.not_eq_true, osTimeBefore_iff, OsTime.key_lt_iff] at hab
  simp only [isPrehistoric, decide_eq_true_eq] at hb ⊢
  omega

/-- On a sorted list the loop moves the prehistoric entries if there are any,
and all entries otherwise. -/
theorem timeUpdateLoop_append (sign : Int) (difftime : OsTime)
    {front back : List EloopTimeout} (hfront : ∀ t ∈ front, isPrehistoric t)
    (hback : ∀ t ∈ back, ¬ isPrehistoric t) :
    timeUpdateLoop sign difftime false (front ++ back) =
      if front = [] then back.map (shiftTimeout sign difftime)
      else front.map (shiftTimeout sign difftime) ++ back := by
  cases front with
  | nil => simpa using timeUpdateLoop_later sign difftime hback
  | cons t next =>
      rw [List.cons_append,
        timeUpdateLoop_prehistoric_head sign difftime (hfront t (List.mem_cons_self ..)),
        if_neg (by simp), ← List.cons_append, List.map_append]
      congr 1
      · apply List.map_congr_left
        intro u hu
        rw [if_pos (hfront u hu)]
      · calc
          back.map (fun t => if isPrehistoric t then shiftTimeout sign difftime t else t) =
              back.map id := by
                apply List.map_congr_left
                intro u hu
                rw [if_neg (hback u hu)]
                rfl
          _ = back := List.map_id _

theorem shifted_pairwise_iff (sign : Int) (difftime : OsTime) (timeout : List EloopTimeout) :
    (timeout.map (shiftTimeout sign difftime)).Pairwise
        (fun a b => a.time.micros ≤ b.time.micros) ↔
      timeout.Pairwise (fun a b => a.time.micros ≤ b.time.micros) := by
  simp only [List.pairwise_map, shiftTimeout_micros, add_le_add_iff_right]

/-- The updated list is sorted if and only if the call moves nothing, or no
prehistoric expiry, moved by the signed difference, passes a later one. -/
theorem timeUpdate_sorted_iff (sign : Int) (difftime : OsTime) (hdiff : difftime.Normal)
    (timeout : List EloopTimeout) (hnormal : ∀ t ∈ timeout, t.time.Normal)
    (hsorted : SortedByExpiry timeout) :
    SortedByExpiry (eloopTimeUpdate sign difftime timeout) ↔
      (sign = 0 ∨ (difftime.sec ≤ 0 ∧ difftime.usec ≤ 900000)) ∨
        ∀ early ∈ timeout, ∀ late ∈ timeout, isPrehistoric early → ¬ isPrehistoric late →
          early.time.micros + signedMicros sign difftime ≤ late.time.micros := by
  unfold eloopTimeUpdate
  by_cases hidle : sign = 0 ∨ (difftime.sec ≤ 0 ∧ difftime.usec ≤ 900000)
  · rw [if_pos hidle]
    exact iff_of_true hsorted (Or.inl hidle)
  · rw [if_neg hidle, or_iff_right hidle]
    obtain ⟨front, back, rfl, hfront, hback⟩ := hsorted.downward.split
    have horder := (sortedByExpiry_iff_micros hnormal).mp hsorted
    obtain ⟨hfrontOrder, hbackOrder, _⟩ := List.pairwise_append.mp horder
    rw [timeUpdateLoop_append sign difftime hfront hback]
    have hshifted : ∀ t ∈ front ++ back, (shiftTimeout sign difftime t).time.Normal :=
      fun t ht => shiftTimeout_normal sign (hnormal t ht) hdiff
    by_cases hnil : front = []
    · subst hnil
      rw [if_pos rfl, sortedByExpiry_iff_micros, shifted_pairwise_iff]
      · refine iff_of_true hbackOrder ?_
        intro early hearly _ _ hpre
        exact absurd hpre (hback early hearly)
      · intro t ht
        obtain ⟨u, hu, rfl⟩ := List.mem_map.mp ht
        exact hshifted u (List.mem_append_right _ hu)
    · rw [if_neg hnil, sortedByExpiry_iff_micros, List.pairwise_append]
      · simp only [shifted_pairwise_iff, hfrontOrder, hbackOrder, true_and, List.mem_map]
        constructor
        · intro hall early hearly late hlate hpre hlater
          have hinFront : early ∈ front :=
            (List.mem_append.mp hearly).resolve_right (fun h => hback early h hpre)
          have hinBack : late ∈ back :=
            (List.mem_append.mp hlate).resolve_left (fun h => hlater (hfront late h))
          rw [← shiftTimeout_micros]
          exact hall _ ⟨early, hinFront, rfl⟩ late hinBack
        · rintro hall _ ⟨early, hearly, rfl⟩ late hlate
          rw [shiftTimeout_micros]
          exact hall early (List.mem_append_left _ hearly) late (List.mem_append_right _ hlate)
            (hfront early hearly) (hback late hlate)
      · intro t ht
        rcases List.mem_append.mp ht with hmoved | hkept
        · obtain ⟨u, hu, rfl⟩ := List.mem_map.mp hmoved
          exact hshifted u (List.mem_append_left _ hu)
        · exact hnormal t (List.mem_append_right _ hkept)

theorem timeUpdate_sorted_backwards :
    SortedByExpiry (eloopTimeUpdate (-1) ⟨10, 0⟩
      [⟨0, ⟨1000000000, 0⟩, 1, 2, false, 7⟩, ⟨1, ⟨1000000001, 0⟩, 1, 3, false, 7⟩]) :=
  (timeUpdate_sorted_iff (-1) ⟨10, 0⟩ (by decide) _ (by decide)
    (by simp [SortedByExpiry, osTimeBefore])).mpr (Or.inr (by decide))

/-- A step forward of ten seconds takes the first expiry past the second. -/
theorem timeUpdate_breaks_order :
    let timers : List EloopTimeout :=
      [⟨0, ⟨1000000000, 0⟩, 1, 2, false, 7⟩, ⟨1, ⟨1000000001, 0⟩, 1, 3, false, 7⟩]
    SortedByExpiry timers ∧ ¬ SortedByExpiry (eloopTimeUpdate 1 ⟨10, 0⟩ timers) := by
  simp [SortedByExpiry, eloopTimeUpdate, timeUpdateLoop, isPrehistoric, shiftTimeout, addTime,
    osTimeBefore]

end EventLoop
