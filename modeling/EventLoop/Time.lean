import Mathlib.Tactic.Linarith
import Mathlib.Data.Prod.Lex
import Mathlib.Order.Basic

/-!
`struct os_time` and the helpers that compare, add and subtract its values.
Both fields are the signed `long` of the source; sums of them are taken in `ℤ`,
since signed overflow has no meaning in C. Unsigned steps of the source, such
as the tick difference of `eloop_timeChangeAuto`, keep their modulus.
-/

namespace EventLoop

structure OsTime where
  sec : Int
  usec : Int
deriving DecidableEq, Repr

namespace OsTime

/-- The instant in microseconds, whether or not `usec` is normalised. -/
def micros (t : OsTime) : Int := t.sec * 1000000 + t.usec

def Normal (t : OsTime) : Prop := 0 ≤ t.usec ∧ t.usec ≤ 999999

instance (t : OsTime) : Decidable t.Normal :=
  inferInstanceAs (Decidable (_ ∧ _))

/-- Whole seconds. -/
theorem normal_whole (sec : Int) : Normal ⟨sec, 0⟩ := by
  dsimp only [Normal]
  omega

/-- The pair `(sec, usec)` in lexicographic order. -/
def key (t : OsTime) : ℤ ×ₗ ℤ := toLex (t.sec, t.usec)

theorem key_lt_iff (a b : OsTime) :
    a.key < b.key ↔ a.sec < b.sec ∨ (a.sec = b.sec ∧ a.usec < b.usec) := by
  simp [key, Prod.Lex.toLex_lt_toLex]

/-- Between normalised times the order of the fields is the order of instants. -/
theorem key_lt_iff_micros {a b : OsTime} (ha : a.Normal) (hb : b.Normal) :
    a.key < b.key ↔ a.micros < b.micros := by
  rw [key_lt_iff]
  unfold Normal micros at *
  omega

end OsTime

/-- A reading of `os_get_time`: `gettimeofday` returns `tv_usec` normalised. -/
structure WallTime extends OsTime where
  normal : toOsTime.Normal

def WallTime.atSecond (sec : Int) : WallTime := ⟨⟨sec, 0⟩, OsTime.normal_whole sec⟩

def osTimeBefore (a b : OsTime) : Bool :=
  a.sec < b.sec || (a.sec == b.sec && a.usec < b.usec)

def osTimeSub (a b : OsTime) : OsTime :=
  let sec := a.sec - b.sec
  let usec := a.usec - b.usec
  if usec < 0 then ⟨sec - 1, usec + 1000000⟩ else ⟨sec, usec⟩

def cmpTime (dst src : OsTime) : Int :=
  if dst.sec > src.sec then 1
  else if dst.sec = src.sec ∧ dst.usec > src.usec then 1
  else if dst.sec = src.sec ∧ dst.usec = src.usec then 0
  else -1

def addTime (timeA timeDiff : OsTime) : OsTime :=
  let sec := timeA.sec + timeDiff.sec
  let usec := timeA.usec + timeDiff.usec
  if usec ≥ 1000000 then ⟨sec + 1, usec - 1000000⟩ else ⟨sec, usec⟩

def subTime (timeA timeDiff : OsTime) : OsTime :=
  let sec := timeA.sec - timeDiff.sec
  let usec := timeA.usec - timeDiff.usec
  if usec < 0 then ⟨sec - 1, usec + 1000000⟩ else ⟨sec, usec⟩

/-- The second disjunct of the source compares microseconds only when the
expiry's second is not positive; a due expiry within the current second falls
through to the subtraction. -/
def getTimeLeft (curtime dsttime : OsTime) : OsTime :=
  if dsttime.sec < curtime.sec ∨ (dsttime.usec < curtime.usec ∧ dsttime.sec ≤ 0) then
    ⟨0, 0⟩
  else
    let sec := dsttime.sec - curtime.sec
    if dsttime.usec < curtime.usec then
      ⟨sec - 1, 999999 - curtime.usec + dsttime.usec + 1⟩
    else ⟨sec, dsttime.usec - curtime.usec⟩

theorem osTimeBefore_iff (a b : OsTime) :
    osTimeBefore a b = true ↔ a.key < b.key := by
  rw [OsTime.key_lt_iff]
  simp [osTimeBefore]

theorem addTime_micros (a d : OsTime) :
    (addTime a d).micros = a.micros + d.micros := by
  unfold addTime OsTime.micros
  dsimp only
  split <;> dsimp only <;> omega

theorem subTime_micros (a d : OsTime) :
    (subTime a d).micros = a.micros - d.micros := by
  unfold subTime OsTime.micros
  dsimp only
  split <;> dsimp only <;> omega

theorem addTime_normal {a d : OsTime} (ha : a.Normal) (hd : d.Normal) :
    (addTime a d).Normal := by
  unfold addTime OsTime.Normal at *
  dsimp only
  split <;> dsimp only <;> omega

theorem subTime_normal {a d : OsTime} (ha : a.Normal) (hd : d.Normal) :
    (subTime a d).Normal := by
  unfold subTime OsTime.Normal at *
  dsimp only
  split <;> dsimp only <;> omega

end EventLoop
