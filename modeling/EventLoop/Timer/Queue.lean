import EventLoop.Time
import EventLoop.Lib.StableQueue

/-!
The timer list shared by `eloop.c` and `ns_timer_support.c`: the two files hold
the same code for registration and cancellation, up to the watchdog hooks that
`ELOOP_WATCHDOG_ADDON` compiles in. The linked list is a `List`; a block that
`malloc` returned is named by a number that is never used again, so a pointer
to a freed block equals no later block.
-/

namespace EventLoop

/-- Values of `void *` and of handler pointers. -/
abbrev Ptr := UInt64

/-- `ELOOP_ALL_CTX`, that is `(void *) -1`. -/
def eloopAllCtx : Ptr := 0xFFFFFFFFFFFFFFFF

structure EloopTimeout where
  block : Nat
  time : OsTime
  eloopData : Ptr
  userData : Ptr
  bIsWDTimeout : Bool
  handler : Ptr
deriving DecidableEq, Repr

namespace EloopTimeout

/-- What the list is ordered by. -/
def key (t : EloopTimeout) : ℤ ×ₗ ℤ := t.time.key

end EloopTimeout

/-- The carry loop of a registration: `while (usec >= 1000000)`. -/
def carryUsec (t : OsTime) : OsTime :=
  if 1000000 ≤ t.usec then carryUsec ⟨t.sec + 1, t.usec - 1000000⟩ else t
termination_by t.usec.toNat
decreasing_by simp_wf; omega

theorem carryUsec_micros (t : OsTime) : (carryUsec t).micros = t.micros := by
  fun_induction carryUsec t with
  | case1 t hlarge ih =>
      rw [ih]
      unfold OsTime.micros
      dsimp only
      omega
  | case2 t hsmall => rfl

theorem carryUsec_normal (t : OsTime) (h : 0 ≤ t.usec) : (carryUsec t).Normal := by
  fun_induction carryUsec t with
  | case1 t hlarge ih => exact ih (by dsimp only; omega)
  | case2 t hsmall => exact ⟨h, by omega⟩

/-- The expiry of a timer registered at `now`. -/
def expiry (now : OsTime) (secs usecs : UInt32) : OsTime :=
  carryUsec ⟨now.sec + secs.toNat, now.usec + usecs.toNat⟩

theorem expiry_micros (now : OsTime) (secs usecs : UInt32) :
    (expiry now secs usecs).micros =
      now.micros + secs.toNat * 1000000 + usecs.toNat := by
  rw [expiry, carryUsec_micros]
  unfold OsTime.micros
  dsimp only
  omega

theorem expiry_normal {now : OsTime} (h : now.Normal) (secs usecs : UInt32) :
    (expiry now secs usecs).Normal := by
  apply carryUsec_normal
  have := h.1
  dsimp only
  omega

/-- The walk with `prev` and `tmp`: link `timeout` in before the first entry it
is strictly before, at the end if there is none. -/
def linkTimeout (timeout : EloopTimeout) : List EloopTimeout → List EloopTimeout
  | [] => [timeout]
  | tmp :: next =>
      if osTimeBefore timeout.time tmp.time then timeout :: tmp :: next
      else tmp :: linkTimeout timeout next

theorem linkTimeout_eq_orderedInsert (timeout : EloopTimeout) (list : List EloopTimeout) :
    linkTimeout timeout list =
      list.orderedInsert (fun a b => a.key < b.key) timeout := by
  induction list with
  | nil => rfl
  | cons tmp next ih =>
      by_cases h : timeout.key < tmp.key
      · rw [linkTimeout, List.orderedInsert, if_pos ((osTimeBefore_iff _ _).mpr h), if_pos h]
      · rw [linkTimeout, List.orderedInsert, if_neg (mt (osTimeBefore_iff _ _).mp h),
          if_neg h, ih]

@[simp] theorem mem_linkTimeout {timeout t : EloopTimeout} {list : List EloopTimeout} :
    t ∈ linkTimeout timeout list ↔ t = timeout ∨ t ∈ list := by
  rw [linkTimeout_eq_orderedInsert, List.mem_orderedInsert]

theorem linkTimeout_perm (timeout : EloopTimeout) (list : List EloopTimeout) :
    (linkTimeout timeout list).Perm (timeout :: list) := by
  rw [linkTimeout_eq_orderedInsert]
  exact List.perm_orderedInsert _ _ _

/-- The match test of a cancellation. -/
def matchesTimeout (handler eloopData userData : Ptr) (timeout : EloopTimeout) : Bool :=
  timeout.handler == handler &&
    (timeout.eloopData == eloopData || eloopData == eloopAllCtx) &&
    (timeout.userData == userData || userData == eloopAllCtx)

end EventLoop
