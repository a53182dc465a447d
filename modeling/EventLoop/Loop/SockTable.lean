import EventLoop.Timer.Queue
import Mathlib.Data.List.Basic

/-!
The socket tables of `eloop.c` and `max_sock`. A table that was never allocated
is an empty one: its `changed` flag is clear.
-/

namespace EventLoop.Loop

inductive EventType where
  | read
  | write
  | exception
deriving DecidableEq, Repr

/-- `registration` numbers the successful calls of `eloop_register_sock`. -/
structure EloopSock where
  sock : Int
  eloopData : Ptr
  userData : Ptr
  handler : Ptr
  registration : Nat
deriving DecidableEq, Repr

structure SockTable where
  table : List EloopSock
  changed : Bool
deriving DecidableEq, Repr

structure Socks where
  maxSock : Int
  readers : SockTable
  writers : SockTable
  exceptions : SockTable
  registrations : Nat
deriving DecidableEq, Repr

def Socks.init : Socks := ⟨0, ⟨[], false⟩, ⟨[], false⟩, ⟨[], false⟩, 0⟩

def Socks.getSockTable (s : Socks) : EventType → SockTable
  | .read => s.readers
  | .write => s.writers
  | .exception => s.exceptions

def Socks.setSockTable (s : Socks) (type : EventType) (table : SockTable) : Socks :=
  match type with
  | .read => { s with readers := table }
  | .write => { s with writers := table }
  | .exception => { s with exceptions := table }

@[simp] theorem getSockTable_setSockTable_self (s : Socks) (type : EventType)
    (table : SockTable) : (s.setSockTable type table).getSockTable type = table := by
  cases type <;> rfl

theorem getSockTable_setSockTable_of_ne (s : Socks) {type other : EventType} (h : other ≠ type)
    (table : SockTable) :
    (s.setSockTable type table).getSockTable other = s.getSockTable other := by
  cases type <;> cases other <;> first | rfl | exact absurd rfl h

/-- `eloop_register_sock`; `allocated` is what `os_realloc` comes to. -/
def registerSock (allocated : Bool) (sock : Int) (type : EventType)
    (handler eloopData userData : Ptr) (s : Socks) : Int × Socks :=
  if allocated then
    let table := (s.getSockTable type).table ++
      [⟨sock, eloopData, userData, handler, s.registrations⟩]
    let s := s.setSockTable type ⟨table, true⟩
    (0, { s with
      maxSock := if sock > s.maxSock then sock else s.maxSock
      registrations := s.registrations + 1 })
  else (-1, s)

/-- `eloop_sock_table_remove_sock`: the first entry with that descriptor goes. -/
def removeSock (sock : Int) (table : SockTable) : SockTable :=
  if table.table.any (·.sock == sock) then ⟨table.table.eraseP (·.sock == sock), true⟩
  else table

/-- One of the three loops of `eloop_recalc_max_sock`. -/
def largestSock (tmpMaxSock : Int) (table : SockTable) : Int :=
  table.table.foldl (fun largest entry => if entry.sock > largest then entry.sock else largest)
    tmpMaxSock

def recalcMaxSock (s : Socks) : Socks :=
  let tmpMaxSock := largestSock (-1) s.readers
  let tmpMaxSock := largestSock tmpMaxSock s.writers
  { s with maxSock := largestSock tmpMaxSock s.exceptions }

def unregisterSock (sock : Int) (type : EventType) (s : Socks) : Socks :=
  recalcMaxSock (s.setSockTable type (removeSock sock (s.getSockTable type)))

@[simp] theorem getSockTable_recalcMaxSock (s : Socks) (type : EventType) :
    (recalcMaxSock s).getSockTable type = s.getSockTable type := by
  cases type <;> rfl

theorem getSockTable_registerSock_self (sock : Int) (type : EventType)
    (handler eloopData userData : Ptr) (s : Socks) :
    ((registerSock true sock type handler eloopData userData s).2).getSockTable type =
      ⟨(s.getSockTable type).table ++ [⟨sock, eloopData, userData, handler, s.registrations⟩],
        true⟩ := by
  cases type <;> rfl

theorem getSockTable_registerSock_of_ne (allocated : Bool) (sock : Int) {type other : EventType}
    (h : other ≠ type) (handler eloopData userData : Ptr) (s : Socks) :
    ((registerSock allocated sock type handler eloopData userData s).2).getSockTable other =
      s.getSockTable other := by
  cases allocated with
  | false => rfl
  | true => cases type <;> cases other <;> first | rfl | exact absurd rfl h

theorem getSockTable_unregisterSock_self (sock : Int) (type : EventType) (s : Socks) :
    (unregisterSock sock type s).getSockTable type = removeSock sock (s.getSockTable type) := by
  rw [unregisterSock, getSockTable_recalcMaxSock, getSockTable_setSockTable_self]

theorem getSockTable_unregisterSock_of_ne (sock : Int) {type other : EventType}
    (h : other ≠ type) (s : Socks) :
    (unregisterSock sock type s).getSockTable other = s.getSockTable other := by
  rw [unregisterSock, getSockTable_recalcMaxSock, getSockTable_setSockTable_of_ne _ h]

theorem removeSock_table (sock : Int) (table : SockTable) :
    (removeSock sock table).table = table.table.eraseP (·.sock == sock) := by
  rw [removeSock]
  split
  · rfl
  · rename_i hnone
    refine (List.eraseP_of_forall_not ?_).symm
    exact fun entry hentry hsock => hnone (List.any_eq_true.mpr ⟨entry, hentry, hsock⟩)

theorem mem_unregisterSock {sock : Int} {type other : EventType} {s : Socks} {entry : EloopSock}
    (h : entry ∈ ((unregisterSock sock type s).getSockTable other).table) :
    entry ∈ (s.getSockTable other).table := by
  by_cases hother : other = type
  · subst hother
    rw [getSockTable_unregisterSock_self, removeSock_table] at h
    exact List.mem_of_mem_eraseP h
  · rwa [getSockTable_unregisterSock_of_ne _ hother] at h

end EventLoop.Loop
