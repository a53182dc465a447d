import EventLoop.Lib.Runs
import EventLoop.Loop.SockTable
import Mathlib.Order.Bounds.Basic
import Mathlib.Algebra.Order.Group.Unbundled.Int

/-!
`max_sock` against the socket tables. It is raised by every registration and worked out
anew, from all three tables, by every unregistration.
-/

namespace EventLoop.Loop

/-- The calls, with descriptors as `socket` returns them. -/
inductive SockCall where
  | registerSock (allocated : Bool) (sock : Nat) (type : EventType)
      (handler eloopData userData : Ptr)
  | unregisterSock (sock : Nat) (type : EventType)
deriving DecidableEq, Repr

def sockStep (s : Socks) : SockCall → Option Socks
  | .registerSock allocated sock type handler eloopData userData =>
      some (registerSock allocated sock type handler eloopData userData s).2
  | .unregisterSock sock type => some (unregisterSock sock type s)

/-- The descriptors of the three tables. -/
def Socks.descriptors (s : Socks) : Set Int :=
  {sock | ∃ type, ∃ entry ∈ (s.getSockTable type).table, entry.sock = sock}

/-- The first entry with the descriptor goes and everything else stays, or there is none. -/
def RemovesFirst (sock : Int) (before after : List EloopSock) : Prop :=
  (∃ front entry back, before = front ++ entry :: back ∧ entry.sock = sock ∧
      (∀ other ∈ front, other.sock ≠ sock) ∧ after = front ++ back) ∨
    (∀ entry ∈ before, entry.sock ≠ sock) ∧ after = before

/-- `max_sock` is the largest descriptor, and what the two calls do to the tables. -/
structure SocksKept (s : Socks) : Prop where
  covers : s.descriptors.Nonempty → IsGreatest s.descriptors s.maxSock
  failedRegister : ∀ sock type handler eloopData userData,
    registerSock false sock type handler eloopData userData s = (-1, s)
  registers : ∀ sock type handler eloopData userData,
    ((registerSock true sock type handler eloopData userData s).2.getSockTable type).table =
      (s.getSockTable type).table ++ [⟨sock, eloopData, userData, handler, s.registrations⟩]
  unregisters : ∀ sock type,
    RemovesFirst sock (s.getSockTable type).table
      ((unregisterSock sock type s).getSockTable type).table
  othersKept : ∀ type other, other ≠ type →
    (∀ allocated sock handler eloopData userData,
      (registerSock allocated sock type handler eloopData userData s).2.getSockTable other =
        s.getSockTable other) ∧
    ∀ sock, (unregisterSock sock type s).getSockTable other = s.getSockTable other

/-- Descriptors are not negative, and `max_sock` is the largest one, or the value it had
before the first registration, or behind the last unregistration. -/
structure MaxSockInvariant (s : Socks) : Prop where
  nonneg : ∀ sock ∈ s.descriptors, 0 ≤ sock
  bound : ∀ sock ∈ s.descriptors, sock ≤ s.maxSock
  reached : s.maxSock ∈ s.descriptors ∨ s.descriptors = ∅ ∧ s.maxSock ≤ 0

variable {s s' : Socks}

theorem removesFirst_removeSock (sock : Int) (table : SockTable) :
    RemovesFirst sock table.table (removeSock sock table).table := by
  rw [removeSock]
  split
  · rename_i hany
    obtain ⟨entry, hmem, hsock⟩ := List.any_eq_true.mp hany
    obtain ⟨first, front, back, hfront, hfirst, hsplit, herase⟩ :=
      List.exists_of_eraseP (p := (·.sock == sock)) hmem hsock
    refine .inl ⟨front, first, back, hsplit, eq_of_beq hfirst, ?_, herase⟩
    intro other hother heq
    exact hfront other hother (beq_iff_eq.mpr heq)
  · rename_i hnone
    refine .inr ⟨?_, rfl⟩
    intro entry hentry heq
    exact hnone (List.any_eq_true.mpr ⟨entry, hentry, beq_iff_eq.mpr heq⟩)

/-- One loop of `eloop_recalc_max_sock` ends with the largest descriptor it has seen. -/
theorem largestSock_spec (tmpMaxSock : Int) (table : SockTable) :
    IsGreatest (insert tmpMaxSock {sock | ∃ entry ∈ table.table, entry.sock = sock})
      (largestSock tmpMaxSock table) := by
  rw [largestSock]
  induction table.table generalizing tmpMaxSock with
  | nil => simp
  | cons entry rest ih =>
      rw [List.foldl_cons]
      obtain ⟨hmem, hupper⟩ := ih (if entry.sock > tmpMaxSock then entry.sock else tmpMaxSock)
      constructor
      · rcases hmem with hmem | ⟨other, hother, hsock⟩
        · rw [hmem]
          split
          · exact .inr ⟨entry, List.mem_cons_self .., rfl⟩
          · exact .inl rfl
        · exact .inr ⟨other, List.mem_cons_of_mem _ hother, hsock⟩
      · have hstart := hupper (.inl rfl)
        rintro sock (rfl | ⟨other, hother, rfl⟩)
        · refine le_trans ?_ hstart
          split
          · exact Int.le_of_lt ‹_›
          · exact Int.le_refl _
        · rcases List.mem_cons.mp hother with rfl | hother
          · refine le_trans ?_ hstart
            split
            · exact Int.le_refl _
            · exact Int.not_lt.mp ‹_›
          · exact hupper (.inr ⟨other, hother, rfl⟩)

theorem descriptors_setSockTable_eq
    (htables : ∀ type, s'.getSockTable type = s.getSockTable type) :
    s'.descriptors = s.descriptors := by
  simp only [Socks.descriptors, htables]

/-- `eloop_recalc_max_sock` finds the largest descriptor of the three tables. -/
theorem recalcMaxSock_spec (s : Socks) :
    IsGreatest (insert (-1) s.descriptors) (recalcMaxSock s).maxSock := by
  obtain ⟨hread, hreaders⟩ := largestSock_spec (-1) s.readers
  obtain ⟨hwrite, hwriters⟩ := largestSock_spec (largestSock (-1) s.readers) s.writers
  obtain ⟨hexcept, hexceptions⟩ :=
    largestSock_spec (largestSock (largestSock (-1) s.readers) s.writers) s.exceptions
  constructor
  · rcases hexcept with heq | ⟨entry, hentry, hsock⟩
    · rcases hwrite with heq' | ⟨entry, hentry, hsock⟩
      · rcases hread with heq'' | ⟨entry, hentry, hsock⟩
        · exact .inl (heq.trans (heq'.trans heq''))
        · exact .inr ⟨.read, entry, hentry, hsock.trans (heq.trans heq').symm⟩
      · exact .inr ⟨.write, entry, hentry, hsock.trans heq.symm⟩
    · exact .inr ⟨.exception, entry, hentry, hsock⟩
  · have hfirst := hexceptions (.inl rfl)
    have hsecond := le_trans (hwriters (.inl rfl)) hfirst
    rintro sock (rfl | ⟨type, entry, hentry, rfl⟩)
    · exact le_trans (hreaders (.inl rfl)) hsecond
    · cases type with
      | read => exact le_trans (hreaders (.inr ⟨entry, hentry, rfl⟩)) hsecond
      | write => exact le_trans (hwriters (.inr ⟨entry, hentry, rfl⟩)) hfirst
      | exception => exact hexceptions (.inr ⟨entry, hentry, rfl⟩)

theorem init_maxSockInvariant : MaxSockInvariant .init := by
  have hempty : Socks.init.descriptors = ∅ := by
    ext sock
    constructor
    · rintro ⟨type, entry, hentry, -⟩
      cases type <;> exact absurd hentry (List.not_mem_nil)
    · exact fun hmem => absurd hmem (Set.notMem_empty sock)
  refine ⟨?_, ?_, .inr ⟨hempty, Int.le_refl 0⟩⟩
  · rw [hempty]
    exact fun sock hmem => absurd hmem (Set.notMem_empty sock)
  · rw [hempty]
    exact fun sock hmem => absurd hmem (Set.notMem_empty sock)

theorem mem_descriptors_registerSock {sock : Int} {type : EventType}
    {handler eloopData userData : Ptr} {other : Int} :
    other ∈ (registerSock true sock type handler eloopData userData s).2.descriptors ↔
      other = sock ∨ other ∈ s.descriptors := by
  constructor
  · rintro ⟨type', entry, hentry, rfl⟩
    by_cases htype : type' = type
    · subst htype
      rw [getSockTable_registerSock_self] at hentry
      rcases List.mem_append.mp hentry with hentry | hentry
      · exact .inr ⟨type', entry, hentry, rfl⟩
      · rw [List.mem_singleton.mp hentry]
        exact .inl rfl
    · rw [getSockTable_registerSock_of_ne _ _ htype] at hentry
      exact .inr ⟨type', entry, hentry, rfl⟩
  · rintro (rfl | ⟨type', entry, hentry, rfl⟩)
    · refine ⟨type, ⟨other, eloopData, userData, handler, s.registrations⟩, ?_, rfl⟩
      rw [getSockTable_registerSock_self]
      exact List.mem_append_right _ (List.mem_cons_self ..)
    · refine ⟨type', entry, ?_, rfl⟩
      by_cases htype : type' = type
      · subst htype
        rw [getSockTable_registerSock_self]
        exact List.mem_append_left _ hentry
      · rw [getSockTable_registerSock_of_ne _ _ htype]
        exact hentry

theorem MaxSockInvariant.registerSock (h : MaxSockInvariant s) (allocated : Bool) (sock : Nat)
    (type : EventType) (handler eloopData userData : Ptr) :
    MaxSockInvariant (registerSock allocated sock type handler eloopData userData s).2 := by
  cases allocated with
  | false => exact h
  | true =>
      have hmax : (Loop.registerSock true sock type handler eloopData userData s).2.maxSock =
          if (sock : Int) > s.maxSock then (sock : Int) else s.maxSock := by
        cases type <;> rfl
      constructor
      · intro other hmem
        rcases mem_descriptors_registerSock.mp hmem with rfl | hmem
        · exact Int.natCast_nonneg sock
        · exact h.nonneg other hmem
      · intro other hmem
        rw [hmax]
        rcases mem_descriptors_registerSock.mp hmem with rfl | hmem
        · split
          · exact Int.le_refl _
          · exact Int.not_lt.mp ‹_›
        · have hold := h.bound other hmem
          split
          · exact le_trans hold (Int.le_of_lt ‹_›)
          · exact hold
      · rw [hmax, mem_descriptors_registerSock]
        left
        split
        · exact .inl rfl
        · rename_i hsmall
          rcases h.reached with hreached | ⟨-, hzero⟩
          · exact .inr hreached
          · left
            omega

theorem descriptors_unregisterSock_subset (sock : Int) (type : EventType) (s : Socks) :
    (unregisterSock sock type s).descriptors ⊆ s.descriptors := by
  rintro other ⟨type', entry, hentry, hsock⟩
  exact ⟨type', entry, mem_unregisterSock hentry, hsock⟩

theorem MaxSockInvariant.unregisterSock (h : MaxSockInvariant s) (sock : Nat) (type : EventType) :
    MaxSockInvariant (unregisterSock sock type s) := by
  have hsubset := descriptors_unregisterSock_subset sock type s
  have htables : (Loop.unregisterSock sock type s).descriptors =
      (s.setSockTable type (removeSock sock (s.getSockTable type))).descriptors :=
    descriptors_setSockTable_eq (getSockTable_recalcMaxSock _)
  obtain ⟨hreached, hupper⟩ :=
    recalcMaxSock_spec (s.setSockTable type (removeSock sock (s.getSockTable type)))
  rw [← htables] at hreached hupper
  change (Loop.unregisterSock sock type s).maxSock ∈ _ at hreached
  refine ⟨fun other hmem => h.nonneg other (hsubset hmem),
    fun other hmem => hupper (.inr hmem), ?_⟩
  rcases hreached with hminus | hreached
  · refine .inr ⟨?_, by rw [hminus]; decide⟩
    apply Set.eq_empty_iff_forall_notMem.mpr
    intro other hmem
    -- no descriptor is below zero, and all are below the maximum
    have hnonneg := h.nonneg other (hsubset hmem)
    have hbelow : other ≤ (Loop.unregisterSock sock type s).maxSock := hupper (.inr hmem)
    rw [hminus] at hbelow
    omega
  · exact .inl hreached

theorem sockStep_invariant (s : Socks) (call : SockCall) (s' : Socks) (h : MaxSockInvariant s)
    (hstep : sockStep s call = some s') : MaxSockInvariant s' := by
  cases call with
  | registerSock allocated sock type handler eloopData userData =>
      obtain rfl := Option.some.inj hstep
      exact h.registerSock allocated sock type handler eloopData userData
  | unregisterSock sock type =>
      obtain rfl := Option.some.inj hstep
      exact h.unregisterSock sock type

theorem MaxSockInvariant.covers (h : MaxSockInvariant s) (hsome : s.descriptors.Nonempty) :
    IsGreatest s.descriptors s.maxSock := by
  refine ⟨?_, h.bound⟩
  rcases h.reached with hreached | ⟨hempty, -⟩
  · exact hreached
  · exact absurd hsome (Set.not_nonempty_iff_eq_empty.mpr hempty)

/-- Whatever was registered and unregistered before. -/
theorem max_sock_covers_tables {calls : List SockCall}
    (hrun : Runs.run sockStep .init calls = some s) : SocksKept s where
  covers := (Runs.run_invariant sockStep_invariant init_maxSockInvariant hrun).covers
  failedRegister := fun _ _ _ _ _ => rfl
  registers := fun sock type handler eloopData userData => by
    rw [getSockTable_registerSock_self]
  unregisters := fun sock type => by
    rw [getSockTable_unregisterSock_self]
    exact removesFirst_removeSock sock _
  othersKept := fun type other hne =>
    ⟨fun allocated sock _ _ _ => getSockTable_registerSock_of_ne allocated sock hne _ _ _ s,
      fun sock => getSockTable_unregisterSock_of_ne sock hne s⟩

/-- A duplicate is unregistered, and a failed registration comes in between. -/
def duplicateRun : List SockCall :=
  [.registerSock true 3 .read 7 1 2, .registerSock true 5 .write 7 1 2,
   .registerSock true 5 .write 8 1 2, .registerSock false 9 .exception 7 1 2,
   .unregisterSock 5 .write, .unregisterSock 4 .read]

theorem duplicateRun_kept :
    ∃ s, Runs.run sockStep .init duplicateRun = some s ∧ s.maxSock = 5 ∧ SocksKept s :=
  ⟨_, rfl, rfl, @max_sock_covers_tables _ duplicateRun rfl⟩

end EventLoop.Loop
