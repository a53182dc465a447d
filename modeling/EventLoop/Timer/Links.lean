import EventLoop.Lib.Iteration
import EventLoop.Lib.LinkedList
import EventLoop.Timer.NsTimer
import Mathlib.Data.List.ReduceOption

/-!
The timers of `ns_timer_support.c` as they are in memory: blocks that `malloc` has returned, linked
by their `next` pointers. What goes through a pointer to a block that is not allocated has no result.
-/

namespace EventLoop.TimerLinks

open EventLoop.Iteration EventLoop.LinkedList

/-- The timers, and for each open call of `expire_timers` its `tmp` once it has one. -/
structure Store where
  heap : Heap EloopTimeout
  timeout : Option Nat
  openCalls : List (Option Nat)
  /-- How many timers have been made. -/
  made : Nat

def Store.init : Store := ⟨fun _ => none, none, [], 0⟩

/-- The loop of `eloop_register_timeout`, with `prev` and `tmp`. -/
def registerTurn (heap : Heap EloopTimeout) (timeout : EloopTimeout)
    (s : Option Nat × Option Nat) : (Option Nat × Option Nat) ⊕ Option (Option Nat) :=
  match s with
  | (prev, none) => .inr (some prev)
  | (prev, some tmp) =>
      match heap tmp with
      | none => .inr none
      | some node =>
          if osTimeBefore timeout.time node.payload.time then .inr (some prev)
          else .inl (some tmp, node.next)

/-- `block` is what `malloc` has returned. -/
def eloopRegisterTimeout (fuel : Nat) (block : Option Nat) (now : OsTime) (secs usecs : UInt32)
    (handler eloopData userData : Ptr) (s : Store) : Option (Int × Store) :=
  match block with
  | none => some (-1, s)
  | some block =>
      let timeout : EloopTimeout :=
        ⟨s.made, expiry now secs usecs, eloopData, userData, false, handler⟩
      let s : Store := { s with
        heap := Function.update s.heap block (some ⟨timeout, none⟩)
        made := s.made + 1 }
      match s.timeout with
      | none => some (0, { s with timeout := some block })
      | some _ =>
          (iterate (registerTurn s.heap timeout) fuel (none, s.timeout)).join.bind fun prev =>
            match prev with
            | none =>
                some (0, { s with
                  heap := Function.update s.heap block (some ⟨timeout, s.timeout⟩)
                  timeout := some block })
            | some prev =>
                (s.heap prev).map fun node =>
                  (0, { s with
                    heap := Function.update
                      (Function.update s.heap block (some ⟨timeout, node.next⟩))
                      prev (some ⟨node.payload, some block⟩) })

/-- The variables of `eloop_cancel_timeout`; `head` is `eloop.timeout`. -/
structure Cancelling where
  heap : Heap EloopTimeout
  head : Option Nat
  prev : Option Nat
  timeout : Option Nat
  removed : Nat

/-- The loop of `eloop_cancel_timeout`. -/
def cancelTurn (handler eloopData userData : Ptr) (s : Cancelling) :
    Cancelling ⊕ Option Cancelling :=
  match s.timeout with
  | none => .inr (some s)
  | some timeout =>
      match s.heap timeout with
      | none => .inr none
      | some node =>
          if matchesTimeout handler eloopData userData node.payload then
            match s.prev with
            | none =>
                .inl { s with
                  heap := Function.update s.heap timeout none
                  head := node.next
                  timeout := node.next
                  removed := s.removed + 1 }
            | some prev =>
                match s.heap prev with
                | none => .inr none
                | some before =>
                    .inl { s with
                      heap := Function.update
                        (Function.update s.heap prev (some ⟨before.payload, node.next⟩)) timeout none
                      timeout := node.next
                      removed := s.removed + 1 }
          else .inl { s with prev := some timeout, timeout := node.next }

def eloopCancelTimeout (fuel : Nat) (handler eloopData userData : Ptr) (s : Store) :
    Option (Nat × Store) :=
  (iterate (cancelTurn handler eloopData userData) fuel
    ⟨s.heap, s.timeout, none, s.timeout, 0⟩).join.map fun done =>
      (done.removed, { s with heap := done.heap, timeout := done.head })

/-- `expire_timers` behind `eloop_process_pending_signals`, up to the call of the handler. -/
def examineHead (now : OsTime) (below : List (Option Nat)) (s : Store) : Option Store :=
  match s.timeout with
  | none => some { s with openCalls := below }
  | some tmp =>
      (s.heap tmp).map fun node =>
        if osTimeBefore now node.payload.time then { s with openCalls := below }
        else { s with timeout := node.next, openCalls := some tmp :: below }

/-- `os_free(tmp)`; a block is freed once. -/
def freeBlock (heap : Heap EloopTimeout) (block : Nat) : Option (Heap EloopTimeout) :=
  (heap block).map fun _ => Function.update heap block none

/-- The loop of `eloop_destroy`. -/
def destroyTurn (s : Heap EloopTimeout × Option Nat) :
    (Heap EloopTimeout × Option Nat) ⊕ Option (Heap EloopTimeout) :=
  match s with
  | (heap, none) => .inr (some heap)
  | (heap, some prev) =>
      match heap prev with
      | none => .inr none
      | some node => .inl (Function.update heap prev none, node.next)

/-- `destroy_timers`: what is still allocated afterwards. -/
def destroyTimers (fuel : Nat) (s : Store) : Option (Heap EloopTimeout) :=
  (iterate destroyTurn fuel (s.heap, s.timeout)).join

/-- An action of the run, and the address that `malloc` returns where it is called. -/
structure Call where
  action : NsTimer.Action
  address : Nat

def step (fuel : Nat) (s : Store) (call : Call) : Option Store :=
  match call.action with
  | .registerTimeout mallocOk now secs usecs handler eloopData userData =>
      (eloopRegisterTimeout fuel (if mallocOk then some call.address else none) now.toOsTime secs
        usecs handler eloopData userData s).map Prod.snd
  | .cancelTimeout handler eloopData userData =>
      (eloopCancelTimeout fuel handler eloopData userData s).map Prod.snd
  | .expireTimers => some { s with openCalls := none :: s.openCalls }
  | .examineHead now =>
      match s.openCalls with
      | none :: below => examineHead now.toOsTime below s
      | _ => none
  | .handlerReturn =>
      match s.openCalls with
      | some tmp :: below =>
          (freeBlock s.heap tmp).map fun heap => { s with heap, openCalls := below }
      | _ => none

/-- `malloc` returns no block that is allocated. -/
def Fresh (s : Store) (call : Call) : Prop := s.heap call.address = none

variable {heap : Heap EloopTimeout} {timeout : EloopTimeout} {p q prev : Option Nat} {a : Nat}
  {cells front back kept rest : List (Nat × EloopTimeout)}

/-- The address of the last cell. -/
def lastAddress (cells : List (Nat × EloopTimeout)) : Option Nat := cells.getLast?.map Prod.fst

@[simp] theorem lastAddress_nil : lastAddress [] = none := rfl

theorem lastAddress_cons (cell : Nat × EloopTimeout) (cells : List (Nat × EloopTimeout)) :
    lastAddress (cell :: cells) = (lastAddress cells).or (some cell.1) := by
  rw [lastAddress, lastAddress, List.getLast?_cons]
  cases cells.getLast? <;> rfl

@[simp] theorem lastAddress_concat (cells : List (Nat × EloopTimeout)) (cell : Nat × EloopTimeout) :
    lastAddress (cells ++ [cell]) = some cell.1 := by
  simp [lastAddress]

/-- The new timer is linked in behind those that it does not expire before. -/
def stays (timeout : EloopTimeout) (cell : Nat × EloopTimeout) : Bool :=
  !osTimeBefore timeout.time cell.2.time

theorem linkTimeout_cells (timeout : EloopTimeout) (cells : List (Nat × EloopTimeout)) :
    linkTimeout timeout (cells.map Prod.snd) =
      (cells.takeWhile (stays timeout)).map Prod.snd ++
        timeout :: (cells.dropWhile (stays timeout)).map Prod.snd := by
  induction cells with
  | nil => rfl
  | cons cell cells ih =>
      rw [List.map_cons, linkTimeout, ih]
      by_cases hbefore : osTimeBefore timeout.time cell.2.time = true
      · simp [stays, hbefore]
      · simp [stays, hbefore]

theorem iterate_registerTurn (h : Seg heap p cells none) {fuel : Nat} (hfuel : cells.length < fuel) :
    iterate (registerTurn heap timeout) fuel (prev, p) =
      some (some ((lastAddress (cells.takeWhile (stays timeout))).or prev)) := by
  induction cells generalizing p prev fuel with
  | nil =>
      obtain rfl : p = none := h
      obtain ⟨fuel, rfl⟩ := Nat.exists_eq_add_of_lt hfuel
      exact iterate_of_inr rfl
  | cons cell cells ih =>
      obtain ⟨b, y⟩ := cell
      obtain ⟨rfl, next, hb, hcells⟩ := h
      obtain ⟨fuel, rfl⟩ := Nat.exists_eq_add_of_lt (Nat.zero_lt_of_lt hfuel)
      by_cases hbefore : osTimeBefore timeout.time y.time = true
      · rw [iterate_of_inr (by simp [registerTurn, hb, hbefore]; rfl)]
        simp [stays, hbefore]
      · have hturn : registerTurn heap timeout (prev, some b) = .inl (some b, next) := by
          simp [registerTurn, hb, hbefore]
        rw [iterate_of_inl hturn, ih hcells (by simp at hfuel; omega)]
        simp [stays, hbefore, lastAddress_cons]

/-- Where the new timer `a` is linked in. -/
def linkedIn (a : Nat) (timeout : EloopTimeout) (cells : List (Nat × EloopTimeout)) :
    List (Nat × EloopTimeout) :=
  cells.takeWhile (stays timeout) ++ (a, timeout) :: cells.dropWhile (stays timeout)

theorem map_linkedIn (a : Nat) (timeout : EloopTimeout) (cells : List (Nat × EloopTimeout)) :
    (linkedIn a timeout cells).map Prod.snd = linkTimeout timeout (cells.map Prod.snd) := by
  simp [linkedIn, linkTimeout_cells]

theorem linkedIn_perm (a : Nat) (timeout : EloopTimeout) (cells : List (Nat × EloopTimeout)) :
    (linkedIn a timeout cells).Perm ((a, timeout) :: cells) := by
  refine List.perm_middle.trans ?_
  rw [List.takeWhile_append_dropWhile]

/-- The new block is linked in behind `b`, or is the head. -/
theorem seg_linkIn {b : Nat} {y : EloopTimeout} {next : Option Nat}
    (hfront : Seg heap p (front ++ [(b, y)]) next) (hback : Seg heap next back none)
    (hnodup : (addresses (front ++ [(b, y)] ++ back)).Nodup)
    (ha : a ∉ addresses (front ++ [(b, y)] ++ back)) (v : Option (Node EloopTimeout)) :
    Seg (Function.update
        (Function.update (Function.update heap a v) a (some ⟨timeout, next⟩)) b (some ⟨y, some a⟩))
      p (front ++ [(b, y)] ++ (a, timeout) :: back) none := by
  simp only [addresses_append, addresses_cons, addresses_nil, List.mem_append, List.mem_cons,
    List.not_mem_nil, or_false, not_or, List.nodup_append, List.nodup_cons] at hnodup ha
  obtain ⟨⟨-, -, hbfront⟩, -, hbback⟩ := hnodup
  obtain ⟨⟨hafront, hab⟩, haback⟩ := ha
  have hb : b ∉ addresses front := fun hmem => hbfront b hmem b rfl rfl
  have hb' : b ∉ addresses back := fun hmem => hbback b (.inr rfl) b hmem rfl
  have hfront' : a ∉ addresses (front ++ [(b, y)]) := by simp [hafront, hab]
  refine seg_append.mpr ⟨some a, ?_, rfl, next, ?_, ?_⟩
  · exact Seg.setNext ((hfront.update hfront' v).update hfront' _) hb (some a)
  · rw [Function.update_of_ne hab, Function.update_self]
  · exact ((hback.update haback v).update haback _).update hb' _

/-- What a registration makes of the list in memory. -/
theorem eloopRegisterTimeout_linked {s : Store} (h : Seg s.heap s.timeout cells none)
    (hnodup : (addresses cells).Nodup) (ha : a ∉ addresses cells) {fuel : Nat}
    (hfuel : cells.length < fuel) (now : OsTime) (secs usecs : UInt32)
    (handler eloopData userData : Ptr) :
    ∃ s', eloopRegisterTimeout fuel (some a) now secs usecs handler eloopData userData s =
        some (0, s') ∧
      Seg s'.heap s'.timeout
        (linkedIn a ⟨s.made, expiry now secs usecs, eloopData, userData, false, handler⟩ cells)
        none ∧
      (∀ b, b ≠ a → b ∉ addresses cells → s'.heap b = s.heap b) ∧
      s'.openCalls = s.openCalls ∧ s'.made = s.made + 1 := by
  generalize ht : (⟨s.made, expiry now secs usecs, eloopData, userData, false, handler⟩ :
    EloopTimeout) = timeout
  let heap := Function.update s.heap a (some ⟨timeout, none⟩)
  cases htimeout : s.timeout with
  | none =>
      obtain rfl : cells = [] := by
        cases cells with
        | nil => rfl
        | cons cell cells =>
            rw [htimeout] at h
            cases h.1
      refine ⟨{ s with heap, timeout := some a, made := s.made + 1 }, ?_, ?_, ?_, rfl, rfl⟩
      · simp [eloopRegisterTimeout, ht, htimeout, heap]
      · simp [linkedIn, heap]
      · intro b hb _
        exact Function.update_of_ne hb _ _
  | some first =>
      have hseg : Seg heap (some first) cells none := htimeout ▸ h.update ha _
      have hwalk := @iterate_registerTurn heap timeout (some first) none cells hseg fuel hfuel
      have hcells := cells.takeWhile_append_dropWhile (p := stays timeout)
      rcases List.eq_nil_or_concat (cells.takeWhile (stays timeout)) with hfront | ⟨front, ⟨b, y⟩, hfront⟩
      · -- the new timer is before all others
        rw [hfront] at hwalk hcells
        refine ⟨{ s with
          heap := Function.update heap a (some ⟨timeout, some first⟩)
          timeout := some a
          made := s.made + 1 }, ?_, ?_, ?_, rfl, rfl⟩
        · simp [eloopRegisterTimeout, ht, htimeout, heap] at hwalk ⊢
          simp [hwalk]
        · rw [linkedIn, hfront, ← List.nil_append (cells.dropWhile _), hcells]
          exact ⟨rfl, some first, Function.update_self .., hseg.update ha _⟩
        · intro b hb _
          simp [heap, hb]
      · rw [List.concat_eq_append] at hfront
        rw [hfront] at hwalk hcells
        rw [← hcells] at hnodup ha h
        obtain ⟨next, hbefore, hback⟩ := seg_append.mp (htimeout ▸ h)
        obtain ⟨_, -, -, next', hb, rfl⟩ := seg_append.mp hbefore
        have hba : b ≠ a := by
          rintro rfl
          simp at ha
        refine ⟨{ s with
          heap := Function.update (Function.update heap a (some ⟨timeout, next'⟩)) b
            (some ⟨y, some a⟩)
          timeout := some first
          made := s.made + 1 }, ?_, ?_, ?_, rfl, rfl⟩
        · simp [eloopRegisterTimeout, ht, htimeout, heap] at hwalk ⊢
          simp [hwalk, hba, hb]
        · rw [linkedIn, hfront]
          exact seg_linkIn hbefore hback hnodup ha _
        · intro d hda hd
          have hdb : d ≠ b := by
            rintro rfl
            rw [← hcells] at hd
            simp at hd
          simp [heap, hda, hdb]

/-- The block is taken out and freed; the list is otherwise as it was. -/
theorem cancelTurn_of_matches {handler eloopData userData : Ptr} {head next : Option Nat} {b : Nat}
    {y : EloopTimeout} (hmatches : matchesTimeout handler eloopData userData y = true)
    (hkept : Seg heap head kept (some b)) (hb : heap b = some ⟨y, next⟩)
    (hrest : Seg heap next rest none) (hnodup : (addresses (kept ++ (b, y) :: rest)).Nodup)
    (removed : Nat) :
    ∃ heap' head', cancelTurn handler eloopData userData
          ⟨heap, head, lastAddress kept, some b, removed⟩ =
        .inl ⟨heap', head', lastAddress kept, next, removed + 1⟩ ∧
      Seg heap' head' kept next ∧ Seg heap' next rest none ∧ heap' b = none ∧
      ∀ a ∉ addresses (kept ++ (b, y) :: rest), heap' a = heap a := by
  rcases List.eq_nil_or_concat kept with rfl | ⟨front, ⟨q, x⟩, hfront⟩
  · have hbrest : b ∉ addresses rest := (List.nodup_cons.mp hnodup).1
    refine ⟨Function.update heap b none, next, ?_, rfl, hrest.update hbrest _,
      Function.update_self .., ?_⟩
    · simp [cancelTurn, hb, hmatches]
    · intro a ha
      simp only [List.nil_append, addresses_cons, List.mem_cons, not_or] at ha
      exact Function.update_of_ne ha.1 _ _
  · rw [List.concat_eq_append] at hfront
    subst hfront
    simp only [addresses_append, addresses_cons, addresses_nil, List.nodup_append, List.nodup_cons,
      List.mem_append, List.mem_cons, List.not_mem_nil, or_false] at hnodup
    obtain ⟨⟨-, -, hqfront⟩, ⟨hbrest, -⟩, hapart⟩ := hnodup
    have hq : q ∉ addresses front := fun hmem => hqfront q hmem q rfl rfl
    have hqb : q ≠ b := hapart q (.inr rfl) b (.inl rfl)
    have hqrest : q ∉ addresses rest := fun hmem => hapart q (.inr rfl) q (.inr hmem) rfl
    have hbkept : b ∉ addresses (front ++ [(q, x)]) := by
      intro hmem
      simp only [addresses_append, addresses_cons, addresses_nil, List.mem_append, List.mem_cons,
        List.not_mem_nil, or_false] at hmem
      exact hapart b hmem b (.inl rfl) rfl
    obtain ⟨_, -, -, after, hqcell, -⟩ := seg_append.mp hkept
    refine ⟨Function.update (Function.update heap q (some ⟨x, next⟩)) b none, head, ?_,
      (hkept.setNext hq next).update hbkept _, (hrest.update hqrest _).update hbrest _,
      Function.update_self .., ?_⟩
    · simp [cancelTurn, hb, hmatches, hqcell]
    · intro a ha
      simp only [addresses_append, addresses_cons, addresses_nil, List.mem_append, List.mem_cons,
        List.not_mem_nil, or_false, not_or] at ha
      rw [Function.update_of_ne ha.2.1, Function.update_of_ne ha.1.2]

/-- The walk of a cancellation, from behind the cells that it has kept. -/
theorem iterate_cancelTurn {handler eloopData userData : Ptr} {head : Option Nat}
    (hkept : Seg heap head kept p) (hrest : Seg heap p rest none)
    (hnodup : (addresses (kept ++ rest)).Nodup) {fuel : Nat} (hfuel : rest.length < fuel)
    (removed : Nat) :
    ∃ done : Cancelling, iterate (cancelTurn handler eloopData userData) fuel
          ⟨heap, head, lastAddress kept, p, removed⟩ = some (some done) ∧
      done.removed = removed +
        (rest.filter fun cell => matchesTimeout handler eloopData userData cell.2).length ∧
      Seg done.heap done.head
        (kept ++ rest.filter fun cell => !matchesTimeout handler eloopData userData cell.2) none ∧
      (∀ cell ∈ rest, matchesTimeout handler eloopData userData cell.2 = true →
        done.heap cell.1 = none) ∧
      ∀ a ∉ addresses (kept ++ rest), done.heap a = heap a := by
  induction rest generalizing heap head kept p removed fuel with
  | nil =>
      obtain rfl : p = none := hrest
      obtain ⟨fuel, rfl⟩ := Nat.exists_eq_add_of_lt hfuel
      refine ⟨_, iterate_of_inr rfl, rfl, ?_, ?_, fun _ _ => rfl⟩
      · simpa using hkept
      · intro cell hcell
        cases hcell
  | cons cell rest ih =>
      obtain ⟨b, y⟩ := cell
      obtain ⟨rfl, next, hb, hrest⟩ := hrest
      obtain ⟨fuel, rfl⟩ := Nat.exists_eq_add_of_lt (Nat.zero_lt_of_lt hfuel)
      have hless : rest.length < fuel := by
        simp at hfuel
        omega
      by_cases hmatches : matchesTimeout handler eloopData userData y = true
      · obtain ⟨heap', head', hturn, hkept', hrest', hfreed, hsame⟩ :=
          cancelTurn_of_matches hmatches hkept hb hrest hnodup removed
        obtain ⟨hbless, hnodup'⟩ : b ∉ addresses (kept ++ rest) ∧ (addresses (kept ++ rest)).Nodup := by
          rwa [addresses_append, addresses_cons, List.nodup_middle, ← addresses_append,
            List.nodup_cons] at hnodup
        obtain ⟨done, hdone, hremoved, hseg, hall, hframe⟩ :=
          ih hkept' hrest' hnodup' hless (removed + 1)
        refine ⟨done, ?_, ?_, ?_, ?_, ?_⟩
        · rw [Nat.zero_add, iterate_of_inl hturn, hdone]
        · simp [hmatches, hremoved]
          omega
        · simpa [hmatches] using hseg
        · intro cell hcell hcellMatches
          rcases List.mem_cons.mp hcell with rfl | hcell
          · exact (hframe b hbless).trans hfreed
          · exact hall cell hcell hcellMatches
        · intro a ha
          have hless : a ∉ addresses (kept ++ rest) := by
            simp only [addresses_append, addresses_cons, List.mem_append, List.mem_cons] at ha ⊢
            tauto
          rw [hframe a hless, hsame a ha]
      · have hturn : cancelTurn handler eloopData userData
            ⟨heap, head, lastAddress kept, some b, removed⟩ =
              .inl ⟨heap, head, lastAddress (kept ++ [(b, y)]), next, removed⟩ := by
          simp [cancelTurn, hb, hmatches]
        have hkept' : Seg heap head (kept ++ [(b, y)]) next :=
          seg_append.mpr ⟨some b, hkept, rfl, next, hb, rfl⟩
        rw [List.append_cons] at hnodup ⊢
        obtain ⟨done, hdone, hremoved, hseg, hall, hframe⟩ :=
          ih hkept' hrest hnodup hless removed
        refine ⟨done, ?_, ?_, ?_, ?_, hframe⟩
        · rw [Nat.zero_add, iterate_of_inl hturn, hdone]
        · simp [hmatches, hremoved]
        · simpa [hmatches] using hseg
        · intro cell hcell hcellMatches
          rcases List.mem_cons.mp hcell with rfl | hcell
          · exact absurd hcellMatches hmatches
          · exact hall cell hcell hcellMatches

theorem iterate_destroyTurn (h : Seg heap p cells none) (hnodup : (addresses cells).Nodup)
    {fuel : Nat} (hfuel : cells.length < fuel) :
    ∃ heap', iterate destroyTurn fuel (heap, p) = some (some heap') ∧
      (∀ a ∈ addresses cells, heap' a = none) ∧ ∀ a ∉ addresses cells, heap' a = heap a := by
  induction cells generalizing heap p fuel with
  | nil =>
      obtain rfl : p = none := h
      obtain ⟨fuel, rfl⟩ := Nat.exists_eq_add_of_lt hfuel
      refine ⟨heap, iterate_of_inr rfl, ?_, fun _ _ => rfl⟩
      intro a ha
      cases ha
  | cons cell cells ih =>
      obtain ⟨b, y⟩ := cell
      obtain ⟨rfl, next, hb, hcells⟩ := h
      obtain ⟨fuel, rfl⟩ := Nat.exists_eq_add_of_lt (Nat.zero_lt_of_lt hfuel)
      obtain ⟨hbcells, hnodup⟩ := List.nodup_cons.mp hnodup
      have hturn : destroyTurn (heap, some b) = .inl (Function.update heap b none, next) := by
        simp [destroyTurn, hb]
      obtain ⟨heap', hheap', hfreed, hframe⟩ :=
        @ih _ _ (hcells.update hbcells none) hnodup fuel (by simp at hfuel; omega)
      refine ⟨heap', ?_, ?_, ?_⟩
      · rw [Nat.zero_add, iterate_of_inl hturn, hheap']
      · intro a ha
        rcases List.mem_cons.mp ha with rfl | ha
        · rw [hframe a hbcells, Function.update_self]
        · exact hfreed a ha
      · intro a ha
        simp only [addresses_cons, List.mem_cons, not_or] at ha
        rw [hframe a ha.2, Function.update_of_ne ha.1]

/-- An open call, in memory and in the list's machine. -/
def Matches (heap : Heap EloopTimeout) : Option Nat → NsTimer.ExpireCall → Prop
  | none, .pendingSignals _ => True
  | some tmp, .runningHandler _ timeout => ∃ next, heap tmp = some ⟨timeout, next⟩
  | _, _ => False

/-- The timers as they are linked: each cell is where it is, and its timer is the one that the list
has there. -/
structure Represents (s : Store) (c : NsTimer.Context) (cells : List (Nat × EloopTimeout)) :
    Prop where
  linked : Seg s.heap s.timeout cells none
  timeout : cells.map Prod.snd = c.timeout
  calls : List.Forall₂ (Matches s.heap) s.openCalls c.openCalls
  nodup : (addresses cells ++ s.openCalls.reduceOption).Nodup
  allocated : ∀ a, s.heap a ≠ none → a ∈ addresses cells ++ s.openCalls.reduceOption
  made : s.made = c.registered.length

variable {s : Store} {c : NsTimer.Context} {fuel : Nat}

theorem Represents.init : Represents .init .init [] where
  linked := rfl
  timeout := rfl
  calls := .nil
  nodup := List.nodup_nil
  allocated := fun _ ha => absurd rfl ha
  made := rfl

theorem matches_congr {heap' : Heap EloopTimeout} {openCalls : List (Option Nat)}
    {calls : List NsTimer.ExpireCall} (h : List.Forall₂ (Matches heap) openCalls calls)
    (hsame : ∀ a ∈ openCalls.reduceOption, heap' a = heap a) :
    List.Forall₂ (Matches heap') openCalls calls := by
  induction h with
  | nil => exact .nil
  | @cons tmp call openCalls calls hcall _ ih =>
      cases tmp with
      | none =>
          refine .cons ?_ (ih hsame)
          cases call <;> exact hcall
      | some tmp =>
          rw [List.reduceOption_cons_of_some] at hsame
          obtain ⟨htmp, hbelow⟩ := List.forall_mem_cons.mp hsame
          refine .cons ?_ (ih hbelow)
          cases call with
          | pendingSignals call => exact hcall
          | runningHandler call timeout =>
              obtain ⟨next, hnext⟩ := hcall
              exact ⟨next, htmp.trans hnext⟩

theorem matches_allocated {openCalls : List (Option Nat)} {calls : List NsTimer.ExpireCall}
    (h : List.Forall₂ (Matches heap) openCalls calls) :
    ∀ a ∈ openCalls.reduceOption, heap a ≠ none := by
  induction h with
  | nil => simp
  | @cons tmp call openCalls calls hcall _ ih =>
      cases tmp with
      | none => exact ih
      | some tmp =>
          rw [List.reduceOption_cons_of_some]
          refine List.forall_mem_cons.mpr ⟨?_, ih⟩
          cases call with
          | pendingSignals call => cases hcall
          | runningHandler call timeout =>
              obtain ⟨next, hnext⟩ := hcall
              simp [hnext]

/-- What is allocated is linked, or the `tmp` of an open call. -/
theorem Represents.allocated_iff (h : Represents s c cells) :
    s.heap a ≠ none ↔ a ∈ addresses cells ++ s.openCalls.reduceOption := by
  refine ⟨h.allocated a, fun ha => ?_⟩
  rcases List.mem_append.mp ha with hcell | htmp
  · obtain ⟨⟨b, x⟩, hmem, rfl⟩ := List.mem_map.mp hcell
    obtain ⟨next, hnext⟩ := h.linked.allocated hmem
    simp [hnext]
  · exact matches_allocated h.calls a htmp

theorem Represents.register (h : Represents s c cells) (ha : s.heap a = none)
    (hfuel : cells.length < fuel) (now : OsTime) (secs usecs : UInt32)
    (handler eloopData userData : Ptr) :
    let timeout : EloopTimeout :=
      ⟨c.registered.length, expiry now secs usecs, eloopData, userData, false, handler⟩
    ∃ s', eloopRegisterTimeout fuel (some a) now secs usecs handler eloopData userData s =
        some (0, s') ∧
      Represents s' { c with
        timeout := linkTimeout timeout c.timeout
        registered := c.registered ++ [timeout] } (linkedIn a timeout cells) := by
  intro timeout
  have hfresh : a ∉ addresses cells ++ s.openCalls.reduceOption := by
    simp [← h.allocated_iff, ha]
  obtain ⟨hacells, hatmps⟩ := not_or.mp (mt List.mem_append.mpr hfresh)
  obtain ⟨s', hregister, hseg, hframe, hopen, hmade⟩ :=
    eloopRegisterTimeout_linked h.linked h.nodup.of_append_left hacells hfuel now secs usecs handler
      eloopData userData
  rw [h.made] at hseg
  have hperm : (addresses (linkedIn a timeout cells) ++ s'.openCalls.reduceOption).Perm
      (a :: (addresses cells ++ s.openCalls.reduceOption)) := by
    rw [hopen]
    exact ((linkedIn_perm a timeout cells).map Prod.fst).append_right _
  refine ⟨s', hregister, hseg, ?_, ?_, ?_, ?_, ?_⟩
  · rw [map_linkedIn, h.timeout]
  · rw [hopen]
    apply matches_congr h.calls
    intro b hb
    apply hframe
    · exact fun heq => hatmps (heq ▸ hb)
    · exact fun hcell => (List.disjoint_of_nodup_append h.nodup) hcell hb
  · exact hperm.nodup_iff.mpr (List.nodup_cons.mpr ⟨hfresh, h.nodup⟩)
  · intro b hb
    rw [hperm.mem_iff, List.mem_cons]
    by_cases hba : b = a
    · exact .inl hba
    · refine .inr ?_
      by_cases hcell : b ∈ addresses cells
      · exact List.mem_append_left _ hcell
      · exact h.allocated b (hframe b hba hcell ▸ hb)
  · simp [hmade, h.made]

theorem Represents.cancel (h : Represents s c cells) (hfuel : cells.length < fuel)
    (handler eloopData userData : Ptr) :
    let cancelled := NsTimer.eloopCancelTimeout handler eloopData userData c.timeout
    ∃ s', eloopCancelTimeout fuel handler eloopData userData s = some (cancelled.removed, s') ∧
      Represents s' { c with
        timeout := cancelled.timeout
        cancelled := c.cancelled ++ cancelled.freed }
        (cells.filter fun cell => !matchesTimeout handler eloopData userData cell.2) := by
  intro cancelled
  have hsub := (cells.filter_sublist
    (p := fun cell => !matchesTimeout handler eloopData userData cell.2)).map Prod.fst
  obtain ⟨done, hdone, hremoved, hseg, hfreed, hframe⟩ :=
    @iterate_cancelTurn s.heap s.timeout [] cells handler eloopData userData s.timeout rfl h.linked
      h.nodup.of_append_left fuel hfuel 0
  refine ⟨{ s with heap := done.heap, timeout := done.head }, ?_, hseg, ?_, ?_, ?_, ?_, h.made⟩
  · rw [lastAddress_nil] at hdone
    simp [eloopCancelTimeout, hdone, hremoved, cancelled, NsTimer.eloopCancelTimeout_eq, ← h.timeout,
      List.filter_map, Function.comp_def]
  · simp [cancelled, NsTimer.eloopCancelTimeout_eq, ← h.timeout, List.filter_map, Function.comp_def]
  · apply matches_congr h.calls
    intro b hb
    exact hframe b fun hcell => (List.disjoint_of_nodup_append h.nodup) hcell hb
  · exact h.nodup.sublist (hsub.append_right _)
  · intro b hb
    by_cases hcell : b ∈ addresses cells
    · obtain ⟨cell, hmem, rfl⟩ := List.mem_map.mp hcell
      refine List.mem_append_left _ (List.mem_map_of_mem (List.mem_filter.mpr ⟨hmem, ?_⟩))
      by_contra hmatches
      exact hb (hfreed cell hmem (by simpa using hmatches))
    · have hold := h.allocated b (hframe b hcell ▸ hb)
      exact List.mem_append_right _ ((List.mem_append.mp hold).resolve_left hcell)

/-- A call of `expire_timers` that runs no handler. -/
theorem Represents.closeCall (h : Represents s c cells) {below : List (Option Nat)}
    {calls : List NsTimer.ExpireCall} (hopen : s.openCalls = none :: below)
    (hcalls : List.Forall₂ (Matches s.heap) below calls) :
    Represents { s with openCalls := below } { c with openCalls := calls } cells where
  linked := h.linked
  timeout := h.timeout
  calls := hcalls
  nodup := by simpa [hopen] using h.nodup
  allocated := by simpa [hopen] using h.allocated
  made := h.made

/-- The head is unlinked; its block is the `tmp` of the call until its handler has returned. -/
theorem Represents.examineHead (h : Represents s c cells) {below : List (Option Nat)}
    {calls : List NsTimer.ExpireCall} (hopen : s.openCalls = none :: below)
    (hcalls : List.Forall₂ (Matches s.heap) below calls) (now : OsTime) (call : Nat) :
    ∃ s' cells', TimerLinks.examineHead now below s = some s' ∧
      Represents s' (NsTimer.examineHead now call calls c) cells' ∧
        cells'.length ≤ cells.length := by
  have hlinked := h.linked
  cases cells with
  | nil =>
      have hnone : s.timeout = none := hlinked
      have hempty : c.timeout = [] := h.timeout.symm
      refine ⟨{ s with openCalls := below }, [], by simp [TimerLinks.examineHead, hnone], ?_, le_rfl⟩
      simp only [NsTimer.examineHead, hempty]
      exact hempty ▸ h.closeCall hopen hcalls
  | cons cell cells =>
      obtain ⟨b, tmp⟩ := cell
      obtain ⟨hhead, next, hb, hcells⟩ := hlinked
      have htimeout : c.timeout = tmp :: cells.map Prod.snd := h.timeout.symm
      by_cases hbefore : osTimeBefore now tmp.time = true
      · refine ⟨{ s with openCalls := below }, (b, tmp) :: cells, ?_, ?_, le_rfl⟩
        · simp [TimerLinks.examineHead, hhead, hb, hbefore]
        · have hcall : NsTimer.examineHead now call calls c = { c with openCalls := calls } := by
            simp [NsTimer.examineHead, htimeout, hbefore]
          exact hcall ▸ h.closeCall hopen hcalls
      · refine ⟨{ s with timeout := next, openCalls := some b :: below }, cells, ?_, ?_, by simp⟩
        · simp [TimerLinks.examineHead, hhead, hb, hbefore]
        · have hcall : NsTimer.examineHead now call calls c = { c with
              timeout := cells.map Prod.snd
              openCalls := .runningHandler call tmp :: calls
              fired := c.fired ++ [(call, tmp.block)] } := by
            simp [NsTimer.examineHead, htimeout, hbefore]
          rw [hcall]
          have hopenNone : s.openCalls.reduceOption = below.reduceOption := by simp [hopen]
          have hmoved : (addresses cells ++ (some b :: below).reduceOption).Perm
              (addresses ((b, tmp) :: cells) ++ s.openCalls.reduceOption) := by
            rw [List.reduceOption_cons_of_some, hopenNone]
            exact List.perm_middle
          refine ⟨hcells, rfl, .cons ⟨next, hb⟩ hcalls, hmoved.nodup_iff.mpr h.nodup, ?_, h.made⟩
          exact fun a ha => hmoved.mem_iff.mpr (h.allocated a ha)

theorem Represents.handlerReturn (h : Represents s c cells) {tmp : Nat} {below : List (Option Nat)}
    {calls : List NsTimer.ExpireCall} (hopen : s.openCalls = some tmp :: below)
    (hcalls : List.Forall₂ (Matches s.heap) below calls) :
    ∃ heap, freeBlock s.heap tmp = some heap ∧
      Represents { s with heap, openCalls := below } { c with openCalls := calls } cells := by
  have hnodup := h.nodup
  rw [hopen, List.reduceOption_cons_of_some, List.nodup_middle] at hnodup
  obtain ⟨htmp, hnodup⟩ := List.nodup_cons.mp hnodup
  obtain ⟨htmpCells, htmpBelow⟩ := not_or.mp (mt List.mem_append.mpr htmp)
  have hallocated : s.heap tmp ≠ none := h.allocated_iff.mpr (by simp [hopen])
  obtain ⟨node, hnode⟩ := Option.ne_none_iff_exists'.mp hallocated
  refine ⟨Function.update s.heap tmp none, by simp [freeBlock, hnode],
    h.linked.update htmpCells none, h.timeout, ?_, hnodup, ?_, h.made⟩
  · apply matches_congr hcalls
    intro a ha
    exact Function.update_of_ne (fun heq : a = tmp => htmpBelow (heq ▸ ha)) _ _
  · intro a ha
    have hne : a ≠ tmp := by
      rintro rfl
      exact ha (Function.update_self ..)
    have hkept : s.heap a ≠ none := fun hnone => ha ((Function.update_of_ne hne ..).trans hnone)
    have hold := h.allocated a hkept
    rwa [hopen, List.reduceOption_cons_of_some, List.perm_middle.mem_iff, List.mem_cons,
      or_iff_right hne] at hold

/-- In memory the step is done exactly if the list's machine does it, and there is no fault. -/
theorem step_represents (h : Represents s c cells) {call : Call} (hfresh : Fresh s call)
    (hfuel : cells.length < fuel) :
    Option.Rel (fun s' c' => ∃ cells', Represents s' c' cells' ∧ cells'.length ≤ cells.length + 1)
      (step fuel s call) (NsTimer.step c call.action) := by
  obtain ⟨action, address⟩ := call
  cases action with
  | registerTimeout mallocOk now secs usecs handler eloopData userData =>
      cases mallocOk with
      | false => exact .some ⟨cells, h, Nat.le_succ _⟩
      | true =>
          obtain ⟨s', hs', hrepresents⟩ :=
            h.register hfresh hfuel now.toOsTime secs usecs handler eloopData userData
          simp only [step, NsTimer.step, NsTimer.eloopRegisterTimeout, if_true, hs', Option.map_some]
          exact .some ⟨_, hrepresents, (linkedIn_perm ..).length_eq.le⟩
  | cancelTimeout handler eloopData userData =>
      obtain ⟨s', hs', hrepresents⟩ := h.cancel hfuel handler eloopData userData
      simp only [step, NsTimer.step, hs', Option.map_some]
      exact .some ⟨_, hrepresents, (List.length_filter_le ..).trans (Nat.le_succ _)⟩
  | expireTimers =>
      refine .some ⟨cells, ⟨h.linked, h.timeout, .cons trivial h.calls, ?_, ?_, h.made⟩,
        Nat.le_succ _⟩
      · simpa using h.nodup
      · simpa using h.allocated
  | examineHead now =>
      have hcalls := h.calls
      generalize hopen : s.openCalls = openCalls at hcalls
      generalize hopenList : c.openCalls = calls at hcalls
      simp only [step, NsTimer.step, hopen, hopenList]
      cases hcalls with
      | nil => exact .none
      | @cons tmp call below calls hcall hcalls =>
          cases tmp with
          | none =>
              cases call with
              | pendingSignals number =>
                  obtain ⟨s', cells', hs', hrepresents, hle⟩ :=
                    h.examineHead hopen hcalls now.toOsTime number
                  simp only [hs']
                  exact .some ⟨cells', hrepresents, hle.trans (Nat.le_succ _)⟩
              | runningHandler number timeout => exact hcall.elim
          | some tmp =>
              cases call with
              | pendingSignals number => exact hcall.elim
              | runningHandler number timeout => exact .none
  | handlerReturn =>
      have hcalls := h.calls
      generalize hopen : s.openCalls = openCalls at hcalls
      generalize hopenList : c.openCalls = calls at hcalls
      simp only [step, NsTimer.step, hopen, hopenList]
      cases hcalls with
      | nil => exact .none
      | @cons tmp call below calls hcall hcalls =>
          cases tmp with
          | none =>
              cases call with
              | pendingSignals number => exact .none
              | runningHandler number timeout => exact hcall.elim
          | some tmp =>
              cases call with
              | pendingSignals number => exact hcall.elim
              | runningHandler number timeout =>
                  obtain ⟨heap, hheap, hrepresents⟩ := h.handlerReturn hopen hcalls
                  simp only [hheap, Option.map_some]
                  exact .some ⟨cells, hrepresents, Nat.le_succ _⟩

/-- What is in memory and what the list's machine has. -/
structure Refines (fuel : Nat) (s : Store) (c : NsTimer.Context) : Prop where
  represents : ∃ cells, Represents s c cells
  cancels : ∀ handler eloopData userData, ∃ s',
    eloopCancelTimeout fuel handler eloopData userData s =
      some ((NsTimer.eloopCancelTimeout handler eloopData userData c.timeout).removed, s')
  /-- What `destroy_timers` leaves are the timers whose handlers run. -/
  destroys : ∃ left, destroyTimers fuel s = some left ∧
    ∀ a, left a ≠ none ↔ some a ∈ s.openCalls

theorem Represents.refines (h : Represents s c cells) (hfuel : cells.length < fuel) :
    Refines fuel s c where
  represents := ⟨cells, h⟩
  cancels := by
    intro handler eloopData userData
    obtain ⟨s', hs', -⟩ := h.cancel hfuel handler eloopData userData
    exact ⟨s', hs'⟩
  destroys := by
    obtain ⟨left, hleft, hfreed, hframe⟩ :=
      iterate_destroyTurn h.linked h.nodup.of_append_left hfuel
    refine ⟨left, by simp [destroyTimers, hleft], fun a => ?_⟩
    rw [← List.reduceOption_mem_iff]
    by_cases hcell : a ∈ addresses cells
    · have hopen : a ∉ s.openCalls.reduceOption := (List.disjoint_of_nodup_append h.nodup) hcell
      simp [hfreed a hcell, hopen]
    · rw [hframe a hcell, h.allocated_iff, List.mem_append, or_iff_right hcell]

/-- The pointers do what the list does: whatever blocks `malloc` returns, the run in memory goes
through where the run on the list does, without a fault, and ends with the list's timers, each in
the block that it was given. -/
theorem timers_in_memory {calls : List Call} (hfuel : calls.length < fuel)
    (hfresh : Runs.Guarded (step fuel) Fresh .init calls) :
    Option.Rel (Refines fuel) (Runs.run (step fuel) .init calls)
      (Runs.run NsTimer.step .init (calls.map (·.action))) := by
  have hrun := @Runs.run_rel Store Call (step fuel) Fresh NsTimer.Context NsTimer.Action NsTimer.step
    Call.action (fun n s c => ∃ cells, Represents s c cells ∧ cells.length ≤ n) fuel ?_ .init .init 0
    calls ⟨[], .init, le_rfl⟩ (by omega) hfresh
  · apply Runs.rel_mono _ hrun
    rintro s c ⟨cells, hcells, hlength⟩
    exact hcells.refines (by omega)
  · -- a call makes the list longer by one at most
    rintro n hn s c call ⟨cells, hcells, hlength⟩ hfresh
    apply Runs.rel_mono _ (step_represents hcells hfresh (Nat.lt_of_le_of_lt hlength hn))
    rintro s' c' ⟨cells', hcells', hlength'⟩
    exact ⟨cells', hcells', hlength'.trans (Nat.succ_le_succ hlength)⟩

/-- Two timers; the handler of the first cancels the second, whose block the next timer is given. -/
def sampleCalls : List Call :=
  let now := WallTime.atSecond 100
  let later := WallTime.atSecond 102
  [⟨.registerTimeout true now 1 500000 7 1 2, 40⟩, ⟨.registerTimeout true now 1 0 7 1 3, 24⟩,
   ⟨.expireTimers, 8⟩, ⟨.examineHead later, 8⟩, ⟨.cancelTimeout 7 eloopAllCtx 2, 8⟩,
   ⟨.registerTimeout true later 0 0 7 1 4, 40⟩, ⟨.handlerReturn, 8⟩]

theorem sampleCalls_in_memory :
    Option.Rel (Refines 8) (Runs.run (step 8) .init sampleCalls)
      (Runs.run NsTimer.step .init (sampleCalls.map (·.action))) := by
  apply timers_in_memory
  · decide
  · simp [sampleCalls, WallTime.atSecond, Runs.Guarded, Fresh, step, eloopRegisterTimeout, Store.init, expiry,
      carryUsec, iterate, registerTurn, cancelTurn, eloopCancelTimeout, osTimeBefore, examineHead,
      matchesTimeout, eloopAllCtx]

end EventLoop.TimerLinks
