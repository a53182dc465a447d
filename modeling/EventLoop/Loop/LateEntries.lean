import EventLoop.Loop.Dispatch

/-!
What calls of handlers make of a table: the entries that they leave in it stand first, in their
old order, and those that came in with the calls stand behind them.
-/

namespace EventLoop.Loop

/-- A registration of the descriptor for this type that gets its memory. -/
def Call.registers (type : EventType) (sock : Int) : Call → Bool
  | .registerSock allocated sock' type' _ _ _ => allocated && (sock' == sock && type' == type)
  | _ => false

def Call.unregisters (type : EventType) (sock : Int) : Call → Bool
  | .unregisterSock sock' type' => sock' == sock && type' == type
  | _ => false

/-- How often a descriptor is registered behind the calls, if it was so often before them. -/
def registeredBehind (type : EventType) (sock : Int) (calls : List Call) (before : Nat) : Nat :=
  calls.foldl (fun count call =>
    if call.registers type sock then count + 1
    else if call.unregisters type sock then count - 1
    else count) before

/-- Behind the calls the descriptor is registered, the old entries of the table included. -/
def InForce (type : EventType) (table : List EloopSock) (calls : List Call) (sock : Int) : Prop :=
  0 < registeredBehind type sock calls (table.countP (·.sock == sock))

instance (type : EventType) (table : List EloopSock) (calls : List Call) (sock : Int) :
    Decidable (InForce type table calls sock) :=
  inferInstanceAs (Decidable (_ < _))

/-- One of the calls has registered the descriptor. -/
def Renewed (type : EventType) (calls : List Call) (sock : Int) : Prop :=
  ∃ call ∈ calls, call.registers type sock = true

instance (type : EventType) (calls : List Call) (sock : Int) :
    Decidable (Renewed type calls sock) :=
  inferInstanceAs (Decidable (∃ call ∈ calls, _))

/-- The entries that the calls leave: to unregister a descriptor takes its first one away. -/
def keptEntries (type : EventType) (calls : List Call) (table : List EloopSock) :
    List EloopSock :=
  calls.foldl (fun table call => table.eraseP (fun entry => call.unregisters type entry.sock)) table

/-- Among the calls of this handler is one that adds to the table behind `calls` or removes from
it. -/
def altersTable (script : Script) (type : EventType) (table : List EloopSock) (calls : List Call)
    (number : Nat) : Bool :=
  (script number).any fun
    | .registerSock allocated _ type' _ _ _ => allocated && type' = type
    | .unregisterSock sock type' => type' = type && InForce type table calls sock
    | _ => false

/-- The calls of so many handlers, from the one with this number on. -/
def handlerCalls (script : Script) (first count : Nat) : List Call :=
  (List.range' first count).flatMap script

theorem handlerCalls_succ (script : Script) (first count : Nat) :
    handlerCalls script first (count + 1) =
      handlerCalls script first count ++ script (first + count) := by
  rw [handlerCalls, List.range'_concat, List.flatMap_append, Nat.one_mul]
  simp [handlerCalls]

theorem keptEntries_sublist (type : EventType) (calls : List Call) (table : List EloopSock) :
    (keptEntries type calls table).Sublist table := by
  induction calls generalizing table with
  | nil => exact .refl _
  | cons call rest ih => exact (ih _).trans List.eraseP_sublist

/-- What the calls have made of the table of this type since `start`. -/
structure Since (type : EventType) (start s : Socks) (calls : List Call) : Prop where
  registrations : start.registrations ≤ s.registrations
  count : ∀ sock, (s.getSockTable type).table.countP (·.sock == sock) =
    registeredBehind type sock calls ((start.getSockTable type).table.countP (·.sock == sock))
  late : ∃ late, (s.getSockTable type).table =
      keptEntries type calls (start.getSockTable type).table ++ late ∧
    (∀ entry ∈ late,
      start.registrations ≤ entry.registration ∧ Renewed type calls entry.sock) ∧
    ∀ sock, Renewed type calls sock → (s.getSockTable type).table.any (·.sock == sock) = true →
      late.any (·.sock == sock) = true

variable {type : EventType} {start s : Socks} {calls : List Call}

theorem Since.refl (type : EventType) (s : Socks) : Since type s s [] where
  registrations := Nat.le_refl _
  count _ := rfl
  late := ⟨[], (List.append_nil _).symm, by simp, by simp [Renewed]⟩

theorem Since.any_iff (h : Since type start s calls) (sock : Int) :
    (s.getSockTable type).table.any (·.sock == sock) = true ↔
      InForce type (start.getSockTable type).table calls sock := by
  rw [InForce, ← h.count sock, List.countP_pos_iff, List.any_eq_true]

theorem registeredBehind_concat (sock : Int) (call : Call) (before : Nat) :
    registeredBehind type sock (calls ++ [call]) before =
      if call.registers type sock then registeredBehind type sock calls before + 1
      else if call.unregisters type sock then registeredBehind type sock calls before - 1
      else registeredBehind type sock calls before := by
  simp [registeredBehind]

theorem keptEntries_concat (call : Call) (table : List EloopSock) :
    keptEntries type (calls ++ [call]) table =
      (keptEntries type calls table).eraseP (fun entry => call.unregisters type entry.sock) := by
  simp [keptEntries]

theorem renewed_concat (call : Call) (sock : Int) :
    Renewed type (calls ++ [call]) sock ↔
      Renewed type calls sock ∨ call.registers type sock = true := by
  simp [Renewed, or_and_right, exists_or]

theorem countP_eraseP (p : EloopSock → Bool) (table : List EloopSock) :
    (table.eraseP p).countP p = table.countP p - 1 := by
  induction table with
  | nil => rfl
  | cons entry rest ih =>
      cases hp : p entry with
      | true => simp [List.eraseP_cons_of_pos, hp]
      | false => simp [List.eraseP_cons_of_neg, hp, ih]

theorem countP_eraseP_of_ne {sock sock' : Int} (hne : sock' ≠ sock) (table : List EloopSock) :
    (table.eraseP (·.sock == sock)).countP (·.sock == sock') =
      table.countP (·.sock == sock') := by
  induction table with
  | nil => rfl
  | cons entry rest ih =>
      by_cases hsock : entry.sock = sock
      · simp [List.eraseP_cons_of_pos, hsock, hne.symm]
      · simp [List.eraseP_cons_of_neg, hsock, List.countP_cons, ih]

theorem any_eraseP_of_ne {sock sock' : Int} (hne : sock' ≠ sock) (table : List EloopSock) :
    (table.eraseP (·.sock == sock)).any (·.sock == sock') = table.any (·.sock == sock') := by
  rw [Bool.eq_iff_iff, List.any_eq_true, List.any_eq_true, ← List.countP_pos_iff,
    ← List.countP_pos_iff, countP_eraseP_of_ne hne]

/-- A call that neither registers nor unregisters for this type, or gets no memory. -/
theorem Since.other (h : Since type start s calls) {call : Call} {s' : Socks}
    (hregisters : ∀ sock, call.registers type sock = false)
    (hunregisters : ∀ sock, call.unregisters type sock = false)
    (hsame : s'.getSockTable type = s.getSockTable type)
    (hmore : s.registrations ≤ s'.registrations) : Since type start s' (calls ++ [call]) := by
  have hkept : keptEntries type (calls ++ [call]) (start.getSockTable type).table =
      keptEntries type calls (start.getSockTable type).table := by
    rw [keptEntries_concat, List.eraseP_of_forall_not (by simp [hunregisters])]
  have hrenewed (sock : Int) : Renewed type (calls ++ [call]) sock ↔ Renewed type calls sock := by
    simp [renewed_concat, hregisters]
  constructor
  · exact Nat.le_trans h.registrations hmore
  · intro sock
    rw [registeredBehind_concat, hregisters, hunregisters, hsame]
    exact h.count sock
  · simpa only [hkept, hrenewed, hsame] using h.late

theorem Since.register (h : Since type start s calls) (sock : Int)
    (handler eloopData userData : Ptr) :
    Since type start (registerSock true sock type handler eloopData userData s).2
      (calls ++ [.registerSock true sock type handler eloopData userData]) := by
  let entry : EloopSock := ⟨sock, eloopData, userData, handler, s.registrations⟩
  have htable := congrArg SockTable.table
    (getSockTable_registerSock_self sock type handler eloopData userData s)
  have hcall (sock' : Int) : (Call.registerSock true sock type handler eloopData
      userData).registers type sock' = (sock == sock') := by simp [Call.registers]
  have hkept : keptEntries type
      (calls ++ [.registerSock true sock type handler eloopData userData])
      (start.getSockTable type).table = keptEntries type calls (start.getSockTable type).table := by
    rw [keptEntries_concat, List.eraseP_of_forall_not (by simp [Call.unregisters])]
  obtain ⟨late, hlate, hnew, hnewest⟩ := h.late
  constructor
  · exact Nat.le_trans h.registrations (by cases type <;> exact Nat.le_succ _)
  · intro sock'
    rw [registeredBehind_concat, hcall, htable, List.countP_append, h.count sock']
    cases heq : sock == sock' <;> simp [heq, Call.unregisters]
  · refine ⟨late ++ [entry], ?_, ?_, ?_⟩
    · rw [htable, hkept, hlate, List.append_assoc]
    · simp only [renewed_concat, List.mem_append, List.mem_singleton]
      rintro other (hother | rfl)
      · exact ⟨(hnew other hother).1, .inl (hnew other hother).2⟩
      · exact ⟨h.registrations, .inr (by simp [hcall, entry])⟩
    · intro sock' hrenewed hany
      rw [htable, List.any_append, Bool.or_eq_true] at hany
      rw [List.any_append, Bool.or_eq_true]
      cases heq : sock == sock' with
      | true => exact .inr (by simp [entry, heq])
      | false =>
          rw [renewed_concat, hcall, heq] at hrenewed
          rcases hany with hany | hany
          · exact .inl (hnewest sock' (by simpa using hrenewed) hany)
          · simp [heq] at hany

theorem Since.unregister (h : Since type start s calls) (sock : Int) :
    Since type start (unregisterSock sock type s) (calls ++ [.unregisterSock sock type]) := by
  have htable : ((unregisterSock sock type s).getSockTable type).table =
      (s.getSockTable type).table.eraseP (·.sock == sock) := by
    rw [getSockTable_unregisterSock_self, removeSock_table]
  have hcall (sock' : Int) : (Call.unregisterSock sock type).unregisters type sock' =
      (sock' == sock) := by simp [Call.unregisters, Bool.beq_comm]
  have hkept : keptEntries type (calls ++ [.unregisterSock sock type])
      (start.getSockTable type).table =
        (keptEntries type calls (start.getSockTable type).table).eraseP (·.sock == sock) := by
    simp [keptEntries_concat, hcall]
  have hrenewed (sock' : Int) :
      Renewed type (calls ++ [.unregisterSock sock type]) sock' ↔ Renewed type calls sock' := by
    simp [renewed_concat, Call.registers]
  obtain ⟨late, hlate, hnew, hnewest⟩ := h.late
  constructor
  · exact Nat.le_trans h.registrations (by cases type <;> exact Nat.le_refl _)
  · intro sock'
    rw [registeredBehind_concat, htable, ← h.count sock', hcall]
    by_cases hsock : sock' = sock
    · simp [hsock, Call.registers, countP_eraseP]
    · simp [hsock, Call.registers, countP_eraseP_of_ne]
  · -- the oldest entry of the descriptor goes: a late one only where no other is left
    simp only [htable, hkept, hrenewed]
    cases hold : (keptEntries type calls (start.getSockTable type).table).any (·.sock == sock) with
    | true =>
        refine ⟨late, by rw [hlate, List.eraseP_append, if_pos hold], hnew, ?_⟩
        intro sock' hlater hany
        obtain ⟨entry, hentry, hsock⟩ := List.any_eq_true.mp hany
        exact hnewest sock' hlater
          (List.any_eq_true.mpr ⟨entry, List.mem_of_mem_eraseP hentry, hsock⟩)
    | false =>
        refine ⟨late.eraseP (·.sock == sock), ?_,
          fun entry hentry => hnew entry (List.mem_of_mem_eraseP hentry), ?_⟩
        · have hnone : ∀ entry ∈ keptEntries type calls (start.getSockTable type).table,
              ¬ (entry.sock == sock) = true := by simpa using hold
          rw [hlate, List.eraseP_append, if_neg (by simp [hold]),
            List.eraseP_of_forall_not hnone]
        · intro sock' hlater hany
          by_cases hsock : sock' = sock
          · subst hsock
            rw [hlate, List.eraseP_append, if_neg (by simp [hold]), List.any_append, hold,
              Bool.false_or] at hany
            exact hany
          · rw [any_eraseP_of_ne hsock] at hany ⊢
            exact hnewest sock' hlater hany

theorem Since.call {start s : Eloop} (h : Since type start.socks s.socks calls) (call : Call) :
    Since type start.socks (performCall s call).socks (calls ++ [call]) := by
  cases call with
  | registerSock allocated sock type' handler eloopData userData =>
      cases allocated with
      | false => exact h.other (by simp [Call.registers]) (by simp [Call.unregisters]) rfl (Nat.le_refl _)
      | true =>
          by_cases htype : type = type'
          · subst htype
            exact h.register sock handler eloopData userData
          · apply h.other
            · simp [Call.registers, Ne.symm htype]
            · simp [Call.unregisters]
            · exact getSockTable_registerSock_of_ne true sock htype handler eloopData userData s.socks
            · cases type' <;> exact Nat.le_succ _
  | unregisterSock sock type' =>
      by_cases htype : type = type'
      · subst htype
        exact h.unregister sock
      · apply h.other
        · simp [Call.registers]
        · simp [Call.unregisters, Ne.symm htype]
        · exact getSockTable_unregisterSock_of_ne sock htype s.socks
        · cases type' <;> exact Nat.le_refl _
  | registerTimeout | cancelTimeout | terminate | tmpTerminate =>
      exact h.other (fun _ => rfl) (fun _ => rfl) rfl (Nat.le_refl _)

theorem Since.foldl {start s : Eloop} (h : Since type start.socks s.socks calls)
    (more : List Call) :
    Since type start.socks (more.foldl performCall s).socks (calls ++ more) := by
  induction more generalizing s calls with
  | nil => simpa using h
  | cons call rest ih => simpa using ih (h.call call)

/-- So many handlers have run since `start`. -/
structure Ran (script : Script) (start s : Eloop) (count : Nat) : Prop where
  calls : s.calls = start.calls + count
  since : ∀ type, Since type start.socks s.socks (handlerCalls script start.calls count)

theorem Ran.handler {script : Script} {start s : Eloop} {count : Nat}
    (h : Ran script start s count) : Ran script start (runHandler script s) (count + 1) where
  calls := by rw [runHandler_calls, h.calls, Nat.add_assoc]
  since type := by
    rw [handlerCalls_succ, ← h.calls]
    exact Since.foldl (s := { s with calls := s.calls + 1 }) (h.since type) (script s.calls)

theorem Ran.clear {script : Script} {start s : Eloop} {count : Nat}
    (h : Ran script start s count) (type : EventType) :
    Ran script start
      { s with socks := s.socks.setSockTable type ⟨(s.sockTable type).table, false⟩ } count where
  calls := h.calls
  since other := by
    have hsame : ((s.socks.setSockTable type ⟨(s.sockTable type).table, false⟩).getSockTable
        other).table = (s.socks.getSockTable other).table := by
      cases type <;> cases other <;> rfl
    have hregistrations : (s.socks.setSockTable type
        ⟨(s.sockTable type).table, false⟩).registrations = s.socks.registrations := by
      cases type <;> rfl
    obtain ⟨hle, hcount, hlate⟩ := h.since other
    exact ⟨by rwa [hregistrations], by simpa only [hsame] using hcount,
      by simpa only [hsame] using hlate⟩

/-- The old entries with their bit set, and the numbers of their handlers, if so many handlers have
run since `start`. -/
def keptReady (script : Script) (fds : Int → Bool) (type : EventType) (start : Eloop)
    (count : Nat) : List (EloopSock × Nat) :=
  readyCalls fds (keptEntries type (handlerCalls script start.calls count)
    (start.sockTable type).table) (start.calls + count)

/-- The handler of this old entry changes the table that the pass begins with. -/
def endsPass (script : Script) (type : EventType) (start : Eloop) (count : Nat)
    (ready : EloopSock × Nat) : Bool :=
  altersTable script type (start.sockTable type).table (handlerCalls script start.calls count)
    ready.2

/-- How many old entries a pass invokes that so many handlers have gone before. -/
def oldInvoked (script : Script) (fds : Int → Bool) (type : EventType) (start : Eloop)
    (count : Nat) : Nat :=
  (throughStop (endsPass script type start count) (keptReady script fds type start count)).length

/-- An old entry with its bit set has a handler that changes the table, or none of the descriptors
that were registered since has its bit set and is still registered. -/
def LateKeptOut (script : Script) (fds : Int → Bool) (type : EventType) (start : Eloop)
    (count : Nat) : Prop :=
  (∃ ready ∈ keptReady script fds type start count,
    endsPass script type start count ready = true) ∨
  ∀ sock, fds sock = true → Renewed type (handlerCalls script start.calls count) sock →
    ¬ InForce type (start.sockTable type).table (handlerCalls script start.calls count) sock

section

variable {script : Script} {start s : Eloop} {count : Nat}

theorem Ran.pass (fds : Int → Bool) (type : EventType) (h : Ran script start s count) :
    Ran script start (eloopSockTableDispatch script fds type s)
      (count + (passed script fds type (s.sockTable type).table (s.sockTable type).table
        s.calls).length) := by
  rw [eloopSockTableDispatch_eq_foldl]
  generalize passed script fds type (s.sockTable type).table (s.sockTable type).table s.calls =
    entries
  have hloop : ∀ (s : Eloop) (count : Nat), Ran script start s count →
      Ran script start (entries.foldl (runReady script type) s) (count + entries.length) := by
    induction entries with
    | nil => exact fun s count h => h
    | cons ready rest ih =>
        intro s count h
        rw [List.foldl_cons, List.length_cons, Nat.add_comm rest.length, ← Nat.add_assoc]
        apply ih
        exact Ran.handler (s := { s with invoked := s.invoked ++ [(type, ready.1)] })
          ⟨h.calls, h.since⟩
  exact hloop _ _ (h.clear type)

theorem Ran.handlerTouches_eq (h : Ran script start s count) (type : EventType) (number : Nat) :
    handlerTouches script type (s.sockTable type).table number =
      altersTable script type (start.sockTable type).table
        (handlerCalls script start.calls count) number := by
  rw [handlerTouches, altersTable]
  congr 1
  funext call
  cases call with
  | unregisterSock sock type' =>
      have hany : (s.sockTable type).table.any (·.sock == sock) =
          decide (InForce type (start.sockTable type).table
            (handlerCalls script start.calls count) sock) := by
        rw [Bool.eq_iff_iff, decide_eq_true_iff]
        exact (h.since type).any_iff sock
      rw [touches, hany]
  | _ => rfl

/-- What a pass invokes: the old entries first, and late ones where none of these ends the pass. -/
theorem Ran.passed_eq (h : Ran script start s count) (fds : Int → Bool) (type : EventType) :
    ∃ late, passed script fds type (s.sockTable type).table (s.sockTable type).table s.calls =
        (if (keptReady script fds type start count).any (endsPass script type start count) then
          throughStop (endsPass script type start count) (keptReady script fds type start count)
        else keptReady script fds type start count ++
          throughStop (endsPass script type start count) late) ∧
      (∀ ready ∈ late, start.socks.registrations ≤ ready.1.registration) ∧
      (late = [] ↔ ∀ sock, fds sock = true →
        Renewed type (handlerCalls script start.calls count) sock →
          ¬ InForce type (start.sockTable type).table (handlerCalls script start.calls count)
            sock) := by
  obtain ⟨late, htable, hnew, hnewest⟩ := (h.since type).late
  have hstop : (fun ready : EloopSock × Nat =>
      handlerTouches script type (s.sockTable type).table ready.2) =
        endsPass script type start count := by
    funext ready
    exact h.handlerTouches_eq type ready.2
  refine ⟨(late.filter (fun entry => fds entry.sock)).zipIdx
    (s.calls + ((keptEntries type (handlerCalls script start.calls count)
      (start.sockTable type).table).filter (fun entry => fds entry.sock)).length), ?_, ?_, ?_⟩
  · rw [passed, hstop, readyCalls]
    rw [show (s.sockTable type).table = _ from htable, List.filter_append, List.zipIdx_append,
      throughStop_append, h.calls]
    rfl
  · intro ready hready
    exact (hnew ready.1 (List.mem_of_mem_filter (List.fst_mem_of_mem_zipIdx hready))).1
  · rw [List.zipIdx_eq_nil_iff, List.filter_eq_nil_iff]
    constructor
    · intro hnone sock hfds hrenewed hforce
      obtain ⟨entry, hentry, hsock⟩ := List.any_eq_true.mp
        (hnewest sock hrenewed (((h.since type).any_iff sock).mpr hforce))
      exact hnone entry hentry (by rwa [beq_iff_eq.mp hsock])
    · intro hnone entry hentry hfds
      apply hnone entry.sock hfds (hnew entry hentry).2
      apply ((h.since type).any_iff entry.sock).mp
      rw [htable]
      exact List.any_eq_true.mpr ⟨entry, List.mem_append_right _ hentry, beq_self_eq_true _⟩

end

end EventLoop.Loop
