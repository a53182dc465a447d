import EventLoop.Lib.Runs
import EventLoop.Loop.Dispatch
import Mathlib.Logic.Function.Basic

/-!
The registrations of `eloop_callback_itf.h`. A callback is registered with an
`EloopIntFuncPair` on the heap as its context, and unregistering deletes the pair; whether
an entry of the event loop still holds it then depends on what the pair was used for.
-/

namespace EventLoop.Callback

open Loop (Eloop EloopSock EventType performCall)

/-- What the virtual methods of an object return. -/
structure CallbackObject where
  this : Ptr
  timeoutCtx : Ptr
  socketFd : Int
  socketCtx : Ptr
  signalNo : Int
deriving DecidableEq, Repr

/-- The object and the method, each of which is a union in the source. -/
structure EloopIntFuncPair where
  pObj : Ptr
  pOn : Ptr
  uiHandled : UInt32
deriving DecidableEq, Repr

/-- The addresses of the static functions that are registered. -/
def onTimeoutCallbackFuncDynamic : Ptr := 1

def onSocketReceiveFuncDynamic : Ptr := 2

def onSocketWriteFuncDynamic : Ptr := 3

def onSignalFuncDynamic : Ptr := 4

/-- The pairs on the heap, and the event loop. -/
structure Interface where
  pairs : Ptr → Option EloopIntFuncPair
  eloop : Eloop

def Interface.init : Interface := ⟨fun _ => none, .init⟩

/-- `if(!ctx)ctx=new EloopIntFuncPair;` where `new` returns `fresh`. No object is at
`NULL` or at `ELOOP_ALL_CTX`, and a pair that is reused has not been deleted. -/
def obtainPair (ctx fresh : Ptr) (s : Interface) : Option Ptr :=
  if ctx = 0 then
    if fresh ≠ eloopAllCtx ∧ s.pairs fresh = none then some fresh else none
  else if (s.pairs ctx).isSome then some ctx else none

/-- What the four registrations have in common: the pair returned, and the state.
`allocated` is what the allocation in the event loop comes to, `register` the entry made. -/
def registerPair (this pOn ctx fresh : Ptr) (allocated : Bool) (register : Ptr → Eloop → Eloop)
    (s : Interface) : Option (Ptr × Interface) :=
  (obtainPair ctx fresh s).map (fun ctx =>
    if ctx = 0 then (0, s)
    else if allocated then
      (ctx, ⟨Function.update s.pairs ctx (some ⟨this, pOn, 0⟩), register ctx s.eloop⟩)
    else (0, { s with pairs := Function.update s.pairs ctx none }))

def timeoutRegisterCb (pThis : CallbackObject) (pOnTimeout : Ptr) (secs usecs : UInt32)
    (timeoutCtx ctx fresh : Ptr) (allocated : Bool) (now : OsTime) :
    Interface → Option (Ptr × Interface) :=
  registerPair pThis.this pOnTimeout ctx fresh allocated (fun ctx eloop =>
    performCall eloop (.registerTimeout now secs usecs onTimeoutCallbackFuncDynamic ctx
      (if timeoutCtx = 0 then pThis.timeoutCtx else timeoutCtx)))

/-- `ReadRegister` and `WriteRegister` -/
def sockRegister (type : EventType) (func : Ptr) (pThis : CallbackObject) (pOn : Ptr) (sock : Int)
    (sockCtx ctx fresh : Ptr) (allocated : Bool) : Interface → Option (Ptr × Interface) :=
  registerPair pThis.this pOn ctx fresh allocated (fun ctx eloop =>
    performCall eloop (.registerSock true (if sock = -1 then pThis.socketFd else sock) type func
      ctx (if sockCtx = 0 then pThis.socketCtx else sockCtx)))

def readRegister : CallbackObject → Ptr → Int → Ptr → Ptr → Ptr → Bool → Interface →
    Option (Ptr × Interface) :=
  sockRegister .read onSocketReceiveFuncDynamic

def writeRegister : CallbackObject → Ptr → Int → Ptr → Ptr → Ptr → Bool → Interface →
    Option (Ptr × Interface) :=
  sockRegister .write onSocketWriteFuncDynamic

def signalRegister (pThis : CallbackObject) (pOnSignal : Ptr) (sig : Int) (ctx fresh : Ptr)
    (allocated : Bool) : Interface → Option (Ptr × Interface) :=
  registerPair pThis.this pOnSignal ctx fresh allocated (fun ctx eloop =>
    { eloop with
      signals := eloop.signals ++
        [⟨if sig = -1 then pThis.signalNo else sig, ctx, onSignalFuncDynamic, 0⟩] })

/-- `if(ctx&&bCtxFree)delete ctx;` -/
def deletePair (ctx : Ptr) (bCtxFree : Bool) (s : Interface) : Option Interface :=
  if ctx = 0 ∨ bCtxFree = false then some s
  else (s.pairs ctx).map (fun _ => { s with pairs := Function.update s.pairs ctx none })

/-- The entry is cancelled unless the pair has handled an event. -/
def timeoutUnregisterCb (pThis : CallbackObject) (ctx timeoutCtx : Ptr) (bCtxFree : Bool)
    (s : Interface) : Option (Int × Interface) :=
  (s.pairs ctx).bind (fun pair =>
    let timeoutCtx := if timeoutCtx = 0 then pThis.timeoutCtx else timeoutCtx
    if pair.uiHandled = 0 then
      let removed := s.eloop.timeout.filter
        (matchesTimeout onTimeoutCallbackFuncDynamic ctx timeoutCtx)
      (deletePair ctx bCtxFree { s with
        eloop := performCall s.eloop
          (.cancelTimeout onTimeoutCallbackFuncDynamic ctx timeoutCtx) }).map
        (fun s => (removed.length, s))
    else (deletePair ctx bCtxFree s).map (fun s => (1, s)))

/-- `ReadUnregister` and `WriteUnregister` -/
def sockUnregister (type : EventType) (pThis : CallbackObject) (ctx : Ptr) (sock : Int)
    (bCtxFree : Bool) (s : Interface) : Option Interface :=
  deletePair ctx bCtxFree { s with
    eloop := performCall s.eloop
      (.unregisterSock (if sock = -1 then pThis.socketFd else sock) type) }

def readUnregister : CallbackObject → Ptr → Int → Bool → Interface → Option Interface :=
  sockUnregister .read

def writeUnregister : CallbackObject → Ptr → Int → Bool → Interface → Option Interface :=
  sockUnregister .write

def signalUnregister (_pThis : CallbackObject) (ctx : Ptr) (_sig : Int) (bCtxFree : Bool) :
    Interface → Option Interface :=
  deletePair ctx bCtxFree

/-- `ctx->uiHandled++`, up to where the method of the object is called. -/
def handled (ctx : Ptr) (s : Interface) : Option Interface :=
  (s.pairs ctx).map (fun pair =>
    { s with
      pairs := Function.update s.pairs ctx
        (some { pair with uiHandled := pair.uiHandled + 1 }) })

/-- What a method that is called back does are further calls. -/
inductive InterfaceCall where
  | timeoutRegisterCb (pThis : CallbackObject) (pOnTimeout : Ptr) (secs usecs : UInt32)
      (timeoutCtx ctx fresh : Ptr) (allocated : Bool) (now : OsTime)
  | readRegister (pThis : CallbackObject) (pOnSockReceive : Ptr) (sock : Int)
      (sockCtx ctx fresh : Ptr) (allocated : Bool)
  | writeRegister (pThis : CallbackObject) (pOnSockWrite : Ptr) (sock : Int)
      (sockCtx ctx fresh : Ptr) (allocated : Bool)
  | signalRegister (pThis : CallbackObject) (pOnSignal : Ptr) (sig : Int) (ctx fresh : Ptr)
      (allocated : Bool)
  | timeoutUnregisterCb (pThis : CallbackObject) (ctx timeoutCtx : Ptr) (bCtxFree : Bool)
  | readUnregister (pThis : CallbackObject) (ctx : Ptr) (sock : Int) (bCtxFree : Bool)
  | writeUnregister (pThis : CallbackObject) (ctx : Ptr) (sock : Int) (bCtxFree : Bool)
  | signalUnregister (pThis : CallbackObject) (ctx : Ptr) (sig : Int) (bCtxFree : Bool)
  /-- The head of the timer list is due. -/
  | timeoutFires (now : OsTime)
  | sockReady (type : EventType) (i : Nat)
  /-- The handler of a signaled entry is called; `userData` is that of the event loop. -/
  | signalProcessed (i : Nat) (userData : Ptr)
deriving DecidableEq, Repr

def interfaceStep (s : Interface) : InterfaceCall → Option Interface
  | .timeoutRegisterCb pThis pOnTimeout secs usecs timeoutCtx ctx fresh allocated now =>
      (timeoutRegisterCb pThis pOnTimeout secs usecs timeoutCtx ctx fresh allocated now s).map
        Prod.snd
  | .readRegister pThis pOnSockReceive sock sockCtx ctx fresh allocated =>
      (readRegister pThis pOnSockReceive sock sockCtx ctx fresh allocated s).map Prod.snd
  | .writeRegister pThis pOnSockWrite sock sockCtx ctx fresh allocated =>
      (writeRegister pThis pOnSockWrite sock sockCtx ctx fresh allocated s).map Prod.snd
  | .signalRegister pThis pOnSignal sig ctx fresh allocated =>
      (signalRegister pThis pOnSignal sig ctx fresh allocated s).map Prod.snd
  | .timeoutUnregisterCb pThis ctx timeoutCtx bCtxFree =>
      (timeoutUnregisterCb pThis ctx timeoutCtx bCtxFree s).map Prod.snd
  | .readUnregister pThis ctx sock bCtxFree => readUnregister pThis ctx sock bCtxFree s
  | .writeUnregister pThis ctx sock bCtxFree => writeUnregister pThis ctx sock bCtxFree s
  | .signalUnregister pThis ctx sig bCtxFree => signalUnregister pThis ctx sig bCtxFree s
  | .timeoutFires now =>
      match s.eloop.timeout with
      | [] => none
      | tmp :: next =>
          if osTimeBefore now tmp.time then none
          else handled tmp.eloopData { s with eloop := { s.eloop with timeout := next } }
  | .sockReady type i => ((s.eloop.sockTable type).table[i]?).bind (fun entry =>
      handled entry.eloopData s)
  | .signalProcessed i userData => (s.eloop.signals[i]?).bind (fun signal =>
      if userData = 0 then some s else handled signal.userData s)

def HeldByTimer (eloop : Eloop) (ctx : Ptr) : Prop := ∃ t ∈ eloop.timeout, t.eloopData = ctx

def HeldBySock (eloop : Eloop) (ctx : Ptr) : Prop :=
  ∃ type, ∃ entry ∈ (eloop.sockTable type).table, entry.eloopData = ctx

def HeldBySignal (eloop : Eloop) (ctx : Ptr) : Prop :=
  ∃ signal ∈ eloop.signals, signal.userData = ctx

/-- An entry of the event loop has the pair as its context. -/
def Held (eloop : Eloop) (ctx : Ptr) : Prop :=
  HeldByTimer eloop ctx ∨ HeldBySock eloop ctx ∨ HeldBySignal eloop ctx

/-- No entry has a pair as its context that was deleted. -/
def NoneDangling (s : Interface) : Prop := ∀ ctx, Held s.eloop ctx → (s.pairs ctx).isSome

/-- A registration fails only with a new pair or with one that no entry holds. -/
def FailsUnheld (s : Interface) (ctx : Ptr) (allocated : Bool) : Prop :=
  allocated = false → ctx ≠ 0 → ¬ Held s.eloop ctx

/-- A pair is deleted with a descriptor only if no entry holds it but the first one of the
table with that descriptor. -/
def HeldByFirst (s : Interface) (type : EventType) (ctx : Ptr) (sock : Int) : Prop :=
  ¬ HeldByTimer s.eloop ctx ∧ ¬ HeldBySignal s.eloop ctx ∧
    (∀ other, other ≠ type →
      ∀ entry ∈ (s.eloop.sockTable other).table, entry.eloopData ≠ ctx) ∧
    ∀ entry ∈ (s.eloop.sockTable type).table.eraseP (·.sock == sock), entry.eloopData ≠ ctx

/-- A pair is deleted as that of a timer only if no entry holds it but timers with the
context given, and these only if it has handled no event. -/
def HeldByTimersOf (s : Interface) (ctx timeoutCtx : Ptr) : Prop :=
  ¬ HeldBySock s.eloop ctx ∧ ¬ HeldBySignal s.eloop ctx ∧
    ∀ t ∈ s.eloop.timeout, t.eloopData = ctx →
      (s.pairs ctx).any (·.uiHandled = 0) ∧ (t.userData = timeoutCtx ∨ timeoutCtx = eloopAllCtx)

/-- Where a call deletes a pair, no entry holds the pair but those that the call removes. -/
def DeletesUnheld (s : Interface) : InterfaceCall → Prop
  | .timeoutRegisterCb _ _ _ _ _ ctx _ allocated _ | .readRegister _ _ _ _ ctx _ allocated
  | .writeRegister _ _ _ _ ctx _ allocated | .signalRegister _ _ _ ctx _ allocated =>
      FailsUnheld s ctx allocated
  | .timeoutUnregisterCb pThis ctx timeoutCtx true =>
      HeldByTimersOf s ctx (if timeoutCtx = 0 then pThis.timeoutCtx else timeoutCtx)
  | .readUnregister pThis ctx sock true =>
      ctx ≠ 0 → HeldByFirst s .read ctx (if sock = -1 then pThis.socketFd else sock)
  | .writeUnregister pThis ctx sock true =>
      ctx ≠ 0 → HeldByFirst s .write ctx (if sock = -1 then pThis.socketFd else sock)
  | .signalUnregister _ ctx _ true => ctx ≠ 0 → ¬ Held s.eloop ctx
  | _ => True

/-- What holds of every run: timers have the one handler, and no pair is at `NULL` or at
`ELOOP_ALL_CTX`. -/
structure WellFormed (s : Interface) : Prop where
  handler : ∀ t ∈ s.eloop.timeout, t.handler = onTimeoutCallbackFuncDynamic
  null : s.pairs 0 = none
  all : s.pairs eloopAllCtx = none

variable {s s' : Interface} {eloop : Eloop} {ctx p : Ptr}

theorem NoneDangling.update (h : NoneDangling s) (pair : EloopIntFuncPair)
    (hheld : ∀ p, Held eloop p → p = ctx ∨ Held s.eloop p) :
    NoneDangling ⟨Function.update s.pairs ctx (some pair), eloop⟩ := by
  intro p hp
  by_cases hctx : p = ctx
  · subst hctx
    simp
  · change (Function.update s.pairs ctx (some pair) p).isSome
    rw [Function.update_of_ne hctx]
    exact h p ((hheld p hp).resolve_left hctx)

/-- Where a pair is deleted, what matters is whether an entry still holds it. -/
theorem NoneDangling.delete_iff (h : NoneDangling s)
    (hheld : ∀ p, Held eloop p → Held s.eloop p) :
    NoneDangling ⟨Function.update s.pairs ctx none, eloop⟩ ↔ ¬ Held eloop ctx := by
  constructor
  · intro hafter hctx
    have hlive := hafter ctx hctx
    simp at hlive
  · intro hctx p hp
    have hne : p ≠ ctx := fun heq => hctx (heq ▸ hp)
    change (Function.update s.pairs ctx none p).isSome
    rw [Function.update_of_ne hne]
    exact h p (hheld p hp)

theorem held_registerTimeout {now : OsTime} {secs usecs : UInt32} {handler userData : Ptr}
    (h : Held (performCall eloop (.registerTimeout now secs usecs handler ctx userData)) p) :
    p = ctx ∨ Held eloop p := by
  rcases h with ⟨t, ht, hdata⟩ | h
  · rcases mem_linkTimeout.mp ht with rfl | ht
    · exact .inl hdata.symm
    · exact .inr (.inl ⟨t, ht, hdata⟩)
  · exact .inr (.inr h)

theorem held_registerSock {sock : Int} {type : EventType} {handler userData : Ptr}
    (h : Held (performCall eloop (.registerSock true sock type handler ctx userData)) p) :
    p = ctx ∨ Held eloop p := by
  rcases h with h | ⟨other, entry, hentry, hdata⟩ | h
  · exact .inr (.inl h)
  · by_cases hother : other = type
    · subst hother
      change entry ∈ (((Loop.registerSock true sock other handler ctx userData
        eloop.socks).2).getSockTable other).table at hentry
      rw [Loop.getSockTable_registerSock_self] at hentry
      rcases List.mem_append.mp hentry with hentry | hentry
      · exact .inr (.inr (.inl ⟨other, entry, hentry, hdata⟩))
      · obtain rfl := List.mem_singleton.mp hentry
        exact .inl hdata.symm
    · change entry ∈ (((Loop.registerSock true sock type handler ctx userData
        eloop.socks).2).getSockTable other).table at hentry
      rw [Loop.getSockTable_registerSock_of_ne _ _ hother] at hentry
      exact .inr (.inr (.inl ⟨other, entry, hentry, hdata⟩))
  · exact .inr (.inr (.inr h))

theorem held_signal {signal : Loop.EloopSignal}
    (h : Held { eloop with signals := eloop.signals ++ [signal] } p) :
    p = signal.userData ∨ Held eloop p := by
  rcases h with h | h | ⟨other, hother, hdata⟩
  · exact .inr (.inl h)
  · exact .inr (.inr (.inl h))
  · rcases List.mem_append.mp hother with hother | hother
    · exact .inr (.inr (.inr ⟨other, hother, hdata⟩))
    · obtain rfl := List.mem_singleton.mp hother
      exact .inl hdata.symm

theorem held_unregisterSock {sock : Int} {type : EventType}
    (h : Held (performCall eloop (.unregisterSock sock type)) p) : Held eloop p := by
  rcases h with h | ⟨other, entry, hentry, hdata⟩ | h
  · exact .inl h
  · exact .inr (.inl ⟨other, entry, Loop.mem_unregisterSock hentry, hdata⟩)
  · exact .inr (.inr h)

theorem held_cancelTimeout {handler eloopData userData : Ptr}
    (h : Held (performCall eloop (.cancelTimeout handler eloopData userData)) p) :
    Held eloop p := by
  rcases h with ⟨t, ht, hdata⟩ | h
  · exact .inl ⟨t, List.mem_of_mem_filter ht, hdata⟩
  · exact .inr h

/-- What holds a pair behind an unregistration. -/
theorem not_held_unregisterSock_iff {sock : Int} {type : EventType} :
    ¬ Held (performCall s.eloop (.unregisterSock sock type)) ctx ↔
      HeldByFirst s type ctx sock := by
  have htable (other : EventType) (hother : other ≠ type) :
      (performCall s.eloop (.unregisterSock sock type)).sockTable other =
        s.eloop.sockTable other :=
    Loop.getSockTable_unregisterSock_of_ne sock hother s.eloop.socks
  have herased : ((performCall s.eloop (.unregisterSock sock type)).sockTable type).table =
      (s.eloop.sockTable type).table.eraseP (·.sock == sock) :=
    (congrArg Loop.SockTable.table (Loop.getSockTable_unregisterSock_self sock type
      s.eloop.socks)).trans (Loop.removeSock_table sock _)
  constructor
  · intro hunheld
    refine ⟨fun h => hunheld (.inl h), fun h => hunheld (.inr (.inr h)), ?_, ?_⟩
    · intro other hother entry hentry hdata
      exact hunheld (.inr (.inl ⟨other, entry, by rwa [htable other hother], hdata⟩))
    · intro entry hentry hdata
      exact hunheld (.inr (.inl ⟨type, entry, by rwa [herased], hdata⟩))
  · rintro ⟨htimer, hsignal, hothers, hfirst⟩ (h | ⟨other, entry, hentry, hdata⟩ | h)
    · exact htimer h
    · by_cases hother : other = type
      · subst hother
        rw [herased] at hentry
        exact hfirst entry hentry hdata
      · rw [htable other hother] at hentry
        exact hothers other hother entry hentry hdata
    · exact hsignal h

/-- What holds a pair behind a cancellation. -/
theorem not_held_cancelTimeout_iff (hwf : WellFormed s) {pair : EloopIntFuncPair}
    (hpair : s.pairs ctx = some pair) (hzero : pair.uiHandled = 0) {timeoutCtx : Ptr} :
    ¬ Held (performCall s.eloop
        (.cancelTimeout onTimeoutCallbackFuncDynamic ctx timeoutCtx)) ctx ↔
      HeldByTimersOf s ctx timeoutCtx := by
  have hmatches {t : EloopTimeout} (ht : t ∈ s.eloop.timeout) (hdata : t.eloopData = ctx) :
      matchesTimeout onTimeoutCallbackFuncDynamic ctx timeoutCtx t = true ↔
        t.userData = timeoutCtx ∨ timeoutCtx = eloopAllCtx := by
    simp [matchesTimeout, hwf.handler t ht, hdata]
  constructor
  · intro hunheld
    refine ⟨fun h => hunheld (.inr (.inl h)), fun h => hunheld (.inr (.inr h)), ?_⟩
    intro t ht hdata
    refine ⟨by simp [hpair, hzero], (hmatches ht hdata).mp ?_⟩
    by_contra hkept
    exact hunheld (.inl ⟨t, List.mem_filter.mpr ⟨ht, by simp [hkept]⟩, hdata⟩)
  · rintro ⟨hsock, hsignal, htimers⟩ (⟨t, ht, hdata⟩ | h | h)
    · obtain ⟨ht, hkept⟩ := List.mem_filter.mp ht
      have hmatch := (hmatches ht hdata).mpr (htimers t ht hdata).2
      simp [hmatch] at hkept
    · exact hsock h
    · exact hsignal h

/-- A pair that has handled an event is deleted without a cancellation. -/
theorem not_held_iff_of_handled {pair : EloopIntFuncPair} (hpair : s.pairs ctx = some pair)
    (hhandled : pair.uiHandled ≠ 0) {timeoutCtx : Ptr} :
    ¬ Held s.eloop ctx ↔ HeldByTimersOf s ctx timeoutCtx := by
  constructor
  · intro hunheld
    exact ⟨fun h => hunheld (.inr (.inl h)), fun h => hunheld (.inr (.inr h)),
      fun t ht hdata => absurd (.inl ⟨t, ht, hdata⟩) hunheld⟩
  · rintro ⟨hsock, hsignal, htimers⟩ (⟨t, ht, hdata⟩ | h | h)
    · have hzero := (htimers t ht hdata).1
      simp [hpair, hhandled] at hzero
    · exact hsock h
    · exact hsignal h

theorem deletePair_cases {bCtxFree : Bool} (h : deletePair ctx bCtxFree s = some s') :
    ((ctx = 0 ∨ bCtxFree = false) ∧ s' = s) ∨
      (ctx ≠ 0 ∧ bCtxFree = true ∧ s' = { s with pairs := Function.update s.pairs ctx none }) := by
  rw [deletePair] at h
  split at h
  · rename_i hkept
    exact .inl ⟨hkept, (Option.some.inj h).symm⟩
  · rename_i hdeleted
    rw [not_or, Bool.not_eq_false] at hdeleted
    obtain ⟨pair, -, rfl⟩ := Option.map_eq_some_iff.mp h
    exact .inr ⟨hdeleted.1, hdeleted.2, rfl⟩

/-- Where a pair may be deleted, and entries may go before that. -/
theorem deletePair_noneDangling_iff (h : NoneDangling s) {bCtxFree : Bool}
    (hheld : ∀ p, Held eloop p → Held s.eloop p)
    (hstep : deletePair ctx bCtxFree { s with eloop } = some s') :
    NoneDangling s' ↔ (ctx ≠ 0 → bCtxFree = true → ¬ Held eloop ctx) := by
  rcases deletePair_cases hstep with ⟨hkept, rfl⟩ | ⟨hctx, hfree, rfl⟩
  · apply iff_of_true (fun p hp => h p (hheld p hp))
    intro hctx hfree
    rcases hkept with hnull | hkept
    · exact absurd hnull hctx
    · rw [hkept] at hfree
      exact absurd hfree Bool.false_ne_true
  · rw [h.delete_iff hheld]
    exact ⟨fun hunheld _ _ => hunheld, fun hunheld => hunheld hctx hfree⟩

theorem obtainPair_cases {fresh obtained : Ptr} (h : obtainPair ctx fresh s = some obtained) :
    (ctx = 0 ∧ s.pairs obtained = none ∧ obtained ≠ eloopAllCtx) ∨
      (ctx ≠ 0 ∧ obtained = ctx ∧ (s.pairs ctx).isSome) := by
  rw [obtainPair] at h
  split at h
  · rename_i hctx
    split at h
    · rename_i hfresh
      obtain rfl := Option.some.inj h
      exact .inl ⟨hctx, hfresh.2, hfresh.1⟩
    · simp at h
  · rename_i hctx
    split at h
    · rename_i hlive
      obtain rfl := Option.some.inj h
      exact .inr ⟨hctx, rfl, hlive⟩
    · simp at h

theorem registerPair_noneDangling_iff (h : NoneDangling s)
    {this pOn fresh : Ptr} {allocated : Bool} {register : Ptr → Eloop → Eloop}
    (hheld : ∀ ctx eloop p, Held (register ctx eloop) p → p = ctx ∨ Held eloop p)
    (hstep : (registerPair this pOn ctx fresh allocated register s).map Prod.snd = some s') :
    NoneDangling s' ↔ FailsUnheld s ctx allocated := by
  obtain ⟨result, hresult, rfl⟩ := Option.map_eq_some_iff.mp hstep
  obtain ⟨obtained, hobtained, rfl⟩ := Option.map_eq_some_iff.mp hresult
  have hcases := obtainPair_cases hobtained
  split
  · -- `new` has returned `NULL`
    rename_i hzero
    apply iff_of_true h
    rintro - hctx
    rcases hcases with ⟨hnull, -, -⟩ | ⟨-, hsame, hlive⟩
    · exact absurd hnull hctx
    · exact absurd (hsame.symm.trans hzero) hctx
  · cases allocated with
    | true =>
        exact iff_of_true (h.update _ (hheld obtained s.eloop)) (fun hfails => nomatch hfails)
    | false =>
        refine (h.delete_iff (fun _ hp => hp)).trans ?_
        rcases hcases with ⟨hnull, hfresh, -⟩ | ⟨hctx, rfl, -⟩
        · apply iff_of_true
          · intro hnew
            have hlive := h obtained hnew
            rw [hfresh] at hlive
            exact absurd hlive Bool.false_ne_true
          · exact fun _ hctx => absurd hnull hctx
        · exact ⟨fun hunheld _ _ => hunheld, fun hunheld => hunheld rfl hctx⟩

theorem handled_noneDangling (h : NoneDangling s) (hheld : ∀ p, Held eloop p → Held s.eloop p)
    (hstep : handled ctx { s with eloop } = some s') : NoneDangling s' := by
  obtain ⟨pair, hpair, rfl⟩ := Option.map_eq_some_iff.mp hstep
  exact h.update _ (fun p hp => .inr (hheld p hp))

theorem deletes_timersOf_iff {pThis : CallbackObject} {timeoutCtx : Ptr} {bCtxFree : Bool}
    (hctx : ctx ≠ 0) :
    (ctx ≠ 0 → bCtxFree = true →
        HeldByTimersOf s ctx (if timeoutCtx = 0 then pThis.timeoutCtx else timeoutCtx)) ↔
      DeletesUnheld s (.timeoutUnregisterCb pThis ctx timeoutCtx bCtxFree) := by
  cases bCtxFree with
  | false => exact iff_of_true (fun _ hfree => nomatch hfree) trivial
  | true => exact ⟨fun hdeletes => hdeletes hctx rfl, fun hdeletes _ _ => hdeletes⟩

/-- The entry stays in the list where the pair has handled an event. -/
theorem timeoutUnregisterCb_cases {pThis : CallbackObject} {timeoutCtx : Ptr} {bCtxFree : Bool}
    (h : interfaceStep s (.timeoutUnregisterCb pThis ctx timeoutCtx bCtxFree) = some s') :
    ∃ pair, s.pairs ctx = some pair ∧
      ((pair.uiHandled = 0 ∧
          deletePair ctx bCtxFree { s with
            eloop := performCall s.eloop (.cancelTimeout onTimeoutCallbackFuncDynamic ctx
              (if timeoutCtx = 0 then pThis.timeoutCtx else timeoutCtx)) } = some s') ∨
        (pair.uiHandled ≠ 0 ∧ deletePair ctx bCtxFree s = some s')) := by
  obtain ⟨result, hresult, rfl⟩ := Option.map_eq_some_iff.mp h
  obtain ⟨pair, hpair, hunregister⟩ := Option.bind_eq_some_iff.mp hresult
  refine ⟨pair, hpair, ?_⟩
  by_cases hzero : pair.uiHandled = 0
  · simp only [if_pos hzero] at hunregister
    obtain ⟨after, hdelete, rfl⟩ := Option.map_eq_some_iff.mp hunregister
    exact .inl ⟨hzero, hdelete⟩
  · simp only [if_neg hzero] at hunregister
    obtain ⟨after, hdelete, rfl⟩ := Option.map_eq_some_iff.mp hunregister
    exact .inr ⟨hzero, hdelete⟩

theorem timeoutFires_cases {now : OsTime} (h : interfaceStep s (.timeoutFires now) = some s') :
    ∃ tmp next, s.eloop.timeout = tmp :: next ∧
      handled tmp.eloopData { s with eloop := { s.eloop with timeout := next } } = some s' := by
  simp only [interfaceStep] at h
  split at h
  · cases h
  · rename_i tmp next htimeout
    exact ⟨tmp, next, htimeout, (Option.ite_none_left_eq_some.mp h).2⟩

/-- A call leaves no dangling entry exactly if it deletes no pair that is held. -/
theorem interfaceStep_noneDangling_iff (h : NoneDangling s) (hwf : WellFormed s)
    {call : InterfaceCall} (hstep : interfaceStep s call = some s') :
    NoneDangling s' ↔ DeletesUnheld s call := by
  cases call with
  | timeoutRegisterCb pThis pOn secs usecs timeoutCtx ctx fresh allocated now =>
      exact registerPair_noneDangling_iff h (fun _ _ _ => held_registerTimeout) hstep
  | readRegister pThis pOn sock sockCtx ctx fresh allocated =>
      exact registerPair_noneDangling_iff h (fun _ _ _ => held_registerSock) hstep
  | writeRegister pThis pOn sock sockCtx ctx fresh allocated =>
      exact registerPair_noneDangling_iff h (fun _ _ _ => held_registerSock) hstep
  | signalRegister pThis pOn sig ctx fresh allocated =>
      exact registerPair_noneDangling_iff h (fun _ _ _ => held_signal) hstep
  | timeoutUnregisterCb pThis ctx timeoutCtx bCtxFree =>
      obtain ⟨pair, hpair, hcases⟩ := timeoutUnregisterCb_cases hstep
      have hctx : ctx ≠ 0 := by
        rintro rfl
        rw [hwf.null] at hpair
        simp at hpair
      rcases hcases with ⟨hzero, hdelete⟩ | ⟨hzero, hdelete⟩
      · have hiff := deletePair_noneDangling_iff h (fun _ => held_cancelTimeout) hdelete
        rw [not_held_cancelTimeout_iff hwf hpair hzero] at hiff
        exact hiff.trans (deletes_timersOf_iff hctx)
      · have hiff := deletePair_noneDangling_iff h (fun _ hp => hp) hdelete
        rw [not_held_iff_of_handled hpair hzero] at hiff
        exact hiff.trans (deletes_timersOf_iff hctx)
  | readUnregister pThis ctx sock bCtxFree =>
      have hiff := deletePair_noneDangling_iff h (fun _ => held_unregisterSock) hstep
      rw [hiff, not_held_unregisterSock_iff]
      cases bCtxFree with
      | false => exact iff_of_true (fun _ hfree => nomatch hfree) trivial
      | true => exact forall_congr' (fun _ => forall_prop_of_true rfl)
  | writeUnregister pThis ctx sock bCtxFree =>
      have hiff := deletePair_noneDangling_iff h (fun _ => held_unregisterSock) hstep
      rw [hiff, not_held_unregisterSock_iff]
      cases bCtxFree with
      | false => exact iff_of_true (fun _ hfree => nomatch hfree) trivial
      | true => exact forall_congr' (fun _ => forall_prop_of_true rfl)
  | signalUnregister pThis ctx sig bCtxFree =>
      rw [deletePair_noneDangling_iff h (fun _ hp => hp) hstep]
      cases bCtxFree with
      | false => exact iff_of_true (fun _ hfree => nomatch hfree) trivial
      | true => exact forall_congr' (fun _ => forall_prop_of_true rfl)
  | timeoutFires now =>
      refine iff_of_true ?_ trivial
      obtain ⟨tmp, next, htimeout, hhandled⟩ := timeoutFires_cases hstep
      refine handled_noneDangling h ?_ hhandled
      rintro p (⟨t, ht, hdata⟩ | hp)
      · exact .inl ⟨t, by rw [htimeout]; exact List.mem_cons_of_mem _ ht, hdata⟩
      · exact .inr hp
  | sockReady type i =>
      refine iff_of_true ?_ trivial
      obtain ⟨entry, -, hhandled⟩ := Option.bind_eq_some_iff.mp hstep
      exact handled_noneDangling h (fun _ hp => hp) hhandled
  | signalProcessed i userData =>
      refine iff_of_true ?_ trivial
      obtain ⟨signal, -, hhandled⟩ := Option.bind_eq_some_iff.mp hstep
      split at hhandled
      · exact Option.some.inj hhandled ▸ h
      · exact handled_noneDangling h (fun _ hp => hp) hhandled

theorem WellFormed.update (h : WellFormed s) {pair : Option EloopIntFuncPair}
    (hnull : ctx = 0 → pair = none) (hall : ctx = eloopAllCtx → pair = none)
    (htimeout : ∀ t ∈ eloop.timeout, t.handler = onTimeoutCallbackFuncDynamic) :
    WellFormed ⟨Function.update s.pairs ctx pair, eloop⟩ := by
  have hkept {p : Ptr} (hp : s.pairs p = none) (hpair : ctx = p → pair = none) :
      Function.update s.pairs ctx pair p = none := by
    by_cases hctx : p = ctx
    · subst hctx
      rw [Function.update_self]
      exact hpair rfl
    · rw [Function.update_of_ne hctx]
      exact hp
  exact ⟨htimeout, hkept h.null hnull, hkept h.all hall⟩

theorem deletePair_wellFormed (h : WellFormed s) {bCtxFree : Bool}
    (hstep : deletePair ctx bCtxFree s = some s') : WellFormed s' := by
  rcases deletePair_cases hstep with ⟨-, rfl⟩ | ⟨-, -, rfl⟩
  · exact h
  · exact h.update (fun _ => rfl) (fun _ => rfl) h.handler

theorem handled_wellFormed (h : WellFormed s) (hstep : handled ctx s = some s') :
    WellFormed s' := by
  obtain ⟨pair, hpair, rfl⟩ := Option.map_eq_some_iff.mp hstep
  apply h.update ?_ ?_ h.handler
  · rintro rfl
    exact absurd (h.null.symm.trans hpair) (by simp)
  · rintro rfl
    exact absurd (h.all.symm.trans hpair) (by simp)

theorem registerPair_wellFormed (h : WellFormed s) {this pOn fresh : Ptr} {allocated : Bool}
    {register : Ptr → Eloop → Eloop}
    (hhandler : ∀ ctx eloop, ∀ t ∈ (register ctx eloop).timeout,
      t.handler = onTimeoutCallbackFuncDynamic ∨ t ∈ eloop.timeout)
    (hstep : (registerPair this pOn ctx fresh allocated register s).map Prod.snd = some s') :
    WellFormed s' := by
  obtain ⟨result, hresult, rfl⟩ := Option.map_eq_some_iff.mp hstep
  obtain ⟨obtained, hobtained, rfl⟩ := Option.map_eq_some_iff.mp hresult
  split
  · exact h
  · rename_i hnonzero
    have hall : obtained ≠ eloopAllCtx := by
      rcases obtainPair_cases hobtained with ⟨-, -, hall⟩ | ⟨-, rfl, hlive⟩
      · exact hall
      · rintro rfl
        rw [h.all] at hlive
        exact absurd hlive Bool.false_ne_true
    split
    · apply h.update (fun hzero => absurd hzero hnonzero) (fun heq => absurd heq hall)
      intro t ht
      exact (hhandler obtained s.eloop t ht).elim id (h.handler t)
    · exact h.update (fun _ => rfl) (fun _ => rfl) h.handler

theorem interfaceStep_wellFormed (h : WellFormed s) {call : InterfaceCall}
    (hstep : interfaceStep s call = some s') : WellFormed s' := by
  have hless {eloop : Eloop} (htimeout : ∀ t ∈ eloop.timeout, t ∈ s.eloop.timeout) :
      WellFormed { s with eloop } :=
    ⟨fun t ht => h.handler t (htimeout t ht), h.null, h.all⟩
  cases call with
  | timeoutRegisterCb pThis pOn secs usecs timeoutCtx ctx fresh allocated now =>
      refine registerPair_wellFormed h ?_ hstep
      intro ctx eloop t ht
      rcases mem_linkTimeout.mp ht with rfl | ht
      · exact .inl rfl
      · exact .inr ht
  | readRegister pThis pOn sock sockCtx ctx fresh allocated =>
      rw [interfaceStep, readRegister, sockRegister] at hstep
      refine registerPair_wellFormed h ?_ hstep
      exact fun _ _ t ht => .inr ht
  | writeRegister pThis pOn sock sockCtx ctx fresh allocated =>
      rw [interfaceStep, writeRegister, sockRegister] at hstep
      refine registerPair_wellFormed h ?_ hstep
      exact fun _ _ t ht => .inr ht
  | signalRegister pThis pOn sig ctx fresh allocated =>
      refine registerPair_wellFormed h ?_ hstep
      exact fun _ _ t ht => .inr ht
  | timeoutUnregisterCb pThis ctx timeoutCtx bCtxFree =>
      obtain ⟨pair, -, ⟨-, hdelete⟩ | ⟨-, hdelete⟩⟩ := timeoutUnregisterCb_cases hstep
      · exact deletePair_wellFormed (hless fun t ht => List.mem_of_mem_filter ht) hdelete
      · exact deletePair_wellFormed h hdelete
  | readUnregister pThis ctx sock bCtxFree =>
      refine deletePair_wellFormed (hless ?_) hstep
      exact fun t ht => ht
  | writeUnregister pThis ctx sock bCtxFree =>
      refine deletePair_wellFormed (hless ?_) hstep
      exact fun t ht => ht
  | signalUnregister pThis ctx sig bCtxFree =>
      exact deletePair_wellFormed h hstep
  | timeoutFires now =>
      obtain ⟨tmp, next, htimeout, hhandled⟩ := timeoutFires_cases hstep
      refine handled_wellFormed (hless ?_) hhandled
      intro t ht
      rw [htimeout]
      exact List.mem_cons_of_mem _ ht
  | sockReady type i =>
      obtain ⟨entry, -, hhandled⟩ := Option.bind_eq_some_iff.mp hstep
      exact handled_wellFormed h hhandled
  | signalProcessed i userData =>
      obtain ⟨signal, -, hhandled⟩ := Option.bind_eq_some_iff.mp hstep
      split at hhandled
      · exact Option.some.inj hhandled ▸ h
      · exact handled_wellFormed h hhandled

/-- No entry ever holds a deleted pair exactly in the runs that delete no pair that is held. -/
theorem none_dangling_iff {calls : List InterfaceCall} {s : Interface}
    (hrun : Runs.run interfaceStep .init calls = some s) :
    (∀ before after mid, calls = before ++ after →
        Runs.run interfaceStep .init before = some mid → NoneDangling mid) ↔
      Runs.Guarded interfaceStep DeletesUnheld .init calls := by
  have hinit : ∀ ctx, ¬ Held Interface.init.eloop ctx := by
    rintro ctx (⟨t, ht, -⟩ | ⟨type, entry, hentry, -⟩ | ⟨signal, hsignal, -⟩)
    · exact absurd ht List.not_mem_nil
    · cases type <;> exact absurd hentry List.not_mem_nil
    · exact absurd hsignal List.not_mem_nil
  exact Runs.forall_prefix_iff_guarded
    (fun _ _ _ hwf hstep => interfaceStep_wellFormed hwf hstep)
    (fun _ _ _ hwf h hstep => interfaceStep_noneDangling_iff h hwf hstep)
    ⟨fun t ht => absurd ht List.not_mem_nil, rfl, rfl⟩
    (fun ctx hctx => absurd hctx (hinit ctx)) hrun

def anObject : CallbackObject := ⟨0x1000, 0x1000, 3, 0, 2⟩

/-- A timer is registered, unregistered before it fires, and the memory of its pair is used
again for a socket. -/
def timerThenSocket : List InterfaceCall :=
  [.timeoutRegisterCb anObject 7 1 0 0 0 0x2000 true ⟨0, 0⟩,
   .timeoutUnregisterCb anObject 0x2000 0 true,
   .readRegister anObject 8 (-1) 0 0 0x2000 true, .sockReady .read 0,
   .readUnregister anObject 0x2000 (-1) true]

theorem timerThenSocket_none_dangling :
    ∃ s, Runs.run interfaceStep .init timerThenSocket = some s ∧ NoneDangling s := by
  have hguard : Runs.Guarded interfaceStep DeletesUnheld .init timerThenSocket := by
    refine ⟨(fun hfails => nomatch hfails), fun registered hregistered => ?_⟩
    obtain rfl := Option.some.inj hregistered
    refine ⟨⟨?_, ?_, ?_⟩, fun unregistered hunregistered => ?_⟩
    · rintro ⟨type, entry, hentry, -⟩
      cases type <;> exact absurd hentry List.not_mem_nil
    · rintro ⟨signal, hsignal, -⟩
      exact absurd hsignal List.not_mem_nil
    · intro t ht _
      obtain rfl := List.mem_singleton.mp ht
      exact ⟨rfl, .inl rfl⟩
    obtain rfl := Option.some.inj hunregistered
    refine ⟨(fun hfails => nomatch hfails), fun read hread => ?_⟩
    obtain rfl := Option.some.inj hread
    refine ⟨trivial, fun ready hready => ?_⟩
    obtain rfl := Option.some.inj hready
    refine ⟨fun _ => ⟨?_, ?_, ?_, ?_⟩, fun _ _ => trivial⟩
    · rintro ⟨t, ht, -⟩
      exact absurd ht List.not_mem_nil
    · rintro ⟨signal, hsignal, -⟩
      exact absurd hsignal List.not_mem_nil
    · intro other hother entry hentry
      cases other with
      | read => exact absurd rfl hother
      | write => exact absurd hentry List.not_mem_nil
      | exception => exact absurd hentry List.not_mem_nil
    · intro entry hentry
      exact absurd hentry List.not_mem_nil
  have hrun : ∃ s, Runs.run interfaceStep .init timerThenSocket = some s := ⟨_, rfl⟩
  obtain ⟨s, hs⟩ := hrun
  have hnone := (none_dangling_iff hs).mpr hguard
  exact ⟨s, hs, hnone timerThenSocket [] s (List.append_nil _).symm hs⟩

/-- Signals are never unregistered from the event loop, but their pairs are deleted. -/
theorem signal_keeps_deleted_pair : ∃ s,
    Runs.run interfaceStep .init
        [.signalRegister anObject 7 (-1) 0 0x2000 true,
         .signalUnregister anObject 0x2000 (-1) true] = some s ∧ ¬ NoneDangling s := by
  refine ⟨_, rfl, ?_⟩
  intro h
  have hlive := h 0x2000 (.inr (.inr ⟨_, List.mem_singleton_self _, rfl⟩))
  exact absurd hlive (by decide)

end EventLoop.Callback
