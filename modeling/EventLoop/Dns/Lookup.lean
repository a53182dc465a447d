import EventLoop.Lib.Runs
import Mathlib.Algebra.GroupWithZero.Nat

/-!
The lookups of `gethostbyname_ext_async` and the globals of `dns.c` they share.
A lookup runs until `__dns_lookup_async` suspends it behind a query or a routing
error, so at most one is running; the others wait in the order they were started.
-/

namespace EventLoop.Dns

/-- `MAX_SERVERS` -/
abbrev maxServers : Nat := 3

theorem zero_lt_maxServers : 0 < maxServers := by decide

instance instNeZeroMaxServers : NeZero maxServers := ⟨Nat.ne_of_gt zero_lt_maxServers⟩

/-- `MAX_SEARCH` -/
def maxSearch : Nat := 4

/-- The words of each line of `resolv.conf` that is not blank or a comment. -/
abbrev ResolvConf := List (List String)

structure Globals where
  firstInitNameserver : Bool
  nameservers : Nat
  nameserver : Vector (Option String) maxServers
  searchdomain : List String
  ns : Nat
  id : Nat
deriving DecidableEq, Repr

def Globals.init : Globals :=
  ⟨true, 0, Vector.replicate maxServers none, [], 0, 1⟩

/-- `__nameserver[__nameservers++] = strdup(argv[i])` while there is room. -/
def addNameserver (g : Globals) (name : String) : Globals :=
  if g.nameservers < maxServers then
    { g with
      nameserver := g.nameserver.setIfInBounds g.nameservers (some name)
      nameservers := g.nameservers + 1 }
  else g

def openLine (g : Globals) : List String → Globals
  | [] => g
  | keyword :: args =>
      let g := if keyword = "nameserver" then args.foldl addNameserver g else g
      if keyword = "domain" ∨ keyword = "search" then
        { g with searchdomain := args.take maxSearch }
      else g

/-- `none` where no configuration file can be opened. -/
def openNameservers (conf : Option ResolvConf) (g : Globals) : Globals :=
  match conf with
  | some lines => lines.foldl openLine { g with nameservers := 0 }
  | none => { g with nameservers := 0 }

inductive Phase where
  /-- At the head of the `while` loop. -/
  | looping
  /-- In `sleep_task_on_defaultloop` behind `ENETUNREACH`. -/
  | sleeping
  /-- In `sleep_task_on_defaultloop` behind `send`. -/
  | waiting
  /-- `__dns_lookup_async` has returned. -/
  | returned (success : Bool)
deriving DecidableEq, Repr

/-- The locals of `gethostbyname_r_2_async` and `__dns_lookup_async`. The code's
`local_ns` and `local_id` stay -1 when `nscount` is 0. -/
structure Lookup where
  serverchoice : Int
  nRetries : Int
  nameserverBackup : Option String
  nscount : Nat
  retries : Nat
  variant : Int
  localNs : Nat
  localId : Nat
  phase : Phase
deriving DecidableEq, Repr

/-- The label `tryall`. -/
def Lookup.tryall (l : Lookup) : Lookup :=
  let localNs := (l.localNs + 1) % l.nscount
  { l with
    variant := -1, localNs := localNs, phase := .looping
    retries := if localNs = 0 then l.retries + 1 else l.retries }

/-- The label `again`, with the number of search domains at this moment. -/
def Lookup.again (l : Lookup) (sdomains : Nat) : Lookup :=
  if l.variant < (sdomains : Int) - 1 then
    { l with variant := l.variant + 1, phase := .looping }
  else l.tryall

/-- `while (retries < nRetries)` -/
def Lookup.loops (l : Lookup) : Bool := l.phase = .looping && decide ((l.retries : Int) < l.nRetries)

/-- The lookup is at the end of `__dns_lookup_async`. -/
def Lookup.over (l : Lookup) : Bool :=
  match l.phase with
  | .looping => decide (l.nRetries ≤ (l.retries : Int))
  | .returned _ => true
  | .sleeping | .waiting => false

/-- How far one turn of the loop gets. -/
inductive Attempt where
  | encodeFails
  | socketFails
  | connectFails
  | unreachable
  | sent
deriving DecidableEq, Repr

/-- What a waiting lookup is resumed with. -/
inductive Reply where
  | timedOut
  /-- Too short, unsolicited, negative or not decodable. -/
  | refused
  | answered
deriving DecidableEq, Repr

/-- What follows a resumption, up to the loop head or the return. -/
def Lookup.resumed (l : Lookup) (sdomains : Nat) (reply : Reply) : Option Lookup :=
  match l.phase with
  | .sleeping => some l.tryall
  | .waiting =>
      match reply with
      | .timedOut => some l.tryall
      | .refused => some (l.again sdomains)
      | .answered => some { l with phase := .returned true }
  | .looping | .returned _ => none

/-- `queries` records the `serverchoice` of the sender and the server of every
query sent. -/
structure Resolver where
  globals : Globals
  lookups : List Lookup
  running : Option Nat
  queries : List (Int × String)
deriving DecidableEq, Repr

def Resolver.init : Resolver := ⟨.init, [], none, []⟩

inductive Action where
  /-- `direct`: the name is missing or an address, or the buffer is short. -/
  | start (serverchoice nRetries : Int) (direct : Bool)
  | attempt (outcome : Attempt)
  | resume (i : Nat) (reply : Reply)
  | finish
deriving DecidableEq, Repr

/-- `if(first_init_nameserver)` of `gethostbyname_r_2_async`. -/
def firstInit (conf : Option ResolvConf) (g : Globals) : Globals :=
  if g.firstInitNameserver then { openNameservers conf g with firstInitNameserver := false }
  else g

/-- From the entry of `gethostbyname_r_2_async` to the head of the loop. -/
def startLookup (conf : Option ResolvConf) (s : Resolver) (serverchoice nRetries : Int)
    (direct : Bool) : Resolver :=
  let g := firstInit conf s.globals
  if direct then { s with globals := g }
  else
    let nscount := if serverchoice = 1 ∨ serverchoice = 2 then 1 else g.nameservers
    let nameserver :=
      if serverchoice = 2 then g.nameserver.set 0 (g.nameserver.get 1) zero_lt_maxServers
      else g.nameserver
    let lookup : Lookup :=
      { serverchoice, nRetries, nameserverBackup := g.nameserver.get 0, nscount, retries := 0,
        variant := -1, localNs := g.ns % nscount, localId := g.id,
        phase := if nscount = 0 then .returned false else .looping }
    { s with
      globals := { g with nameserver }
      lookups := s.lookups ++ [lookup]
      running := some s.lookups.length }

/-- One turn of the loop by lookup `i`. A missing server name faults in `inet_addr`. -/
def attemptQuery (s : Resolver) (i : Nat) (l : Lookup) (outcome : Attempt) : Option Resolver :=
  let l := { l with localId := (l.localId + 1) % 65536 }
  let dns := s.globals.nameserver.toList.getD l.localNs none
  let store (l : Lookup) := { s with lookups := s.lookups.set i l }
  match outcome with
  | .encodeFails => some (store { l with phase := .returned false })
  | .socketFails => some (store { l with retries := l.retries + 1 })
  | .connectFails => dns.map (fun _ => store { l with retries := l.retries + 1 })
  | .unreachable => dns.map (fun _ => { store { l with phase := .sleeping } with running := none })
  | .sent => dns.map (fun server =>
      { store { l with phase := .waiting } with
        running := none, queries := s.queries ++ [(l.serverchoice, server)] })

/-- The return of `__dns_lookup_async` and what `gethostbyname_r_2_async` does behind it. -/
def finishLookup (s : Resolver) (i : Nat) (l : Lookup) : Resolver :=
  let g := if l.nscount = 0 then s.globals else { s.globals with ns := l.localNs, id := l.localId }
  { s with
    globals := { g with nameserver := g.nameserver.set 0 l.nameserverBackup zero_lt_maxServers }
    lookups := s.lookups.eraseIdx i
    running := none }

def step (conf : Option ResolvConf) (s : Resolver) : Action → Option Resolver
  | .start serverchoice nRetries direct =>
      match s.running with
      | none => some (startLookup conf s serverchoice nRetries direct)
      | some _ => none
  | .attempt outcome =>
      match s.running with
      | none => none
      | some i => (s.lookups[i]?).bind (fun l =>
          if l.loops then attemptQuery s i l outcome else none)
  | .resume i reply =>
      match s.running with
      | none => (s.lookups[i]?).bind (fun l =>
          (l.resumed s.globals.searchdomain.length reply).map (fun l' =>
            { s with lookups := s.lookups.set i l', running := some i }))
      | some _ => none
  | .finish =>
      match s.running with
      | none => none
      | some i => (s.lookups[i]?).bind (fun l =>
          if l.over then some (finishLookup s i l) else none)

variable {conf : Option ResolvConf} {s s' : Resolver}

theorem step_start {serverchoice nRetries : Int} {direct : Bool}
    (h : step conf s (.start serverchoice nRetries direct) = some s') :
    s.running = none ∧ s' = startLookup conf s serverchoice nRetries direct := by
  rw [step] at h
  split at h
  · rename_i hrunning
    exact ⟨hrunning, (Option.some.inj h).symm⟩
  · cases h

theorem step_attempt {outcome : Attempt} (h : step conf s (.attempt outcome) = some s') :
    ∃ i l, s.running = some i ∧ s.lookups[i]? = some l ∧ l.loops = true ∧
      attemptQuery s i l outcome = some s' := by
  rw [step] at h
  split at h
  · cases h
  · rename_i i hrunning
    obtain ⟨l, hl, hattempt⟩ := Option.bind_eq_some_iff.mp h
    obtain ⟨hloops, hattempt⟩ := Option.ite_none_right_eq_some.mp hattempt
    exact ⟨i, l, hrunning, hl, hloops, hattempt⟩

theorem step_resume {i : Nat} {reply : Reply} (h : step conf s (.resume i reply) = some s') :
    ∃ l l', s.running = none ∧ s.lookups[i]? = some l ∧
      l.resumed s.globals.searchdomain.length reply = some l' ∧
      s' = { s with lookups := s.lookups.set i l', running := some i } := by
  rw [step] at h
  split at h
  · rename_i hrunning
    obtain ⟨l, hl, hresume⟩ := Option.bind_eq_some_iff.mp h
    obtain ⟨l', hl', hs'⟩ := Option.map_eq_some_iff.mp hresume
    exact ⟨l, l', hrunning, hl, hl', hs'.symm⟩
  · cases h

theorem step_finish (h : step conf s .finish = some s') :
    ∃ i l, s.running = some i ∧ s.lookups[i]? = some l ∧ l.over = true ∧
      s' = finishLookup s i l := by
  rw [step] at h
  split at h
  · cases h
  · rename_i i hrunning
    obtain ⟨l, hl, hfinish⟩ := Option.bind_eq_some_iff.mp h
    obtain ⟨hover, hs'⟩ := Option.ite_none_right_eq_some.mp hfinish
    exact ⟨i, l, hrunning, hl, hover, (Option.some.inj hs').symm⟩

end EventLoop.Dns
