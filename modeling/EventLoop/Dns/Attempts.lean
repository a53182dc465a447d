import EventLoop.Dns.Lookup
import Mathlib.Data.List.Count

/-!
The loops of `__dns_lookup` and `__dns_lookup_async`, one lookup at a time: how often they
turn, and which of the servers are sent a query. The loop goes from server to server, from
the one that `ns` names; `retries` counts how often it has come around to server 0.
-/

namespace EventLoop.Dns

/-- `MAX_RETRIES` -/
def maxRetries : Int := 1

/-- What one turn of the loop comes to. -/
inductive Outcome where
  | encodeFails
  | socketFails
  | connectFails
  /-- `connect` fails with `ENETUNREACH`. -/
  | unreachable
  | timedOut
  /-- A reply that is too short, unsolicited, negative or not decodable. -/
  | refused
  | answered
deriving DecidableEq, Repr

/-- The turn got as far as `send`. -/
def Outcome.sends : Outcome → Bool
  | .encodeFails | .socketFails | .connectFails | .unreachable => false
  | .timedOut | .refused | .answered => true

/-- One turn, up to the loop head or the return; `sdomains` is `__searchdomains` at `again`. -/
def Lookup.turn (l : Lookup) (sdomains : Nat) (outcome : Outcome) : Lookup :=
  let l := { l with localId := (l.localId + 1) % 65536 }
  match outcome with
  | .encodeFails => { l with phase := .returned false }
  | .socketFails | .connectFails => { l with retries := l.retries + 1 }
  | .unreachable | .timedOut => l.tryall
  | .refused => l.again sdomains
  | .answered => { l with phase := .returned true }

/-- A lookup, the servers of its attempts and those that were sent a query. -/
structure Looking where
  lookup : Lookup
  tried : List Nat
  queried : List Nat
deriving DecidableEq, Repr

def Looking.attempt (s : Looking) (sdomains : Nat) (outcome : Outcome) : Looking where
  lookup := s.lookup.turn sdomains outcome
  tried := s.tried ++ [s.lookup.localNs]
  queried := if outcome.sends then s.queried ++ [s.lookup.localNs] else s.queried

/-- The function has returned -1. -/
def Looking.failed (s : Looking) : Bool := s.lookup.phase ≠ .returned true

/-- What an attempt at this server comes to, after the attempts at those. -/
abbrev Net := Nat → List Nat → Outcome

/-- The `while` loop. `sdomains` may change from one attempt to the next. -/
def lookupLoop (net : Net) (sdomains : List Nat → Nat) : Nat → Looking → Option Looking
  | 0, _ => none
  | fuel + 1, s =>
      if s.lookup.loops then
        lookupLoop net sdomains fuel
          (s.attempt (sdomains s.tried) (net s.lookup.localNs s.tried))
      else some s

/-- At the head of the loop for the first time, with the globals `ns` and `id`. -/
def Lookup.begin (nscount ns id : Nat) (nRetries : Int) : Lookup where
  serverchoice := 0
  nRetries := nRetries
  nameserverBackup := none
  nscount := nscount
  retries := 0
  variant := -1
  localNs := ns % nscount
  localId := id
  phase := if nscount = 0 then .returned false else .looping

/-- `__dns_lookup_async` -/
def dnsLookupAsync (net : Net) (sdomains : List Nat → Nat) (nscount ns id : Nat)
    (nRetries : Int) (fuel : Nat) : Option Looking :=
  lookupLoop net sdomains fuel ⟨.begin nscount ns id nRetries, [], []⟩

/-- `__dns_lookup`: the same loop, with `MAX_RETRIES` in the place of `nRetries`. -/
def dnsLookup (net : Net) (sdomains : List Nat → Nat) (nscount ns id fuel : Nat) :
    Option Looking :=
  lookupLoop net sdomains fuel ⟨.begin nscount ns id maxRetries, [], []⟩

/-- What every turn keeps holds where the loop ends. -/
theorem lookupLoop_invariant {net : Net} {sdomains : List Nat → Nat} {Inv : Looking → Prop}
    (hturn : ∀ s, Inv s → s.lookup.loops = true →
      Inv (s.attempt (sdomains s.tried) (net s.lookup.localNs s.tried)))
    {fuel : Nat} {s final : Looking} (h : Inv s)
    (hrun : lookupLoop net sdomains fuel s = some final) :
    Inv final ∧ final.lookup.loops = false := by
  induction fuel generalizing s with
  | zero => cases hrun
  | succ fuel ih =>
      rw [lookupLoop] at hrun
      split at hrun
      · rename_i hloops
        exact ih (hturn s h hloops) hrun
      · rename_i hends
        obtain rfl := Option.some.inj hrun
        exact ⟨h, by simpa using hends⟩

/-- How far a turn with this outcome gets before it is suspended. -/
def Outcome.attempt : Outcome → Attempt
  | .encodeFails => .encodeFails
  | .socketFails => .socketFails
  | .connectFails => .connectFails
  | .unreachable => .unreachable
  | .timedOut | .refused | .answered => .sent

/-- What resumes it. -/
def Outcome.reply : Outcome → Reply
  | .refused => .refused
  | .answered => .answered
  | .encodeFails | .socketFails | .connectFails | .unreachable | .timedOut => .timedOut

/-- A turn is what the resolver does from one loop head to the next. -/
theorem attemptQuery_turn {s s' : Resolver} {i : Nat} {l : Lookup} {outcome : Outcome}
    (sdomains : Nat) (hi : i < s.lookups.length)
    (h : attemptQuery s i l outcome.attempt = some s') :
    ∃ l', s'.lookups[i]? = some l' ∧
      (l' = l.turn sdomains outcome ∨
        l'.resumed sdomains outcome.reply = some (l.turn sdomains outcome)) := by
  have hset (l' : Lookup) : (s.lookups.set i l')[i]? = some l' := List.getElem?_set_self hi
  cases outcome with
  | encodeFails | socketFails =>
      obtain rfl := Option.some.inj h
      exact ⟨_, hset _, .inl rfl⟩
  | connectFails =>
      obtain ⟨_, -, rfl⟩ := Option.map_eq_some_iff.mp h
      exact ⟨_, hset _, .inl rfl⟩
  | unreachable | timedOut | refused | answered =>
      obtain ⟨_, -, rfl⟩ := Option.map_eq_some_iff.mp h
      exact ⟨_, hset _, .inr rfl⟩

/-- The configuration behind a sequence of loads. -/
def reloaded (confs : List (Option ResolvConf)) : Globals :=
  confs.foldl (fun g conf => openNameservers conf g) .init

theorem addNameserver_searchdomain (g : Globals) (names : List String) :
    (names.foldl addNameserver g).searchdomain = g.searchdomain := by
  induction names generalizing g with
  | nil => rfl
  | cons name rest ih =>
      rw [List.foldl_cons, ih, addNameserver]
      split <;> rfl

theorem openLine_searchdomain {g : Globals} (h : g.searchdomain.length ≤ maxSearch)
    (line : List String) : (openLine g line).searchdomain.length ≤ maxSearch := by
  cases line with
  | nil => exact h
  | cons keyword args =>
      rw [openLine]
      split
      · exact List.length_take_le _ _
      · split
        · rwa [addNameserver_searchdomain]
        · exact h

theorem openNameservers_searchdomain {g : Globals} (h : g.searchdomain.length ≤ maxSearch)
    (conf : Option ResolvConf) : (openNameservers conf g).searchdomain.length ≤ maxSearch := by
  cases conf with
  | none => exact h
  | some lines =>
      rw [openNameservers]
      generalize hg : ({ g with nameservers := 0 } : Globals) = g'
      have h' : g'.searchdomain.length ≤ maxSearch := by rwa [← hg]
      clear hg
      induction lines generalizing g' with
      | nil => exact h'
      | cons line rest ih => exact ih _ (openLine_searchdomain h' line)

theorem reloaded_searchdomain (confs : List (Option ResolvConf)) :
    (reloaded confs).searchdomain.length ≤ maxSearch := by
  have hinit : Globals.init.searchdomain.length ≤ maxSearch := Nat.zero_le _
  rw [reloaded]
  generalize Globals.init = g at hinit
  induction confs generalizing g with
  | nil => exact hinit
  | cons conf rest ih => exact ih _ (openNameservers_searchdomain hinit conf)

theorem Lookup.loops_iff {l : Lookup} :
    l.loops = true ↔ l.phase = .looping ∧ (l.retries : Int) < l.nRetries := by
  simp [Lookup.loops]

/-- The servers that the loop has left behind, each pass counted in full. -/
def Lookup.servers (l : Lookup) : Nat := l.retries * l.nscount + l.localNs

/-- The attempts that can be behind the lookup. -/
def Lookup.rank (l : Lookup) : Nat := l.servers * (1 + maxSearch) + (l.variant + 1).toNat

/-- What holds at the loop head. -/
structure Lookup.AtHead (l : Lookup) : Prop where
  server : l.localNs < l.nscount
  variantLow : -1 ≤ l.variant
  variantHigh : l.variant < maxSearch

theorem Lookup.tryall_servers {l : Lookup} (h : l.localNs < l.nscount) :
    l.tryall.servers = l.servers + 1 := by
  rcases Nat.lt_or_eq_of_le (Nat.succ_le_of_lt h) with hlt | heq
  · have hnext : (l.localNs + 1) % l.nscount = l.localNs + 1 := Nat.mod_eq_of_lt hlt
    simp only [servers, tryall, hnext, if_neg (Nat.succ_ne_zero _), Nat.add_assoc]
  · have hwrap : (l.localNs + 1) % l.nscount = 0 := by
      rw [← heq]
      exact Nat.mod_self _
    simp only [servers, tryall, hwrap, if_true, Nat.succ_mul]
    omega

theorem Lookup.AtHead.tryall {l : Lookup} (h : l.AtHead) : l.tryall.AtHead where
  server := Nat.mod_lt _ (Nat.zero_lt_of_lt h.server)
  variantLow := Int.le_refl _
  variantHigh := by
    change (-1 : Int) < maxSearch
    decide

theorem Lookup.AtHead.tryall_rank {l : Lookup} (h : l.AtHead) : l.rank < l.tryall.rank := by
  have hhigh := h.variantHigh
  have hvariant : l.tryall.variant = -1 := rfl
  rw [rank, rank, Lookup.tryall_servers h.server, hvariant, Nat.succ_mul]
  omega

theorem Lookup.AtHead.again {l : Lookup} (h : l.AtHead) {sdomains : Nat}
    (hsdomains : sdomains ≤ maxSearch) : (l.again sdomains).AtHead := by
  have hlow := h.variantLow
  rw [Lookup.again]
  split
  · rename_i hnext
    refine ⟨h.server, ?_, ?_⟩
    · change -1 ≤ l.variant + 1
      omega
    · change l.variant + 1 < maxSearch
      omega
  · exact h.tryall

theorem Lookup.AtHead.again_rank {l : Lookup} (h : l.AtHead) (sdomains : Nat) :
    l.rank < (l.again sdomains).rank := by
  have hlow := h.variantLow
  rw [Lookup.again]
  split
  · change l.rank < l.servers * (1 + maxSearch) + (l.variant + 1 + 1).toNat
    rw [rank]
    omega
  · exact h.tryall_rank

/-- Every turn goes on in the order of passes, servers and search domains. -/
theorem Lookup.AtHead.turn {l : Lookup} (h : l.AtHead) {sdomains : Nat}
    (hsdomains : sdomains ≤ maxSearch) (outcome : Outcome) :
    (l.turn sdomains outcome).nRetries = l.nRetries ∧
      (l.turn sdomains outcome).nscount = l.nscount ∧
      ((l.turn sdomains outcome).phase = .looping →
        (l.turn sdomains outcome).AtHead ∧ l.rank < (l.turn sdomains outcome).rank) := by
  have hcounted : ({ l with localId := (l.localId + 1) % 65536 } : Lookup).AtHead := ⟨h.1, h.2, h.3⟩
  cases outcome with
  | encodeFails | answered => exact ⟨rfl, rfl, fun hphase => nomatch hphase⟩
  | socketFails | connectFails =>
      refine ⟨rfl, rfl, fun _ => ⟨⟨h.1, h.2, h.3⟩, ?_⟩⟩
      have hpos := Nat.zero_lt_of_lt h.server
      have hmore : l.servers + 1 ≤ (l.retries + 1) * l.nscount + l.localNs := by
        rw [servers, Nat.succ_mul]
        omega
      have hscaled := Nat.mul_le_mul_right (1 + maxSearch) hmore
      change l.rank < ((l.retries + 1) * l.nscount + l.localNs) * (1 + maxSearch) +
        (l.variant + 1).toNat
      rw [rank]
      rw [Nat.succ_mul] at hscaled
      omega
  | unreachable | timedOut => exact ⟨rfl, rfl, fun _ => ⟨hcounted.tryall, hcounted.tryall_rank⟩⟩
  | refused =>
      refine ⟨?_, ?_, fun _ => ⟨hcounted.again hsdomains, hcounted.again_rank sdomains⟩⟩
      · simp only [Lookup.turn, Lookup.again]
        split <;> rfl
      · simp only [Lookup.turn, Lookup.again]
        split <;> rfl

/-- The loop does not turn behind so many attempts. -/
theorem Lookup.AtHead.rank_lt {l : Lookup} (h : l.AtHead) (hloops : l.loops = true) :
    l.rank < l.nRetries.toNat * l.nscount * (1 + maxSearch) := by
  have hretries : l.retries + 1 ≤ l.nRetries.toNat := by
    have hless := (Lookup.loops_iff.mp hloops).2
    omega
  have hservers : l.servers + 1 ≤ l.nRetries.toNat * l.nscount := by
    have hpasses := Nat.mul_le_mul_right l.nscount hretries
    have hserver := h.server
    rw [Nat.succ_mul] at hpasses
    rw [servers]
    omega
  have hscaled := Nat.mul_le_mul_right (1 + maxSearch) hservers
  have hhigh := h.variantHigh
  rw [Nat.succ_mul] at hscaled
  rw [rank]
  omega

/-- The attempts made are no more than the rank, while the loop goes on. -/
structure Looking.Ranked (s : Looking) (nscount : Nat) (nRetries : Int) : Prop where
  count : s.lookup.nscount = nscount
  limit : s.lookup.nRetries = nRetries
  within : s.tried.length ≤ nRetries.toNat * nscount * (1 + maxSearch)
  ranked : s.lookup.phase = .looping → s.lookup.AtHead ∧ s.tried.length ≤ s.lookup.rank

theorem Looking.Ranked.attempt {s : Looking} {nscount sdomains : Nat} {nRetries : Int}
    (h : s.Ranked nscount nRetries) (hloops : s.lookup.loops = true)
    (hsdomains : sdomains ≤ maxSearch) (outcome : Outcome) :
    (s.attempt sdomains outcome).Ranked nscount nRetries := by
  obtain ⟨hhead, hrank⟩ := h.ranked (Lookup.loops_iff.mp hloops).1
  have hless := hhead.rank_lt hloops
  obtain ⟨hlimit, hcount, hnext⟩ := hhead.turn hsdomains outcome
  have hlength : (s.attempt sdomains outcome).tried.length = s.tried.length + 1 := by
    simp [Looking.attempt]
  refine ⟨hcount.trans h.count, hlimit.trans h.limit, ?_, ?_⟩
  · rw [h.count, h.limit] at hless
    omega
  · intro hphase
    obtain ⟨hhead', hrank'⟩ := hnext hphase
    refine ⟨hhead', ?_⟩
    change (s.attempt sdomains outcome).tried.length ≤ (s.lookup.turn sdomains outcome).rank
    omega

theorem lookupLoop_ranked {net : Net} {sdomains : List Nat → Nat} {nscount fuel : Nat}
    {nRetries : Int} (hsdomains : ∀ tried, sdomains tried ≤ maxSearch) {s : Looking}
    (h : s.Ranked nscount nRetries)
    (hfuel : nRetries.toNat * nscount * (1 + maxSearch) < fuel + s.tried.length) :
    ∃ final, lookupLoop net sdomains fuel s = some final ∧ final.Ranked nscount nRetries := by
  induction fuel generalizing s with
  | zero => exact absurd h.within (by omega)
  | succ fuel ih =>
      rw [lookupLoop]
      split
      · rename_i hloops
        apply ih (h.attempt hloops (hsdomains s.tried) _)
        have hlength (sdomains : Nat) (outcome : Outcome) :
            (s.attempt sdomains outcome).tried.length = s.tried.length + 1 := by
          simp [Looking.attempt]
        rw [hlength]
        omega
      · exact ⟨s, rfl, h⟩

theorem ranked_begin (nscount ns id : Nat) (nRetries : Int) :
    (⟨.begin nscount ns id nRetries, [], []⟩ : Looking).Ranked nscount nRetries := by
  have hvariant : (-1 : Int) < maxSearch := by decide
  refine ⟨rfl, rfl, Nat.zero_le _, fun hphase => ⟨⟨?_, Int.le_refl _, hvariant⟩, Nat.zero_le _⟩⟩
  have hsome : nscount ≠ 0 := by
    rintro rfl
    exact absurd hphase (by simp [Lookup.begin])
  exact Nat.mod_lt _ (Nat.pos_of_ne_zero hsome)

/-- Whatever the attempts come to, and whichever configurations are loaded between them,
`__dns_lookup_async` returns behind at most so many. -/
theorem lookup_bounded (net : Net) (confs : List Nat → List (Option ResolvConf))
    (nscount ns id : Nat) (nRetries : Int) :
    ∃ final, dnsLookupAsync net (fun tried => (reloaded (confs tried)).searchdomain.length) nscount ns
        id nRetries (nRetries.toNat * nscount * (1 + maxSearch) + 1) = some final ∧
      final.tried.length ≤ nRetries.toNat * nscount * (1 + maxSearch) := by
  obtain ⟨final, hfinal, hranked⟩ :=
    @lookupLoop_ranked net (fun tried => (reloaded (confs tried)).searchdomain.length) nscount
      (nRetries.toNat * nscount * (1 + maxSearch) + 1) nRetries
      (fun tried => reloaded_searchdomain (confs tried)) _ (ranked_begin nscount ns id nRetries)
      (Nat.lt_succ_self _)
  exact ⟨final, hfinal, hranked.within⟩

end EventLoop.Dns
