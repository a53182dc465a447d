import EventLoop.Dns.Attempts

/-!
Which servers a failing lookup has sent a query. Its attempts come in turns, each at one server:
the name alone, then with one search domain after the other. The turns begin at the server that
an earlier lookup has left in `ns` and go around; `retries` goes up whenever they come to server
0, so the servers before the start have one turn fewer than the others, and none at all where the
limit is 1. A question that cannot be encoded ends them all.
-/

namespace EventLoop.Dns

/-- What the attempts come to, one behind the other. -/
abbrev Outcomes := Nat → Outcome

def Outcomes.net (outcomes : Outcomes) : Net := fun _ tried => outcomes tried.length

/-- The number of search domains when an attempt is over. -/
def domainsAt (sdomains : Nat → Nat) (tried : List Nat) : Nat := sdomains tried.length

/-- The turn of an attempt, and how many of that turn are in front of it, unless an earlier one was
answered or could not be encoded. -/
def place (outcomes : Outcomes) (sdomains : Nat → Nat) : Nat → Option (Nat × Nat)
  | 0 => some (0, 0)
  | m + 1 =>
      (place outcomes sdomains m).bind (fun (t, j) =>
        match outcomes m with
        | .timedOut | .unreachable => some (t + 1, 0)
        | .refused => if j < sdomains m then some (t, j + 1) else some (t + 1, 0)
        | .answered | .encodeFails | .socketFails | .connectFails => none)

/-- The turns of `nRetries` passes, the first of which begins at another server. -/
def turns (nRetries : Int) (nscount start : Nat) : Nat := nRetries.toNat * nscount - start

/-- One of the first `m` attempts begins a turn of the server and gets as far as `send`. -/
def AskedBefore (outcomes : Outcomes) (sdomains : Nat → Nat) (nscount start m server : Nat) :
    Prop :=
  ∃ k < m, ∃ t, place outcomes sdomains k = some (t, 0) ∧ (start + t) % nscount = server ∧
    (outcomes k).sends = true

/-- One of the turns of the server begins, with an attempt that gets as far as `send`. -/
def Reached (outcomes : Outcomes) (sdomains : Nat → Nat) (nRetries : Int)
    (nscount start server : Nat) : Prop :=
  ∃ k t, place outcomes sdomains k = some (t, 0) ∧ t < turns nRetries nscount start ∧
    (start + t) % nscount = server ∧ (outcomes k).sends = true

/-- No `socket` and no `connect` fails, but for `ENETUNREACH`. -/
def Routine (outcomes : Outcomes) : Prop :=
  ∀ m, outcomes m ≠ .socketFails ∧ outcomes m ≠ .connectFails

variable {outcomes : Outcomes} {sdomains : Nat → Nat} {nscount start m k t j server : Nat}
  {nRetries : Int}

theorem place_succ (h : place outcomes sdomains m = some (t, j)) :
    place outcomes sdomains (m + 1) =
      match outcomes m with
      | .timedOut | .unreachable => some (t + 1, 0)
      | .refused => if j < sdomains m then some (t, j + 1) else some (t + 1, 0)
      | .answered | .encodeFails | .socketFails | .connectFails => none := by
  rw [place, h, Option.bind_some]

/-- An attempt with a place has one in front of it with a place. -/
theorem exists_place_of_succ {p : Nat × Nat} (h : place outcomes sdomains (m + 1) = some p) :
    ∃ q, place outcomes sdomains m = some q ∧
      (p = (q.1 + 1, 0) ∨ p = (q.1, q.2 + 1) ∧ outcomes m = .refused) := by
  obtain ⟨q, hq, hnext⟩ := Option.bind_eq_some_iff.mp h
  refine ⟨q, hq, ?_⟩
  cases houtcome : outcomes m with
  | timedOut | unreachable =>
      simp only [houtcome] at hnext
      exact .inl (Option.some.inj hnext).symm
  | refused =>
      simp only [houtcome] at hnext
      split at hnext
      · exact .inr ⟨(Option.some.inj hnext).symm, rfl⟩
      · exact .inl (Option.some.inj hnext).symm
  | answered | encodeFails | socketFails | connectFails => simp [houtcome] at hnext

theorem place_lt {p q : Nat × Nat} (hp : place outcomes sdomains k = some p)
    (hq : place outcomes sdomains m = some q) (hlt : k < m) :
    p.1 < q.1 ∨ p.1 = q.1 ∧ p.2 < q.2 := by
  induction m generalizing q with
  | zero => cases hlt
  | succ m ih =>
      obtain ⟨before, hbefore, hnext⟩ := exists_place_of_succ hq
      have hle : p.1 < before.1 ∨ p.1 = before.1 ∧ p.2 ≤ before.2 := by
        rcases Nat.lt_succ_iff_lt_or_eq.mp hlt with hless | rfl
        · exact (ih hbefore hless).imp_right (And.imp_right Nat.le_of_lt)
        · obtain rfl := Option.some.inj (hp.symm.trans hbefore)
          exact .inr ⟨rfl, Nat.le_refl _⟩
      rcases hnext with rfl | ⟨rfl, -⟩ <;> dsimp only <;> omega

/-- Every turn begins with an attempt at the name alone, and goes on only behind a query. -/
theorem exists_first (h : place outcomes sdomains m = some (t, j)) (hj : 0 < j) :
    ∃ k < m, place outcomes sdomains k = some (t, 0) ∧ (outcomes k).sends = true := by
  induction m generalizing j with
  | zero =>
      obtain ⟨-, rfl⟩ := Prod.mk.inj (Option.some.inj h)
      cases hj
  | succ m ih =>
      obtain ⟨⟨t', j'⟩, hbefore, heq | ⟨heq, hrefused⟩⟩ := exists_place_of_succ h
      · obtain ⟨-, rfl⟩ := Prod.mk.inj heq
        cases hj
      · obtain ⟨rfl, rfl⟩ := Prod.mk.inj heq
        rcases Nat.eq_zero_or_pos j' with rfl | hpos
        · exact ⟨m, Nat.lt_succ_self m, hbefore, by rw [hrefused]; rfl⟩
        · obtain ⟨k, hk, hfirst⟩ := ih hbefore hpos
          exact ⟨k, Nat.lt_succ_of_lt hk, hfirst⟩

/-- The next attempt counts for its server where it sends a query. -/
theorem askedBefore_succ (h : place outcomes sdomains m = some (t, j)) :
    AskedBefore outcomes sdomains nscount start (m + 1) server ↔
      AskedBefore outcomes sdomains nscount start m server ∨
        (start + t) % nscount = server ∧ (outcomes m).sends = true := by
  constructor
  · rintro ⟨k, hk, t', hplace, hserver, hsends⟩
    rcases Nat.lt_succ_iff_lt_or_eq.mp hk with hless | rfl
    · exact .inl ⟨k, hless, t', hplace, hserver, hsends⟩
    · obtain ⟨rfl, -⟩ := Prod.mk.inj (Option.some.inj (h.symm.trans hplace))
      exact .inr ⟨hserver, hsends⟩
  · rintro (⟨k, hk, hasked⟩ | ⟨hserver, hsends⟩)
    · exact ⟨k, Nat.lt_succ_of_lt hk, hasked⟩
    · rcases Nat.eq_zero_or_pos j with rfl | hpos
      · exact ⟨m, Nat.lt_succ_self m, t, h, hserver, hsends⟩
      · obtain ⟨k, hk, hfirst, hfirstSends⟩ := exists_first h hpos
        exact ⟨k, Nat.lt_succ_of_lt hk, t, hfirst, hserver, hfirstSends⟩

/-- The lookup is at the head of the loop, in front of attempt `j` of turn `t`. -/
structure Looking.At (s : Looking) (outcomes : Outcomes) (sdomains : Nat → Nat) (nscount start : Nat)
    (nRetries : Int) (t j : Nat) : Prop where
  phase : s.lookup.phase = .looping
  count : s.lookup.nscount = nscount
  limit : s.lookup.nRetries = nRetries
  placed : place outcomes sdomains s.tried.length = some (t, j)
  localNs : s.lookup.localNs = (start + t) % nscount
  retries : s.lookup.retries = (start + t) / nscount
  variant : s.lookup.variant = (j : Int) - 1
  within : t ≤ turns nRetries nscount start
  last : t = turns nRetries nscount start → j = 0
  queried : ∀ server, server ∈ s.queried ↔
    AskedBefore outcomes sdomains nscount start s.tried.length server

/-- Where the lookup is, or that it was answered, or which servers it has sent a query when a
question could not be encoded. -/
def Looking.Stands (s : Looking) (outcomes : Outcomes) (sdomains : Nat → Nat)
    (nscount start : Nat) (nRetries : Int) : Prop :=
  (∃ t j, s.At outcomes sdomains nscount start nRetries t j) ∨ s.lookup.phase = .returned true ∨
    s.lookup.phase = .returned false ∧ ∀ server, server ∈ s.queried ↔
      Reached outcomes sdomains nRetries nscount start server

theorem turns_iff (hstart : start < nscount) :
    ((start + t) / nscount : Nat) < nRetries ↔ t < turns nRetries nscount start := by
  have hpos := Nat.zero_lt_of_lt hstart
  rw [turns]
  have hnatural : (0 : Int) ≤ ((start + t) / nscount : Nat) := Int.natCast_nonneg _
  by_cases hneg : nRetries < 0
  · have hzero : nRetries.toNat = 0 := by omega
    rw [hzero, Nat.zero_mul, Nat.zero_sub]
    omega
  · have hdiv := Nat.div_lt_iff_lt_mul (x := start + t) (y := nRetries.toNat) hpos
    omega

theorem Lookup.tryall_localNs {l : Lookup} (hcount : l.nscount = nscount)
    (hlocal : l.localNs = (start + t) % nscount) :
    l.tryall.localNs = (start + (t + 1)) % nscount := by
  simp only [Lookup.tryall, hcount, hlocal]
  rw [Nat.mod_add_mod, Nat.add_assoc]

theorem Lookup.tryall_retries {l : Lookup} (hcount : l.nscount = nscount)
    (hlocal : l.localNs = (start + t) % nscount)
    (hretries : l.retries = (start + t) / nscount) :
    l.tryall.retries = (start + (t + 1)) / nscount := by
  have hlocal' : (l.localNs + 1) % l.nscount = (start + t + 1) % nscount := by
    rw [hcount, hlocal, Nat.mod_add_mod]
  simp only [Lookup.tryall, hlocal', ← Nat.add_assoc]
  rw [Nat.succ_div, hretries]
  split <;> rename_i hzero
  · rw [if_pos (Nat.dvd_of_mod_eq_zero hzero)]
  · rw [if_neg (fun hdvd => hzero (Nat.mod_eq_zero_of_dvd hdvd)), Nat.add_zero]

theorem Looking.At.askedBefore_attempt {s : Looking}
    (h : s.At outcomes sdomains nscount start nRetries t j) (domains server : Nat) :
    server ∈ (s.attempt domains (outcomes s.tried.length)).queried ↔
      AskedBefore outcomes sdomains nscount start (s.tried.length + 1) server := by
  rw [askedBefore_succ h.placed, ← h.queried, Looking.attempt]
  split
  · rename_i hsends
    rw [List.mem_append, List.mem_singleton, and_iff_left hsends, h.localNs, eq_comm]
  · rename_i hsends
    rw [or_iff_left (fun hboth => hsends hboth.2)]

/-- An attempt behind which the next turn begins. -/
theorem Looking.At.tryall {s : Looking} (h : s.At outcomes sdomains nscount start nRetries t j)
    (hmore : t < turns nRetries nscount start) {domains localId : Nat}
    (hplace : place outcomes sdomains (s.tried.length + 1) = some (t + 1, 0))
    (hturn : s.lookup.turn domains (outcomes s.tried.length) =
      { s.lookup.tryall with localId := localId }) :
    (s.attempt domains (outcomes s.tried.length)).At outcomes sdomains nscount start nRetries
      (t + 1) 0 := by
  have hlookup : (s.attempt domains (outcomes s.tried.length)).lookup =
      { s.lookup.tryall with localId := localId } := hturn
  have hlength : (s.attempt domains (outcomes s.tried.length)).tried.length =
      s.tried.length + 1 := by simp [Looking.attempt]
  constructor
  · rw [hlookup]
    rfl
  · rw [hlookup]
    exact h.count
  · rw [hlookup]
    exact h.limit
  · rw [hlength]
    exact hplace
  · rw [hlookup]
    exact Lookup.tryall_localNs h.count h.localNs
  · rw [hlookup]
    exact Lookup.tryall_retries h.count h.localNs h.retries
  · rw [hlookup]
    rfl
  · exact hmore
  · exact fun _ => rfl
  · rw [hlength]
    exact h.askedBefore_attempt domains

/-- An attempt behind which the next search domain follows. -/
theorem Looking.At.nextDomain {s : Looking}
    (h : s.At outcomes sdomains nscount start nRetries t j)
    (hmore : t < turns nRetries nscount start) {domains localId : Nat}
    (hplace : place outcomes sdomains (s.tried.length + 1) = some (t, j + 1))
    (hturn : s.lookup.turn domains (outcomes s.tried.length) =
      { s.lookup with variant := s.lookup.variant + 1, phase := .looping, localId := localId }) :
    (s.attempt domains (outcomes s.tried.length)).At outcomes sdomains nscount start nRetries
      t (j + 1) := by
  have hlookup : (s.attempt domains (outcomes s.tried.length)).lookup =
      { s.lookup with variant := s.lookup.variant + 1, phase := .looping, localId := localId } :=
    hturn
  have hlength : (s.attempt domains (outcomes s.tried.length)).tried.length =
      s.tried.length + 1 := by simp [Looking.attempt]
  constructor
  · rw [hlookup]
  · rw [hlookup]
    exact h.count
  · rw [hlookup]
    exact h.limit
  · rw [hlength]
    exact hplace
  · rw [hlookup]
    exact h.localNs
  · rw [hlookup]
    exact h.retries
  · rw [hlookup]
    change s.lookup.variant + 1 = ((j + 1 : Nat) : Int) - 1
    rw [h.variant]
    omega
  · exact h.within
  · exact fun hlast => absurd hmore (by omega)
  · rw [hlength]
    exact h.askedBefore_attempt domains

/-- Behind a question that cannot be encoded no turn begins. -/
theorem Looking.At.encodeFails {s : Looking}
    (h : s.At outcomes sdomains nscount start nRetries t j)
    (hmore : t < turns nRetries nscount start)
    (houtcome : outcomes s.tried.length = .encodeFails) (server : Nat) :
    server ∈ s.queried ↔ Reached outcomes sdomains nRetries nscount start server := by
  rw [h.queried]
  constructor
  · rintro ⟨k, hk, t', hplace, hserver, hsends⟩
    have hbefore := place_lt hplace h.placed hk
    exact ⟨k, t', hplace, by dsimp only at hbefore; omega, hserver, hsends⟩
  · rintro ⟨k, t', hplace, -, hserver, hsends⟩
    have hnone : ∀ behind, place outcomes sdomains (s.tried.length + 1 + behind) = none := by
      intro behind
      induction behind with
      | zero => rw [Nat.add_zero, place_succ h.placed, houtcome]
      | succ behind ih => rw [← Nat.add_assoc, place, ih, Option.bind_none]
    refine ⟨k, ?_, t', hplace, hserver, hsends⟩
    rcases Nat.lt_trichotomy k s.tried.length with hless | rfl | hgreater
    · exact hless
    · rw [houtcome] at hsends
      cases hsends
    · obtain ⟨behind, rfl⟩ := Nat.exists_eq_add_of_le hgreater
      rw [hnone behind] at hplace
      cases hplace

theorem Looking.Stands.attempt {s : Looking} (hroutine : Routine outcomes) (hstart : start < nscount)
    (h : s.Stands outcomes sdomains nscount start nRetries) (hloops : s.lookup.loops = true) :
    (s.attempt (domainsAt sdomains s.tried) (outcomes.net s.lookup.localNs s.tried)).Stands
      outcomes sdomains nscount start nRetries := by
  obtain ⟨hphase, hmore⟩ := Lookup.loops_iff.mp hloops
  obtain ⟨t, j, hat⟩ : ∃ t j, s.At outcomes sdomains nscount start nRetries t j := by
    rcases h with hat | hend | ⟨hend, -⟩
    · exact hat
    · rw [hphase] at hend
      cases hend
    · rw [hphase] at hend
      cases hend
  rw [hat.limit, hat.retries, turns_iff hstart] at hmore
  change (s.attempt (sdomains s.tried.length) (outcomes s.tried.length)).Stands outcomes sdomains
    nscount start nRetries
  have hkind := hroutine s.tried.length
  have hplace := place_succ hat.placed
  cases houtcome : outcomes s.tried.length with
  | socketFails => exact absurd houtcome hkind.1
  | connectFails => exact absurd houtcome hkind.2
  | answered => exact .inr (.inl rfl)
  | encodeFails => exact .inr (.inr ⟨rfl, hat.encodeFails hmore houtcome⟩)
  | timedOut | unreachable =>
      rw [houtcome] at hplace
      refine .inl ⟨t + 1, 0, ?_⟩
      rw [← houtcome]
      exact hat.tryall hmore hplace (by rw [houtcome]; rfl)
  | refused =>
      rw [houtcome] at hplace
      dsimp only at hplace
      by_cases hnext : j < sdomains s.tried.length
      · rw [if_pos hnext] at hplace
        refine .inl ⟨t, j + 1, ?_⟩
        rw [← houtcome]
        have hturn : s.lookup.turn (sdomains s.tried.length) .refused = { s.lookup with
            variant := s.lookup.variant + 1, phase := .looping
            localId := (s.lookup.localId + 1) % 65536 } := by
          refine if_pos ?_
          rw [hat.variant]
          omega
        exact hat.nextDomain hmore hplace (houtcome ▸ hturn)
      · rw [if_neg hnext] at hplace
        refine .inl ⟨t + 1, 0, ?_⟩
        rw [← houtcome]
        have hturn : s.lookup.turn (sdomains s.tried.length) .refused = { s.lookup.tryall with
            localId := (s.lookup.localId + 1) % 65536 } := by
          refine if_neg ?_
          rw [hat.variant]
          omega
        exact hat.tryall hmore hplace (houtcome ▸ hturn)

theorem at_begin (outcomes : Outcomes) (sdomains : Nat → Nat) (ns id : Nat) (hserver : 0 < nscount)
    (hlimit : 0 < nRetries) :
    (⟨.begin nscount ns id nRetries, [], []⟩ : Looking).At outcomes sdomains nscount (ns % nscount)
      nRetries 0 0 := by
  have hstart : ns % nscount < nscount := Nat.mod_lt _ hserver
  have hpositive : 0 < turns nRetries nscount (ns % nscount) := by
    apply (turns_iff hstart).mp
    rw [Nat.add_zero, Nat.div_eq_of_lt hstart]
    exact hlimit
  constructor
  · exact if_neg (Nat.ne_of_gt hserver)
  · rfl
  · rfl
  · rfl
  · exact (Nat.mod_mod _ _).symm
  · rw [Nat.add_zero, Nat.div_eq_of_lt hstart]
    rfl
  · rfl
  · exact Nat.zero_le _
  · exact fun hnone => absurd hpositive (by omega)
  · simp [AskedBefore]

/-- Where the loop ends with -1, exactly the servers of whose turns one has begun with a query have
been sent one. -/
theorem lookupLoop_queried (hroutine : Routine outcomes) {ns id fuel : Nat} {final : Looking}
    (hserver : server < nscount) (hlimit : 0 < nRetries)
    (hrun : lookupLoop outcomes.net (domainsAt sdomains) fuel
      ⟨.begin nscount ns id nRetries, [], []⟩ = some final) (hfailed : final.failed = true) :
    server ∈ final.queried ↔ Reached outcomes sdomains nRetries nscount (ns % nscount) server := by
  have hpos := Nat.zero_lt_of_lt hserver
  have hstart : ns % nscount < nscount := Nat.mod_lt _ hpos
  obtain ⟨hstands, hends⟩ := lookupLoop_invariant
    (fun s hs hloops => Looking.Stands.attempt hroutine hstart hs hloops)
    (.inl ⟨0, 0, at_begin outcomes sdomains ns id hpos hlimit⟩) hrun
  rcases hstands with ⟨t, j, hat⟩ | hanswered | ⟨-, hqueried⟩
  · -- all turns are over
    have hlast : t = turns nRetries nscount (ns % nscount) := by
      have hstop : ¬ final.lookup.loops = true := by simp [hends]
      rw [Lookup.loops_iff, and_iff_right hat.phase, hat.limit, hat.retries, turns_iff hstart] at hstop
      exact Nat.le_antisymm hat.within (Nat.le_of_not_lt hstop)
    obtain rfl := hat.last hlast
    rw [hat.queried]
    constructor
    · rintro ⟨k, hk, t', hplace, hasked⟩
      have hbefore := place_lt hplace hat.placed hk
      exact ⟨k, t', hplace, by dsimp only at hbefore; omega, hasked⟩
    · rintro ⟨k, t', hplace, hwithin, hasked⟩
      refine ⟨k, ?_, t', hplace, hasked⟩
      rcases Nat.lt_trichotomy k final.tried.length with hless | rfl | hgreater
      · exact hless
      · obtain ⟨rfl, -⟩ := Prod.mk.inj (Option.some.inj (hplace.symm.trans hat.placed))
        omega
      · have hbehind := place_lt hat.placed hplace hgreater
        dsimp only at hbehind
        omega
  · simp [Looking.failed, hanswered] at hfailed
  · exact hqueried server

/-- Where no question is answered or left without an encoding, and every server is within reach,
all turns begin. -/
theorem exists_turn (hrouted : ∀ m, outcomes m = .timedOut ∨ outcomes m = .refused) {most : Nat}
    (hmost : ∀ m, sdomains m ≤ most) (t : Nat) :
    ∃ k, place outcomes sdomains k = some (t, 0) := by
  induction t with
  | zero => exact ⟨0, rfl⟩
  | succ t ih =>
      have hnext : ∀ left j k, most ≤ j + left → place outcomes sdomains k = some (t, j) →
          ∃ k', place outcomes sdomains k' = some (t + 1, 0) := by
        intro left
        induction left with
        | zero =>
            intro j k hj hplace
            refine ⟨k + 1, ?_⟩
            rw [place_succ hplace]
            have hlast : ¬ j < sdomains k := by
              have := hmost k
              omega
            rcases hrouted k with houtcome | houtcome <;> simp [houtcome, hlast]
        | succ left ihLeft =>
            intro j k hj hplace
            have hsucc := place_succ hplace
            rcases hrouted k with houtcome | houtcome
            · rw [houtcome] at hsucc
              exact ⟨k + 1, hsucc⟩
            · simp only [houtcome] at hsucc
              split at hsucc
              · exact ihLeft (j + 1) (k + 1) (by omega) hsucc
              · exact ⟨k + 1, hsucc⟩
      obtain ⟨k, hplace⟩ := ih
      exact hnext most 0 k (by omega) hplace

/-- Then it takes a start at server 0 or a second pass. -/
theorem reached_iff_of_routed
    (hrouted : ∀ m, outcomes m = .timedOut ∨ outcomes m = .refused) {most : Nat}
    (hmost : ∀ m, sdomains m ≤ most) (hstart : start < nscount) (hlimit : 0 < nRetries) :
    (∀ server < nscount, Reached outcomes sdomains nRetries nscount start server) ↔
      start = 0 ∨ 2 ≤ nRetries := by
  constructor
  · intro hall
    obtain ⟨k, t, -, hless, hserver, -⟩ := hall 0 (Nat.zero_lt_of_lt hstart)
    by_cases htwo : 2 ≤ nRetries
    · exact .inr htwo
    · have hone : nRetries.toNat = 1 := by omega
      rw [turns, hone, Nat.one_mul] at hless
      rw [Nat.mod_eq_of_lt (by omega)] at hserver
      exact .inl (Nat.eq_zero_of_add_eq_zero_right hserver)
  · intro hpasses server hserver
    have hsends (m : Nat) : (outcomes m).sends = true := by
      rcases hrouted m with houtcome | houtcome <;> rw [houtcome] <;> rfl
    obtain ⟨t, ht, hturn⟩ : ∃ t < turns nRetries nscount start,
        (start + t) % nscount = server := by
      rcases Nat.lt_or_ge server start with hbefore | hbehind
      · have htwo : 2 ≤ nRetries.toNat := by omega
        have hscaled := Nat.mul_le_mul_right nscount htwo
        refine ⟨nscount - start + server, by rw [turns]; omega, ?_⟩
        rw [show start + (nscount - start + server) = server + nscount by omega,
          Nat.add_mod_right, Nat.mod_eq_of_lt hserver]
      · have hone : 1 ≤ nRetries.toNat := by omega
        have hscaled := Nat.mul_le_mul_right nscount hone
        refine ⟨server - start, by rw [turns]; omega, ?_⟩
        rw [Nat.add_sub_cancel' hbehind, Nat.mod_eq_of_lt hserver]
    obtain ⟨k, hplace⟩ := exists_turn hrouted hmost t
    exact ⟨k, t, hplace, ht, hturn, hsends k⟩

/-- Where `__dns_lookup_async` or `__dns_lookup` returns -1, each of the servers has been sent a
query exactly if one of its turns has begun with one. -/
theorem every_server_queried_iff {outcomes : Outcomes} (hroutine : Routine outcomes)
    (sdomains : Nat → Nat) (nscount ns id fuel : Nat) {nRetries : Int} (hlimit : 0 < nRetries) :
    (∀ final, dnsLookupAsync outcomes.net (domainsAt sdomains) nscount ns id nRetries fuel =
      some final → final.failed = true → ((∀ server < nscount, server ∈ final.queried) ↔
        ∀ server < nscount, Reached outcomes sdomains nRetries nscount (ns % nscount) server)) ∧
    (∀ final, dnsLookup outcomes.net (domainsAt sdomains) nscount ns id fuel = some final →
      final.failed = true → ((∀ server < nscount, server ∈ final.queried) ↔
        ∀ server < nscount, Reached outcomes sdomains maxRetries nscount (ns % nscount) server)) := by
  constructor
  · intro final hrun hfailed
    exact forall₂_congr (fun server hserver =>
      lookupLoop_queried hroutine hserver hlimit hrun hfailed)
  · intro final hrun hfailed
    exact forall₂_congr (fun server hserver =>
      lookupLoop_queried hroutine hserver (by decide) hrun hfailed)

/-- No server answers. -/
def silent : Outcomes := fun _ => .timedOut

/-- Two passes, started at the second of two servers. -/
theorem two_servers_queried :
    ∃ final, dnsLookupAsync silent.net (domainsAt fun _ => 0) 2 1 1 2 4 = some final ∧
      final.failed = true ∧ ∀ server < 2, server ∈ final.queried := by
  have hroutine : Routine silent := fun _ => ⟨nofun, nofun⟩
  have hreached : ∀ server < 2, Reached silent (fun _ => 0) 2 2 (1 % 2) server :=
    (reached_iff_of_routed (fun _ => .inl rfl) (fun _ => Nat.le_refl 0) (by decide)
      (by decide)).mpr (.inr (by decide))
  have hiff := (every_server_queried_iff hroutine (fun _ => 0) 2 1 1 4
    (show (0 : Int) < 2 by decide)).1 _ rfl rfl
  exact ⟨_, rfl, rfl, hiff.mpr hreached⟩

/-- The name is refused, and no question can be encoded of it with a search domain. -/
def overlong : Outcomes := fun m => if m = 0 then .refused else .encodeFails

/-- An earlier lookup has left `ns` at the second of two servers: with `MAX_RETRIES` the first
one is never tried. Nor is the second one where the first refuses a name that is too long for a
search domain. -/
theorem first_server_not_queried :
    (∃ final, dnsLookup silent.net (domainsAt fun _ => 0) 2 1 1 2 = some final ∧
      final.failed = true ∧ final.queried = [1] ∧ ¬ ∀ server < 2, server ∈ final.queried) ∧
    ∃ final, dnsLookupAsync overlong.net (domainsAt fun _ => 1) 2 0 1 2 3 = some final ∧
      final.failed = true ∧ final.queried = [0] ∧ ¬ ∀ server < 2, server ∈ final.queried :=
  ⟨⟨_, rfl, rfl, rfl, by decide⟩, ⟨_, rfl, rfl, rfl, by decide⟩⟩

end EventLoop.Dns
