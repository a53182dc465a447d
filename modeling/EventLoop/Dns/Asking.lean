import EventLoop.Dns.Attempts
import EventLoop.Dns.Records

/-!
A lookup with the packets that reach it. The answers of every reply are decoded into the same
`a` and the same `buf`, whether the reply is taken in the end or not.
-/

namespace EventLoop.Dns

open ByteMemory

/-- What an attempt comes to, with the packet of a reply. -/
inductive Arrival where
  | encodeFails
  | socketFails
  | connectFails
  | unreachable
  | timedOut
  /-- `recv` has returned `len`. -/
  | reply (packet : Memory) (len : Int)

/-- The locals of `__dns_lookup`, and the caller's memory with `a->buf` in it. The field `copied`
of `a` is what the reply at hand has copied. -/
structure Asking where
  lookup : Lookup
  a : ResolvAnswer
  buf : Nat
  packet : Memory
  store : Store

/-- From `recv` to `return` or `again`; `none` while the names of the reply are being decoded. -/
def Asking.receive (s : Asking) (sdomains fuel : Nat) (packet : Memory) (len : Int) :
    Option Asking :=
  if len < headerSize then
    some { s with packet := packet, lookup := s.lookup.turn sdomains .refused }
  else
    (decodeReply packet typeA ((s.lookup.localId + 1) % 65536) fuel { s.a with copied := [] }).map
      (fun (taken, a) =>
        { s with
          packet := packet
          lookup := s.lookup.turn sdomains (if taken then .answered else .refused)
          a := a
          store := s.store.write s.buf a.copied })

/-- One turn of the loop; `sdomains` is `__searchdomains` at `again`. -/
def Asking.arrive (s : Asking) (sdomains fuel : Nat) : Arrival → Option Asking
  | .encodeFails => some { s with lookup := s.lookup.turn sdomains .encodeFails }
  | .socketFails => some { s with lookup := s.lookup.turn sdomains .socketFails }
  | .connectFails => some { s with lookup := s.lookup.turn sdomains .connectFails }
  | .unreachable => some { s with lookup := s.lookup.turn sdomains .unreachable }
  | .timedOut => some { s with lookup := s.lookup.turn sdomains .timedOut }
  | .reply packet len => s.receive sdomains fuel packet len

/-- The `while` loop, over what arrives and the search domains at the time; `none` if it has
not ended by then. -/
def Asking.ask (fuel : Nat) : Asking → List (Arrival × Nat) → Option Asking
  | s, [] => if s.lookup.loops then none else some s
  | s, (arrival, sdomains) :: rest =>
      if s.lookup.loops then
        (s.arrive sdomains fuel arrival).bind (fun s' => Asking.ask fuel s' rest)
      else some s

/-- Where the lookup starts, with the buffer given. -/
def Asking.begin (nscount ns id : Nat) (nRetries : Int) (a : ResolvAnswer) (buf : Nat)
    (store : Store) : Asking :=
  ⟨.begin nscount ns id nRetries, a, buf, fun _ => 0, store⟩

/-- `__dns_lookup` for `T_A` -/
def Asking.dnsLookup (nscount ns id : Nat) (a : ResolvAnswer) (buf : Nat) (store : Store)
    (arrivals : List (Arrival × Nat)) (fuel : Nat) : Option Asking :=
  Asking.ask fuel (.begin nscount ns id maxRetries a buf store) arrivals

/-- `__dns_lookup_async` for `T_A` -/
def Asking.dnsLookupAsync (nscount ns id : Nat) (nRetries : Int) (a : ResolvAnswer) (buf : Nat)
    (store : Store) (arrivals : List (Arrival × Nat)) (fuel : Nat) : Option Asking :=
  Asking.ask fuel (.begin nscount ns id nRetries a buf store) arrivals

/-- The function has returned with success. -/
def Asking.Answered (s : Asking) : Prop := s.lookup.phase = .returned true

variable {s s' final : Asking} {fuel sdomains : Nat} {arrival : Arrival}
  {arrivals : List (Arrival × Nat)}

/-- What every turn keeps holds where the loop ends. -/
theorem Asking.ask_invariant {Inv : Asking → Prop}
    (hturn : ∀ s sdomains arrival s', Inv s → s.lookup.loops = true →
      s.arrive sdomains fuel arrival = some s' → Inv s')
    (h : Inv s) (hrun : Asking.ask fuel s arrivals = some final) : Inv final := by
  induction arrivals generalizing s with
  | nil =>
      rw [Asking.ask] at hrun
      split at hrun
      · cases hrun
      · exact Option.some.inj hrun ▸ h
  | cons first rest ih =>
      obtain ⟨arrival, sdomains⟩ := first
      rw [Asking.ask] at hrun
      split at hrun
      · rename_i hloops
        obtain ⟨s', hs', hrest⟩ := Option.bind_eq_some_iff.mp hrun
        exact ih (hturn s sdomains arrival s' h hloops hs') hrest
      · exact Option.some.inj hrun ▸ h

/-- What a turn does to the lookup is a turn of the loop, and what it does to the rest comes from
the reply. -/
theorem Asking.arrive_cases (h : s.arrive sdomains fuel arrival = some s') :
    (s' = { s with lookup := s'.lookup, packet := s'.packet } ∧
        ∃ outcome, outcome ≠ .answered ∧ s'.lookup = s.lookup.turn sdomains outcome) ∨
      ∃ localId taken,
        decodeReply s'.packet typeA localId fuel { s.a with copied := [] } = some (taken, s'.a) ∧
        s'.lookup = s.lookup.turn sdomains (if taken then .answered else .refused) ∧
        s'.buf = s.buf ∧ s'.store = s.store.write s.buf s'.a.copied := by
  have hturned (outcome : Outcome) (hnot : outcome ≠ .answered)
      (hs' : some { s with lookup := s.lookup.turn sdomains outcome } = some s') :
      s' = { s with lookup := s'.lookup, packet := s'.packet } ∧
        ∃ outcome, outcome ≠ .answered ∧ s'.lookup = s.lookup.turn sdomains outcome := by
    obtain rfl := Option.some.inj hs'
    exact ⟨rfl, outcome, hnot, rfl⟩
  cases arrival with
  | encodeFails => exact .inl (hturned .encodeFails nofun h)
  | socketFails => exact .inl (hturned .socketFails nofun h)
  | connectFails => exact .inl (hturned .connectFails nofun h)
  | unreachable => exact .inl (hturned .unreachable nofun h)
  | timedOut => exact .inl (hturned .timedOut nofun h)
  | reply packet len =>
      rw [arrive, receive] at h
      split at h
      · obtain rfl := Option.some.inj h
        refine .inl ⟨rfl, .refused, ?_, rfl⟩
        exact nofun
      · obtain ⟨⟨taken, a⟩, hdecode, rfl⟩ := Option.map_eq_some_iff.mp h
        exact .inr ⟨_, taken, hdecode, rfl, rfl, rfl⟩

/-- The buffer stays the caller's, and no copy goes beyond it or below where it starts. -/
structure Asking.InBuffer (base len : Nat) (s₀ s : Asking) : Prop where
  buf : s.buf = s₀.buf
  hasBuf : s.a.hasBuf = s₀.a.hasBuf
  buflen : s.a.buflen = s₀.a.buflen
  within : s.store.Within base len
  below : ∀ place < s₀.buf, s.store.bytes place = s₀.store.bytes place

variable {s₀ : Asking} {base len : Nat}

theorem Asking.InBuffer.arrive (h : Asking.InBuffer base len s₀ s) (hbase : base ≤ s₀.buf)
    (hlen : s₀.buf + s₀.a.buflen ≤ base + len)
    (harrive : s.arrive sdomains fuel arrival = some s') :
    Asking.InBuffer base len s₀ s' := by
  rcases arrive_cases harrive with ⟨hs', -⟩ | ⟨localId, taken, hdecode, -, hbuf, hstore⟩
  · rw [hs']
    exact ⟨h.buf, h.hasBuf, h.buflen, h.within, h.below⟩
  · have hcopied := decodeReply_copied rfl hdecode
    have hfits : s'.a.copied.length ≤ s₀.a.buflen := h.buflen ▸ hcopied.fits
    refine ⟨hbuf.trans h.buf, hcopied.hasBuf.trans h.hasBuf, hcopied.buflen.trans h.buflen, ?_, ?_⟩
    · rw [hstore, Store.within_write, h.buf]
      exact ⟨h.within, hbase, by omega⟩
    · intro place hplace
      rw [hstore, Store.bytes_write, h.buf, write_of_lt hplace, h.below place hplace]

theorem Asking.ask_inBuffer (hbase : base ≤ s₀.buf) (hlen : s₀.buf + s₀.a.buflen ≤ base + len)
    (hwithin : s₀.store.Within base len) (hrun : Asking.ask fuel s₀ arrivals = some final) :
    Asking.InBuffer base len s₀ final :=
  @Asking.ask_invariant s₀ final fuel arrivals (Asking.InBuffer base len s₀)
    (fun _ _ _ _ h _ harrive => h.arrive hbase hlen harrive)
    ⟨rfl, rfl, rfl, hwithin, fun _ _ => rfl⟩ hrun

/-- A turn succeeds only with a reply that is taken. -/
theorem turn_answered {l : Lookup} {outcome : Outcome} (hloops : l.loops = true)
    (hanswered : (l.turn sdomains outcome).phase = .returned true) : outcome = .answered := by
  have hlooping : l.phase = .looping := by
    rw [Lookup.loops, Bool.and_eq_true] at hloops
    simpa using hloops.1
  cases outcome with
  | answered => rfl
  | encodeFails => cases hanswered
  | socketFails | connectFails => cases hlooping.symm.trans hanswered
  | unreachable | timedOut => cases hanswered
  | refused =>
      rw [Lookup.turn, Lookup.again] at hanswered
      split at hanswered <;> cases hanswered

/-- The last reply of a lookup that has been answered: it was decoded into the buffer given. -/
structure Asking.TakenFrom (fuel : Nat) (s₀ s : Asking) : Prop where
  decoded : ∃ localId start, start.hasBuf = s₀.a.hasBuf ∧ start.buflen = s₀.a.buflen ∧
    start.copied = [] ∧ decodeReply s.packet typeA localId fuel start = some (true, s.a)
  copied : ∃ before : Store, s.store = before.write s₀.buf s.a.copied

theorem Asking.ask_takenFrom (hstart : ¬ s₀.Answered)
    (hrun : Asking.ask fuel s₀ arrivals = some final) (hanswered : final.Answered) :
    Asking.TakenFrom fuel s₀ final := by
  have hkept := @Asking.ask_invariant s₀ final fuel arrivals
    (fun s => (s.buf = s₀.buf ∧ s.a.hasBuf = s₀.a.hasBuf ∧ s.a.buflen = s₀.a.buflen) ∧
      (s.Answered → Asking.TakenFrom fuel s₀ s)) ?_ ⟨⟨rfl, rfl, rfl⟩, (absurd · hstart)⟩ hrun
  · exact hkept.2 hanswered
  · rintro s sdomains arrival s' ⟨⟨hbuf, hhasBuf, hbuflen⟩, -⟩ hloops harrive
    rcases arrive_cases harrive with ⟨hs', outcome, hnot, hturn⟩ |
      ⟨localId, taken, hdecode, hturn, hbuf', hstore⟩
    · constructor
      · rw [hs']
        exact ⟨hbuf, hhasBuf, hbuflen⟩
      · intro hnow
        rw [Asking.Answered, hturn] at hnow
        exact absurd (turn_answered hloops hnow) hnot
    · have hcopied := decodeReply_copied rfl hdecode
      refine ⟨⟨hbuf'.trans hbuf, hcopied.hasBuf.trans hhasBuf, hcopied.buflen.trans hbuflen⟩, ?_⟩
      intro hnow
      rw [Asking.Answered, hturn] at hnow
      have houtcome := turn_answered hloops hnow
      cases taken with
      | false => cases houtcome
      | true =>
          exact ⟨⟨localId, { s.a with copied := [] }, hhasBuf, hbuflen, rfl, hdecode⟩,
            ⟨s.store, hbuf ▸ hstore⟩⟩

/-- The answer has the type asked for, and its name can be copied and freed. -/
def Usable (a : ResolvAnswer) : Prop := a.atype = typeA ∧ a.freed = false

theorem Taken.usable_iff {records : List Record} {data : Memory} {start a : ResolvAnswer}
    (h : Taken typeA data start records a) :
    Usable a ↔ ∃ record ∈ records, record.atype = typeA := by
  cases h with
  | missed hnone _ htype =>
      refine iff_of_false (fun husable => htype husable.1) ?_
      rintro ⟨record, hmem, hmatch⟩
      exact absurd hmatch (by simpa using List.filter_eq_nil_iff.mp hnone record hmem)
  | @found first _ hmatching htype hfreed =>
      refine iff_of_true ⟨htype, hfreed⟩ ?_
      have hmem : first ∈ matching typeA records := hmatching ▸ List.mem_cons_self ..
      obtain ⟨hmem, hmatch⟩ := List.mem_filter.mp hmem
      exact ⟨first, hmem, of_decide_eq_true hmatch⟩

theorem Asking.TakenFrom.taken {records : List Record} (h : Asking.TakenFrom fuel s₀ s)
    (hbuf : s₀.a.hasBuf = true) (hresponse : Response s.packet records) :
    ∃ start : ResolvAnswer, start.buflen = s₀.a.buflen ∧ start.copied = [] ∧
      Taken typeA s.packet start records s.a := by
  obtain ⟨localId, start, hhasBuf, hbuflen, hcopied, hdecode⟩ := h.decoded
  exact ⟨start, hbuflen, hcopied, hresponse.taken (.inl rfl) (hhasBuf.trans hbuf) hdecode⟩

theorem begin_not_answered {nscount ns id buf : Nat} {nRetries : Int} {a : ResolvAnswer}
    {store : Store} : ¬ (Asking.begin nscount ns id nRetries a buf store).Answered := by
  rw [Asking.Answered, Asking.begin, Lookup.begin]
  dsimp only
  split <;> (intro h; cases h)

/-- A lookup that succeeds with a well-formed response gives its caller a usable answer exactly if
one of the records is an address: for both lookups, whatever else has arrived before. -/
theorem lookup_usable_iff {nscount ns id buf : Nat} {nRetries : Int} {a : ResolvAnswer}
    {store : Store} {records : List Record} (hbuf : a.hasBuf = true)
    (hrun : Asking.dnsLookup nscount ns id a buf store arrivals fuel = some final ∨
      Asking.dnsLookupAsync nscount ns id nRetries a buf store arrivals fuel = some final)
    (hanswered : final.Answered) (hresponse : Response final.packet records) :
    Usable final.a ↔ ∃ record ∈ records, record.atype = typeA := by
  have htaken : ∃ start, Taken typeA final.packet start records final.a := by
    rcases hrun with hrun | hrun
    · obtain ⟨start, -, -, htaken⟩ :=
        (Asking.ask_takenFrom begin_not_answered hrun hanswered).taken hbuf hresponse
      exact ⟨start, htaken⟩
    · obtain ⟨start, -, -, htaken⟩ :=
        (Asking.ask_takenFrom begin_not_answered hrun hanswered).taken hbuf hresponse
      exact ⟨start, htaken⟩
  exact htaken.choose_spec.usable_iff

/-- A packet with these bytes. -/
def packetOf (bytes : List UInt8) : Memory := fun i => bytes.getD i 0

/-- To the query with id 2: one answer, an alias. -/
def aliasReply : Memory :=
  packetOf [0, 2, 0x80, 0, 0, 0, 0, 1, 0, 0, 0, 0, 1, 97, 0, 0, 5, 0, 1, 0, 0, 0, 0, 0, 1, 0]

theorem aliasReply_response : Response aliasReply [⟨[[97]], 5, [0]⟩] := by
  refine ⟨rfl, 12, .nil, ?_⟩
  have hname : Expands aliasReply 12 [[97]] 3 :=
    @Expands.label aliasReply 12 1 1 [] rfl (by decide) (.root rfl)
  exact .cons hname rfl rfl rfl .nil

/-- To the query with id 2: an alias in front of an address. -/
def aliasedReply : Memory :=
  packetOf [0, 2, 0x80, 0, 0, 0, 0, 2, 0, 0, 0, 0, 1, 97, 0, 0, 5, 0, 1, 0, 0, 0, 0, 0, 3, 1, 98, 0,
    1, 98, 0, 0, 1, 0, 1, 0, 0, 0, 0, 0, 4, 10, 0, 0, 7]

/-- The records of `aliasedReply`. -/
def aliasedRecords : List Record := [⟨[[97]], 5, [1, 98, 0]⟩, ⟨[[98]], 1, [10, 0, 0, 7]⟩]

theorem aliasedReply_response : Response aliasedReply aliasedRecords := by
  refine ⟨rfl, 12, .nil, ?_⟩
  have halias : Expands aliasedReply 12 [[97]] 3 :=
    @Expands.label aliasedReply 12 1 1 [] rfl (by decide) (.root rfl)
  have hname : Expands aliasedReply 28 [[98]] 3 :=
    @Expands.label aliasedReply 28 1 1 [] rfl (by decide) (.root rfl)
  exact .cons halias rfl rfl rfl (.cons hname rfl rfl rfl .nil)

/-- A caller's `a` with a buffer. -/
def emptyAnswer (buflen : Nat) : ResolvAnswer := ⟨⟨[], 0, 0, 0⟩, true, true, buflen, 0, []⟩

theorem aliasedReply_usable : ∃ final,
    Asking.dnsLookup 1 0 1 (emptyAnswer 300) 84 ⟨fun _ => 0, []⟩ [(.reply aliasedReply 45, 0)] 4 =
        some final ∧ Usable final.a := by
  have hrun : ∃ final, Asking.dnsLookup 1 0 1 (emptyAnswer 300) 84 ⟨fun _ => 0, []⟩
      [(.reply aliasedReply 45, 0)] 4 = some final ∧ final.Answered ∧
        final.packet = aliasedReply := ⟨_, rfl, rfl, rfl⟩
  obtain ⟨final, hfinal, hanswered, hpacket⟩ := hrun
  have hresponse : Response final.packet aliasedRecords := hpacket ▸ aliasedReply_response
  have haddress : ∃ record ∈ aliasedRecords, record.atype = typeA :=
    ⟨⟨[[98]], 1, [10, 0, 0, 7]⟩, List.mem_cons_of_mem _ (List.mem_singleton_self _), rfl⟩
  refine ⟨final, hfinal, ?_⟩
  exact (@lookup_usable_iff final 4 [(.reply aliasedReply 45, 0)] 1 0 1 84 1 (emptyAnswer 300)
    ⟨fun _ => 0, []⟩ _ rfl (.inl hfinal) hanswered hresponse).mpr haddress

/-- A response with nothing but an alias is a success, and the name in `a` has been freed. -/
theorem aliasReply_not_usable :
    ¬ ∀ (nscount ns id buf : Nat) (a : ResolvAnswer) (store : Store)
      (arrivals : List (Arrival × Nat)) (fuel : Nat) (final : Asking) (records : List Record),
      a.hasBuf = true → Asking.dnsLookup nscount ns id a buf store arrivals fuel = some final →
        final.Answered → Response final.packet records → records ≠ [] → Usable final.a := by
  intro h
  have husable := h 1 0 1 84 (emptyAnswer 300) ⟨fun _ => 0, []⟩ [(.reply aliasReply 26, 0)] 4 _ _
    rfl rfl rfl aliasReply_response (List.cons_ne_nil _ _)
  exact absurd husable.2 (by decide)

end EventLoop.Dns
