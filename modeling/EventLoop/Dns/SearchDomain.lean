import EventLoop.Dns.Attempts
import EventLoop.Dns.Encoding
import EventLoop.Lib.ByteMemory

/-!
The question names of a lookup. At every attempt the name is copied into `lookup`; for a search
domain a dot and then the domain are copied behind the name, both to the same place and both
filled up to `MAXDNAME` bytes from there.
-/

namespace EventLoop.Dns

open ByteMemory

/-- The search list behind `__open_nameservers`, as the bytes of its words. -/
def searchDomains (conf : Option ResolvConf) (g : Globals) : List (List UInt8) :=
  (openNameservers conf g).searchdomain.map (fun domain => domain.toUTF8.data.toList)

/-- The copies into `lookup`, up to `q.dotted = (char *)lookup`. -/
def composeName (maxDName place : Nat) (name : List UInt8) (domains : List (List UInt8))
    (variant : Int) (s : Store) : Store :=
  let s := s.write place (padded name maxDName)
  if 0 ≤ variant then
    if variant < domains.length then
      let nameLen := name.length
      let s := s.write (place + nameLen) (padded [dot] maxDName)
      s.write (place + nameLen) (padded (domains.getD variant.toNat []) maxDName)
    else s
  else s

/-- `PACKETSZ` -/
def packetSz : Int := 512

/-- `HFIXEDSZ` -/
def hFixedSz : Int := 12

/-- `C_IN` -/
def cIn : BitVec 32 := 1

/-- The question `q`, with the string that `q.dotted` leads to. -/
def questionIn (maxDName place : Nat) (qtype : BitVec 32) (m : Nat → UInt8) : Question where
  dotted := (read m place maxDName).takeWhile (· ≠ 0)
  qtype := qtype
  qclass := cIn

/-- `__encode_question` does not fail, behind the header. -/
def Question.encodes (q : Question) : Bool :=
  match encodeQuestion q (packetSz - hFixedSz) (q.dotted.length + 1) with
  | some (.returned j _) => 0 ≤ j
  | _ => false

/-- A query: the server it goes to, and its question. -/
structure Query where
  server : Nat
  question : Question
deriving DecidableEq, Repr

/-- A lookup with the memory around `lookup` and the queries sent. -/
structure Sending where
  lookup : Lookup
  store : Store
  sent : List Query

section

variable (maxDName place : Nat) (qtype : BitVec 32) (name : List UInt8)
  (domains : List (List UInt8))

/-- One turn, with a negative reply if the query is sent. -/
def Sending.refuse (s : Sending) : Sending :=
  let store := composeName maxDName place name domains s.lookup.variant s.store
  let q := questionIn maxDName place qtype store.bytes
  if q.encodes then
    { lookup := s.lookup.turn domains.length .refused
      store := store
      sent := s.sent ++ [⟨s.lookup.localNs, q⟩] }
  else { s with lookup := s.lookup.turn domains.length .encodeFails, store := store }

/-- The `while` loop, up to so many negative replies. -/
def Sending.refusals : Nat → Sending → Sending
  | 0, s => s
  | replies + 1, s =>
      if s.lookup.loops then
        Sending.refusals replies (s.refuse maxDName place qtype name domains)
      else s

/-- `__dns_lookup_async` -/
def Sending.dnsLookupAsync (nscount ns id : Nat) (nRetries : Int) (memory : Nat → UInt8)
    (replies : Nat) : Sending :=
  Sending.refusals maxDName place qtype name domains replies
    ⟨.begin nscount ns id nRetries, ⟨memory, []⟩, []⟩

/-- `__dns_lookup` -/
def Sending.dnsLookup (nscount ns id : Nat) (memory : Nat → UInt8) (replies : Nat) : Sending :=
  Sending.refusals maxDName place qtype name domains replies
    ⟨.begin nscount ns id maxRetries, ⟨memory, []⟩, []⟩

/-- The names to ask one server for, in order. -/
def questionName : Nat → List UInt8
  | 0 => name
  | k + 1 => name ++ dot :: domains.getD k []

/-- The servers in turn are asked for the name and the name in each of the domains, and the
composition has stayed in its buffer. -/
structure AsksInOrder (nscount ns : Nat) (s : Sending) : Prop where
  servers : ∀ i (hi : i < s.sent.length), s.sent[i].server =
    (ns % nscount + i / (domains.length + 1)) % nscount
  names : ∀ i (hi : i < s.sent.length), s.sent[i].question =
    ⟨questionName name domains (i % (domains.length + 1)), qtype, cIn⟩
  within : s.store.Within place maxDName

end

variable {maxDName place nscount ns id replies : Nat} {qtype : BitVec 32} {nRetries : Int}
  {name : List UInt8} {domains : List (List UInt8)} {memory : Nat → UInt8} {s : Sending}

theorem succ_of_lt_block {i d : Nat} (h : i % (d + 1) < d) :
    (i + 1) % (d + 1) = i % (d + 1) + 1 ∧ (i + 1) / (d + 1) = i / (d + 1) := by
  have hi : i + 1 = (d + 1) * (i / (d + 1)) + (i % (d + 1) + 1) := by
    rw [← Nat.add_assoc, Nat.div_add_mod]
  have hlt : i % (d + 1) + 1 < d + 1 := Nat.succ_lt_succ h
  rw [hi, Nat.mul_add_mod, Nat.mod_eq_of_lt hlt, Nat.mul_add_div (Nat.succ_pos d),
    Nat.div_eq_of_lt hlt]
  exact ⟨rfl, rfl⟩

theorem succ_of_block_end {i d : Nat} (h : ¬ i % (d + 1) < d) :
    (i + 1) % (d + 1) = 0 ∧ (i + 1) / (d + 1) = i / (d + 1) + 1 := by
  have hlast : i % (d + 1) = d := by
    have hle : i % (d + 1) < d + 1 := Nat.mod_lt i (Nat.succ_pos d)
    omega
  have hi : i + 1 = (d + 1) * (i / (d + 1) + 1) := by
    have hsplit := Nat.div_add_mod i (d + 1)
    rw [Nat.mul_succ]
    omega
  constructor
  · rw [hi, Nat.mul_mod_right]
  · rw [hi, Nat.mul_div_cancel_left _ (Nat.succ_pos d)]

/-- Behind so many attempts the next goes on in the order of the servers and variants. -/
structure InOrder (nscount ns d : Nat) (s : Sending) : Prop where
  count : s.lookup.nscount = nscount
  variant : s.lookup.variant = (s.sent.length % (d + 1) : Nat) - 1
  localNs : s.lookup.localNs = (ns % nscount + s.sent.length / (d + 1)) % nscount
  servers : ∀ i (hi : i < s.sent.length),
    s.sent[i].server = (ns % nscount + i / (d + 1)) % nscount

/-- The label `again` goes on in that order. -/
theorem again_inOrder {l : Lookup} {d i : Nat} (hvariant : l.variant = (i % (d + 1) : Nat) - 1)
    (hlocalNs : l.localNs = (ns % nscount + i / (d + 1)) % nscount)
    (hnscount : l.nscount = nscount) :
    (l.again d).nscount = nscount ∧ (l.again d).variant = ((i + 1) % (d + 1) : Nat) - 1 ∧
      (l.again d).localNs = (ns % nscount + (i + 1) / (d + 1)) % nscount := by
  rw [Lookup.again]
  split
  · rename_i hmore
    obtain ⟨hmod, hdiv⟩ := @succ_of_lt_block i d (by omega)
    refine ⟨hnscount, ?_, ?_⟩
    · change l.variant + 1 = _
      rw [hmod, hvariant]
      push_cast
      omega
    · rw [hdiv]
      exact hlocalNs
  · rename_i hlast
    obtain ⟨hmod, hdiv⟩ := @succ_of_block_end i d (by omega)
    refine ⟨hnscount, ?_, ?_⟩
    · rw [hmod]
      rfl
    · change (l.localNs + 1) % l.nscount = _
      rw [hdiv, hlocalNs, hnscount, Nat.mod_add_mod, Nat.add_assoc]

/-- What holds of every element and of one more behind them. -/
theorem forall_getElem_concat {α : Type} {l : List α} {a : α} {P : Nat → α → Prop}
    (h : ∀ i (hi : i < l.length), P i l[i]) (hlast : P l.length a) :
    ∀ i (hi : i < (l ++ [a]).length), P i (l ++ [a])[i] := by
  intro i hi
  by_cases hbefore : i < l.length
  · rw [List.getElem_append_left hbefore]
    exact h i hbefore
  · obtain rfl : i = l.length := by
      rw [List.length_append, List.length_singleton] at hi
      omega
    rw [List.getElem_concat_length rfl]
    exact hlast

/-- A turn either sends a query and goes on at `again`, or returns. -/
theorem refuse_cases (s : Sending) :
    let store := composeName maxDName place name domains s.lookup.variant s.store
    let q := questionIn maxDName place qtype store.bytes
    (q.encodes = true ∧ s.refuse maxDName place qtype name domains =
      ⟨s.lookup.turn domains.length .refused, store, s.sent ++ [⟨s.lookup.localNs, q⟩]⟩) ∨
    (q.encodes = false ∧ s.refuse maxDName place qtype name domains =
      ⟨s.lookup.turn domains.length .encodeFails, store, s.sent⟩) := by
  intro store q
  cases hq : q.encodes with
  | true => exact .inl ⟨rfl, if_pos hq⟩
  | false => exact .inr ⟨rfl, if_neg (by rw [hq]; decide)⟩

theorem InOrder.refuse (h : InOrder nscount ns domains.length s) :
    InOrder nscount ns domains.length (s.refuse maxDName place qtype name domains) := by
  rcases refuse_cases s with ⟨-, hsent⟩ | ⟨-, hfailed⟩
  · obtain ⟨hnscount, hvariant, hlocalNs⟩ := @again_inOrder nscount ns
      { s.lookup with localId := (s.lookup.localId + 1) % 65536 } domains.length s.sent.length
      h.variant h.localNs h.count
    rw [hsent]
    constructor
    · exact hnscount
    · rw [List.length_append]
      exact hvariant
    · rw [List.length_append]
      exact hlocalNs
    · exact forall_getElem_concat (P := fun i (query : Query) =>
        query.server = (ns % nscount + i / (domains.length + 1)) % nscount) h.servers h.localNs
  · rw [hfailed]
    exact ⟨h.count, h.variant, h.localNs, h.servers⟩

/-- What every turn keeps holds behind any number of replies. -/
theorem refusals_invariant {Inv : Sending → Prop}
    (hturn : ∀ s, Inv s → s.lookup.loops = true → Inv (s.refuse maxDName place qtype name domains))
    (h : Inv s) : Inv (Sending.refusals maxDName place qtype name domains replies s) := by
  induction replies generalizing s with
  | zero => exact h
  | succ replies ih =>
      rw [Sending.refusals]
      split
      · rename_i hloops
        exact ih (hturn s h hloops)
      · exact h

theorem composeName_alone {variant : Int} {store : Store} (h : variant < 0) :
    composeName maxDName place name domains variant store =
      store.write place (padded name maxDName) :=
  if_neg (Int.not_le.mpr h)

theorem composeName_domain {store : Store} {k : Nat} (h : k < domains.length) :
    composeName maxDName place name domains k store =
      ((store.write place (padded name maxDName)).write (place + name.length)
        (padded [dot] maxDName)).write (place + name.length)
          (padded (domains.getD k []) maxDName) := by
  rw [composeName, if_pos (Int.natCast_nonneg k), if_pos (Int.ofNat_lt.mpr h)]
  rfl

theorem stringIn_padded {text : List UInt8} {m : Nat → UInt8} (hfits : text.length < maxDName)
    (hnonnull : 0 ∉ text) :
    StringIn (write m place (padded text maxDName)) place maxDName text := by
  refine ⟨hfits, ?_, hnonnull⟩
  have hpart := @read_write_part m place (text.length + 1) (padded text maxDName) 0
    (by rw [length_padded]; omega)
  rw [Nat.add_zero, List.drop_zero, take_padded hfits] at hpart
  exact hpart

/-- The domain takes the place of the dot: the name is asked for with the domain directly behind
it. -/
theorem composeName_text {store : Store} {k : Nat} (hk : k < domains.length)
    (hfits : name.length + (domains.getD k []).length < maxDName) (hname : 0 ∉ name)
    (hdomain : 0 ∉ domains.getD k []) :
    StringIn (composeName maxDName place name domains k store).bytes place maxDName
      (name ++ domains.getD k []) := by
  have hbehind := @stringIn_padded maxDName (place + name.length) (domains.getD k [])
    (write (write store.bytes place (padded name maxDName)) (place + name.length)
      (padded [dot] maxDName)) (by omega) hdomain
  rw [composeName_domain hk]
  refine ⟨by rwa [List.length_append], ?_, ?_⟩
  · have hsplit : (name ++ domains.getD k []).length + 1 =
        name.length + (domains.getD k [] ++ [0]).length := by
      simp [Nat.add_assoc]
    obtain ⟨hfront, -⟩ := (@read_append_iff _ place name [0]).mp
      (@stringIn_padded maxDName place name store.bytes (by omega) hname).chars
    rw [hsplit, List.append_assoc, read_append_iff]
    constructor
    · rw [Store.bytes_write, Store.bytes_write, Store.bytes_write,
        read_write_of_disjoint (.inl (Nat.le_refl _)),
        read_write_of_disjoint (.inl (Nat.le_refl _)), hfront]
    · rw [List.length_append, List.length_singleton]
      exact hbehind.chars
  · rw [List.mem_append]
    exact fun h => h.elim hname hdomain

theorem begin_inOrder (d id : Nat) (nRetries : Int) (memory : Nat → UInt8) :
    InOrder nscount ns d ⟨.begin nscount ns id nRetries, ⟨memory, []⟩, []⟩ where
  count := rfl
  variant := by
    change (-1 : Int) = _
    rw [List.length_nil, Nat.zero_mod]
    rfl
  localNs := by
    change ns % nscount = _
    rw [List.length_nil, Nat.zero_div, Nat.add_zero, Nat.mod_mod]
  servers := fun i hi => absurd hi (Nat.not_lt_zero i)

theorem begin_loops_iff {id : Nat} : (Lookup.begin nscount ns id nRetries).loops = true ↔
    nscount ≠ 0 ∧ 0 < nRetries := by
  rw [Lookup.loops_iff]
  change (if nscount = 0 then Phase.returned false else .looping) = .looping ∧
    (0 : Int) < nRetries ↔ _
  by_cases hnone : nscount = 0
  · rw [if_pos hnone]
    exact iff_of_false (fun h => nomatch h.1) (fun h => h.1 hnone)
  · rw [if_neg hnone]
    exact ⟨fun h => ⟨hnone, h.2⟩, fun h => ⟨rfl, h.2⟩⟩

/-- `__encode_question` does not fail on this string. -/
def Encodes (qtype : BitVec 32) (text : List UInt8) : Prop :=
  (Question.mk text qtype cIn).encodes = true

instance (qtype : BitVec 32) (text : List UInt8) : Decidable (Encodes qtype text) :=
  inferInstanceAs (Decidable (_ = true))

/-- No query asks for a name in a search domain: there is none, or a question cannot be
encoded before. -/
def NoDomainAsked (qtype : BitVec 32) (name : List UInt8) (domains : List (List UInt8)) : Prop :=
  domains = [] ∨ ¬ Encodes qtype name ∨ name = [] ∧ ¬ Encodes qtype (domains.getD 0 [])

theorem questionIn_eq {m : Nat → UInt8} {text : List UInt8} (h : StringIn m place maxDName text) :
    questionIn maxDName place qtype m = ⟨text, qtype, cIn⟩ := by
  rw [questionIn, h.takeWhile_read]

theorem questionIn_alone {variant : Int} {store : Store} (hvariant : variant < 0)
    (hfits : name.length < maxDName) (hname : 0 ∉ name) :
    questionIn maxDName place qtype (composeName maxDName place name domains variant store).bytes =
      ⟨name, qtype, cIn⟩ := by
  rw [composeName_alone hvariant]
  exact questionIn_eq (stringIn_padded hfits hname)

theorem questionIn_domain {store : Store} {k : Nat} (hk : k < domains.length)
    (hfits : name.length + (domains.getD k []).length < maxDName) (hname : 0 ∉ name)
    (hdomain : 0 ∉ domains.getD k []) :
    questionIn maxDName place qtype (composeName maxDName place name domains k store).bytes =
      ⟨name ++ domains.getD k [], qtype, cIn⟩ :=
  questionIn_eq (composeName_text hk hfits hname hdomain)

theorem composeName_domain_within {store : Store} {k : Nat} (hk : k < domains.length) :
    (composeName maxDName place name domains k store).Within place maxDName ↔
      store.Within place maxDName ∧ name = [] := by
  rw [composeName_domain hk, Store.within_write, Store.within_write, Store.within_write,
    length_padded, length_padded, length_padded, ← List.length_eq_zero_iff]
  constructor
  · rintro ⟨⟨⟨hwithin, -⟩, hbehind⟩, -⟩
    exact ⟨hwithin, by omega⟩
  · rintro ⟨hwithin, hempty⟩
    exact ⟨⟨⟨hwithin, by omega⟩, by omega⟩, by omega⟩

/-- As long as the code keeps to its names, the next turn is the first of the lookup, or there
are no search domains, or the name alone has been asked for. -/
structure Ahead (maxDName place : Nat) (qtype : BitVec 32) (name : List UInt8)
    (domains : List (List UInt8)) (nscount ns : Nat) (s : Sending) : Prop where
  order : InOrder nscount ns domains.length s
  asks : AsksInOrder maxDName place qtype name domains nscount ns s
  next : s.lookup.loops = true →
    s.sent.length = 0 ∨ domains = [] ∨ s.sent.length = 1 ∧ Encodes qtype name

theorem getD_mem {k : Nat} (hk : k < domains.length) : domains.getD k [] ∈ domains := by
  rw [List.getD_eq_getElem _ _ hk]
  exact List.getElem_mem hk

theorem turn_encodeFails_loops (l : Lookup) (d : Nat) : (l.turn d .encodeFails).loops = false := by
  simp [Lookup.turn, Lookup.loops]

/-- A turn for the name alone. -/
theorem AsksInOrder.refuse_alone (horder : InOrder nscount ns domains.length s)
    (h : AsksInOrder maxDName place qtype name domains nscount ns s)
    (hfits : name.length < maxDName) (hname : 0 ∉ name)
    (halone : s.sent.length % (domains.length + 1) = 0) :
    AsksInOrder maxDName place qtype name domains nscount ns
        (s.refuse maxDName place qtype name domains) ∧
      (Encodes qtype name ∧
          (s.refuse maxDName place qtype name domains).sent.length = s.sent.length + 1 ∨
        (s.refuse maxDName place qtype name domains).lookup.loops = false) := by
  have hvariant : s.lookup.variant < 0 := by
    rw [horder.variant, halone]
    decide
  have hwithin : (composeName maxDName place name domains s.lookup.variant s.store).Within
      place maxDName := by
    rw [composeName_alone hvariant, Store.within_write, length_padded]
    exact ⟨h.within, Nat.le_refl _, Nat.le_refl _⟩
  have hquestion := @questionIn_alone maxDName place qtype name domains _ s.store hvariant hfits
    hname
  rcases refuse_cases s with ⟨hq, hsent⟩ | ⟨-, hfailed⟩
  · rw [hquestion] at hq
    rw [hsent, hquestion]
    refine ⟨⟨?_, ?_, hwithin⟩, .inl ⟨hq, by simp⟩⟩
    · exact forall_getElem_concat (P := fun i (query : Query) =>
        query.server = (ns % nscount + i / (domains.length + 1)) % nscount) h.servers horder.localNs
    · refine forall_getElem_concat (P := fun i (query : Query) =>
        query.question = ⟨questionName name domains (i % (domains.length + 1)), qtype, cIn⟩)
        h.names ?_
      rw [halone]
      rfl
  · rw [hfailed]
    exact ⟨⟨h.servers, h.names, hwithin⟩, .inr (turn_encodeFails_loops s.lookup domains.length)⟩

theorem Ahead.refuse (h : Ahead maxDName place qtype name domains nscount ns s)
    (hloops : s.lookup.loops = true) (hnone : NoDomainAsked qtype name domains)
    (hfits : name.length < maxDName) (hname : 0 ∉ name)
    (hdomains : ∀ d ∈ domains, 0 ∉ d ∧ name.length + 1 + d.length < maxDName) :
    Ahead maxDName place qtype name domains nscount ns
      (s.refuse maxDName place qtype name domains) := by
  have hnext := h.next hloops
  by_cases halone : s.sent.length % (domains.length + 1) = 0
  · obtain ⟨hasks, hended⟩ := h.asks.refuse_alone h.order hfits hname halone
    refine ⟨h.order.refuse, hasks, ?_⟩
    intro hloops'
    rcases hended with ⟨hencodes, hcount⟩ | hended
    · rcases hnext with hfirst | hnodomains | ⟨hone, -⟩
      · exact .inr (.inr ⟨by rw [hcount, hfirst], hencodes⟩)
      · exact .inr (.inl hnodomains)
      · refine .inr (.inl (List.length_eq_zero_iff.mp (Nat.eq_zero_of_not_pos ?_)))
        intro hdomain
        rw [hone, Nat.mod_eq_of_lt (by omega)] at halone
        cases halone
    · rw [hended] at hloops'
      cases hloops'
  · have hdomain : 0 < domains.length := by
      apply Nat.pos_of_ne_zero
      intro hzero
      rw [hzero, Nat.mod_one] at halone
      exact halone rfl
    rcases hnext with hfirst | hnodomains | ⟨hone, hencodes⟩
    · rw [hfirst, Nat.zero_mod] at halone
      exact absurd rfl halone
    · rw [hnodomains] at hdomain
      exact absurd hdomain (Nat.lt_irrefl 0)
    · obtain ⟨rfl, hfails⟩ : name = [] ∧ ¬ Encodes qtype (domains.getD 0 []) := by
        rcases hnone with rfl | hnone | hnone
        · exact absurd hdomain (Nat.lt_irrefl 0)
        · exact absurd hencodes hnone
        · exact hnone
      have hvariant : s.lookup.variant = (0 : Nat) := by
        rw [h.order.variant, hone, Nat.mod_eq_of_lt (by omega)]
        rfl
      obtain ⟨hnonnull, hroom⟩ := hdomains _ (getD_mem hdomain)
      have hquestion := @questionIn_domain maxDName place qtype [] domains s.store 0 hdomain
        (by omega) hname hnonnull
      have hwithin := (@composeName_domain_within maxDName place [] domains s.store 0 hdomain).mpr
        ⟨h.asks.within, rfl⟩
      rcases @refuse_cases maxDName place qtype [] domains s with ⟨hq, -⟩ | ⟨-, hfailed⟩
      · rw [hvariant, hquestion] at hq
        exact absurd hq hfails
      · rw [hvariant] at hfailed
        rw [hfailed]
        refine ⟨⟨h.order.count, h.order.variant, h.order.localNs, h.order.servers⟩,
          ⟨h.asks.servers, h.asks.names, hwithin⟩, ?_⟩
        intro hloops'
        rw [turn_encodeFails_loops] at hloops'
        cases hloops'

theorem turn_refused_loops {l : Lookup} {d : Nat} (hvariant : l.variant < (d : Int) - 1)
    (hloops : l.loops = true) : (l.turn d .refused).loops = true := by
  rw [Lookup.loops_iff] at hloops ⊢
  have hturn : l.turn d .refused =
      { l with localId := (l.localId + 1) % 65536, variant := l.variant + 1, phase := .looping } :=
    if_pos hvariant
  rw [hturn]
  exact ⟨rfl, hloops.2⟩

theorem refusals_of_not_loops (h : s.lookup.loops = false) :
    Sending.refusals maxDName place qtype name domains replies s = s := by
  cases replies with
  | zero => rfl
  | succ replies => rw [Sending.refusals, h, if_neg Bool.false_ne_true]

theorem begin_ahead (id : Nat) (nRetries : Int) (memory : Nat → UInt8) :
    Ahead maxDName place qtype name domains nscount ns
      ⟨.begin nscount ns id nRetries, ⟨memory, []⟩, []⟩ := by
  refine ⟨begin_inOrder domains.length id nRetries memory, ⟨?_, ?_, ?_⟩, fun _ => .inl rfl⟩
  · exact fun i hi => absurd hi (Nat.not_lt_zero i)
  · exact fun i hi => absurd hi (Nat.not_lt_zero i)
  · intro w hw
    cases hw

theorem refuse_store (s : Sending) : (s.refuse maxDName place qtype name domains).store =
    composeName maxDName place name domains s.lookup.variant s.store := by
  rcases refuse_cases s with ⟨-, hsent⟩ | ⟨-, hfailed⟩
  · rw [hsent]
  · rw [hfailed]

/-- The turn behind the first negative reply is for the first search domain. -/
theorem refuse_first (hloops : s.lookup.loops = true) (hsent : s.sent = [])
    (horder : InOrder nscount ns domains.length s) (hencodes : Encodes qtype name)
    (hdomain : 0 < domains.length) (hfits : name.length < maxDName) (hname : 0 ∉ name) :
    let s' := s.refuse maxDName place qtype name domains
    s'.lookup.loops = true ∧ s'.lookup.variant = (0 : Nat) ∧ s'.sent.length = 1 := by
  intro s'
  have horder' : InOrder nscount ns domains.length s' := horder.refuse
  have hvariant : s.lookup.variant = -1 := by
    rw [horder.variant, hsent, List.length_nil, Nat.zero_mod]
    rfl
  have hquestion := @questionIn_alone maxDName place qtype name domains s.lookup.variant s.store
    (by omega) hfits hname
  rcases @refuse_cases maxDName place qtype name domains s with ⟨-, hs'⟩ | ⟨hq, -⟩
  · have hcount : s'.sent.length = 1 := by
      change (s.refuse maxDName place qtype name domains).sent.length = 1
      rw [hs', hsent]
      rfl
    refine ⟨?_, ?_, hcount⟩
    · change (s.refuse maxDName place qtype name domains).lookup.loops = true
      rw [hs']
      exact turn_refused_loops (by omega) hloops
    · rw [horder'.variant, hcount, Nat.mod_eq_of_lt (by omega)]
      rfl
  · rw [hquestion] at hq
    exact absurd hencodes (by rw [Encodes, hq]; decide)

/-- Where a name in a search domain is asked for, it is not the right one, or what is composed
does not stay in the buffer. -/
theorem noDomainAsked_of_asks (hloops : (Lookup.begin nscount ns id nRetries).loops = true)
    (h : ∀ replies, AsksInOrder maxDName place qtype name domains nscount ns
      (Sending.dnsLookupAsync maxDName place qtype name domains nscount ns id nRetries memory
        replies))
    (hfits : name.length < maxDName) (hname : 0 ∉ name)
    (hdomains : ∀ d ∈ domains, 0 ∉ d ∧ name.length + 1 + d.length < maxDName) :
    NoDomainAsked qtype name domains := by
  by_cases hdomain : 0 < domains.length
  · by_cases hencodes : Encodes qtype name
    · obtain ⟨hnonnull, hroom⟩ := hdomains _ (getD_mem hdomain)
      have horder := @begin_inOrder nscount ns domains.length id nRetries memory
      obtain ⟨hloops', hvariant, hcount⟩ := @refuse_first maxDName place nscount ns qtype name
        domains _ hloops rfl horder hencodes hdomain hfits hname
      have hasks : AsksInOrder maxDName place qtype name domains nscount ns
          (((⟨.begin nscount ns id nRetries, ⟨memory, []⟩, []⟩ : Sending).refuse
            maxDName place qtype name domains).refuse maxDName place qtype name domains) := by
        have h2 := h 2
        rwa [Sending.dnsLookupAsync, Sending.refusals, if_pos hloops, Sending.refusals,
          if_pos hloops'] at h2
      generalize (⟨.begin nscount ns id nRetries, ⟨memory, []⟩, []⟩ : Sending).refuse
        maxDName place qtype name domains = s at hloops' hvariant hcount hasks
      have hquestion := @questionIn_domain maxDName place qtype name domains s.store 0 hdomain
        (by omega) hname hnonnull
      have hempty : name = [] := by
        have hwithin := hasks.within
        rw [refuse_store, hvariant, composeName_domain_within hdomain] at hwithin
        exact hwithin.2
      refine .inr (.inr ⟨hempty, ?_⟩)
      intro hencodes'
      rcases @refuse_cases maxDName place qtype name domains s with ⟨-, hs'⟩ | ⟨hq, -⟩
      · have hasked := hasks.names
        rw [hs', hvariant, hquestion] at hasked
        have hsecond := hasked 1 (by rw [List.length_append, hcount]; exact Nat.lt_succ_self 1)
        rw [List.getElem_concat_length hcount.symm, Nat.mod_eq_of_lt (by omega)] at hsecond
        have hlength := congrArg (fun q : Question => q.dotted.length) hsecond
        change (name ++ domains.getD 0 []).length = (name ++ dot :: domains.getD 0 []).length
          at hlength
        rw [List.length_append, List.length_append, List.length_cons] at hlength
        omega
      · rw [hvariant, hquestion, hempty, List.nil_append] at hq
        exact absurd hencodes' (by rw [Encodes, hq]; decide)
    · exact .inr (.inl hencodes)
  · exact .inl (List.length_eq_zero_iff.mp (Nat.eq_zero_of_not_pos hdomain))

theorem dnsLookupAsync_asks_iff (hfits : name.length < maxDName) (hname : 0 ∉ name)
    (hdomains : ∀ d ∈ domains, 0 ∉ d ∧ name.length + 1 + d.length < maxDName) :
    (∀ replies, AsksInOrder maxDName place qtype name domains nscount ns
      (Sending.dnsLookupAsync maxDName place qtype name domains nscount ns id nRetries memory
        replies)) ↔
      nscount = 0 ∨ nRetries ≤ 0 ∨ NoDomainAsked qtype name domains := by
  have hbegin := @begin_ahead maxDName place nscount ns qtype name domains id nRetries memory
  cases hloops : (Lookup.begin nscount ns id nRetries).loops with
  | false =>
      have hnone : nscount = 0 ∨ nRetries ≤ 0 := by
        have hloops' : ¬ (nscount ≠ 0 ∧ 0 < nRetries) := by
          rw [← @begin_loops_iff nscount ns nRetries id, hloops]
          exact Bool.false_ne_true
        omega
      refine iff_of_true ?_ (or_assoc.mp (.inl hnone))
      intro replies
      rw [Sending.dnsLookupAsync, refusals_of_not_loops hloops]
      exact hbegin.asks
  | true =>
      obtain ⟨hnscount, hretries⟩ := begin_loops_iff.mp hloops
      constructor
      · intro h
        exact .inr (.inr (noDomainAsked_of_asks hloops h hfits hname hdomains))
      · intro h replies
        have hnone : NoDomainAsked qtype name domains :=
          (h.resolve_left hnscount).resolve_left (Int.not_le.mpr hretries)
        have hahead := @refusals_invariant maxDName place replies qtype name domains _
          (Ahead maxDName place qtype name domains nscount ns)
          (fun s hs hloops => hs.refuse hloops hnone hfits hname hdomains) hbegin
        exact hahead.asks

/-- Queries that negative replies follow ask for the name in the search domains exactly where
there is nothing to compose. -/
theorem search_domains_asked_iff (conf : Option ResolvConf) (g : Globals)
    (hfits : name.length < maxDName) (hname : 0 ∉ name)
    (hdomains : ∀ d ∈ searchDomains conf g, 0 ∉ d ∧ name.length + 1 + d.length < maxDName) :
    ((∀ replies, AsksInOrder maxDName place qtype name (searchDomains conf g) nscount ns
        (Sending.dnsLookupAsync maxDName place qtype name (searchDomains conf g) nscount ns id
          nRetries memory replies)) ↔
      nscount = 0 ∨ nRetries ≤ 0 ∨ NoDomainAsked qtype name (searchDomains conf g)) ∧
    ((∀ replies, AsksInOrder maxDName place qtype name (searchDomains conf g) nscount ns
        (Sending.dnsLookup maxDName place qtype name (searchDomains conf g) nscount ns id memory
          replies)) ↔
      nscount = 0 ∨ NoDomainAsked qtype name (searchDomains conf g)) := by
  refine ⟨dnsLookupAsync_asks_iff hfits hname hdomains, ?_⟩
  have hretries : ¬ maxRetries ≤ 0 := by decide
  have h := @dnsLookupAsync_asks_iff maxDName place nscount ns id qtype maxRetries name
    (searchDomains conf g) memory hfits hname hdomains
  rw [or_iff_right hretries] at h
  exact h

def oneSearchDomain : Option ResolvConf := some [["nameserver", "10.0.0.1"], ["search", "b"]]

theorem searchDomains_oneSearchDomain : searchDomains oneSearchDomain .init = [[98]] := by decide

/-- A name that no packet has room for. -/
def longName : List UInt8 := List.replicate 600 97

theorem search_domains_asked_longName :
    searchDomains oneSearchDomain .init = [[98]] ∧ ∀ replies,
      AsksInOrder 1025 4096 typeA longName (searchDomains oneSearchDomain .init) 1 0
        (Sending.dnsLookup 1025 4096 typeA longName (searchDomains oneSearchDomain .init) 1 0 1
          (fun _ => 0) replies) := by
  have hdomains : ∀ d ∈ searchDomains oneSearchDomain .init,
      0 ∉ d ∧ longName.length + 1 + d.length < 1025 := by
    rw [searchDomains_oneSearchDomain]
    simp [longName, -List.reduceReplicate]
  have hfits : longName.length < 1025 := by simp [longName, -List.reduceReplicate]
  have hname : 0 ∉ longName := fun h => absurd (List.eq_of_mem_replicate h) (by decide)
  have hrefused : ¬ Encodes typeA longName := by decide +kernel
  exact ⟨searchDomains_oneSearchDomain,
    (@search_domains_asked_iff 1025 4096 1 0 1 typeA 4 longName (fun _ => 0) oneSearchDomain .init
      hfits hname hdomains).2.mpr (.inr (.inr (.inl hrefused)))⟩

theorem search_domain_not_asked :
    ¬ ∀ (maxDName place nscount ns id : Nat) (qtype : BitVec 32) (name : List UInt8)
      (conf : Option ResolvConf) (g : Globals) (memory : Nat → UInt8) (replies : Nat),
      name.length < maxDName → 0 ∉ name →
      (∀ d ∈ searchDomains conf g, 0 ∉ d ∧ name.length + 1 + d.length < maxDName) →
      AsksInOrder maxDName place qtype name (searchDomains conf g) nscount ns
        (Sending.dnsLookup maxDName place qtype name (searchDomains conf g) nscount ns id memory
          replies) := by
  intro h
  have hdomains := searchDomains_oneSearchDomain
  have hbounds : ∀ d ∈ searchDomains oneSearchDomain .init,
      0 ∉ d ∧ [97].length + 1 + d.length < 1025 := by
    rw [hdomains]
    decide
  have hasks := fun replies => h 1025 4096 1 0 1 typeA [97] oneSearchDomain .init (fun _ => 0)
    replies (by decide) (by decide) hbounds
  have hnone := noDomainAsked_of_asks (by decide) hasks (by decide) (by decide) hbounds
  rw [hdomains] at hnone
  exact absurd hnone (by unfold NoDomainAsked; decide)

end EventLoop.Dns
