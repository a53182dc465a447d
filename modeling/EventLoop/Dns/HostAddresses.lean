import EventLoop.Dns.Asking
import EventLoop.Dns.ServerTable

/-!
`gethostbyname_r_2` and its twin. The caller's buffer is cut into the first address, a table of
two pointers, the aliases and the rest; the lookup copies the further addresses to the start of
the rest, and where there are any they are moved down by the size of the table, which is built
anew behind them.
-/

namespace EventLoop.Dns

open ByteMemory

/-- `ALIAS_DIM` -/
def aliasDim : Nat := 8

/-- `AF_INET` -/
def afInet : Nat := 2

structure Hostent where
  hName : Nat
  hAliases : Nat
  hAddrtype : Nat
  hLength : Nat
  hAddrList : Nat
deriving DecidableEq, Repr

inductive Ret where
  | netdbSuccess
  | einval
  | erange
  | tryAgain
deriving DecidableEq, Repr

/-- What is stored in `*h_errnop`. -/
inductive HostError where
  | netdbSuccess
  | netdbInternal
  | hostNotFound
deriving DecidableEq, Repr

/-- The locals that point into the buffer, and what is left of `buflen`. -/
structure Frame where
  inAddr : Nat
  addrList : Nat
  aliasList : Nat
  buf : Nat
  buflen : Nat
deriving DecidableEq, Repr

/-- A return, with the globals and the caller's memory; `lookup` is the lookup it waited for. -/
structure HostCall where
  ret : Ret
  hErrno : Option HostError
  result : Option Hostent
  globals : Globals
  store : Store
  lookup : Option Asking

/-- `p[0] = first; p[1] = second;` for two pointers. -/
def storePair (s : Store) (p first second : Nat) : Store :=
  (s.write p (wordBytes pointerSize first)).write (p + pointerSize) (wordBytes pointerSize second)

/-- Up to `alias[1] = NULL`; on the left where the code returns `ERANGE`. -/
def layOut (name : List UInt8) (buf buflen : Nat) (s : Store) : Store ⊕ Frame × Store :=
  if buflen < inAddrSize then .inl s
  else
    let inAddr := buf
    let buf := buf + inAddrSize
    let buflen := buflen - inAddrSize
    if buflen < pointerSize * 2 then .inl s
    else
      let addrList := buf
      let buf := buf + pointerSize * 2
      let buflen := buflen - pointerSize * 2
      let s := storePair s addrList inAddr 0
      if buflen < pointerSize * aliasDim then .inl s
      else
        let aliasList := buf
        let buf := buf + pointerSize * aliasDim
        let buflen := buflen - pointerSize * aliasDim
        if buflen < 256 then .inl s
        else
          let s := s.write buf (padded name buflen)
          .inr (⟨inAddr, addrList, aliasList, buf, buflen⟩, storePair s aliasList buf 0)

/-- `for (i = a.add_count-1; i>=0; --i) addr_list[i+1] = ...` -/
def storeAddresses (addresses addrList rdlength : Nat) : Nat → Store → Store
  | 0, s => s
  | i + 1, s => storeAddresses addresses addrList rdlength i
      (s.write (addrList + pointerSize * (i + 1)) (wordBytes pointerSize (addresses + rdlength * i)))

/-- The branch of `a.add_count > 0`: the memory, and where the name goes. -/
def spreadAddresses (f : Frame) (a : ResolvAnswer) (s : Store) : Frame × Store :=
  let addresses := f.buf - pointerSize * 2
  let s := s.write addresses (read s.bytes f.buf (a.addCount * a.rdlength))
  let addrList := f.buf + a.addCount * a.rdlength
  let s := s.write addrList (wordBytes pointerSize f.inAddr)
  let s := storeAddresses addresses addrList a.rdlength a.addCount s
  let s := s.write (addrList + pointerSize * (a.addCount + 1)) (wordBytes pointerSize 0)
  let behind := addrList + pointerSize * (a.addCount + 2)
  ({ f with addrList := addrList, buf := behind, buflen := f.buflen - (behind - f.buf) }, s)

/-- Behind the lookup, with `__nameserverXX[0]` put back already. -/
def answerCall (f : Frame) (g : Globals) (lookup : Asking) : HostCall :=
  let a := lookup.a
  if lookup.lookup.phase ≠ .returned true then
    ⟨.tryAgain, some .hostNotFound, none, g, lookup.store, some lookup⟩
  else if f.buflen < (a.rdlength + pointerSize) * a.addCount + 256 then
    ⟨.erange, some .netdbInternal, none, g, lookup.store, some lookup⟩
  else
    let (f, s) := if 0 < a.addCount then spreadAddresses f a lookup.store else (f, lookup.store)
    let s := s.write f.buf (padded (a.dotted.takeWhile (· ≠ 0)) f.buflen)
    if a.atype = typeA then
      let s := s.write f.inAddr (bytesAt lookup.packet a.rdoffset inAddrSize)
      ⟨.netdbSuccess, some .netdbSuccess,
        some ⟨f.buf, f.aliasList, afInet, inAddrSize, f.addrList⟩, g, s, some lookup⟩
    else ⟨.tryAgain, some .hostNotFound, none, g, s, some lookup⟩

/-- The number of servers and the table that a `serverchoice` makes of those loaded. -/
def chooseServer (g : Globals) (serverchoice : Int) : Nat × Globals :=
  if serverchoice = 1 then (1, g)
  else if serverchoice = 2 then
    (1, { g with nameserver := g.nameserver.set 0 (g.nameserver.get 1) zero_lt_maxServers })
  else (g.nameservers, g)

/-- The globals behind a lookup: its `ns` and `id`, and `__nameserverXX[0]` put back. -/
def restoreServer (g : Globals) (backup : Option String) (lookup : Lookup) : Globals :=
  let g := if lookup.nscount = 0 then g else { g with ns := lookup.localNs, id := lookup.localId }
  { g with nameserver := g.nameserver.set 0 backup zero_lt_maxServers }

/-- `a` as it is given to the lookup. Its other fields are not initialised; they are stored before
a lookup succeeds. -/
def Frame.answer (f : Frame) : ResolvAnswer := ⟨⟨[], 0, 0, 0⟩, true, true, f.buflen, 0, []⟩

/-- `__nameserverXX[__nameserversXX-1]`; `before` is what stands before the array. -/
def lastServer (before : Option String) (nscount : Nat) (g : Globals) : Option String :=
  if nscount = 0 then before else g.nameserver.toList.getD (nscount - 1) none

/-- Up to the lookup: `*result=NULL`, the checks of the name and the buffer, and the name that is
an address; `lookUp` is what follows. -/
def withBuffer (inetAton : List UInt8 → Option (Vector UInt8 4)) (g : Globals)
    (name : Option (List UInt8)) (buf buflen : Nat) (s : Store)
    (lookUp : Frame → Store → Option HostCall) : Option HostCall :=
  match name with
  | none => some ⟨.einval, none, none, g, s, none⟩
  | some name =>
      match layOut name buf buflen s with
      | .inl s => some ⟨.erange, some .netdbInternal, none, g, s, none⟩
      | .inr (f, s) =>
          match inetAton name with
          | some address =>
              some ⟨.netdbSuccess, some .netdbSuccess,
                some ⟨f.buf, f.aliasList, afInet, inAddrSize, f.addrList⟩, g,
                s.write f.inAddr address.toList, none⟩
          | none => lookUp f s

/-- `gethostbyname_r_2`; `none` if the lookup has not returned by then. -/
def gethostbynameR2 (inetAton : List UInt8 → Option (Vector UInt8 4)) (before : Option String)
    (conf : Option ResolvConf) (g : Globals) (name : Option (List UInt8)) (buf buflen : Nat)
    (serverchoice : Int) (arrivals : List (Arrival × Nat)) (fuel : Nat) (s : Store) :
    Option HostCall :=
  let g := openNameservers conf g
  withBuffer inetAton g name buf buflen s (fun f s =>
    let backup := g.nameserver.get 0
    let (nscount, g) := chooseServer g serverchoice
    if lastServer before nscount g = none then
      some ⟨.tryAgain, some .hostNotFound, none, g, s, none⟩
    else
      (Asking.dnsLookup nscount g.ns g.id f.answer f.buf s arrivals fuel).map (fun lookup =>
        answerCall f (restoreServer g backup lookup.lookup) lookup))

/-- `gethostbyname_r_2_async`: loads the servers only once, has a retry limit of its own and
does not ask whether there is a server. -/
def gethostbynameR2Async (inetAton : List UInt8 → Option (Vector UInt8 4))
    (conf : Option ResolvConf) (g : Globals) (name : Option (List UInt8)) (buf buflen : Nat)
    (serverchoice nRetries : Int) (arrivals : List (Arrival × Nat)) (fuel : Nat) (s : Store) :
    Option HostCall :=
  let g := firstInit conf g
  withBuffer inetAton g name buf buflen s (fun f s =>
    let backup := g.nameserver.get 0
    let (nscount, g) := chooseServer g serverchoice
    (Asking.dnsLookupAsync nscount g.ns g.id nRetries f.answer f.buf s arrivals fuel).map
      (fun lookup => answerCall f (restoreServer g backup lookup.lookup) lookup))

variable {inetAton : List UInt8 → Option (Vector UInt8 4)} {before : Option String}
  {conf : Option ResolvConf} {g : Globals} {name : Option (List UInt8)} {buf buflen fuel : Nat}
  {serverchoice nRetries : Int} {arrivals : List (Arrival × Nat)} {s : Store} {r : HostCall}

/-- The name is there, is no address, and the buffer has room for what precedes a lookup. -/
def LooksUp (inetAton : List UInt8 → Option (Vector UInt8 4)) (name : Option (List UInt8))
    (buflen : Nat) : Prop :=
  ∃ chars, name = some chars ∧ inetAton chars = none ∧ 340 ≤ buflen

/-- The server asked for is the second, there is none, and there is a first. -/
def SecondMissing (g : Globals) (serverchoice : Int) : Prop :=
  serverchoice = 2 ∧ g.nameserver.get 1 = none ∧ g.nameserver.get 0 ≠ none

theorem layOut_inl {chars : List UInt8} (h : buflen < 340) :
    layOut chars buf buflen s = .inl s ∨
      layOut chars buf buflen s = .inl (storePair s (buf + 4) buf 0) ∧ 20 ≤ buflen := by
  have hin : inAddrSize = 4 := rfl
  have hpair : pointerSize * 2 = 16 := rfl
  have halias : pointerSize * aliasDim = 64 := rfl
  by_cases hfirst : buflen < inAddrSize
  · exact .inl (if_pos hfirst)
  · by_cases hsecond : buflen - inAddrSize < pointerSize * 2
    · exact .inl ((if_neg hfirst).trans (if_pos hsecond))
    · refine .inr ⟨?_, by omega⟩
      by_cases hthird : buflen - inAddrSize - pointerSize * 2 < pointerSize * aliasDim
      · exact (if_neg hfirst).trans ((if_neg hsecond).trans (if_pos hthird))
      · have hfourth : buflen - inAddrSize - pointerSize * 2 - pointerSize * aliasDim < 256 := by
          omega
        exact (if_neg hfirst).trans ((if_neg hsecond).trans ((if_neg hthird).trans
          (if_pos hfourth)))

/-- The memory behind `alias[1] = NULL`. -/
def laidOut (chars : List UInt8) (buf buflen : Nat) (s : Store) : Store :=
  storePair ((storePair s (buf + 4) buf 0).write (buf + 84) (padded chars (buflen - 84)))
    (buf + 20) (buf + 84) 0

/-- The parts of a buffer that is long enough. -/
def framed (buf buflen : Nat) : Frame := ⟨buf, buf + 4, buf + 20, buf + 84, buflen - 84⟩

theorem layOut_inr {chars : List UInt8} (h : 340 ≤ buflen) :
    layOut chars buf buflen s = .inr (framed buf buflen, laidOut chars buf buflen s) := by
  have hin : inAddrSize = 4 := rfl
  have hpair : pointerSize * 2 = 16 := rfl
  have halias : pointerSize * aliasDim = 64 := rfl
  have hleft : buflen - 4 - 16 - 64 = buflen - 84 := by omega
  rw [layOut, if_neg (by omega)]
  dsimp only
  rw [if_neg (by omega), if_neg (by omega), if_neg (by omega), hin, hpair, halias, hleft]
  rfl

@[simp] theorem storePair_within {base len p first second : Nat} :
    (storePair s p first second).Within base len ↔
      s.Within base len ∧ base ≤ p ∧ p + 16 ≤ base + len := by
  simp only [storePair, Store.within_write, length_wordBytes, pointerSize]
  constructor
  · rintro ⟨⟨hs, hfirst, -⟩, -, hlast⟩
    exact ⟨hs, hfirst, hlast⟩
  · rintro ⟨hs, hfirst, hlast⟩
    exact ⟨⟨hs, hfirst, by omega⟩, by omega, hlast⟩

theorem laidOut_within {chars : List UInt8} (h : 340 ≤ buflen) (hs : s.Within buf buflen) :
    (laidOut chars buf buflen s).Within buf buflen := by
  simp only [laidOut, storePair_within, Store.within_write, length_padded]
  exact ⟨⟨⟨hs, by omega, by omega⟩, by omega, by omega⟩, by omega, by omega⟩

/-- What comes before the lookup leaves the globals alone and stays in the buffer. -/
theorem withBuffer_cases {lookUp : Frame → Store → Option HostCall}
    (h : withBuffer inetAton g name buf buflen s lookUp = some r) :
    (¬ LooksUp inetAton name buflen ∧ r.globals = g ∧ r.lookup = none ∧
        (s.Within buf buflen → r.store.Within buf buflen)) ∨
      LooksUp inetAton name buflen ∧ ∃ chars,
        lookUp (framed buf buflen) (laidOut chars buf buflen s) = some r := by
  unfold withBuffer at h
  cases name with
  | none =>
      obtain rfl := Option.some.inj h
      exact .inl ⟨nofun, rfl, rfl, id⟩
  | some chars =>
      dsimp only at h
      by_cases hroom : 340 ≤ buflen
      · rw [layOut_inr hroom] at h
        cases haddress : inetAton chars with
        | none =>
            rw [haddress] at h
            exact .inr ⟨⟨chars, rfl, haddress, hroom⟩, chars, h⟩
        | some address =>
            rw [haddress] at h
            obtain rfl := Option.some.inj h
            refine .inl ⟨?_, rfl, rfl, ?_⟩
            · rintro ⟨chars', hchars, hnone, -⟩
              obtain rfl := Option.some.inj hchars
              rw [haddress] at hnone
              cases hnone
            · intro hs
              have haddressLength : address.toList.length = 4 := Vector.length_toList
              rw [Store.within_write, haddressLength]
              exact ⟨laidOut_within hroom hs, Nat.le_refl _, by change buf + 4 ≤ _; omega⟩
      · have hnot : ¬ LooksUp inetAton (some chars) buflen := by
          rintro ⟨_, -, -, henough⟩
          exact hroom henough
        rcases @layOut_inl buf buflen s chars (Nat.lt_of_not_le hroom) with hs' | ⟨hs', htable⟩
        · rw [hs'] at h
          obtain rfl := Option.some.inj h
          exact .inl ⟨hnot, rfl, rfl, id⟩
        · rw [hs'] at h
          obtain rfl := Option.some.inj h
          refine .inl ⟨hnot, rfl, rfl, ?_⟩
          intro hs
          exact storePair_within.mpr ⟨hs, by omega, by omega⟩

theorem answerCall_globals (f : Frame) (g : Globals) (lookup : Asking) :
    (answerCall f g lookup).globals = g := by
  rw [answerCall]
  dsimp only
  split
  · rfl
  · split
    · rfl
    · split <;> rfl

/-- Whichever server was chosen, what is put back is the table that was loaded. -/
theorem restoreServer_chooseServer (g : Globals) (serverchoice : Int) (lookup : Lookup) :
    (restoreServer (chooseServer g serverchoice).2 (g.nameserver.get 0) lookup).nameserver =
      g.nameserver := by
  have hself : g.nameserver.set 0 (g.nameserver.get 0) zero_lt_maxServers = g.nameserver :=
    Vector.set_getElem_self _
  have hkept :
      (restoreServer (chooseServer g serverchoice).2 (g.nameserver.get 0) lookup).nameserver =
        (chooseServer g serverchoice).2.nameserver.set 0 (g.nameserver.get 0)
          zero_lt_maxServers := by
    rw [restoreServer]
    split <;> rfl
  rw [hkept, chooseServer]
  split
  · exact hself
  · split
    · change (g.nameserver.set 0 (g.nameserver.get 1) zero_lt_maxServers).set 0
        (g.nameserver.get 0) zero_lt_maxServers = _
      rw [Vector.set_set]
      exact hself
    · exact hself

theorem lastServer_second (before : Option String) (g : Globals) :
    lastServer before (chooseServer g 2).1 (chooseServer g 2).2 = g.nameserver.get 1 := by
  simp [lastServer, chooseServer]

/-- Where no server is found the table is as loaded, unless the second was asked for. -/
theorem chooseServer_missing
    (hmissing : lastServer before (chooseServer g serverchoice).1 (chooseServer g serverchoice).2 =
      none) :
    (chooseServer g serverchoice).2.nameserver = g.nameserver ↔ ¬ SecondMissing g serverchoice := by
  by_cases hsecond : serverchoice = 2
  · subst hsecond
    have hnone : g.nameserver.get 1 = none := (lastServer_second before g).symm.trans hmissing
    have hchosen :
        (chooseServer g 2).2.nameserver = g.nameserver.set 0 none zero_lt_maxServers := by
      rw [← hnone]
      rfl
    rw [hchosen, SecondMissing]
    constructor
    · rintro hsame ⟨-, -, hfirst⟩
      rw [← hsame] at hfirst
      exact hfirst (Vector.getElem_set_self _)
    · intro hnot
      have hfirst : g.nameserver.get 0 = none :=
        Classical.not_not.mp (fun hne => hnot ⟨rfl, hnone, hne⟩)
      rw [← hfirst]
      exact Vector.set_getElem_self _
  · refine iff_of_true ?_ (fun h => hsecond h.1)
    rw [chooseServer, if_neg hsecond]
    split <;> rfl

/-- The server table behind a lookup that has returned. -/
theorem table_looked_up {f : Frame} {lookup : Asking} :
    (answerCall f (restoreServer (chooseServer g serverchoice).2 (g.nameserver.get 0) lookup.lookup)
      lookup).globals.nameserver = g.nameserver := by
  rw [answerCall_globals, restoreServer_chooseServer]

/-- On every return the server table is as it was loaded for the call, unless the lookup is not
begun because the server asked for is the second and there is only a first. -/
theorem table_restored_iff
    (hrun : gethostbynameR2 inetAton before conf g name buf buflen serverchoice arrivals fuel s =
      some r) :
    r.globals.nameserver = (openNameservers conf g).nameserver ↔
      ¬ (LooksUp inetAton name buflen ∧ SecondMissing (openNameservers conf g) serverchoice) := by
  rcases withBuffer_cases hrun with ⟨hnot, hglobals, -⟩ | ⟨hlooks, chars, hlookup⟩
  · rw [hglobals]
    exact iff_of_true rfl (fun h => hnot h.1)
  · rw [and_iff_right hlooks]
    dsimp only at hlookup
    split at hlookup
    · rename_i hmissing
      obtain rfl := Option.some.inj hlookup
      exact chooseServer_missing hmissing
    · rename_i hpresent
      obtain ⟨lookup, -, rfl⟩ := Option.map_eq_some_iff.mp hlookup
      refine iff_of_true table_looked_up ?_
      rintro ⟨rfl, hnone, -⟩
      exact hpresent ((lastServer_second before _).trans hnone)

/-- One server. -/
def firstServerOnly : Option ResolvConf := some [["nameserver", "10.0.0.1"]]

theorem second_server_restored : ∃ r,
    gethostbynameR2 (fun _ => none) none twoServers .init (some [97]) 4096 340 2
        [(.timedOut, 0)] 4 ⟨fun _ => 0, []⟩ = some r ∧ r.ret = .tryAgain ∧
      r.globals.nameserver = (openNameservers twoServers .init).nameserver := by
  have hrun : ∃ r, gethostbynameR2 (fun _ => none) none twoServers .init (some [97]) 4096 340 2
      [(.timedOut, 0)] 4 ⟨fun _ => 0, []⟩ = some r ∧ r.ret = .tryAgain := ⟨_, rfl, rfl⟩
  obtain ⟨r, hr, hret⟩ := hrun
  refine ⟨r, hr, hret, (table_restored_iff hr).mpr ?_⟩
  rintro ⟨-, -, hnone, -⟩
  exact absurd hnone (by decide)

/-- The second of one server is asked for: the call fails and leaves no first server. -/
theorem missing_server_not_restored :
    ¬ ∀ (inetAton : List UInt8 → Option (Vector UInt8 4)) (before : Option String)
      (conf : Option ResolvConf) (g : Globals) (name : Option (List UInt8)) (buf buflen : Nat)
      (serverchoice : Int) (arrivals : List (Arrival × Nat)) (fuel : Nat) (s : Store)
      (r : HostCall),
      gethostbynameR2 inetAton before conf g name buf buflen serverchoice arrivals fuel s = some r →
        r.globals.nameserver = (openNameservers conf g).nameserver := by
  intro h
  have hsame := h (fun _ => none) none firstServerOnly .init (some [97]) 4096 340 2 [] 0
    ⟨fun _ => 0, []⟩ _ rfl
  exact absurd hsame (by decide)

end EventLoop.Dns
