import EventLoop.Dns.AddressList

/-!
`dup_hostentry` copies a host entry into one buffer: the pointers to the addresses, the
addresses, the pointers to the aliases, the aliases and the name. What is left of the buffer is
an `int`, tested after each part has been counted off.
-/

namespace EventLoop.Dns

open ByteMemory Iteration

/-- `buf`, `buflen` and `*pheOut`, with the memory. -/
structure Dup where
  buf : Nat
  buflen : Int
  out : Hostent
  store : Store

/-- Any end but `NETDB_SUCCESS`. -/
inductive Stop where
  | erange (c : Dup)
  /-- With `HOST_NOT_FOUND` in `*h_errnop`. -/
  | tryAgain (c : Dup)
  /-- A list or a string has not ended by then, or `a.rdlength` has no value. -/
  | undefined

def Dup.write (c : Dup) (p : Nat) (bytes : List UInt8) : Dup :=
  { c with store := c.store.write p bytes }

/-- `buf+=n;buflen-=n;` -/
def Dup.advance (c : Dup) (n : Nat) : Dup :=
  { c with buf := c.buf + n, buflen := (c.buflen - n).bmod (2 ^ 32) }

/-- `if(buflen<=0)return ERANGE;` -/
def Dup.room (c : Dup) : Except Stop Dup :=
  if c.buflen ≤ 0 then .error (.erange c) else .ok c

def finished {α : Type} : Option α → Except Stop α
  | some a => .ok a
  | none => .error .undefined

/-- `while(list[i++]);` -/
def countPointers (m : Memory) (list : Nat) : Nat → Nat → Option Nat
  | 0, _ => none
  | fuel + 1, i =>
      if readWord pointerSize m (list + pointerSize * i) = 0 then some (i + 1)
      else countPointers m list fuel (i + 1)

/-- `a.rdlength` for the first two pointers of `h_addr_list`. -/
def rdlengthOf (first second : Nat) : Int :=
  if second ≠ 0 ∧ first ≠ 0 then ((second : Int) - first).bmod (2 ^ 32) else inAddrSize

/-- `a.add_count`, `a.rdlength` and `nAlias` -/
structure Counts where
  addCount : Nat
  rdlength : Int
  nAlias : Nat

def countLists (m : Memory) (pheIn : Hostent) (fuel : Nat) : Except Stop Counts := do
  if pheIn.hAddrList = 0 then .error .undefined
  else
    let addCount ← finished (countPointers m pheIn.hAddrList fuel 0)
    let rdlength := rdlengthOf (readWord pointerSize m pheIn.hAddrList)
      (readWord pointerSize m (pheIn.hAddrList + pointerSize))
    let nAlias ← if pheIn.hAliases = 0 then .ok 0
      else finished (countPointers m pheIn.hAliases fuel 0)
    return ⟨addCount, rdlength, nAlias⟩

/-- Up to `pheOut->h_addr_list[1]=NULL`. -/
def openAddrList (addCount : Nat) (c : Dup) : Except Stop Dup := do
  let first := c.buf
  let c := c.advance inAddrSize
  let c := { c with out.hAddrList := c.buf }
  let c ← (c.advance (pointerSize * addCount)).room
  return { c with store := storePair c.store c.out.hAddrList first 0 }

/-- One turn of the loop over `h_addr_list`. -/
def copyAddress (addrList rdlength : Nat) (c : Dup) (i : Nat) : Except Stop Dup := do
  let place := c.buf
  let c := c.write (c.out.hAddrList + pointerSize * i) (wordBytes pointerSize place)
  let c ← (c.advance rdlength).room
  let address := readWord pointerSize c.store.bytes (addrList + pointerSize * i)
  return c.write place (read c.store.bytes address rdlength)

def copyAddresses (addrList : Nat) (counts : Counts) (c : Dup) : Except Stop Dup := do
  if 0 < counts.rdlength then
    let c ← (List.range (counts.addCount - 1)).foldlM
      (copyAddress addrList counts.rdlength.toNat) c
    return c.write (c.out.hAddrList + pointerSize * (counts.addCount - 1)) (wordBytes pointerSize 0)
  else return c

/-- `place=buf;buf+=strlen(string)+1;...;strcpy(place,string);` -/
def copyString (string fuel : Nat) (c : Dup) : Except Stop Dup := do
  let place := c.buf
  let length ← finished (stringLength c.store.bytes string fuel)
  let c ← (c.advance (length + 1)).room
  return c.write place (read c.store.bytes string (length + 1))

/-- One turn of the loop over `h_aliases`. -/
def copyAlias (aliases fuel : Nat) (c : Dup) (i : Nat) : Except Stop Dup :=
  let c := c.write (c.out.hAliases + pointerSize * i) (wordBytes pointerSize c.buf)
  copyString (readWord pointerSize c.store.bytes (aliases + pointerSize * i)) fuel c

def openAliases (nAlias : Nat) (c : Dup) : Except Stop Dup :=
  let c := { c with out.hAliases := c.buf }
  (c.advance (pointerSize * nAlias)).room

def copyAliases (aliases nAlias fuel : Nat) (c : Dup) : Except Stop Dup := do
  let c ← openAliases nAlias c
  let c ← (List.range (nAlias - 1)).foldlM (copyAlias aliases fuel) c
  return c.write (c.out.hAliases + pointerSize * (nAlias - 1)) (wordBytes pointerSize 0)

def copyName (pheIn : Hostent) (fuel : Nat) (c : Dup) : Except Stop Dup :=
  let c := { c with out.hName := c.buf }
  -- `strlen(NULL)` comes before the test of `h_name`
  if pheIn.hName = 0 then .error .undefined else copyString pheIn.hName fuel c

/-- Behind the test of the type. -/
def copyEntry (pheIn : Hostent) (fuel : Nat) (c : Dup) : Except Stop Dup := do
  let counts ← countLists c.store.bytes pheIn fuel
  let c ← openAddrList counts.addCount c
  let c ← copyAddresses pheIn.hAddrList counts c
  let c ← copyAliases pheIn.hAliases counts.nAlias fuel c
  copyName pheIn fuel c

/-- Behind both calls of `memset`. -/
def Dup.start (pheIn : Hostent) (buf : Nat) (buflen : Int) (s : Store) : Dup where
  buf := buf
  buflen := buflen
  out := ⟨0, 0, pheIn.hAddrtype, pheIn.hLength, 0⟩
  store := s.write buf (List.replicate buflen.toNat 0)

/-- `dup_hostentry`; `.ok` where it returns `NETDB_SUCCESS`. -/
def dupHostentry (pheIn : Option Hostent) (pheOut : Hostent) (buf : Nat) (buflen : Int)
    (fuel : Nat) (s : Store) : Except Stop Dup :=
  match pheIn with
  | none => .error (.erange ⟨buf, buflen, pheOut, s⟩)
  | some pheIn =>
      if buf = 0 ∨ buflen ≤ 0 then .error (.erange ⟨buf, buflen, pheOut, s⟩)
      else if pheIn.hAddrtype ≠ afInet then .error (.tryAgain (.start pheIn buf buflen s))
      else copyEntry pheIn fuel (.start pheIn buf buflen s)

/-- A host entry in memory, with the places its lists point to. -/
structure EntryAt (m : Memory) (h : Hostent) (places aliasPlaces : List Nat)
    (addresses aliases : List (List UInt8)) (name : List UInt8) : Prop where
  nonnull : h.hAddrList ≠ 0 ∧ h.hAliases ≠ 0 ∧ h.hName ≠ 0
  addrList : PointerTable pointerSize m h.hAddrList places
  address : places.map (fun place => read m place inAddrSize) = addresses
  aliasList : PointerTable pointerSize m h.hAliases aliasPlaces
  aliasText : List.Forall₂ (fun place text => StringIn m place (text.length + 1) text)
    aliasPlaces aliases
  name : StringIn m h.hName (name.length + 1) name

/-- The entry does not rest on what is in the buffer. -/
def EntryOutside (base len : Nat) (m : Memory) (h : Hostent) (places aliasPlaces : List Nat)
    (addresses aliases : List (List UInt8)) (name : List UInt8) : Prop :=
  ∀ m' : Memory, (∀ a, a < base ∨ base + len ≤ a → m' a = m a) →
    EntryAt m' h places aliasPlaces addresses aliases name

/-- The copy is equal to the entry and lies, like all that was written, in the buffer. -/
structure Duplicated (base len : Nat) (pheIn : Hostent) (addresses aliases : List (List UInt8))
    (name : List UInt8) (c : Dup) : Prop where
  addrtype : c.out.hAddrtype = pheIn.hAddrtype
  entry : ∃ places aliasPlaces,
    EntryAt c.store.bytes c.out places aliasPlaces addresses aliases name ∧
    ∀ p ∈ c.out.hAddrList :: c.out.hAliases :: c.out.hName :: (places ++ aliasPlaces),
      base ≤ p ∧ p < base + len
  within : c.store.Within base len

variable {m : Memory} {c c' : Dup} {pheIn : Hostent} {base len spare place fuel : Nat}

theorem Dup.room_ok (h : c.room = .ok c') : c' = c ∧ 0 < c.buflen := by
  rw [Dup.room] at h
  split at h
  · cases h
  · rename_i hroom
    cases h
    exact ⟨rfl, Int.not_le.mp hroom⟩

theorem finished_ok {α : Type} {o : Option α} {a : α} (h : finished o = .ok a) : o = some a := by
  cases o with
  | none => cases h
  | some b =>
      cases h
      rfl

theorem openAddrList_ok {addCount : Nat} (h : openAddrList addCount c = .ok c') :
    let opened := ({ c.advance inAddrSize with
      out.hAddrList := c.buf + inAddrSize }).advance (pointerSize * addCount)
    0 < c'.buflen ∧ c' = (opened.write (c.buf + inAddrSize) (wordBytes pointerSize c.buf)).write
      (c.buf + inAddrSize + pointerSize) (wordBytes pointerSize 0) := by
  intro opened
  rw [openAddrList] at h
  obtain ⟨c₁, hroom, hstored⟩ := exists_of_bind_ok h
  obtain ⟨rfl, hpos⟩ := Dup.room_ok hroom
  cases hstored
  exact ⟨hpos, rfl⟩

theorem copyAddress_ok {addrList rdlength i : Nat}
    (h : copyAddress addrList rdlength c i = .ok c') :
    let slot := c.write (c.out.hAddrList + pointerSize * i) (wordBytes pointerSize c.buf)
    0 < c'.buflen ∧ c' = (slot.advance rdlength).write c.buf (read slot.store.bytes
      (readWord pointerSize slot.store.bytes (addrList + pointerSize * i)) rdlength) := by
  intro slot
  rw [copyAddress] at h
  obtain ⟨c₁, hroom, hcopied⟩ := exists_of_bind_ok h
  obtain ⟨rfl, hpos⟩ := Dup.room_ok hroom
  cases hcopied
  exact ⟨hpos, rfl⟩

theorem copyString_ok {string : Nat} (h : copyString string fuel c = .ok c') :
    ∃ length, stringLength c.store.bytes string fuel = some length ∧ 0 < c'.buflen ∧
      c' = (c.advance (length + 1)).write c.buf (read c.store.bytes string (length + 1)) := by
  rw [copyString] at h
  obtain ⟨length, hfinished, hcopied⟩ := exists_of_bind_ok h
  obtain ⟨c₁, hroom, hwritten⟩ := exists_of_bind_ok hcopied
  obtain ⟨rfl, hpos⟩ := Dup.room_ok hroom
  cases hwritten
  exact ⟨length, finished_ok hfinished, hpos, rfl⟩

variable {places aliasPlaces : List Nat} {addresses aliases : List (List UInt8)}
  {name : List UInt8}

theorem countPointers_eq {list : Nat} (h : PointerTable pointerSize m list places) {count : Nat}
    (hcount : countPointers m list fuel 0 = some count) : count = places.length + 1 := by
  suffices hfrom : ∀ fuel i, i ≤ places.length → countPointers m list fuel i = some count →
      count = places.length + 1 by
    exact hfrom fuel 0 (Nat.zero_le _) hcount
  intro fuel
  induction fuel with
  | zero =>
      intro i hi hcount
      cases hcount
  | succ fuel ih =>
      intro i hi hcount
      rw [countPointers] at hcount
      by_cases hlt : i < places.length
      · rw [if_neg (by rw [h.entries i hlt]; exact h.nonnull _ (List.getElem_mem hlt))] at hcount
        exact ih (i + 1) hlt hcount
      · obtain rfl : i = places.length := by omega
        rw [if_pos h.ended] at hcount
        exact (Option.some.inj hcount).symm

/-- `a.rdlength` of a list of addresses. -/
def placesRdlength : List Nat → Int
  | first :: second :: _ => ((second : Int) - first).bmod (2 ^ 32)
  | _ => inAddrSize

theorem rdlengthOf_eq {list : Nat} (h : PointerTable pointerSize m list places) :
    rdlengthOf (readWord pointerSize m list) (readWord pointerSize m (list + pointerSize)) =
      placesRdlength places := by
  have hentry (i : Nat) (hi : i < places.length) := h.entries i hi
  match places, h with
  | [], h =>
      have hfirst : readWord pointerSize m list = 0 := h.ended
      exact if_neg (fun hboth => hboth.2 hfirst)
  | [_], h =>
      have hsecond : readWord pointerSize m (list + pointerSize) = 0 := h.ended
      exact if_neg (fun hboth => hboth.1 hsecond)
  | first :: second :: rest, h =>
      have hfirst : readWord pointerSize m list = first := h.entries 0 (Nat.succ_pos _)
      have hsecond : readWord pointerSize m (list + pointerSize) = second :=
        h.entries 1 (Nat.succ_lt_succ (Nat.succ_pos _))
      rw [hfirst, hsecond]
      exact if_pos ⟨h.nonnull second (by simp), h.nonnull first (by simp)⟩

theorem countLists_eq (h : EntryAt m pheIn places aliasPlaces addresses aliases name)
    {counts : Counts} (hcounts : countLists m pheIn fuel = .ok counts) :
    counts = ⟨places.length + 1, placesRdlength places, aliasPlaces.length + 1⟩ := by
  rw [countLists, if_neg h.nonnull.1] at hcounts
  obtain ⟨addCount, haddCount, hcounts⟩ := exists_of_bind_ok hcounts
  rw [if_neg h.nonnull.2.1] at hcounts
  obtain ⟨nAlias, hnAlias, hcounts⟩ := exists_of_bind_ok hcounts
  cases hcounts
  rw [countPointers_eq h.addrList (finished_ok haddCount),
    countPointers_eq h.aliasList (finished_ok hnAlias), rdlengthOf_eq h.addrList]

/-- All has gone to the buffer, and what is left of it is right. -/
structure Laid (base len : Nat) (m : Memory) (place : Nat) (c : Dup) : Prop where
  buf : c.buf = place
  buflen : c.buflen = ((base + len : Nat) : Int) - place
  from_base : base ≤ place
  within : c.store.Within base len
  outside : ∀ a, a < base ∨ base + len ≤ a → c.store.bytes a = m a

/-- The end of the buffer is not `spare` bytes ahead, or something has gone elsewhere. -/
def Overrun (base len spare : Nat) (c : Dup) : Prop :=
  base + len < c.buf + spare ∨ ¬ c.store.Within base len

theorem Laid.write (h : Laid base len m place c) {p : Nat} {bytes : List UInt8} (hbase : base ≤ p)
    (hlen : p + bytes.length ≤ base + len) : Laid base len m place (c.write p bytes) where
  buf := h.buf
  buflen := h.buflen
  from_base := h.from_base
  within := Store.within_write.mpr ⟨h.within, hbase, hlen⟩
  outside := by
    intro a ha
    rw [← h.outside a ha]
    rcases ha with hbefore | hbehind
    · exact write_of_lt (by omega)
    · exact write_of_ge (by omega)

theorem Laid.advance (h : Laid base len m place c) {n : Nat} (hfits : place + n ≤ base + len)
    (hint : len < 2 ^ 31) : Laid base len m (place + n) (c.advance n) where
  buf := congrArg (· + n) h.buf
  buflen := by
    have hbase := h.from_base
    have hleft : c.buflen - n = ((base + len : Nat) : Int) - (place + n : Nat) := by
      rw [h.buflen]
      omega
    change (c.buflen - n).bmod (2 ^ 32) = _
    rw [hleft]
    exact Int.bmod_eq_of_le_mul_two (by omega) (by omega)
  from_base := Nat.le_add_right_of_le h.from_base
  within := h.within
  outside := h.outside

theorem Overrun.write (h : Overrun base len spare c) (p : Nat) (bytes : List UInt8) :
    Overrun base len spare (c.write p bytes) :=
  h.imp_right (fun hout hwithin => hout (Store.within_write.mp hwithin).1)

theorem Overrun.advance (h : Overrun base len spare c) (n : Nat) :
    Overrun base len spare (c.advance n) :=
  h.imp_left (fun hlt => by
    change base + len < c.buf + n + spare
    omega)

theorem Laid.redirect (h : Laid base len m place c) (out : Hostent) :
    Laid base len m place { c with out := out } :=
  ⟨h.buf, h.buflen, h.from_base, h.within, h.outside⟩

/-- Up to `place` all is as `Facts` says if so much fits with some bytes to spare, and if not the
end has been passed. -/
def Fate (base len spare place : Nat) (Facts : Dup → Prop) (c : Dup) : Prop :=
  place + spare ≤ base + len ∧ Facts c ∨ base + len < place + spare ∧ Overrun base len spare c

/-- The table of addresses has been opened; its second slot is a null pointer. -/
structure Opened (base len : Nat) (m : Memory) (start : Nat) (out : Hostent) (c : Dup) : Prop where
  laid : Laid base len m start c
  out_eq : c.out = out
  second : readWord pointerSize c.store.bytes (out.hAddrList + pointerSize) = 0

theorem openAddrList_fate {addCount : Nat} (h : Laid base len m base c) (hint : len < 2 ^ 31)
    (hcount : 0 < addCount) (hrun : openAddrList addCount c = .ok c') :
    let start := base + inAddrSize + pointerSize * addCount
    Fate base len pointerSize start
      (Opened base len m start { c.out with hAddrList := base + inAddrSize }) c' := by
  intro start
  obtain ⟨-, rfl⟩ := openAddrList_ok hrun
  by_cases hfits : start + pointerSize ≤ base + len
  · refine .inl ⟨hfits, ?_⟩
    have hslots : base + inAddrSize + pointerSize ≤ start :=
      Nat.add_le_add_left (Nat.le_mul_of_pos_right pointerSize hcount) _
    have hopened := ((h.advance (n := inAddrSize) (by omega) hint).redirect
      { c.out with hAddrList := c.buf + inAddrSize }).advance (n := pointerSize * addCount)
        (by omega) hint
    rw [h.buf]
    rw [h.buf] at hopened
    refine ⟨(hopened.write (by omega) ?_).write (by omega) ?_, rfl, ?_⟩
    · rw [length_wordBytes]
      omega
    · rw [length_wordBytes]
      omega
    · exact readWord_write_self (Nat.pow_pos (by decide))
  · refine .inr ⟨by omega, ?_⟩
    apply Overrun.write
    apply Overrun.write
    left
    change base + len < c.buf + inAddrSize + pointerSize * addCount + pointerSize
    rw [h.buf]
    omega

theorem slot_le {list count start i : Nat} (h : list + pointerSize * (count + 1) = start)
    (hi : i ≤ count) : list + pointerSize * i + pointerSize ≤ start := by
  rw [← h, Nat.add_assoc, ← Nat.mul_succ]
  exact Nat.add_le_add_left (Nat.mul_le_mul_left pointerSize (Nat.succ_le_succ hi)) list

/-- The first `i` addresses are at their places, as far as so many bytes go before the next. -/
structure AddressesCopied (list start rdlength : Nat) (addresses : List (List UInt8)) (i : Nat)
    (bytes : Memory) : Prop where
  table : read bytes list (pointerSize * i) = wordsBytes pointerSize (movedTo start rdlength i)
  data : ∀ j (hj : j < addresses.length), j < i →
    read bytes (start + rdlength * j) (min rdlength inAddrSize) = addresses[j].take rdlength

variable {out : Hostent} {start rdlength i : Nat}

theorem EntryAt.take_address (h : EntryAt m pheIn places aliasPlaces addresses aliases name)
    (rdlength : Nat) (hi : i < places.length) (hi' : i < addresses.length) :
    (read m places[i] rdlength).take (min rdlength inAddrSize) = addresses[i].take rdlength := by
  have haddress : addresses[i] = read m places[i] inAddrSize := by
    simp [← h.address]
  rw [haddress, take_read, take_read, Nat.min_comm rdlength, Nat.min_assoc, Nat.min_self,
    Nat.min_comm]

/-- One more pointer and the bytes behind it leave those before them. -/
theorem AddressesCopied.next {list : Nat} {bytes : Memory} {piece : List UInt8}
    (h : AddressesCopied list start rdlength addresses i bytes)
    (hslot : list + pointerSize * i + pointerSize ≤ start) (hlength : piece.length = rdlength)
    (hpiece : ∀ hi : i < addresses.length,
      piece.take (min rdlength inAddrSize) = addresses[i].take rdlength) :
    AddressesCopied list start rdlength addresses (i + 1)
      (ByteMemory.write (ByteMemory.write bytes (list + pointerSize * i)
        (wordBytes pointerSize (start + rdlength * i))) (start + rdlength * i) piece) := by
  have hplace : start ≤ start + rdlength * i := Nat.le_add_right _ _
  constructor
  · have hmoved : movedTo start rdlength (i + 1) =
        movedTo start rdlength i ++ [start + rdlength * i] := by
      rw [movedTo, List.range_succ, List.map_append]
      rfl
    have hself := read_write_self bytes (list + pointerSize * i)
      (wordBytes pointerSize (start + rdlength * i))
    rw [length_wordBytes] at hself
    rw [read_write_of_disjoint (.inl (by rw [Nat.mul_succ]; omega)), Nat.mul_succ, read_add,
      read_write_of_disjoint (.inl (Nat.le_refl _)), h.table, hself, hmoved, wordsBytes_append]
    rfl
  · intro j hj hlt
    by_cases hbefore : j < i
    · have hnot : start + rdlength * j + min rdlength inAddrSize ≤ start + rdlength * i := by
        have hmul := Nat.mul_le_mul_left rdlength (Nat.succ_le_of_lt hbefore)
        rw [Nat.mul_succ] at hmul
        have := Nat.min_le_left rdlength inAddrSize
        omega
      rw [read_write_of_disjoint (.inl hnot),
        read_write_of_disjoint (.inr (by rw [length_wordBytes]; omega)), h.data j hj hbefore]
    · obtain rfl : j = i := by omega
      have hwithin : 0 + min rdlength inAddrSize ≤ piece.length := by
        rw [hlength, Nat.zero_add]
        exact Nat.min_le_left _ _
      rw [← hpiece hj]
      exact read_write_part hwithin

theorem copyAddress_copied (hlaid : Laid base len m (start + rdlength * i) c) (hout : c.out = out)
    (hcopied : AddressesCopied out.hAddrList start rdlength addresses i c.store.bytes)
    (hentry : EntryOutside base len m pheIn places aliasPlaces addresses aliases name)
    (hi : i < places.length) (hbase : base ≤ out.hAddrList)
    (hstart : out.hAddrList + pointerSize * (places.length + 1) = start)
    (hfits : start + rdlength * (i + 1) + pointerSize ≤ base + len) (hint : len < 2 ^ 31)
    (hrun : copyAddress pheIn.hAddrList rdlength c i = .ok c') :
    Laid base len m (start + rdlength * (i + 1)) c' ∧ c'.out = out ∧
      AddressesCopied out.hAddrList start rdlength addresses (i + 1) c'.store.bytes := by
  obtain ⟨-, rfl⟩ := copyAddress_ok hrun
  have hslot := slot_le hstart (Nat.le_of_lt hi)
  have hnext : start + rdlength * (i + 1) = start + rdlength * i + rdlength := by
    rw [Nat.mul_succ, Nat.add_assoc]
  have hplace : start ≤ start + rdlength * i := Nat.le_add_right _ _
  rw [hout, hlaid.buf]
  have hword : Laid base len m (start + rdlength * i) (c.write (out.hAddrList + pointerSize * i)
      (wordBytes pointerSize (start + rdlength * i))) :=
    hlaid.write (by omega) (by rw [length_wordBytes]; omega)
  have hsource := (hentry _ hword.outside).addrList.entries i hi
  have hi' : i < addresses.length := by
    rwa [← (hentry _ hword.outside).address, List.length_map]
  have hbytes := (hentry _ hword.outside).take_address rdlength hi hi'
  rw [hsource]
  refine ⟨?_, hout, ?_⟩
  · rw [hnext]
    exact (hword.advance (by omega) hint).write (by omega) (by rw [length_read]; omega)
  · exact hcopied.next hslot (length_read ..) (fun _ => hbytes)

theorem copyAddress_overrun {addrList : Nat} (h : Overrun base len spare c)
    (hrun : copyAddress addrList rdlength c i = .ok c') : Overrun base len spare c' := by
  obtain ⟨-, rfl⟩ := copyAddress_ok hrun
  exact ((h.write ..).advance _).write ..

/-- The addresses copied so far, or the end passed. -/
theorem copyAddresses_loop (h : Fate base len pointerSize start (Opened base len m start out) c)
    (hentry : EntryOutside base len m pheIn places aliasPlaces addresses aliases name)
    (hbase : base ≤ out.hAddrList)
    (hstart : out.hAddrList + pointerSize * (places.length + 1) = start) (hint : len < 2 ^ 31)
    (hrun : (List.range places.length).foldlM (copyAddress pheIn.hAddrList rdlength) c = .ok c') :
    Fate base len pointerSize (start + rdlength * places.length) (fun c' =>
      Laid base len m (start + rdlength * places.length) c' ∧ c'.out = out ∧
        AddressesCopied out.hAddrList start rdlength addresses places.length c'.store.bytes)
      c' := by
  refine foldlM_range_invariant (P := fun i c =>
    Fate base len pointerSize (start + rdlength * i) (fun c =>
      Laid base len m (start + rdlength * i) c ∧ c.out = out ∧
        AddressesCopied out.hAddrList start rdlength addresses i c.store.bytes) c) ?_ ?_ hrun
  · rcases h with ⟨hroom, hopened⟩ | hover
    · refine .inl ⟨hroom, hopened.laid, hopened.out_eq, rfl, ?_⟩
      exact fun j _ hj => absurd hj (Nat.not_lt_zero j)
    · exact .inr hover
  · intro i hi c c' hfate hturn
    have hnext : start + rdlength * (i + 1) = start + rdlength * i + rdlength := by
      rw [Nat.mul_succ, Nat.add_assoc]
    rcases hfate with ⟨-, hlaid, hout, hcopied⟩ | ⟨hpassed, hover⟩
    · by_cases hfits : start + rdlength * (i + 1) + pointerSize ≤ base + len
      · exact .inl ⟨hfits, copyAddress_copied hlaid hout hcopied hentry hi hbase hstart hfits hint
          hturn⟩
      · refine .inr ⟨by omega, .inl ?_⟩
        obtain ⟨-, rfl⟩ := copyAddress_ok hturn
        change base + len < c.buf + rdlength + pointerSize
        rw [hlaid.buf]
        omega
    · exact .inr ⟨by omega, copyAddress_overrun hover hturn⟩

/-- What the addresses have become: a table and a copy of each, or, if the size of an address has
come out as nothing, a table with a null pointer behind the first. -/
structure AddressesLaid (list start : Nat) (rdlength : Int) (count : Nat)
    (addresses : List (List UInt8)) (bytes : Memory) : Prop where
  table : 0 < rdlength → read bytes list (pointerSize * (count + 1)) =
    wordsBytes pointerSize (movedTo start rdlength.toNat count ++ [0])
  data : 0 < rdlength → ∀ j (hj : j < addresses.length),
    read bytes (start + rdlength.toNat * j) (min rdlength.toNat inAddrSize) =
      addresses[j].take rdlength.toNat
  lost : rdlength ≤ 0 → readWord pointerSize bytes (list + pointerSize) = 0

theorem addressesLaid_close {list count : Nat} {rdlength : Int} {bytes : Memory}
    (hpos : 0 < rdlength)
    (h : AddressesCopied list start rdlength.toNat addresses count bytes)
    (hstart : list + pointerSize * (count + 1) = start) (hcount : addresses.length = count) :
    AddressesLaid list start rdlength count addresses
      (ByteMemory.write bytes (list + pointerSize * count) (wordBytes pointerSize 0)) := by
  rw [Nat.mul_succ] at hstart
  refine ⟨fun _ => ?_, fun _ j hj => ?_, fun hnot => absurd hpos (Int.not_lt.mpr hnot)⟩
  · have hself := read_write_self bytes (list + pointerSize * count) (wordBytes pointerSize 0)
    rw [length_wordBytes] at hself
    rw [Nat.mul_succ, read_add, read_write_of_disjoint (.inl (Nat.le_refl _)), h.table, hself,
      wordsBytes_append]
    rfl
  · rw [read_write_of_disjoint (.inr (by rw [length_wordBytes]; omega)), h.data j hj (hcount ▸ hj)]

theorem copyAddresses_fate {rdlength : Int} {nAlias : Nat}
    (h : Fate base len pointerSize start (Opened base len m start out) c)
    (hentry : EntryOutside base len m pheIn places aliasPlaces addresses aliases name)
    (hbase : base ≤ out.hAddrList)
    (hstart : out.hAddrList + pointerSize * (places.length + 1) = start) (hint : len < 2 ^ 31)
    (hrun : copyAddresses pheIn.hAddrList ⟨places.length + 1, rdlength, nAlias⟩ c = .ok c') :
    Fate base len pointerSize (start + rdlength.toNat * places.length) (fun c' =>
      Laid base len m (start + rdlength.toNat * places.length) c' ∧ c'.out = out ∧
        AddressesLaid out.hAddrList start rdlength places.length addresses c'.store.bytes) c' := by
  rw [copyAddresses] at hrun
  by_cases hpos : 0 < rdlength
  · rw [if_pos hpos] at hrun
    obtain ⟨c₁, hloop, hclosed⟩ := exists_of_bind_ok hrun
    cases hclosed
    rcases copyAddresses_loop h hentry hbase hstart hint hloop with
      ⟨hroom, hlaid, hout, hcopied⟩ | ⟨hpassed, hover⟩
    · refine .inl ⟨hroom, ?_, hout, ?_⟩
      · refine hlaid.write ?_ ?_
        · rw [hout]
          omega
        · rw [length_wordBytes, hout, Nat.add_sub_cancel]
          rw [Nat.mul_succ] at hstart
          omega
      · rw [Nat.add_sub_cancel, hout]
        exact addressesLaid_close hpos hcopied hstart (by
          rw [← (hentry _ hlaid.outside).address, List.length_map])
    · exact .inr ⟨hpassed, hover.write ..⟩
  · rw [if_neg hpos] at hrun
    cases hrun
    have hzero : rdlength.toNat = 0 := Int.toNat_eq_zero.mpr (Int.not_lt.mp hpos)
    rw [hzero, Nat.zero_mul, Nat.add_zero]
    rcases h with ⟨hroom, hopened⟩ | hover
    · refine .inl ⟨hroom, hopened.laid, hopened.out_eq, ?_, ?_, ?_⟩
      · exact fun h => absurd h hpos
      · exact fun h => absurd h hpos
      · exact fun _ => hopened.second
    · exact .inr hover

theorem copyString_overrun {string : Nat} (h : Overrun base len spare c)
    (hrun : copyString string fuel c = .ok c') : Overrun base len spare c' := by
  obtain ⟨length, -, -, rfl⟩ := copyString_ok hrun
  exact (h.advance _).write ..

/-- A string is copied to `place`, and what stands before is left alone. -/
theorem copyString_fate {string n : Nat} {text : List UInt8} (hlaid : Laid base len m place c)
    (hstring : StringIn c.store.bytes string n text) (hint : len < 2 ^ 31)
    (hrun : copyString string fuel c = .ok c') :
    Fate base len 0 (place + (text.length + 1)) (fun c' =>
      Laid base len m (place + (text.length + 1)) c' ∧ c'.out = c.out ∧
        read c'.store.bytes place (text.length + 1) = text ++ [0] ∧
        ∀ a < place, c'.store.bytes a = c.store.bytes a) c' := by
  obtain ⟨length, hlength, -, rfl⟩ := copyString_ok hrun
  obtain rfl := hstring.stringLength_eq hlength
  rw [hlaid.buf, hstring.chars]
  have hcopied : (text ++ [0]).length = text.length + 1 := by simp
  by_cases hfits : place + (text.length + 1) ≤ base + len
  · refine .inl ⟨hfits, ?_, rfl, ?_, fun a ha => write_of_lt ha⟩
    · exact (hlaid.advance hfits hint).write hlaid.from_base (by rw [hcopied]; exact hfits)
    · have hself := read_write_self c.store.bytes place (text ++ [0])
      rw [hcopied] at hself
      exact hself
  · refine .inr ⟨by omega, Overrun.write (.inl ?_) ..⟩
    change base + len < c.buf + (text.length + 1) + 0
    rw [hlaid.buf]
    omega

/-- The first `i` aliases have been copied, behind the table of their places. -/
structure AliasesCopied (base len : Nat) (m : Memory) (table strings : Nat) (out : Hostent)
    (before : Memory) (aliases : List (List UInt8)) (i : Nat) (c : Dup) : Prop where
  laid : Laid base len m (strings + (stringsBytes (aliases.take i)).length) c
  out_eq : c.out = out
  table_eq : read c.store.bytes table (pointerSize * i) =
    wordsBytes pointerSize (stringPlaces strings (aliases.take i))
  strings_eq : read c.store.bytes strings (stringsBytes (aliases.take i)).length =
    stringsBytes (aliases.take i)
  below : ∀ a < table, c.store.bytes a = before a

variable {table strings : Nat} {before : Memory}

theorem length_stringsBytes_take (strings : Nat) (hi : i < aliases.length) :
    strings + (stringsBytes (aliases.take (i + 1))).length =
      strings + (stringsBytes (aliases.take i)).length + (aliases[i].length + 1) := by
  have hnext : aliases.take (i + 1) = aliases.take i ++ [aliases[i]] := by
    simp
  rw [hnext, stringsBytes_concat, List.length_append, List.length_append, List.length_singleton,
    ← Nat.add_assoc]

theorem AliasesCopied.next (h : AliasesCopied base len m table strings out before aliases i c)
    (hi : i < aliases.length)
    (hstrings : table + pointerSize * (aliases.length + 1) = strings)
    (hlaid : Laid base len m
      (strings + (stringsBytes (aliases.take i)).length + (aliases[i].length + 1)) c')
    (hout : c'.out = out)
    (htext : read c'.store.bytes (strings + (stringsBytes (aliases.take i)).length)
      (aliases[i].length + 1) = aliases[i] ++ [0])
    (hbelow : ∀ a < strings + (stringsBytes (aliases.take i)).length, c'.store.bytes a =
      ByteMemory.write c.store.bytes (table + pointerSize * i) (wordBytes pointerSize
        (strings + (stringsBytes (aliases.take i)).length)) a) :
    AliasesCopied base len m table strings out before aliases (i + 1) c' := by
  let place := strings + (stringsBytes (aliases.take i)).length
  have hnext : aliases.take (i + 1) = aliases.take i ++ [aliases[i]] := by
    simp
  have hslot := slot_le hstrings (Nat.le_of_lt hi)
  have hend := length_stringsBytes_take strings hi
  have hword := read_write_self c.store.bytes (table + pointerSize * i)
    (wordBytes pointerSize place)
  rw [length_wordBytes] at hword
  refine ⟨hend ▸ hlaid, hout, ?_, ?_, ?_⟩
  · have hkept : read c'.store.bytes table (pointerSize * (i + 1)) =
        read (ByteMemory.write c.store.bytes (table + pointerSize * i)
          (wordBytes pointerSize place)) table (pointerSize * (i + 1)) := by
      refine read_congr (fun j hj => hbelow _ ?_)
      rw [Nat.mul_succ] at hj
      omega
    rw [hkept, Nat.mul_succ, read_add, read_write_of_disjoint (.inl (Nat.le_refl _)), h.table_eq,
      hword, hnext, stringPlaces_concat, wordsBytes_append]
    exact congrArg _ (List.append_nil _).symm
  · have hkept : read c'.store.bytes strings (stringsBytes (aliases.take i)).length =
        stringsBytes (aliases.take i) := by
      rw [← h.strings_eq, length_read]
      refine read_congr (fun j hj => ?_)
      rw [hbelow _ (by omega)]
      exact write_of_ge (by rw [length_wordBytes]; omega)
    have hboth : read c'.store.bytes strings
        ((stringsBytes (aliases.take i)).length + (aliases[i] ++ [0]).length) =
          stringsBytes (aliases.take i) ++ (aliases[i] ++ [0]) := by
      rw [read_append_iff, List.length_append, List.length_singleton]
      exact ⟨hkept, htext⟩
    rwa [hnext, stringsBytes_concat, List.length_append]
  · intro a ha
    rw [hbelow a (by omega), ← h.below a ha]
    exact write_of_lt (by omega)

theorem copyAlias_fate (h : AliasesCopied base len m table strings out before aliases i c)
    (hroom : strings + (stringsBytes (aliases.take i)).length ≤ base + len)
    (hentry : EntryOutside base len m pheIn places aliasPlaces addresses aliases name)
    (hi : i < aliases.length) (htable : base ≤ table) (hout : out.hAliases = table)
    (hstrings : table + pointerSize * (aliases.length + 1) = strings) (hint : len < 2 ^ 31)
    (hrun : copyAlias pheIn.hAliases fuel c i = .ok c') :
    Fate base len 0 (strings + (stringsBytes (aliases.take (i + 1))).length)
      (AliasesCopied base len m table strings out before aliases (i + 1)) c' := by
  have hslot := slot_le hstrings (Nat.le_of_lt hi)
  have hend := length_stringsBytes_take strings hi
  rw [copyAlias, h.out_eq, hout, h.laid.buf] at hrun
  have hword : Laid base len m (strings + (stringsBytes (aliases.take i)).length)
      (c.write (table + pointerSize * i)
        (wordBytes pointerSize (strings + (stringsBytes (aliases.take i)).length))) :=
    h.laid.write (by omega) (by rw [length_wordBytes]; omega)
  have hat := hentry _ hword.outside
  have hi' : i < aliasPlaces.length := by
    rw [hat.aliasText.length_eq]
    exact hi
  have hstring := hat.aliasText.get hi' hi
  have hpointer := hat.aliasList.entries i hi'
  simp only [hpointer] at hrun
  rw [hend]
  refine (copyString_fate hword hstring hint hrun).imp_left ?_
  rintro ⟨hfits, hlaid, hout', htext, hbelow⟩
  exact ⟨hfits, h.next hi hstrings hlaid (hout'.trans h.out_eq) htext hbelow⟩

/-- All aliases have been copied, and the table of their places closed. -/
structure AliasesLaid (base len : Nat) (m : Memory) (table strings : Nat) (out : Hostent)
    (before : Memory) (aliases : List (List UInt8)) (c : Dup) : Prop where
  laid : Laid base len m (strings + (stringsBytes aliases).length) c
  out_eq : c.out = out
  table_eq : read c.store.bytes table (pointerSize * (aliases.length + 1)) =
    wordsBytes pointerSize (stringPlaces strings aliases ++ [0])
  strings_eq : read c.store.bytes strings (stringsBytes aliases).length = stringsBytes aliases
  below : ∀ a < table, c.store.bytes a = before a

theorem AliasesCopied.close
    (h : AliasesCopied base len m table strings out before aliases aliases.length c)
    (hroom : strings + (stringsBytes aliases).length ≤ base + len) (htable : base ≤ table)
    (hout : out.hAliases = table)
    (hstrings : table + pointerSize * (aliases.length + 1) = strings) :
    AliasesLaid base len m table strings out before aliases
      (c.write (c.out.hAliases + pointerSize * aliases.length) (wordBytes pointerSize 0)) := by
  obtain ⟨hlaid, hout', htable', hstrings', hbelow⟩ := h
  rw [List.take_length] at hlaid htable' hstrings'
  rw [Nat.mul_succ] at hstrings
  rw [hout', hout]
  have hslot : table + pointerSize * aliases.length + pointerSize = strings := by omega
  have hself := read_write_self c.store.bytes (table + pointerSize * aliases.length)
    (wordBytes pointerSize 0)
  rw [length_wordBytes] at hself
  refine ⟨hlaid.write (by omega) (by rw [length_wordBytes]; omega), hout', ?_, ?_, ?_⟩
  · change read (ByteMemory.write c.store.bytes _ _) _ _ = _
    rw [Nat.mul_succ, read_add, read_write_of_disjoint (.inl (Nat.le_refl _)), htable', hself,
      wordsBytes_append]
    rfl
  · change read (ByteMemory.write c.store.bytes _ _) _ _ = _
    rw [read_write_of_disjoint (.inr (by rw [length_wordBytes]; omega)), hstrings']
  · intro a ha
    rw [← hbelow a ha]
    exact write_of_lt (by omega)

theorem copyAlias_overrun {pointers : Nat} (h : Overrun base len spare c)
    (hrun : copyAlias pointers fuel c i = .ok c') : Overrun base len spare c' :=
  copyString_overrun (h.write ..) hrun

theorem openAliases_fate {nAlias : Nat} {Facts : Dup → Prop}
    (h : Fate base len pointerSize table
      (fun c => Laid base len m table c ∧ c.out = out ∧ Facts c) c)
    (hint : len < 2 ^ 31) (hrun : openAliases (nAlias + 1) c = .ok c') :
    Fate base len 0 (table + pointerSize * (nAlias + 1))
      (AliasesCopied base len m table (table + pointerSize * (nAlias + 1))
        { out with hAliases := table } c.store.bytes aliases 0) c' := by
  obtain ⟨rfl, -⟩ := Dup.room_ok hrun
  have hslots : pointerSize ≤ pointerSize * (nAlias + 1) :=
    Nat.le_mul_of_pos_right pointerSize (Nat.succ_pos nAlias)
  rcases h with ⟨-, hlaid, hout, -⟩ | ⟨hpassed, hover⟩
  · by_cases hfits : table + pointerSize * (nAlias + 1) ≤ base + len
    · refine .inl ⟨hfits, (hlaid.redirect _).advance hfits hint, ?_, rfl, rfl, fun a ha => rfl⟩
      change { c.out with hAliases := c.buf } = _
      rw [hout, hlaid.buf]
    · refine .inr ⟨by omega, .inl ?_⟩
      change base + len < c.buf + pointerSize * (nAlias + 1) + 0
      rw [hlaid.buf]
      omega
  · refine .inr ⟨by omega, hover.imp_left ?_⟩
    intro hend
    change base + len < c.buf + pointerSize * (nAlias + 1) + 0
    omega

theorem copyAliases_fate {Facts : Dup → Prop}
    (h : Fate base len pointerSize table
      (fun c => Laid base len m table c ∧ c.out = out ∧ Facts c) c)
    (hentry : EntryOutside base len m pheIn places aliasPlaces addresses aliases name)
    (htable : base ≤ table) (hint : len < 2 ^ 31)
    (hrun : copyAliases pheIn.hAliases (aliases.length + 1) fuel c = .ok c') :
    let strings := table + pointerSize * (aliases.length + 1)
    Fate base len 0 (strings + (stringsBytes aliases).length)
      (AliasesLaid base len m table strings { out with hAliases := table } c.store.bytes aliases)
      c' := by
  intro strings
  rw [copyAliases] at hrun
  obtain ⟨c₁, hopen, hrest⟩ := exists_of_bind_ok hrun
  obtain ⟨c₂, hloop, hclosed⟩ := exists_of_bind_ok hrest
  cases hclosed
  have hcopied := foldlM_range_invariant (P := fun i =>
    Fate base len 0 (strings + (stringsBytes (aliases.take i)).length)
      (AliasesCopied base len m table strings { out with hAliases := table } c.store.bytes
        aliases i))
    (openAliases_fate h hint hopen) ?_ hloop
  · rw [Nat.add_sub_cancel] at hcopied ⊢
    rw [List.take_length] at hcopied
    rcases hcopied with ⟨hroom, hcopied⟩ | ⟨hpassed, hover⟩
    · exact .inl ⟨hroom, hcopied.close hroom htable rfl rfl⟩
    · exact .inr ⟨hpassed, hover.write ..⟩
  · intro i hi c c' hfate hturn
    rcases hfate with ⟨hroom, hcopied⟩ | ⟨hpassed, hover⟩
    · exact copyAlias_fate hcopied hroom hentry hi htable rfl rfl hint hturn
    · refine .inr ⟨?_, copyAlias_overrun hover hturn⟩
      rw [length_stringsBytes_take strings hi]
      omega

/-- The last string written ends in the buffer if all that is written lies there. -/
theorem copyString_within {string : Nat} (hrun : copyString string fuel c = .ok c')
    (h : c'.store.Within base len) : ¬ Overrun base len 0 c' := by
  obtain ⟨length, -, -, rfl⟩ := copyString_ok hrun
  rintro (hpassed | hout)
  · change base + len < c.buf + (length + 1) + 0 at hpassed
    have hlast := (Store.within_write.mp h).2.2
    rw [length_read] at hlast
    omega
  · exact hout h

end EventLoop.Dns
