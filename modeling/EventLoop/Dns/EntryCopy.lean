import EventLoop.Dns.HostEntry

/-!
The copy that `dup_hostentry` makes, as a whole. Where it is reported as made, what was written
stays in the buffer unless the length has come around, and the copy is equal to the entry unless
the addresses have been cut short.
-/

namespace EventLoop.Dns

open ByteMemory Iteration

variable {m : Memory} {c c' : Dup} {pheIn : Hostent} {base len start fuel : Nat}
  {places aliasPlaces : List Nat} {addresses aliases : List (List UInt8)} {name : List UInt8}

/-- The number of bytes that an entry takes. -/
def entrySize (places : List Nat) (aliases : List (List UInt8)) (name : List UInt8) : Nat :=
  inAddrSize + pointerSize * (places.length + 1) + (placesRdlength places).toNat * places.length +
    pointerSize * (aliases.length + 1) + (stringsBytes aliases).length + (name.length + 1)

/-- Where the copies of the addresses start. -/
def addressesAt (buf : Nat) (places : List Nat) : Nat :=
  buf + inAddrSize + pointerSize * (places.length + 1)

/-- Where the pointers to the aliases start. -/
def aliasesAt (buf : Nat) (places : List Nat) : Nat :=
  addressesAt buf places + (placesRdlength places).toNat * places.length

/-- Where the aliases start. -/
def stringsAt (buf : Nat) (places : List Nat) (aliases : List (List UInt8)) : Nat :=
  aliasesAt buf places + pointerSize * (aliases.length + 1)

theorem placesRdlength_of_le (h : places.length ≤ 1) : placesRdlength places = inAddrSize := by
  match places with
  | [] => rfl
  | [_] => rfl
  | _ :: _ :: _ => exact absurd h (by simp)

theorem placesRdlength_lost (h : placesRdlength places ≤ 0) : 1 ≤ places.length := by
  apply Nat.pos_of_ne_zero
  intro hnone
  rw [placesRdlength_of_le (by omega)] at h
  exact absurd h (by decide)

/-- All of an entry has been copied. -/
structure EntryLaid (base len : Nat) (pheIn : Hostent) (places : List Nat)
    (addresses aliases : List (List UInt8)) (name : List UInt8) (c : Dup) : Prop where
  fits : entrySize places aliases name < len
  within : c.store.Within base len
  out_eq : c.out = ⟨stringsAt base places aliases + (stringsBytes aliases).length,
    aliasesAt base places, pheIn.hAddrtype, pheIn.hLength, base + inAddrSize⟩
  addresses : AddressesLaid (base + inAddrSize) (addressesAt base places) (placesRdlength places)
    places.length addresses c.store.bytes
  aliases_eq : read c.store.bytes (aliasesAt base places) (pointerSize * (aliases.length + 1)) =
    wordsBytes pointerSize (stringPlaces (stringsAt base places aliases) aliases ++ [0])
  strings_eq : read c.store.bytes (stringsAt base places aliases) (stringsBytes aliases).length =
    stringsBytes aliases
  name_eq : read c.store.bytes (stringsAt base places aliases + (stringsBytes aliases).length)
    (name.length + 1) = name ++ [0]

theorem AddressesLaid.congr {list count : Nat} {rdlength : Int} {bytes bytes' : Memory}
    (h : AddressesLaid list start rdlength count addresses bytes)
    (hstart : list + pointerSize * (count + 1) = start) (hcount : addresses.length = count)
    (hlost : rdlength ≤ 0 → 0 < count)
    (hsame : ∀ a < start + rdlength.toNat * count, bytes' a = bytes a) :
    AddressesLaid list start rdlength count addresses bytes' := by
  refine ⟨fun hpos => ?_, fun hpos j hj => ?_, fun hnot => ?_⟩
  · rw [← h.table hpos]
    exact read_congr (fun i hi => hsame _ (by omega))
  · rw [← h.data hpos j hj]
    refine read_congr (fun i hi => hsame _ ?_)
    have hmul := Nat.mul_le_mul_left rdlength.toNat (Nat.succ_le_of_lt (hcount ▸ hj))
    rw [Nat.mul_succ] at hmul
    omega
  · rw [← h.lost hnot]
    have hslot := slot_le hstart (i := 1) (hlost hnot)
    exact readWord_congr (read_congr (fun i hi => hsame _ (by omega)))

theorem start_laid {buflen : Int} (hpos : 0 < buflen) (pheIn : Hostent) (base : Nat) (m : Memory) :
    Laid base buflen.toNat m base (.start pheIn base buflen ⟨m, []⟩) := by
  have hempty : Laid base buflen.toNat m base
      ⟨base, buflen, ⟨0, 0, pheIn.hAddrtype, pheIn.hLength, 0⟩, ⟨m, []⟩⟩ := by
    refine ⟨rfl, ?_, Nat.le_refl _, ?_, fun a ha => rfl⟩
    · change buflen = _
      omega
    · intro w hw
      cases hw
  exact hempty.write (Nat.le_refl _) (by rw [List.length_replicate])

theorem EntryAt.lengths (h : EntryAt m pheIn places aliasPlaces addresses aliases name) :
    addresses.length = places.length ∧ aliasPlaces.length = aliases.length := by
  rw [← h.address, List.length_map]
  exact ⟨rfl, h.aliasText.length_eq⟩

/-- Where `NETDB_SUCCESS` is returned the entry has been copied as a whole, or the buffer is too
short for it and has been left. -/
theorem copyEntry_laid {buflen : Int}
    (hentry : EntryOutside base buflen.toNat m pheIn places aliasPlaces addresses aliases name)
    (hpos : 0 < buflen) (hint : buflen < 2 ^ 31)
    (hrun : copyEntry pheIn fuel (.start pheIn base buflen ⟨m, []⟩) = .ok c) :
    EntryLaid base buflen.toNat pheIn places addresses aliases name c ∨
      buflen.toNat < entrySize places aliases name ∧ ¬ c.store.Within base buflen.toNat := by
  have hint' : buflen.toNat < 2 ^ 31 := by omega
  have hstart := start_laid hpos pheIn base m
  have hat := hentry _ hstart.outside
  obtain ⟨haddresses, haliases⟩ := hat.lengths
  obtain ⟨counts, hcounts, hrun⟩ := exists_of_bind_ok hrun
  obtain ⟨c₁, hopened, hrun⟩ := exists_of_bind_ok hrun
  obtain ⟨c₂, hcopied, hrun⟩ := exists_of_bind_ok hrun
  obtain ⟨c₃, haliased, hnamed⟩ := exists_of_bind_ok hrun
  obtain rfl := countLists_eq hat hcounts
  rw [copyName, if_neg hat.nonnull.2.2] at hnamed
  have hfate₁ := openAddrList_fate hstart hint' (Nat.succ_pos _) hopened
  have hfate₂ := copyAddresses_fate hfate₁ hentry (Nat.le_add_right _ _) rfl hint' hcopied
  rw [haliases] at haliased
  have hbefore : base ≤ aliasesAt base places := by
    rw [aliasesAt, addressesAt]
    omega
  have hfate₃ := copyAliases_fate hfate₂ hentry hbefore hint' haliased
  have hend : base + entrySize places aliases name = stringsAt base places aliases +
      (stringsBytes aliases).length + (name.length + 1) := by
    rw [entrySize, stringsAt, aliasesAt, addressesAt]
    omega
  change Fate base buflen.toNat 0 (stringsAt base places aliases + (stringsBytes aliases).length)
    (AliasesLaid base buflen.toNat m (aliasesAt base places) (stringsAt base places aliases) _ _ _)
    c₃ at hfate₃
  rcases hfate₃ with ⟨hroom, haliasesLaid⟩ | ⟨hpassed, hover⟩
  · have hlaid := haliasesLaid.laid.redirect { c₃.out with hName := c₃.buf }
    have hstring := (hentry _ hlaid.outside).name
    rcases copyString_fate hlaid hstring hint' hnamed with ⟨hfits, hnameLaid, hout, htext, hbelow⟩ |
      ⟨hpassed, hover⟩
    · left
      have hleft : 0 < c.buflen := by
        obtain ⟨_, -, hleft, -⟩ := copyString_ok hnamed
        exact hleft
      have hbuflen := hnameLaid.buflen
      have hkept : ∀ a < stringsAt base places aliases + (stringsBytes aliases).length,
          c.store.bytes a = c₃.store.bytes a := hbelow
      refine ⟨by omega, hnameLaid.within, ?_, ?_, ?_, ?_, htext⟩
      · rw [hout, haliasesLaid.out_eq, haliasesLaid.laid.buf]
        rfl
      · have hslot : pointerSize ≤ pointerSize * (aliases.length + 1) :=
          Nat.le_mul_of_pos_right pointerSize (Nat.succ_pos _)
        have hbehind : aliasesAt base places + pointerSize ≤ stringsAt base places aliases :=
          Nat.add_le_add_left hslot _
        rcases hfate₂ with ⟨-, -, -, haddressesLaid⟩ | ⟨hpassed, -⟩
        · refine haddressesLaid.congr rfl haddresses placesRdlength_lost (fun a ha => ?_)
          have ha' : a < aliasesAt base places := ha
          rw [hkept a (by omega), haliasesLaid.below a ha']
        · change base + buflen.toNat < aliasesAt base places + pointerSize at hpassed
          omega
      · rw [← haliasesLaid.table_eq]
        refine read_congr (fun i hi => hkept _ ?_)
        rw [stringsAt]
        omega
      · have hstrings := haliasesLaid.strings_eq
        rw [← hstrings, length_read]
        exact read_congr (fun i hi => hkept _ (by omega))
    · exact .inr ⟨by omega, fun hwithin => copyString_within hnamed hwithin hover⟩
  · have hnamedOver : Overrun base buflen.toNat 0 { c₃ with out.hName := c₃.buf } := hover
    refine .inr ⟨by omega, fun hwithin => copyString_within hnamed hwithin ?_⟩
    exact copyString_overrun hnamedOver hnamed

/-- The four bytes at each of the places are the address, where only so many bytes of each address
stand before the next, and these pointers behind the last. -/
def Overlaid (rdlength : Nat) (addresses : List (List UInt8)) (pointers : List Nat) : Prop :=
  ∀ j (hj : j < addresses.length),
    ((addresses.flatMap (·.take rdlength) ++ wordsBytes pointerSize pointers).drop
      (rdlength * j)).take inAddrSize = addresses[j]

theorem dupHostentry_ok {pheOut : Hostent} {buf : Nat} {buflen : Int} {s : Store}
    (h : dupHostentry (some pheIn) pheOut buf buflen fuel s = .ok c) :
    0 < buflen ∧ copyEntry pheIn fuel (.start pheIn buf buflen s) = .ok c := by
  rw [dupHostentry] at h
  split at h
  · cases h
  · rename_i hbuffer
    split at h
    · cases h
    · exact ⟨Int.not_le.mp (fun hnone => hbuffer (.inr hnone)), h⟩

theorem EntryAt.alias_nonnull (h : EntryAt m pheIn places aliasPlaces addresses aliases name) :
    ∀ text ∈ aliases, 0 ∉ text := by
  intro text htext
  obtain ⟨i, hi, rfl⟩ := List.mem_iff_getElem.mp htext
  exact (h.aliasText.get (h.lengths.2 ▸ hi) hi).nonnull

/-- A table of pointers has one length and content. -/
theorem pointerTable_unique {p : Nat} {targets targets' : List Nat}
    (h : PointerTable pointerSize m p targets) (h' : PointerTable pointerSize m p targets')
    (hlength : targets.length = targets'.length) : targets = targets' := by
  apply List.ext_getElem hlength
  intro i hi hi'
  rw [← h.entries i hi, h'.entries i hi']

theorem EntryLaid.overlay (h : EntryLaid base len pheIn places addresses aliases name c)
    (hpos : 0 < placesRdlength places) (hshort : placesRdlength places < inAddrSize)
    (hlengths : ∀ address ∈ addresses, address.length = inAddrSize)
    (hcount : addresses.length = places.length) {j : Nat} (hj : j < addresses.length) :
    read c.store.bytes (addressesAt base places + (placesRdlength places).toNat * j) inAddrSize =
      ((addresses.flatMap (·.take (placesRdlength places).toNat) ++ wordsBytes pointerSize
        (stringPlaces (stringsAt base places aliases) aliases ++ [0])).drop
          ((placesRdlength places).toNat * j)).take inAddrSize := by
  generalize hr : (placesRdlength places).toNat = r
  have hshort' : r < inAddrSize := by omega
  have hsize : ∀ piece ∈ addresses.map (List.take r), piece.length = r := by
    intro piece hpiece
    obtain ⟨address, haddress, rfl⟩ := List.mem_map.mp hpiece
    rw [List.length_take, hlengths address haddress, Nat.min_eq_left (Nat.le_of_lt hshort')]
  have hpieces : read c.store.bytes (addressesAt base places)
      (addresses.map (List.take r)).flatten.length = (addresses.map (List.take r)).flatten := by
    refine read_flatten hsize (fun j hj => ?_)
    rw [List.length_map] at hj
    have hdata := h.addresses.data hpos j hj
    rw [hr, Nat.min_eq_left (Nat.le_of_lt hshort')] at hdata
    rw [hdata, List.getElem_map]
  have hend : (addresses.map (List.take r)).flatten.length = r * places.length := by
    rw [length_flatten_of_forall hsize, List.length_map, hcount]
  generalize hpointers : stringPlaces (stringsAt base places aliases) aliases ++ [0] = pointers
  have hcount' : pointers.length = aliases.length + 1 := by
    rw [← hpointers, List.length_append, length_stringPlaces, List.length_singleton]
  have htable := h.aliases_eq
  rw [aliasesAt, hr, ← hend, hpointers, ← hcount', ← length_wordsBytes] at htable
  have hboth := read_append_iff.mpr ⟨hpieces, htable⟩
  rw [List.flatMap_def, ← hboth]
  apply read_part
  have hmul := Nat.mul_le_mul_left r (Nat.succ_le_of_lt (hcount ▸ hj))
  rw [Nat.mul_succ] at hmul
  rw [hend, length_wordsBytes, hcount', Nat.mul_succ]
  have hslot : inAddrSize ≤ pointerSize := by decide
  omega

/-- All pointers of the copy lie in the buffer. -/
theorem EntryLaid.in_buffer (h : EntryLaid base len pheIn places addresses aliases name c) {p : Nat}
    (hmem : p ∈ c.out.hAddrList :: c.out.hAliases :: c.out.hName ::
      (movedTo (addressesAt base places) (placesRdlength places).toNat places.length ++
        stringPlaces (stringsAt base places aliases) aliases)) :
    base + inAddrSize ≤ p ∧ p < base + len := by
  have hfits := h.fits
  have hstart : base + inAddrSize ≤ addressesAt base places := Nat.le_add_right _ _
  have haliases : addressesAt base places + (placesRdlength places).toNat * places.length =
      aliasesAt base places := rfl
  have hstrings : aliasesAt base places ≤ stringsAt base places aliases := Nat.le_add_right _ _
  have hend : stringsAt base places aliases + (stringsBytes aliases).length < base + len := by
    rw [entrySize] at hfits
    rw [stringsAt, aliasesAt, addressesAt]
    omega
  rw [h.out_eq] at hmem
  simp only [List.mem_cons, List.mem_append] at hmem
  rcases hmem with rfl | rfl | rfl | hmoved | hstring
  · omega
  · omega
  · omega
  · obtain ⟨j, hj, rfl⟩ := List.mem_map.mp hmoved
    have hmul := Nat.mul_le_mul_left (placesRdlength places).toNat
      (Nat.le_of_lt (List.mem_range.mp hj))
    omega
  · have hbounds := mem_stringPlaces hstring
    omega

theorem EntryLaid.addrList (h : EntryLaid base len pheIn places addresses aliases name c)
    (hpos : 0 < placesRdlength places) (hspace : base + len ≤ 256 ^ pointerSize) :
    PointerTable pointerSize c.store.bytes (base + inAddrSize)
      (movedTo (addressesAt base places) (placesRdlength places).toNat places.length) := by
  apply pointerTable_of_read
  · intro target ht
    have hin := h.in_buffer (.tail _ (.tail _ (.tail _ (List.mem_append_left _ ht))))
    have hsize : 0 < inAddrSize := by decide
    omega
  · rw [length_movedTo]
    exact h.addresses.table hpos

theorem EntryLaid.duplicated (h : EntryLaid base len pheIn places addresses aliases name c)
    (hpos : 0 < placesRdlength places)
    (hread : ∀ j (hj : j < addresses.length), read c.store.bytes
      (addressesAt base places + (placesRdlength places).toNat * j) inAddrSize = addresses[j])
    (hcount : addresses.length = places.length) (hspace : base + len ≤ 256 ^ pointerSize)
    (haliases : ∀ text ∈ aliases, 0 ∉ text) (hname : 0 ∉ name) :
    Duplicated base len pheIn addresses aliases name c := by
  have hbound {p : Nat} (hp : p ∈ c.out.hAddrList :: c.out.hAliases :: c.out.hName ::
      (movedTo (addressesAt base places) (placesRdlength places).toNat places.length ++
        stringPlaces (stringsAt base places aliases) aliases)) : 0 < p ∧ p < 256 ^ pointerSize := by
    have hin := h.in_buffer hp
    have hsize : 0 < inAddrSize := by decide
    omega
  have hlists := h.out_eq
  refine ⟨by rw [hlists], ⟨movedTo (addressesAt base places) (placesRdlength places).toNat
    places.length, stringPlaces (stringsAt base places aliases) aliases,
    ⟨⟨?_, ?_, ?_⟩, ?_, ?_, ?_, ?_, ?_⟩, fun p hp => ?_⟩, h.within⟩
  · exact Nat.ne_of_gt (hbound (.head _)).1
  · exact Nat.ne_of_gt (hbound (.tail _ (.head _))).1
  · exact Nat.ne_of_gt (hbound (.tail _ (.tail _ (.head _)))).1
  · rw [hlists]
    exact h.addrList hpos hspace
  · rw [movedTo, List.map_map]
    apply List.ext_getElem
    · rw [List.length_map, List.length_range, hcount]
    · intro j hj hj'
      rw [List.getElem_map, List.getElem_range, ← hread j hj']
      rfl
  · apply pointerTable_of_read
    · exact fun target ht => hbound (.tail _ (.tail _ (.tail _ (List.mem_append_right _ ht))))
    · rw [hlists, length_stringPlaces]
      exact h.aliases_eq
  · exact stringIn_of_stringsBytes haliases h.strings_eq
  · rw [hlists]
    exact ⟨Nat.lt_succ_self _, h.name_eq, hname⟩
  · have hin := h.in_buffer hp
    omega

/-- The copy is equal exactly where each address is read at its place. -/
theorem EntryLaid.duplicated_iff (h : EntryLaid base len pheIn places addresses aliases name c)
    (hcount : addresses.length = places.length) (hspace : base + len ≤ 256 ^ pointerSize)
    (haliases : ∀ text ∈ aliases, 0 ∉ text) (hname : 0 ∉ name) :
    Duplicated base len pheIn addresses aliases name c ↔
      0 < placesRdlength places ∧ ∀ j (hj : j < addresses.length), read c.store.bytes
        (addressesAt base places + (placesRdlength places).toNat * j) inAddrSize =
          addresses[j] := by
  constructor
  · rintro ⟨-, ⟨places', aliasPlaces', hentry, -⟩, -⟩
    have hlength := hentry.lengths.1
    have htable := hentry.addrList
    rw [h.out_eq] at htable
    have hpos : 0 < placesRdlength places := by
      apply Int.not_le.mp
      intro hlost
      have hmany : 1 < places.length := by
        apply Nat.lt_of_not_le
        intro hfew
        rw [placesRdlength_of_le hfew] at hlost
        exact absurd hlost (by decide)
      have hsecond := htable.entries 1 (by omega)
      have hnull := h.addresses.lost hlost
      exact htable.nonnull _ (List.getElem_mem _) (hsecond.symm.trans hnull)
    refine ⟨hpos, ?_⟩
    have hmoved : PointerTable pointerSize c.store.bytes (base + inAddrSize)
        (movedTo (addressesAt base places) (placesRdlength places).toNat places.length) :=
      h.addrList hpos hspace
    obtain rfl := pointerTable_unique htable hmoved (by rw [length_movedTo]; omega)
    intro j hj
    have haddress := hentry.address
    simp only [← haddress]
    rw [List.getElem_map]
    simp [movedTo]
  · rintro ⟨hpos, hread⟩
    exact h.duplicated hpos hread hcount hspace haliases hname

/-- A copy for which `NETDB_SUCCESS` is returned is equal to the entry exactly where it fits (the
`int` may have come around) and the difference of the first two pointers leaves room for an
address, or the bytes behind the last happen to be right. -/
theorem dup_hostentry_equal_iff {pheOut : Hostent} {buf : Nat} {buflen : Int}
    (hentry : EntryOutside buf buflen.toNat m pheIn places aliasPlaces addresses aliases name)
    (hint : buflen < 2 ^ 31) (hspace : buf + buflen.toNat ≤ 256 ^ pointerSize)
    (hok : dupHostentry (some pheIn) pheOut buf buflen fuel ⟨m, []⟩ = .ok c) :
    Duplicated buf buflen.toNat pheIn addresses aliases name c ↔
      entrySize places aliases name < buflen.toNat ∧
        (places.length ≤ 1 ∨ (inAddrSize : Int) ≤ placesRdlength places ∨
          0 < placesRdlength places ∧ Overlaid (placesRdlength places).toNat addresses
            (stringPlaces (stringsAt buf places aliases) aliases ++ [0])) := by
  obtain ⟨hpos, hrun⟩ := dupHostentry_ok hok
  have hat := hentry m (fun _ _ => rfl)
  have hcount := hat.lengths.1
  have hlengths : ∀ address ∈ addresses, address.length = inAddrSize := by
    rw [← hat.address]
    intro address haddress
    obtain ⟨place, -, rfl⟩ := List.mem_map.mp haddress
    exact length_read m place inAddrSize
  rcases copyEntry_laid hentry hpos hint hrun with hlaid | ⟨hshort, hout⟩
  · rw [hlaid.duplicated_iff hcount hspace hat.alias_nonnull hat.name.nonnull,
      and_iff_right hlaid.fits]
    constructor
    · rintro ⟨hrdlength, hread⟩
      by_cases hwhole : (inAddrSize : Int) ≤ placesRdlength places
      · exact .inr (.inl hwhole)
      · refine .inr (.inr ⟨hrdlength, fun j hj => ?_⟩)
        rw [← hlaid.overlay hrdlength (Int.not_le.mp hwhole) hlengths hcount hj, hread j hj]
    · intro hcond
      by_cases hwhole : (inAddrSize : Int) ≤ placesRdlength places
      · have hsize : (0 : Int) < inAddrSize := by decide
        refine ⟨by omega, fun j hj => ?_⟩
        have hdata := hlaid.addresses.data (by omega) j hj
        rw [Nat.min_eq_right (by omega), List.take_of_length_le] at hdata
        · exact hdata
        · rw [hlengths _ (List.getElem_mem hj)]
          omega
      · have hover : 0 < placesRdlength places ∧ Overlaid (placesRdlength places).toNat addresses
            (stringPlaces (stringsAt buf places aliases) aliases ++ [0]) := by
          rcases hcond with hfew | hwhole' | hover
          · exact absurd (Int.le_of_eq (placesRdlength_of_le hfew).symm) hwhole
          · exact absurd hwhole' hwhole
          · exact hover
        refine ⟨hover.1, fun j hj => ?_⟩
        rw [hlaid.overlay hover.1 (Int.not_le.mp hwhole) hlengths hcount hj]
        exact hover.2 j hj
  · exact iff_of_false (fun hdup => hout hdup.within) (fun hcond => by omega)

/-- At 1000 the pointers to two addresses, at 2000 an empty list of aliases, at 2500 the name `a`
and from 3000 on 10.0.0.1 and 10.0.0.2. -/
def twoAddresses (first second : Nat) : Memory :=
  ByteMemory.write (ByteMemory.write (ByteMemory.write (fun _ => 0) 1000
    (wordsBytes pointerSize [first, second, 0])) 2500 [97, 0]) 3000 [10, 0, 0, 1, 10, 0, 0, 2]

def twoAddressesEntry : Hostent := ⟨2500, 2000, afInet, inAddrSize, 1000⟩

theorem twoAddresses_entry {first second : Nat} (hfirst : 0 < first ∧ first < 4000)
    (hsecond : 0 < second ∧ second < 4000) :
    EntryOutside 5000 100 (twoAddresses first second) twoAddressesEntry [first, second] []
      [read (twoAddresses first second) first inAddrSize,
        read (twoAddresses first second) second inAddrSize] [] [97] := by
  intro m' hagree
  have hsame (p n : Nat) (h : p + n ≤ 5000) :
      read m' p n = read (twoAddresses first second) p n :=
    read_congr (fun i hi => hagree _ (.inl (by omega)))
  have hin : inAddrSize = 4 := rfl
  have htable : (wordsBytes pointerSize [first, second, 0]).length = 24 := rfl
  refine ⟨by decide, ?_, ?_, ?_, .nil, ?_⟩
  · apply pointerTable_of_read
    · have hspace : 4000 < 256 ^ pointerSize := by decide
      intro target ht
      simp only [List.mem_cons, List.not_mem_nil, or_false] at ht
      omega
    · change read m' 1000 24 = _
      have hself := read_write_self (fun _ => 0) 1000 (wordsBytes pointerSize [first, second, 0])
      rw [hsame 1000 24 (by decide), twoAddresses, read_write_of_disjoint (.inl (by decide)),
        read_write_of_disjoint (.inl (by decide))]
      exact hself
  · rw [List.map_cons, List.map_cons, List.map_nil, hsame _ _ (by omega), hsame _ _ (by omega)]
  · apply pointerTable_of_read
    · exact fun target ht => absurd ht List.not_mem_nil
    · change read m' 2000 8 = _
      rw [hsame 2000 8 (by decide), twoAddresses, read_write_of_disjoint (.inl (by decide)),
        read_write_of_disjoint (.inl (by decide)),
        read_write_of_disjoint (.inr (by rw [htable]; decide))]
      decide
  · refine ⟨by decide, ?_, by decide⟩
    change read m' 2500 2 = _
    rw [hsame 2500 2 (by decide), twoAddresses, read_write_of_disjoint (.inl (by decide))]
    exact read_write_self _ 2500 [97, 0]

theorem exists_of_isOk {ε α : Type} {x : Except ε α} (h : x.isOk = true) : ∃ a, x = .ok a := by
  cases x with
  | error e => cases h
  | ok a => exact ⟨a, rfl⟩

theorem dup_hostentry_ascending : ∃ c,
    dupHostentry (some twoAddressesEntry) ⟨0, 0, 0, 0, 0⟩ 5000 100 8
      ⟨twoAddresses 3000 3004, []⟩ = .ok c ∧
      Duplicated 5000 100 twoAddressesEntry [[10, 0, 0, 1], [10, 0, 0, 2]] [] [97] c := by
  obtain ⟨c, hok⟩ := exists_of_isOk (x := dupHostentry (some twoAddressesEntry) ⟨0, 0, 0, 0, 0⟩
    5000 100 8 ⟨twoAddresses 3000 3004, []⟩) (by decide)
  refine ⟨c, hok, (dup_hostentry_equal_iff (twoAddresses_entry (by decide) (by decide))
    (by decide) (by decide) hok).mpr ⟨by decide, .inr (.inl (by decide))⟩⟩

/-- The second address stands in front of the first. -/
theorem dup_hostentry_descending :
    ¬ ∀ (pheIn pheOut : Hostent) (places aliasPlaces : List Nat)
      (addresses aliases : List (List UInt8)) (name : List UInt8) (m : Memory) (buf fuel : Nat)
      (buflen : Int) (c : Dup),
      EntryOutside buf buflen.toNat m pheIn places aliasPlaces addresses aliases name →
      buflen < 2 ^ 31 → buf + buflen.toNat ≤ 256 ^ pointerSize →
      dupHostentry (some pheIn) pheOut buf buflen fuel ⟨m, []⟩ = .ok c →
      Duplicated buf buflen.toNat pheIn addresses aliases name c := by
  intro h
  obtain ⟨c, hok⟩ := exists_of_isOk (x := dupHostentry (some twoAddressesEntry) ⟨0, 0, 0, 0, 0⟩
    5000 100 8 ⟨twoAddresses 3004 3000, []⟩) (by decide)
  have hentry := @twoAddresses_entry 3004 3000 (by decide) (by decide)
  have hdup := h _ _ _ _ _ _ _ _ _ _ 100 c hentry (by decide) (by decide) hok
  have hint : (100 : Int) < 2 ^ 31 := by decide
  rcases copyEntry_laid hentry (dupHostentry_ok hok).1 hint (dupHostentry_ok hok).2 with
    hlaid | ⟨-, hout⟩
  · have hread := (hlaid.duplicated_iff rfl (by decide)
      (fun _ ht => absurd ht List.not_mem_nil) (by decide)).mp hdup
    exact absurd hread.1 (by decide)
  · exact hout hdup.within

end EventLoop.Dns
