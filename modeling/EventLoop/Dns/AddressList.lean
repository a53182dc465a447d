import EventLoop.Dns.HostAddresses

/-!
The address list that `gethostbyname_r_2` and its twin leave in the caller's buffer. The first
address comes from `a.rdata`, the others from what the lookup has copied; the test before they
are moved keeps the new table and the name behind them in the buffer.
-/

namespace EventLoop.Dns

open ByteMemory

/-- From `p` on pointers to these addresses, and a null pointer behind them. -/
def AddressList (m : Memory) (p : Nat) (addresses : List (List UInt8)) : Prop :=
  ∃ targets, PointerTable pointerSize m p targets ∧
    targets.map (fun target => read m target inAddrSize) = addresses

variable {f : Frame} {g : Globals} {a : ResolvAnswer} {s : Store} {base len : Nat}

/-- Where the further addresses are moved to. -/
def movedTo (addresses rdlength count : Nat) : List Nat :=
  (List.range count).map (fun i => addresses + rdlength * i)

@[simp] theorem length_movedTo (addresses rdlength count : Nat) :
    (movedTo addresses rdlength count).length = count := by
  rw [movedTo, List.length_map, List.length_range]

theorem storeAddresses_bytes (addresses addrList rdlength count : Nat) (s : Store) :
    (storeAddresses addresses addrList rdlength count s).bytes =
      write s.bytes (addrList + pointerSize)
        (wordsBytes pointerSize (movedTo addresses rdlength count)) := by
  induction count generalizing s with
  | zero => exact write_nil.symm
  | succ count ih =>
      have hplace : addrList + pointerSize * (count + 1) = addrList + pointerSize +
          (wordsBytes pointerSize (movedTo addresses rdlength count)).length := by
        rw [length_wordsBytes, length_movedTo, Nat.mul_succ]
        omega
      have hlast : wordBytes pointerSize (addresses + rdlength * count) =
          wordsBytes pointerSize [addresses + rdlength * count] := (List.append_nil _).symm
      rw [storeAddresses, ih, Store.bytes_write, hplace, write_prepend, hlast,
        ← wordsBytes_append, movedTo, movedTo, List.range_succ, List.map_append]
      rfl

theorem storeAddresses_within {addresses addrList rdlength count : Nat}
    (hbase : base ≤ addrList) (hlen : addrList + pointerSize * (count + 1) ≤ base + len)
    (hs : s.Within base len) :
    (storeAddresses addresses addrList rdlength count s).Within base len := by
  induction count generalizing s with
  | zero => exact hs
  | succ count ih =>
      rw [Nat.mul_succ] at hlen
      apply ih (by omega)
      rw [Store.within_write, length_wordBytes]
      exact ⟨hs, by omega, by omega⟩

/-- Where the table of `count` further addresses ends. -/
def behindTable (f : Frame) (a : ResolvAnswer) : Nat :=
  f.buf + a.addCount * a.rdlength + pointerSize * (a.addCount + 2)

/-- The pointers of the new table. -/
def spreadTargets (f : Frame) (a : ResolvAnswer) : List Nat :=
  f.inAddr :: movedTo (f.buf - pointerSize * 2) a.rdlength a.addCount

/-- The further addresses moved down, and the table written as a whole. -/
theorem spreadAddresses_bytes (f : Frame) (a : ResolvAnswer) (s : Store) :
    (spreadAddresses f a s).2.bytes =
      write (write s.bytes (f.buf - pointerSize * 2) (read s.bytes f.buf (a.addCount * a.rdlength)))
        (f.buf + a.addCount * a.rdlength)
        (wordsBytes pointerSize (spreadTargets f a ++ [0])) := by
  let targets := movedTo (f.buf - pointerSize * 2) a.rdlength a.addCount
  let addrList := f.buf + a.addCount * a.rdlength
  have hfirst : addrList + pointerSize =
      addrList + (wordsBytes pointerSize [f.inAddr]).length := by
    rw [length_wordsBytes]
    rfl
  have hbehind : addrList + pointerSize * (a.addCount + 1) =
      addrList + (wordsBytes pointerSize (f.inAddr :: targets)).length := by
    rw [length_wordsBytes, List.length_cons, length_movedTo]
  have hword (w : Nat) : wordBytes pointerSize w = wordsBytes pointerSize [w] :=
    (List.append_nil _).symm
  have hcons : wordsBytes pointerSize [f.inAddr] ++ wordsBytes pointerSize targets =
      wordsBytes pointerSize (f.inAddr :: targets) := (wordsBytes_append ..).symm
  rw [spreadAddresses, Store.bytes_write, storeAddresses_bytes, Store.bytes_write,
    Store.bytes_write, hword f.inAddr, hword 0, hfirst, write_append, hcons, hbehind, write_append,
    ← wordsBytes_append]
  rfl

theorem spreadAddresses_within (hbase : base + pointerSize * 2 ≤ f.buf)
    (hlen : behindTable f a ≤ base + len) (hs : s.Within base len) :
    (spreadAddresses f a s).2.Within base len := by
  have hroom : f.buf + a.addCount * a.rdlength + pointerSize * (a.addCount + 1) + pointerSize ≤
      base + len := by
    rw [Nat.add_assoc, ← Nat.mul_succ]
    exact hlen
  rw [spreadAddresses, Store.within_write, length_wordBytes]
  refine ⟨storeAddresses_within ?_ ?_ ?_, ?_, hroom⟩
  · omega
  · omega
  · rw [Store.within_write, length_wordBytes, Store.within_write, length_read]
    refine ⟨⟨hs, ?_, ?_⟩, ?_, ?_⟩ <;> omega
  · omega

variable {buf buflen : Nat} {lookup : Asking} {first : List UInt8} {rest : List (List UInt8)}

/-- The test before the addresses are moved. -/
def Fits (f : Frame) (a : ResolvAnswer) : Prop :=
  (a.rdlength + pointerSize) * a.addCount + 256 ≤ f.buflen

/-- Where the name goes, and the memory before it is written. -/
def spread (f : Frame) (a : ResolvAnswer) (s : Store) : Frame × Store :=
  if 0 < a.addCount then spreadAddresses f a s else (f, s)

theorem Fits.behindTable_le (h : Fits f a) : behindTable f a + 240 ≤ f.buf + f.buflen := by
  have hproduct : (a.rdlength + pointerSize) * a.addCount =
      a.addCount * a.rdlength + pointerSize * a.addCount := by
    rw [Nat.add_mul, Nat.mul_comm a.rdlength]
  have htwo : pointerSize * (a.addCount + 2) = pointerSize * a.addCount + 16 :=
    Nat.mul_add pointerSize a.addCount 2
  rw [Fits, hproduct] at h
  rw [behindTable, htwo]
  omega

theorem spread_within (h : Fits f a) (hbase : base + pointerSize * 2 ≤ f.buf)
    (hlen : f.buf + f.buflen ≤ base + len) (hs : s.Within base len) :
    (spread f a s).2.Within base len ∧ (spread f a s).1.inAddr = f.inAddr ∧
      base ≤ (spread f a s).1.buf ∧
      (spread f a s).1.buf + (spread f a s).1.buflen ≤ base + len := by
  have hbehind := h.behindTable_le
  unfold spread
  split
  · refine ⟨spreadAddresses_within hbase (by omega) hs, rfl, ?_, ?_⟩
    · change base ≤ behindTable f a
      rw [behindTable]
      omega
    · change behindTable f a + (f.buflen - (behindTable f a - f.buf)) ≤ base + len
      have hle : f.buf ≤ behindTable f a := by
        rw [behindTable]
        omega
      omega
  · exact ⟨hs, rfl, by change base ≤ f.buf; omega, hlen⟩

theorem answerCall_within (hroom : 340 ≤ buflen) (hs : lookup.store.Within buf buflen) :
    (answerCall (framed buf buflen) g lookup).store.Within buf buflen := by
  rw [answerCall]
  split
  · exact hs
  · split
    · exact hs
    · rename_i hfits
      have hspread := @spread_within (framed buf buflen) lookup.a lookup.store buf buflen
        (Nat.le_of_not_lt hfits) (by change buf + 16 ≤ buf + 84; omega)
        (by change buf + 84 + (buflen - 84) ≤ _; omega) hs
      obtain ⟨hwithin, hinAddr, hbase, hlen⟩ := hspread
      have hname := Store.within_write.mpr ⟨hwithin, hbase, Nat.le_trans (Nat.le_of_eq
        (congrArg _ (length_padded (lookup.a.dotted.takeWhile (· ≠ 0)) _))) hlen⟩
      change (ite _ _ _ : HostCall).store.Within buf buflen
      split
      · refine Store.within_write.mpr ⟨hname, ?_, ?_⟩
        · exact Nat.le_of_eq hinAddr.symm
        · rw [length_bytesAt]
          change (spread (framed buf buflen) lookup.a lookup.store).1.inAddr + 4 ≤ _
          rw [hinAddr]
          change buf + 4 ≤ _
          omega
      · exact hname

/-- The pointers of the table in use, where it has been built anew or not. -/
theorem spread_table (htable : PointerTable pointerSize s.bytes f.addrList [f.inAddr])
    (hbounds : ∀ target ∈ spreadTargets f a, 0 < target ∧ target < 256 ^ pointerSize) :
    PointerTable pointerSize (spread f a s).2.bytes (spread f a s).1.addrList
      (spreadTargets f a) := by
  unfold spread
  split
  · apply pointerTable_of_read hbounds
    have hlength : pointerSize * ((spreadTargets f a).length + 1) =
        (wordsBytes pointerSize (spreadTargets f a ++ [0])).length := by
      rw [length_wordsBytes, List.length_append, List.length_singleton]
    rw [spreadAddresses_bytes, hlength]
    exact read_write_self _ _ _
  · rename_i hnone
    have hzero : a.addCount = 0 := Nat.eq_zero_of_not_pos hnone
    have htargets : spreadTargets f a = [f.inAddr] := by
      rw [spreadTargets, movedTo, hzero]
      rfl
    rw [htargets]
    exact htable

/-- The further addresses are as they were copied. -/
theorem spread_moved (hbuf : pointerSize * 2 ≤ f.buf) :
    read (spread f a s).2.bytes (f.buf - pointerSize * 2) (a.addCount * a.rdlength) =
      read s.bytes f.buf (a.addCount * a.rdlength) := by
  unfold spread
  split
  · have hmoved := read_write_self s.bytes (f.buf - pointerSize * 2)
      (read s.bytes f.buf (a.addCount * a.rdlength))
    rw [length_read] at hmoved
    rw [spreadAddresses_bytes, read_write_of_disjoint (.inl (by omega)), hmoved]
  · rename_i hnone
    have hzero : a.addCount = 0 := Nat.eq_zero_of_not_pos hnone
    rw [hzero, Nat.zero_mul]
    rfl

/-- The table lies before the name, and so do the further addresses. -/
theorem spread_places (haddrList : f.addrList + 16 ≤ f.buf) (hbuf : pointerSize * 2 ≤ f.buf) :
    f.addrList ≤ (spread f a s).1.addrList ∧
      (spread f a s).1.addrList + pointerSize * ((spreadTargets f a).length + 1) ≤
        (spread f a s).1.buf ∧
      f.buf - pointerSize * 2 + a.addCount * a.rdlength ≤ (spread f a s).1.buf := by
  have hlength : (spreadTargets f a).length = a.addCount + 1 := by
    rw [spreadTargets, List.length_cons, length_movedTo]
  rw [hlength]
  unfold spread
  split
  · refine ⟨?_, Nat.le_refl _, ?_⟩
    · change f.addrList ≤ f.buf + a.addCount * a.rdlength
      omega
    · change _ ≤ behindTable f a
      rw [behindTable]
      omega
  · rename_i hnone
    have hzero : a.addCount = 0 := Nat.eq_zero_of_not_pos hnone
    rw [hzero, Nat.zero_mul]
    refine ⟨Nat.le_refl _, haddrList, ?_⟩
    change f.buf - pointerSize * 2 + 0 ≤ f.buf
    omega

/-- What a success leaves. -/
theorem answerCall_success (hret : (answerCall f g lookup).ret = .netdbSuccess) :
    lookup.Answered ∧ Fits f lookup.a ∧ ∃ hostent name,
      (answerCall f g lookup).result = some hostent ∧
      hostent.hAddrList = (spread f lookup.a lookup.store).1.addrList ∧
      (answerCall f g lookup).store.bytes =
        write (write (spread f lookup.a lookup.store).2.bytes
            (spread f lookup.a lookup.store).1.buf name)
          (spread f lookup.a lookup.store).1.inAddr
          (bytesAt lookup.packet lookup.a.rdoffset inAddrSize) := by
  rw [answerCall] at hret ⊢
  split at hret
  · cases hret
  · rename_i hanswered
    rw [if_neg hanswered]
    split at hret
    · cases hret
    · rename_i hfits
      rw [if_neg hfits]
      refine ⟨not_not.mp hanswered, Nat.le_of_not_lt hfits, ?_⟩
      change (ite _ _ _ : HostCall).ret = _ at hret
      split at hret
      · rename_i htype
        change ∃ hostent name, (ite _ _ _ : HostCall).result = some hostent ∧ _ ∧
          (ite _ _ _ : HostCall).store.bytes = _
        rw [if_pos htype]
        exact ⟨_, _, rfl, rfl, rfl⟩
      · cases hret

theorem answerCall_lookup (f : Frame) (g : Globals) (lookup : Asking) :
    (answerCall f g lookup).lookup = some lookup := by
  rw [answerCall]
  dsimp only
  split
  · rfl
  · split
    · rfl
    · split <;> rfl

theorem spread_inAddr (f : Frame) (a : ResolvAnswer) (s : Store) :
    (spread f a s).1.inAddr = f.inAddr := by
  unfold spread
  split <;> rfl

theorem movedTo_bounds {addresses rdlength count : Nat} (hpos : 0 < rdlength) {target : Nat}
    (h : target ∈ movedTo addresses rdlength count) :
    addresses ≤ target ∧ target < addresses + count * rdlength := by
  obtain ⟨i, hi, rfl⟩ := List.mem_map.mp h
  have hbelow : rdlength * i < count * rdlength := by
    rw [Nat.mul_comm]
    exact Nat.mul_lt_mul_of_pos_right (List.mem_range.mp hi) hpos
  omega

/-- The addresses of the table are places in the caller's buffer. -/
theorem spreadTargets_bounds (hbuf : 0 < buf) (hend : buf + buflen ≤ 256 ^ pointerSize)
    (hroom : 340 ≤ buflen) (hfits : Fits (framed buf buflen) a) (hrdlength : a.rdlength = 4)
    {target : Nat} (h : target ∈ spreadTargets (framed buf buflen) a) :
    0 < target ∧ target < 256 ^ pointerSize := by
  have hmovedLe : buf + 84 + a.addCount * 4 ≤ buf + buflen := by
    have hle : buf + 84 + a.addCount * a.rdlength ≤ behindTable (framed buf buflen) a :=
      Nat.le_add_right _ _
    have hbehind := hfits.behindTable_le
    have hframe : (framed buf buflen).buf + (framed buf buflen).buflen = buf + buflen := by
      change buf + 84 + (buflen - 84) = _
      omega
    rw [hrdlength] at hle
    omega
  rcases List.mem_cons.mp h with hhead | hmoved
  · rw [hhead]
    change 0 < buf ∧ buf < _
    omega
  · have hplace := movedTo_bounds (by omega) hmoved
    rw [hrdlength] at hplace
    change buf + 84 - 16 ≤ target ∧ target < buf + 84 - 16 + a.addCount * 4 at hplace
    omega

/-- The list that a success leaves: the first address and the further ones. -/
theorem answerCall_addresses (hbuf : 0 < buf) (hend : buf + buflen ≤ 256 ^ pointerSize)
    (hroom : 340 ≤ buflen)
    (hret : (answerCall (framed buf buflen) g lookup).ret = .netdbSuccess)
    (htable : PointerTable pointerSize lookup.store.bytes (buf + 4) [buf])
    (hrdlength : lookup.a.rdlength = 4)
    (hfirst : bytesAt lookup.packet lookup.a.rdoffset inAddrSize = first)
    (hcount : lookup.a.addCount = rest.length) (hsize : ∀ piece ∈ rest, piece.length = 4)
    (hcopied : read lookup.store.bytes (buf + 84) (4 * rest.length) = rest.flatten) :
    ∃ hostent, (answerCall (framed buf buflen) g lookup).result = some hostent ∧
      AddressList (answerCall (framed buf buflen) g lookup).store.bytes hostent.hAddrList
        (first :: rest) := by
  obtain ⟨-, hfits, hostent, name, hresult, haddrList, hbytes⟩ := answerCall_success hret
  have hinAddr : (spread (framed buf buflen) lookup.a lookup.store).1.inAddr = buf :=
    spread_inAddr _ _ _
  have hplaces : buf + 4 ≤ (spread (framed buf buflen) lookup.a lookup.store).1.addrList ∧ _ ∧
      buf + 84 - 16 + lookup.a.addCount * lookup.a.rdlength ≤ _ :=
    @spread_places (framed buf buflen) lookup.a lookup.store
      (by change buf + 4 + 16 ≤ buf + 84; omega) (by change 16 ≤ buf + 84; omega)
  obtain ⟨habove, htableEnd, hmovedEnd⟩ := hplaces
  rw [hrdlength, Nat.mul_comm, hcount] at hmovedEnd
  -- neither the name nor the first address is written where the table or the others are
  have hapart {p n : Nat} (hbase : buf + 4 ≤ p)
      (hp : p + n ≤ (spread (framed buf buflen) lookup.a lookup.store).1.buf) :
      read (answerCall (framed buf buflen) g lookup).store.bytes p n =
        read (spread (framed buf buflen) lookup.a lookup.store).2.bytes p n := by
    have hlength : (bytesAt lookup.packet lookup.a.rdoffset inAddrSize).length = 4 :=
      length_bytesAt _ _ _
    rw [hbytes, hinAddr, read_write_of_disjoint (.inr (by omega)),
      read_write_of_disjoint (.inl hp)]
  refine ⟨hostent, hresult, spreadTargets (framed buf buflen) lookup.a, ?_, ?_⟩
  · rw [haddrList]
    have hbounds := fun target =>
      @spreadTargets_bounds lookup.a buf buflen hbuf hend hroom hfits hrdlength target
    exact (spread_table htable hbounds).congr (hapart habove htableEnd)
  · have hhead : read (answerCall (framed buf buflen) g lookup).store.bytes buf inAddrSize =
        first := by
      have hwritten := read_write_self (write (spread (framed buf buflen) lookup.a
        lookup.store).2.bytes (spread (framed buf buflen) lookup.a lookup.store).1.buf name) buf
        (bytesAt lookup.packet lookup.a.rdoffset inAddrSize)
      rw [length_bytesAt] at hwritten
      rw [hbytes, hinAddr, hwritten, hfirst]
    have hothers : read (answerCall (framed buf buflen) g lookup).store.bytes (buf + 84 - 16)
        (4 * rest.length) = rest.flatten := by
      have hmoved := @spread_moved (framed buf buflen) lookup.a lookup.store
        (by change 16 ≤ buf + 84; omega)
      rw [hrdlength, hcount, Nat.mul_comm rest.length] at hmoved
      rw [hapart (by omega) hmovedEnd]
      exact hmoved.trans hcopied
    have hpieces := map_read_of_flatten hsize hothers
    rw [spreadTargets, List.map_cons, movedTo, List.map_map, hcount, hrdlength]
    change read _ buf inAddrSize :: _ = _
    rw [hhead]
    exact congrArg _ hpieces

theorem storePair_bytes (s : Store) (p first second : Nat) :
    (storePair s p first second).bytes =
      write s.bytes p (wordsBytes pointerSize [first, second]) := by
  have hplace : p + pointerSize = p + (wordBytes pointerSize first).length := by
    rw [length_wordBytes]
  have hwords : wordBytes pointerSize first ++ wordBytes pointerSize second =
      wordsBytes pointerSize [first, second] :=
    congrArg _ (List.append_nil _).symm
  rw [storePair, Store.bytes_write, Store.bytes_write, hplace, write_append, hwords]

/-- Before the lookup the table has the first address alone. -/
theorem laidOut_table (hbuf : 0 < buf) (hend : buf < 256 ^ pointerSize) (chars : List UInt8) :
    PointerTable pointerSize (laidOut chars buf buflen s).bytes (buf + 4) [buf] := by
  apply pointerTable_of_read
  · intro target htarget
    obtain rfl := List.mem_singleton.mp htarget
    exact ⟨hbuf, hend⟩
  · have hsize : pointerSize * ([buf].length + 1) = 16 := rfl
    have hwords : (wordsBytes pointerSize [buf, 0]).length = 16 := length_wordsBytes _ _
    have hself := read_write_self s.bytes (buf + 4) (wordsBytes pointerSize [buf, 0])
    rw [hwords] at hself
    rw [laidOut, storePair_bytes, Store.bytes_write, storePair_bytes, hsize,
      read_write_of_disjoint (.inl (by omega)), read_write_of_disjoint (.inl (by omega)), hself]
    rfl

variable {nscount ns id fuel : Nat} {nRetries serverchoice : Int} {chars : List UInt8}
  {arrivals : List (Arrival × Nat)} {records : List Record}

theorem asked_within (hroom : 340 ≤ buflen) (hs : s.Within buf buflen)
    (hask : Asking.ask fuel (.begin nscount ns id nRetries (framed buf buflen).answer
      (framed buf buflen).buf (laidOut chars buf buflen s)) arrivals = some lookup) :
    Asking.InBuffer buf buflen (.begin nscount ns id nRetries (framed buf buflen).answer
      (framed buf buflen).buf (laidOut chars buf buflen s)) lookup := by
  refine Asking.ask_inBuffer ?_ ?_ (laidOut_within hroom hs) hask
  · change buf ≤ buf + 84
    omega
  · change buf + 84 + (buflen - 84) ≤ buf + buflen
    omega

/-- The lookup writes behind the table. -/
theorem asked_table (hbuf : 0 < buf) (hend : buf < 256 ^ pointerSize) (hroom : 340 ≤ buflen)
    (hs : s.Within buf buflen)
    (hask : Asking.ask fuel (.begin nscount ns id nRetries (framed buf buflen).answer
      (framed buf buflen).buf (laidOut chars buf buflen s)) arrivals = some lookup) :
    PointerTable pointerSize lookup.store.bytes (buf + 4) [buf] := by
  have hinBuffer := asked_within hroom hs hask
  have hlaid : PointerTable pointerSize (laidOut chars buf buflen s).bytes (buf + 4) [buf] :=
    laidOut_table hbuf hend chars
  refine hlaid.congr (read_congr ?_)
  intro i hi
  apply hinBuffer.below
  change i < 16 at hi
  change buf + 4 + i < buf + 84
  omega

/-- A call that has asked, with a well-formed response: the list is complete. -/
theorem asked_addresses (hbuf : 0 < buf) (hend : buf + buflen ≤ 256 ^ pointerSize)
    (hroom : 340 ≤ buflen) (hs : s.Within buf buflen)
    (hask : Asking.ask fuel (.begin nscount ns id nRetries (framed buf buflen).answer
      (framed buf buflen).buf (laidOut chars buf buflen s)) arrivals = some lookup)
    (hret : (answerCall (framed buf buflen) g lookup).ret = .netdbSuccess)
    (hresponse : Response lookup.packet records)
    (hsome : ∃ record ∈ records, record.atype = typeA)
    (hsize : ∀ record ∈ records, record.atype = typeA → record.rdata.length = 4) :
    ∃ hostent, (answerCall (framed buf buflen) g lookup).result = some hostent ∧
      AddressList (answerCall (framed buf buflen) g lookup).store.bytes hostent.hAddrList
        ((matching typeA records).map Record.rdata) := by
  obtain ⟨hanswered, hfits, -⟩ := answerCall_success hret
  have htakenFrom := Asking.ask_takenFrom begin_not_answered hask hanswered
  obtain ⟨start, hbuflen, hempty, htaken⟩ := htakenFrom.taken rfl hresponse
  have hmember {record : Record} (h : record ∈ matching typeA records) :
      record.rdata.length = 4 := by
    obtain ⟨hmem, hmatch⟩ := List.mem_filter.mp h
    exact hsize record hmem (of_decide_eq_true hmatch)
  have htable : PointerTable pointerSize lookup.store.bytes (buf + 4) [buf] :=
    asked_table hbuf (by omega) hroom hs hask
  have husable := htaken.usable_iff.mpr hsome
  cases htaken with
  | missed _ hfreed _ =>
      exact absurd (hfreed.symm.trans husable.2) (by decide)
  | @found first rest hmatching _ _ hrdlength hrdata hrest =>
      have hfour : lookup.a.rdlength = 4 :=
        hrdlength.trans (hmember (hmatching ▸ List.mem_cons_self ..))
      have hbuflen' : start.buflen = (framed buf buflen).buflen := hbuflen
      rcases hrest with hfull | ⟨hcount, hcopied, -⟩
      · rw [Fits] at hfits
        omega
      · rw [hempty, List.nil_append] at hcopied
        obtain ⟨before, hbefore⟩ := htakenFrom.copied
        have hpieces : ∀ piece ∈ rest.map Record.rdata, piece.length = 4 := by
          intro piece hpiece
          obtain ⟨record, hrecord, rfl⟩ := List.mem_map.mp hpiece
          exact hmember (hmatching ▸ List.mem_cons_of_mem _ hrecord)
        have hflatten : lookup.a.copied = (rest.map Record.rdata).flatten :=
          hcopied.trans List.flatMap_def
        have hlength : lookup.a.copied.length = 4 * (rest.map Record.rdata).length := by
          rw [hflatten]
          exact length_flatten_of_forall hpieces
        have hread : read lookup.store.bytes (buf + 84) (4 * (rest.map Record.rdata).length) =
            (rest.map Record.rdata).flatten := by
          rw [hbefore, ← hlength, ← hflatten]
          exact read_write_self before.bytes (buf + 84) lookup.a.copied
        rw [hmatching, List.map_cons]
        refine answerCall_addresses hbuf hend hroom hret htable hfour ?_ ?_ hpieces hread
        · rw [← hrdata, hfour]
          rfl
        · rw [hcount, List.length_map]

/-- Either call, on every return, has written only to the caller's buffer; and where it returns
success with a well-formed response, all of whose addresses are four bytes long and that has at
least one, `h_addr_list` is the addresses of the response in their order, up to a null pointer. -/
theorem address_list_complete {inetAton : List UInt8 → Option (Vector UInt8 4)}
    {before : Option String} {conf : Option ResolvConf} {name : Option (List UInt8)}
    {r : HostCall} (hbuf : 0 < buf) (hend : buf + buflen ≤ 256 ^ pointerSize)
    (hwrites : s.writes = [])
    (hrun : gethostbynameR2 inetAton before conf g name buf buflen serverchoice arrivals fuel s =
        some r ∨
      gethostbynameR2Async inetAton conf g name buf buflen serverchoice nRetries arrivals fuel s =
        some r) :
    r.store.Within buf buflen ∧
      ∀ lookup records, r.ret = .netdbSuccess → r.lookup = some lookup →
        Response lookup.packet records → (∃ record ∈ records, record.atype = typeA) →
        (∀ record ∈ records, record.atype = typeA → record.rdata.length = 4) →
        ∃ hostent, r.result = some hostent ∧
          AddressList r.store.bytes hostent.hAddrList ((matching typeA records).map Record.rdata) := by
  have hs : s.Within buf buflen := by
    intro place hplace
    rw [hwrites] at hplace
    cases hplace
  -- both calls end in the same way behind their lookups
  have hasked {nscount ns id : Nat} {nRetries : Int} {chars : List UInt8} {g : Globals}
      {lookup : Asking} (hroom : 340 ≤ buflen)
      (hask : Asking.ask fuel (.begin nscount ns id nRetries (framed buf buflen).answer
        (framed buf buflen).buf (laidOut chars buf buflen s)) arrivals = some lookup)
      (hr : r = answerCall (framed buf buflen) g lookup) : r.store.Within buf buflen ∧
        ∀ lookup records, r.ret = .netdbSuccess → r.lookup = some lookup →
          Response lookup.packet records → (∃ record ∈ records, record.atype = typeA) →
          (∀ record ∈ records, record.atype = typeA → record.rdata.length = 4) →
          ∃ hostent, r.result = some hostent ∧ AddressList r.store.bytes hostent.hAddrList
            ((matching typeA records).map Record.rdata) := by
    subst hr
    refine ⟨answerCall_within hroom (asked_within hroom hs hask).within, ?_⟩
    intro lookup' records hret hlookup hresponse hsome hsize
    obtain rfl : lookup = lookup' := Option.some.inj ((answerCall_lookup ..).symm.trans hlookup)
    exact asked_addresses hbuf hend hroom hs hask hret hresponse hsome hsize
  rcases hrun with hrun | hrun
  · rcases withBuffer_cases hrun with ⟨-, -, hnone, hwithin⟩ | ⟨⟨_, -, -, hroom⟩, chars, hlookup⟩
    · exact ⟨hwithin hs, fun lookup _ _ hlookup => absurd (hnone.symm.trans hlookup) nofun⟩
    · dsimp only at hlookup
      split at hlookup
      · obtain rfl := Option.some.inj hlookup
        refine ⟨laidOut_within hroom hs, ?_⟩
        intro lookup records hret
        cases hret
      · obtain ⟨lookup, hask, hr⟩ := Option.map_eq_some_iff.mp hlookup
        exact hasked hroom hask hr.symm
  · rcases withBuffer_cases hrun with ⟨-, -, hnone, hwithin⟩ | ⟨⟨_, -, -, hroom⟩, chars, hlookup⟩
    · exact ⟨hwithin hs, fun lookup _ _ hlookup => absurd (hnone.symm.trans hlookup) nofun⟩
    · obtain ⟨lookup, hask, hr⟩ := Option.map_eq_some_iff.mp hlookup
      exact hasked hroom hask hr.symm

/-- To the query with id 2: two addresses, the second with the name of the first. -/
def addressesReply : Memory :=
  packetOf [0, 2, 0x80, 0, 0, 0, 0, 2, 0, 0, 0, 0, 1, 97, 0, 0, 1, 0, 1, 0, 0, 0, 0, 0, 4, 10, 0, 0, 7,
    0xc0, 12, 0, 1, 0, 1, 0, 0, 0, 0, 0, 4, 10, 0, 0, 8]

def addressesRecords : List Record := [⟨[[97]], 1, [10, 0, 0, 7]⟩, ⟨[[97]], 1, [10, 0, 0, 8]⟩]

theorem addressesReply_response : Response addressesReply addressesRecords := by
  refine ⟨rfl, 12, .nil, ?_⟩
  have hname : Expands addressesReply 12 [[97]] 3 :=
    @Expands.label addressesReply 12 1 1 [] rfl (by decide) (.root rfl)
  have hpointer : Expands addressesReply 29 [[97]] 2 := .pointer rfl hname
  exact .cons hname rfl rfl rfl (.cons hpointer rfl rfl rfl .nil)

theorem addressesReply_complete : ∃ r hostent,
    gethostbynameR2 (fun _ => none) none firstServerOnly .init (some [97]) 4096 400 1
        [(.reply addressesReply 45, 0)] 4 ⟨fun _ => 0, []⟩ = some r ∧
      r.store.Within 4096 400 ∧ r.result = some hostent ∧
      AddressList r.store.bytes hostent.hAddrList [[10, 0, 0, 7], [10, 0, 0, 8]] := by
  have hrun : ∃ r lookup, gethostbynameR2 (fun _ => none) none firstServerOnly .init (some [97])
      4096 400 1 [(.reply addressesReply 45, 0)] 4 ⟨fun _ => 0, []⟩ = some r ∧
      r.ret = .netdbSuccess ∧ r.lookup = some lookup ∧ lookup.packet = addressesReply :=
    ⟨_, _, rfl, rfl, rfl, rfl⟩
  obtain ⟨r, lookup, hr, hret, hlookup, hpacket⟩ := hrun
  have hresponse : Response lookup.packet addressesRecords := hpacket ▸ addressesReply_response
  obtain ⟨hwithin, hlist⟩ := @address_list_complete .init ⟨fun _ => 0, []⟩ 4096 400 4 1 1
    [(.reply addressesReply 45, 0)] (fun _ => none) none firstServerOnly (some [97]) r (by decide)
    (by decide) rfl (.inl hr)
  obtain ⟨hostent, hhostent, haddresses⟩ := hlist lookup addressesRecords hret hlookup hresponse
    ⟨_, List.mem_cons_self .., rfl⟩ (by decide)
  exact ⟨r, hostent, hr, hwithin, hhostent, haddresses⟩

end EventLoop.Dns
