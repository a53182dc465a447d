import EventLoop.Dns.Asking
import EventLoop.Dns.SearchDomain

/-!
The packet of a query: `__encode_header` and what `__decode_header` makes of it, and behind it
the question, as a server reads them.
-/

namespace EventLoop.Dns

open ByteMemory Iteration

/-- `struct resolv_header` as a whole. -/
structure ResolvHeader extends Header where
  opcode : Nat
  aa : Bool
  tc : Bool
  rd : Bool
  ra : Bool
  nscount : Nat
  arcount : Nat
deriving DecidableEq, Repr

/-- `(x & 0xff00) >> 8` and `(x & 0x00ff) >> 0` of a field of the header. -/
def fieldBytes (x : Nat) : List UInt8 :=
  [UInt8.ofNat ((x &&& 0xff00) >>> 8), UInt8.ofNat (x &&& 0x00ff)]

/-- `dest[2]` -/
def flagsByte (h : ResolvHeader) : UInt8 :=
  UInt8.ofNat ((if h.qr then 0x80 else 0) ||| ((h.opcode &&& 0x0f) <<< 3) |||
    (if h.aa then 0x04 else 0) ||| (if h.tc then 0x02 else 0) ||| (if h.rd then 0x01 else 0))

/-- `dest[3]` -/
def rcodeByte (h : ResolvHeader) : UInt8 :=
  UInt8.ofNat ((if h.ra then 0x80 else 0) ||| (h.rcode &&& 0x0f))

/-- `__encode_header` -/
def encodeHeader (h : ResolvHeader) (maxlen : Int) : Int × List UInt8 :=
  if maxlen < hFixedSz then (-1, [])
  else
    (hFixedSz, fieldBytes h.id ++ [flagsByte h, rcodeByte h] ++ fieldBytes h.qdcount ++
      fieldBytes h.ancount ++ fieldBytes h.nscount ++ fieldBytes h.arcount)

/-- `__decode_header`, with the fields that no caller looks at. -/
def decodeResolvHeader (data : Memory) : ResolvHeader where
  toHeader := decodeHeader data
  opcode := ((data 2 >>> 3) &&& 0x0f).toNat
  aa := data 2 &&& 0x04 ≠ 0
  tc := data 2 &&& 0x02 ≠ 0
  rd := data 2 &&& 0x01 ≠ 0
  ra := data 3 &&& 0x80 ≠ 0
  nscount := shortAt data 8
  arcount := shortAt data 10

/-- The header of a query, behind `memset`. -/
def queryHeader (localId : Nat) : ResolvHeader where
  id := localId
  qr := false
  rcode := 0
  qdcount := 1
  ancount := 0
  opcode := 0
  aa := false
  tc := false
  rd := true
  ra := false
  nscount := 0
  arcount := 0

/-- The packet that is sent for a name, or `fail`; `none` while the name is being encoded. -/
def encodeQuery (localId : Nat) (lookup : List UInt8) (type : BitVec 32) (fuel : Nat) :
    Option (Option (List UInt8)) :=
  let (i, header) := encodeHeader (queryHeader localId) packetSz
  if i < 0 then some none
  else
    (encodeQuestion ⟨lookup, type, cIn⟩ (packetSz - i) fuel).map (fun
      | .returned j question => if j < 0 then none else some (header ++ question)
      | .overrun => none)

/-- What has room in a header of each field. -/
def ResolvHeader.stored (h : ResolvHeader) : ResolvHeader :=
  { h with
    id := h.id % 65536
    rcode := h.rcode % 16
    qdcount := h.qdcount % 65536
    ancount := h.ancount % 65536
    opcode := h.opcode % 16
    nscount := h.nscount % 65536
    arcount := h.arcount % 65536 }

variable {data : Memory} {bytes front back : List UInt8}

theorem read_packetOf (bytes : List UInt8) : read (packetOf bytes) 0 bytes.length = bytes :=
  read_write_self (fun _ => 0) 0 bytes

/-- What stands in the middle of a packet. -/
theorem bytesAt_packetOf (front middle back : List UInt8) :
    bytesAt (packetOf (front ++ middle ++ back)) front.length middle.length = middle := by
  have hall := read_packetOf (front ++ middle ++ back)
  rw [List.length_append, read_append_iff, List.length_append, read_append_iff, Nat.zero_add] at hall
  exact hall.1.2

theorem shortAt_of_fieldBytes {offset x : Nat} (h : bytesAt data offset 2 = fieldBytes x) :
    shortAt data offset = x % 65536 := by
  have hhigh : (x &&& 0xff00) >>> 8 = x / 256 % 256 := by
    have hmask : 0xff00 >>> 8 = 2 ^ 8 - 1 := rfl
    rw [Nat.shiftRight_and_distrib, hmask, Nat.and_two_pow_sub_one_eq_mod, Nat.shiftRight_eq_div_pow]
  have hlow : x &&& 0x00ff = x % 256 := Nat.and_two_pow_sub_one_eq_mod x 8
  have hfirst : data offset = UInt8.ofNat (x / 256 % 256) := by
    rw [← hhigh]
    exact List.head_eq_of_cons_eq h
  have hsecond : data (offset + 1) = UInt8.ofNat (x % 256) := by
    rw [← hlow]
    exact List.head_eq_of_cons_eq (List.tail_eq_of_cons_eq h)
  rw [shortAt, hfirst, hsecond, UInt8.toNat_ofNat', UInt8.toNat_ofNat',
    ← Nat.shiftLeft_add_eq_or_of_lt (Nat.mod_lt _ (by decide)), Nat.shiftLeft_eq]
  omega

theorem flagsByte_facts : ∀ (qr aa tc rd : Bool), ∀ opcode < 16,
    let flags := UInt8.ofNat ((if qr then 0x80 else 0) ||| (opcode <<< 3) |||
      (if aa then 0x04 else 0) ||| (if tc then 0x02 else 0) ||| (if rd then 0x01 else 0))
    decide (flags &&& 0x80 ≠ 0) = qr ∧ ((flags >>> 3) &&& 0x0f).toNat = opcode ∧
      decide (flags &&& 0x04 ≠ 0) = aa ∧ decide (flags &&& 0x02 ≠ 0) = tc ∧
      decide (flags &&& 0x01 ≠ 0) = rd := by
  decide +kernel

theorem rcodeByte_facts : ∀ (ra : Bool), ∀ rcode < 16,
    let byte := UInt8.ofNat ((if ra then 0x80 else 0) ||| rcode)
    decide (byte &&& 0x80 ≠ 0) = ra ∧ (byte &&& 0x0f).toNat = rcode := by
  decide

theorem and_fifteen (x : Nat) : x &&& 0x0f = x % 16 := Nat.and_two_pow_sub_one_eq_mod x 4

theorem flagsByte_read (h : ResolvHeader) :
    decide (flagsByte h &&& 0x80 ≠ 0) = h.qr ∧
      ((flagsByte h >>> 3) &&& 0x0f).toNat = h.opcode % 16 ∧
      decide (flagsByte h &&& 0x04 ≠ 0) = h.aa ∧ decide (flagsByte h &&& 0x02 ≠ 0) = h.tc ∧
      decide (flagsByte h &&& 0x01 ≠ 0) = h.rd := by
  rw [flagsByte, and_fifteen]
  exact flagsByte_facts h.qr h.aa h.tc h.rd (h.opcode % 16) (Nat.mod_lt _ (by decide))

theorem rcodeByte_read (h : ResolvHeader) :
    decide (rcodeByte h &&& 0x80 ≠ 0) = h.ra ∧ (rcodeByte h &&& 0x0f).toNat = h.rcode % 16 := by
  rw [rcodeByte, and_fifteen]
  exact rcodeByte_facts h.ra (h.rcode % 16) (Nat.mod_lt _ (by decide))

/-- The header is read as it was written, as far as there is room for its fields. -/
theorem decodeResolvHeader_encodeHeader {h : ResolvHeader}
    (hread : bytesAt data 0 12 = (encodeHeader h packetSz).2) :
    decodeResolvHeader data = h.stored := by
  have hfield {k x : Nat} (hk : k + 2 ≤ 12)
      (hx : ((encodeHeader h packetSz).2.drop k).take 2 = fieldBytes x) :
      shortAt data k = x % 65536 := by
    apply shortAt_of_fieldBytes
    have hpart : bytesAt data (0 + k) 2 = ((bytesAt data 0 12).drop k).take 2 := read_part hk
    rwa [hread, hx, Nat.zero_add] at hpart
  have hflags : data 2 = flagsByte h :=
    List.head_eq_of_cons_eq (List.tail_eq_of_cons_eq (List.tail_eq_of_cons_eq hread))
  have hrcode : data 3 = rcodeByte h := List.head_eq_of_cons_eq (List.tail_eq_of_cons_eq
    (List.tail_eq_of_cons_eq (List.tail_eq_of_cons_eq hread)))
  obtain ⟨hqr, hopcode, haa, htc, hrd⟩ := flagsByte_read h
  obtain ⟨hra, hcode⟩ := rcodeByte_read h
  have hid := @hfield 0 h.id (by decide) rfl
  have hqdcount := @hfield 4 h.qdcount (by decide) rfl
  have hancount := @hfield 6 h.ancount (by decide) rfl
  have hnscount := @hfield 8 h.nscount (by decide) rfl
  have harcount := @hfield 10 h.arcount (by decide) rfl
  simp only [decodeResolvHeader, decodeHeader, ResolvHeader.stored, hid, hqdcount, hancount,
    hnscount, harcount, hflags, hrcode, hqr, hopcode, haa, htc, hrd, hra, hcode]

/-- The bytes of a question behind the header. -/
def questionBytes (labels : List (List UInt8)) (type : BitVec 32) : List UInt8 :=
  wire labels ++ (shortBytes type ++ shortBytes cIn)

variable {localId fuel : Nat} {name : AskedName} {type : BitVec 32} {query : List UInt8}

theorem length_encodeHeader (h : ResolvHeader) : (encodeHeader h packetSz).2.length = 12 := rfl

theorem length_questionBytes (labels : List (List UInt8)) (type : BitVec 32) :
    (questionBytes labels type).length = (wire labels).length + 4 :=
  List.length_append

theorem encodeQuery_yields (localId : Nat) (name : AskedName) (type : BitVec 32) :
    ∃ fuel, encodeQuery localId (dotted name.labels) type fuel =
      some (some ((encodeHeader (queryHeader localId) packetSz).2 ++
        questionBytes name.labels type)) := by
  have hle := name.wire_le
  obtain ⟨fuel, hencode⟩ := @AskedName.encode_yields name 500 (by omega) (by omega)
  refine ⟨fuel, ?_⟩
  have hquestion : encodeQuestion ⟨dotted name.labels, type, cIn⟩ 500 fuel =
      some (.returned ((wire name.labels).length + 4 : Int) (questionBytes name.labels type)) := by
    rw [encodeQuestion, encodeDotted, hencode, Option.map_some,
      encodeFixed_wire ⟨_, type, cIn⟩ (by omega) (by omega), questionBytes]
  change (encodeQuestion ⟨dotted name.labels, type, cIn⟩ 500 fuel).map _ = _
  rw [hquestion, Option.map_some]
  exact congrArg some (if_neg (by omega))

theorem encodeQuery_unique {fuel' : Nat} {lookup : List UInt8} {result result' : Option (List UInt8)}
    (h : encodeQuery localId lookup type fuel = some result)
    (h' : encodeQuery localId lookup type fuel' = some result') : result = result' := by
  obtain ⟨encoded, hencoded, rfl⟩ := Option.map_eq_some_iff.mp h
  obtain ⟨encoded', hencoded', rfl⟩ := Option.map_eq_some_iff.mp h'
  obtain ⟨r, hr, rfl⟩ := Option.map_eq_some_iff.mp hencoded
  obtain ⟨r', hr', rfl⟩ := Option.map_eq_some_iff.mp hencoded'
  rw [Yields.iterate_eq ⟨fuel, hr⟩ hr']

/-- What a query is made of. -/
theorem encodeQuery_bytes
    (h : encodeQuery localId (dotted name.labels) type fuel = some (some query)) :
    query = (encodeHeader (queryHeader localId) packetSz).2 ++ questionBytes name.labels type := by
  obtain ⟨fuel', hyields⟩ := encodeQuery_yields localId name type
  exact Option.some.inj (encodeQuery_unique h hyields)

end EventLoop.Dns
