import EventLoop.WebSocket.Stream

/-!
What the return value of `decodeWebSockMsg` says about any bytes. It is a difference of lengths
for all bytes that are not one whole frame, and only the low 32 bits of a 64-bit length are read.
-/

namespace EventLoop.WebSocket

/-- The return value as an `int`; the differences in it may come around. -/
def returned (ws : List UInt8) : Int := (decodeWebSockMsg ws).ret.bmod (2 ^ 32)

def masked (ws : List UInt8) : Bool := ws.getD 1 0 &&& 0x80 != 0

/-- The seven bits of the second byte. -/
def shortLength (ws : List UInt8) : Nat := (ws.getD 1 0 &&& 0x7f).toNat

/-- The number of bytes of the length that follows the second byte. -/
def extendedBytes (ws : List UInt8) : Nat :=
  if shortLength ws = 126 then 2 else if shortLength ws = 127 then 8 else 0

/-- Up to the first byte of the payload. -/
def headLength (ws : List UInt8) : Nat :=
  2 + extendedBytes ws + if masked ws then websockMskLen else 0

def bigEndian (bytes : List UInt8) : Nat := bytes.foldl (fun n byte => n * 256 + byte.toNat) 0

/-- The length of the payload that the header gives. -/
def payloadLength (ws : List UInt8) : Nat :=
  if shortLength ws = 126 then bigEndian [ws.getD 2 0, ws.getD 3 0]
  else if shortLength ws = 127 then
    bigEndian [ws.getD 2 0, ws.getD 3 0, ws.getD 4 0, ws.getD 5 0, ws.getD 6 0, ws.getD 7 0,
      ws.getD 8 0, ws.getD 9 0]
  else shortLength ws

/-- The low 32 bits of that length. -/
def lowLength (ws : List UInt8) : Nat := payloadLength ws % 2 ^ 32

/-- The bytes behind the header, each with its byte of the key. -/
def unmasked (ws : List UInt8) : List UInt8 :=
  let payload := ws.drop (headLength ws)
  if masked ws then
    payload.mapIdx (fun i byte =>
      byte ^^^ ws.getD (headLength ws - websockMskLen + i % websockMskLen) 0)
  else payload

/-- One whole frame, with the length of its payload read in this way. -/
structure CompleteFrame (length : List UInt8 → Nat) (ws : List UInt8) : Prop where
  opcode : AcceptedOpcode (ws.getD 0 0)
  header : 2 ≤ ws.length
  whole : ws.length = headLength ws + length ws

/-- The return value is the length of the payload of a whole frame, or the error code for bytes
that are no frame, or says how many bytes are missing at least. -/
structure ReturnsAs (length : List UInt8 → Nat) (ws : List UInt8) : Prop where
  payload : 0 ≤ returned ws → CompleteFrame length ws ∧ (length ws : Int) = returned ws ∧
    (decodeWebSockMsg ws).msg = unmasked ws
  error : returned ws = -9999 → ¬ AcceptedOpcode (ws.getD 0 0)
  missing : returned ws < 0 → returned ws ≠ -9999 →
    1 ≤ -returned ws ∧ ∀ more, CompleteFrame length (ws ++ more) → -returned ws ≤ more.length

variable {ws more : List UInt8}

theorem header_append (h : 2 ≤ ws.length) (more : List UInt8) :
    masked (ws ++ more) = masked ws ∧ shortLength (ws ++ more) = shortLength ws ∧
      headLength (ws ++ more) = headLength ws := by
  have hsecond : (ws ++ more).getD 1 0 = ws.getD 1 0 := List.getD_append _ _ _ _ (by omega)
  have hmasked : masked (ws ++ more) = masked ws := by rw [masked, hsecond, masked]
  have hshort : shortLength (ws ++ more) = shortLength ws := by
    rw [shortLength, hsecond, shortLength]
  refine ⟨hmasked, hshort, ?_⟩
  rw [headLength, hmasked, extendedBytes, hshort, headLength, extendedBytes]

theorem two_le_headLength (ws : List UInt8) : 2 ≤ headLength ws := by
  rw [headLength, Nat.add_assoc]
  exact Nat.le_add_right _ _

theorem payloadLength_append (h : headLength ws ≤ ws.length) (more : List UInt8) :
    payloadLength (ws ++ more) = payloadLength ws := by
  have htwo := two_le_headLength ws
  obtain ⟨-, hshort, -⟩ := header_append (Nat.le_trans htwo h) more
  have hget (i : Nat) (hi : i < headLength ws) : (ws ++ more).getD i 0 = ws.getD i 0 :=
    List.getD_append _ _ _ _ (by omega)
  rw [payloadLength, hshort, payloadLength]
  split
  · rename_i h126
    have hhead : 4 ≤ headLength ws := by
      rw [headLength, extendedBytes, if_pos h126]
      omega
    rw [hget 2 (by omega), hget 3 (by omega)]
  · split
    · rename_i h126 h127
      have hhead : 10 ≤ headLength ws := by
        rw [headLength, extendedBytes, if_neg h126, if_pos h127]
        omega
      rw [hget 2 (by omega), hget 3 (by omega), hget 4 (by omega), hget 5 (by omega),
        hget 6 (by omega), hget 7 (by omega), hget 8 (by omega), hget 9 (by omega)]
    · rfl

theorem lowLength_lt (ws : List UInt8) : lowLength ws < 2 ^ 32 := Nat.mod_lt _ (by decide)

theorem asInt_of_lt {n : Nat} (h : n < 2 ^ 31) : asInt n = n := if_pos h

theorem returned_one (h : ws.length = 1) : returned ws = -1 := by
  have hret : (decodeWebSockMsg ws).ret = -1 := by
    rw [decodeWebSockMsg, if_pos (by omega)]
    change -(2 - (ws.length : Int)) = -1
    omega
  rw [returned, hret]
  decide

theorem returned_refused (h : 2 ≤ ws.length) (hopcode : ¬ AcceptedOpcode (ws.getD 0 0)) :
    returned ws = -9999 := by
  have hret : (decodeWebSockMsg ws).ret = -9999 := by
    rw [AcceptedOpcode] at hopcode
    rw [decodeWebSockMsg, if_neg (by omega)]
    simp only
    rw [if_neg hopcode]
  rw [returned, hret]
  decide

theorem lowLength_two (h : shortLength ws = 126) :
    lowLength ws = (ws.getD 2 0).toNat <<< 8 ||| (ws.getD 3 0).toNat := by
  have hhigh := UInt8.toNat_lt (ws.getD 2 0)
  have hlow := UInt8.toNat_lt (ws.getD 3 0)
  rw [lowLength, payloadLength, if_pos h, ← Nat.shiftLeft_add_eq_or_of_lt hlow, Nat.shiftLeft_eq]
  change ((0 * 256 + _) * 256 + _) % 2 ^ 32 = _
  omega

theorem lowLength_eight (h : shortLength ws = 127) :
    lowLength ws = (ws.getD 6 0).toNat <<< 24 ||| (ws.getD 7 0).toNat <<< 16 |||
      (ws.getD 8 0).toNat <<< 8 ||| (ws.getD 9 0).toNat := by
  have h6 := UInt8.toNat_lt (ws.getD 6 0)
  have h7 := UInt8.toNat_lt (ws.getD 7 0)
  have h8 := UInt8.toNat_lt (ws.getD 8 0)
  have h9 := UInt8.toNat_lt (ws.getD 9 0)
  rw [lowLength, payloadLength, if_neg (by omega), if_pos h, or_bytes _ _ _ _ h7 h8 h9]
  change ((((((((0 * 256 + _) * 256 + _) * 256 + _) * 256 + _) * 256 + _) * 256 + _) * 256 + _) *
    256 + _) % 2 ^ 32 = _
  omega

theorem shortLength_lt (ws : List UInt8) : shortLength ws < 128 := by
  have hmask : (ws.getD 1 0).toNat &&& 127 ≤ 127 := Nat.and_le_right
  rw [shortLength, UInt8.toNat_and]
  exact Nat.lt_succ_of_le hmask

theorem lowLength_none (h126 : shortLength ws ≠ 126) (h127 : shortLength ws ≠ 127) :
    lowLength ws = shortLength ws := by
  have hlt := shortLength_lt ws
  rw [lowLength, payloadLength, if_neg h126, if_neg h127]
  omega

/-- Behind the second byte. -/
theorem decode_second (hopcode : AcceptedOpcode (ws.getD 0 0)) (h : 2 ≤ ws.length) :
    let keyLen := if masked ws then websockMskLen else 0
    decodeWebSockMsg ws =
      if extendedBytes ws ≠ 0 ∧ ws.length < 2 + extendedBytes ws + keyLen then
        ⟨-((2 + extendedBytes ws + keyLen : Nat) - ws.length), ws, none, ws.getD 0 0 &&& 0xf⟩
      else decodePayload ws (masked ws) (2 + extendedBytes ws) (asInt (lowLength ws))
        (ws.getD 0 0 &&& 0xf) := by
  intro keyLen
  have hshort : (ws.getD 1 0 &&& 0x7f).toNat = shortLength ws := rfl
  have hmasked : (ws.getD 1 0 &&& 0x80 != 0) = masked ws := rfl
  have hleast2 : (if masked ws then 8 else 4 : Int) = (4 + keyLen : Nat) := by
    simp only [keyLen]
    split <;> rfl
  have hleast8 : (if masked ws then 14 else 10 : Int) = (10 + keyLen : Nat) := by
    simp only [keyLen]
    split <;> rfl
  rw [AcceptedOpcode] at hopcode
  rw [decodeWebSockMsg, if_neg (by omega)]
  simp only [hshort, hmasked, hleast2, hleast8]
  rw [if_pos hopcode, extendedBytes]
  by_cases h126 : shortLength ws = 126
  · have hlow := lowLength_two h126
    have hlt : lowLength ws < 2 ^ 16 := by
      rw [hlow]
      have hhigh := UInt8.toNat_lt (ws.getD 2 0)
      have hbyte := UInt8.toNat_lt (ws.getD 3 0)
      rw [← Nat.shiftLeft_add_eq_or_of_lt hbyte, Nat.shiftLeft_eq]
      omega
    simp only [if_pos h126]
    rw [← hlow, asInt_of_lt (by omega)]
    by_cases hcut : ws.length < 4 + keyLen
    · have hcond : 2 ≠ 0 ∧ ws.length < 2 + 2 + keyLen := ⟨by decide, hcut⟩
      rw [if_pos (Int.ofNat_lt.mpr hcut), if_pos hcond]
    · rw [if_neg (fun h => hcut (Int.ofNat_lt.mp h)),
        if_neg (fun h : 2 ≠ 0 ∧ ws.length < 2 + 2 + keyLen => hcut h.2)]
  · by_cases h127 : shortLength ws = 127
    · simp only [if_neg h126, if_pos h127]
      rw [← lowLength_eight h127]
      by_cases hcut : ws.length < 10 + keyLen
      · have hcond : 8 ≠ 0 ∧ ws.length < 2 + 8 + keyLen := ⟨by decide, hcut⟩
        rw [if_pos (Int.ofNat_lt.mpr hcut), if_pos hcond]
      · rw [if_neg (fun h => hcut (Int.ofNat_lt.mp h)),
          if_neg (fun h : 8 ≠ 0 ∧ ws.length < 2 + 8 + keyLen => hcut h.2)]
    · have hlt := shortLength_lt ws
      simp only [if_neg h126, if_neg h127]
      rw [if_neg (fun h => h.1 rfl), lowLength_none h126 h127, asInt_of_lt (by omega)]

/-- The return value, for bytes that do not end where the payload does. -/
theorem decodePayload_mismatch {payloadLen : Int} (nCtrl : UInt8)
    (h : (headLength ws : Int) + payloadLen ≠ ws.length) :
    (decodePayload ws (masked ws) (2 + extendedBytes ws) payloadLen nCtrl).ret =
      ws.length - (headLength ws + payloadLen) :=
  congrArg Decoded.ret (if_pos h)

theorem int_bmod {x : Int} (hlow : -2 ^ 31 ≤ x) (hhigh : x < 2 ^ 31) : x.bmod (2 ^ 32) = x :=
  Int.bmod_eq_of_le_mul_two (by omega) (by omega)

theorem headLength_le (ws : List UInt8) : headLength ws ≤ 14 := by
  have hext : extendedBytes ws ≤ 8 := by
    rw [extendedBytes]
    split
    · decide
    · split <;> decide
  have hkey : (if masked ws then websockMskLen else 0) ≤ 4 := by
    split <;> decide
  rw [headLength]
  omega

/-- A header that is cut off is short of its rest and, if the length is in it, of the payload. -/
theorem returned_cut (hopcode : AcceptedOpcode (ws.getD 0 0)) (htwo : 2 ≤ ws.length)
    (hcut : ws.length < headLength ws) :
    ∃ tail, tail < 128 ∧ returned ws = ws.length - ((headLength ws + tail : Nat) : Int) ∧
      ∀ more, tail ≤ lowLength (ws ++ more) := by
  have hle := headLength_le ws
  have hsecond := decode_second hopcode htwo
  by_cases hext : extendedBytes ws = 0
  · have hnone : shortLength ws ≠ 126 ∧ shortLength ws ≠ 127 := by
      rw [extendedBytes] at hext
      split at hext
      · cases hext
      · split at hext
        · cases hext
        · exact ⟨‹_›, ‹_›⟩
    have hlt := shortLength_lt ws
    refine ⟨shortLength ws, hlt, ?_, fun more => ?_⟩
    · simp only [hext, ne_eq, not_true, false_and, if_false] at hsecond
      rw [returned, hsecond, lowLength_none hnone.1 hnone.2, asInt_of_lt (by omega)]
      have hret := @decodePayload_mismatch ws (shortLength ws) (ws.getD 0 0 &&& 0xf) (by omega)
      rw [hext] at hret
      rw [hret, int_bmod (by omega) (by omega)]
      rfl
    · have hshort := (header_append htwo more).2.1
      rw [← hshort] at hnone
      rw [lowLength_none hnone.1 hnone.2, hshort]
  · refine ⟨0, by decide, ?_, fun more => Nat.zero_le _⟩
    have hcond : extendedBytes ws ≠ 0 ∧
        ws.length < 2 + extendedBytes ws + (if masked ws then websockMskLen else 0) := ⟨hext, hcut⟩
    simp only [if_pos hcond] at hsecond
    rw [returned, hsecond]
    change (-((headLength ws : Int) - ws.length)).bmod (2 ^ 32) = _
    rw [int_bmod (by omega) (by omega)]
    omega

theorem decode_header (hopcode : AcceptedOpcode (ws.getD 0 0)) (hhead : headLength ws ≤ ws.length) :
    decodeWebSockMsg ws = decodePayload ws (masked ws) (2 + extendedBytes ws)
      (asInt (lowLength ws)) (ws.getD 0 0 &&& 0xf) := by
  rw [decode_second hopcode (Nat.le_trans (two_le_headLength ws) hhead)]
  exact if_neg (fun hcut => Nat.not_lt.mpr hhead hcut.2)

theorem returned_whole (hopcode : AcceptedOpcode (ws.getD 0 0)) (hint : ws.length < 2 ^ 31)
    (hwhole : ws.length = headLength ws + lowLength ws) :
    returned ws = lowLength ws ∧ (decodeWebSockMsg ws).msg = unmasked ws := by
  have hlow : asInt (lowLength ws) = lowLength ws := asInt_of_lt (by omega)
  have hlength : (headLength ws : Int) + lowLength ws = ws.length := by omega
  have hpayload : (ws.drop (headLength ws)).take (lowLength ws) = ws.drop (headLength ws) := by
    rw [List.take_of_length_le]
    rw [List.length_drop]
    omega
  have hdecoded : decodeWebSockMsg ws =
      ⟨lowLength ws, unmasked ws, some (ws.getD 0 0 == 0x88), ws.getD 0 0 &&& 0xf⟩ := by
    rw [decode_header hopcode (by omega), hlow, decodePayload, ← headLength,
      if_neg (fun hne => hne hlength), Int.toNat_natCast, hpayload]
    rfl
  rw [returned, hdecoded]
  exact ⟨@int_bmod (lowLength ws) (by omega) (by omega), rfl⟩

/-- A length that is at most 2³¹ more than there is comes out as what is missing, or too much. -/
theorem returned_mismatch (hopcode : AcceptedOpcode (ws.getD 0 0))
    (hhead : headLength ws ≤ ws.length) (hint : ws.length < 2 ^ 31)
    (hne : ws.length ≠ headLength ws + lowLength ws)
    (hreach : headLength ws + lowLength ws ≤ ws.length + 2 ^ 31) :
    returned ws = ws.length - ((headLength ws + lowLength ws : Nat) : Int) := by
  have hlt := lowLength_lt ws
  rw [returned, decode_header hopcode hhead]
  by_cases hpositive : lowLength ws < 2 ^ 31
  · rw [asInt_of_lt hpositive, decodePayload_mismatch _ (by omega), int_bmod (by omega) (by omega)]
    rfl
  · have hnegative : asInt (lowLength ws) = (lowLength ws : Int) - 2 ^ 32 := if_neg hpositive
    rw [hnegative, decodePayload_mismatch _ (by omega)]
    have haround : (ws.length : Int) - (headLength ws + ((lowLength ws : Int) - 2 ^ 32)) =
        ws.length - ((headLength ws + lowLength ws : Nat) : Int) + (2 ^ 32 : Nat) := by
      push_cast
      omega
    rw [haround, Int.add_bmod_right]
    exact int_bmod (by omega) (by omega)

/-- A longer one comes out as something positive. -/
theorem returned_far (hopcode : AcceptedOpcode (ws.getD 0 0))
    (hhead : headLength ws ≤ ws.length)
    (hfar : ws.length + 2 ^ 31 < headLength ws + lowLength ws) :
    returned ws = ws.length - ((headLength ws + lowLength ws : Nat) : Int) + 2 ^ 32 := by
  have hlt := lowLength_lt ws
  have hnegative : asInt (lowLength ws) = (lowLength ws : Int) - 2 ^ 32 := if_neg (by omega)
  rw [returned, decode_header hopcode hhead, hnegative, decodePayload_mismatch _ (by omega),
    int_bmod (by omega) (by omega)]
  push_cast
  omega

/-- The low 32 bits of the length are no less than what there is of the payload, and neither 9999
nor more than 2³¹ more. -/
def Plausible (ws : List UInt8) : Prop :=
  ws.length ≤ headLength ws + lowLength ws ∧
    headLength ws + lowLength ws ≤ ws.length + 2 ^ 31 ∧
    headLength ws + lowLength ws ≠ ws.length + 9999

theorem complete_append (hlength : 2 ≤ ws.length) {length : List UInt8 → Nat}
    (h : CompleteFrame length (ws ++ more)) :
    more.length + ws.length = headLength ws + length (ws ++ more) := by
  have hwhole := h.whole
  rw [List.length_append, (header_append hlength more).2.2] at hwhole
  omega

theorem returnsAs_of_refused (hlength : ws.length = 1 ∨
    2 ≤ ws.length ∧ ¬ AcceptedOpcode (ws.getD 0 0)) (length : List UInt8 → Nat) :
    ReturnsAs length ws := by
  rcases hlength with hone | ⟨htwo, hopcode⟩
  · have hret := returned_one hone
    refine ⟨fun h => by omega, fun h => by omega, fun _ _ => ⟨by omega, fun more hmore => ?_⟩⟩
    have htwo := hmore.header
    rw [List.length_append] at htwo
    omega
  · have hret := returned_refused htwo hopcode
    exact ⟨fun h => by omega, fun _ => hopcode, fun _ hne => absurd hret hne⟩

theorem returnsAs_low_of_cut (hopcode : AcceptedOpcode (ws.getD 0 0)) (htwo : 2 ≤ ws.length)
    (hcut : ws.length < headLength ws) : ReturnsAs lowLength ws := by
  obtain ⟨tail, htail, hret, hleast⟩ := returned_cut hopcode htwo hcut
  have hle := headLength_le ws
  refine ⟨fun h => by omega, fun h => by omega, fun _ _ => ⟨by omega, fun more hmore => ?_⟩⟩
  have hmissing := complete_append htwo hmore
  have hmost := hleast more
  omega

theorem returnsAs_low_of_plausible (hopcode : AcceptedOpcode (ws.getD 0 0))
    (hhead : headLength ws ≤ ws.length) (hint : ws.length < 2 ^ 31) (h : Plausible ws) :
    ReturnsAs lowLength ws := by
  obtain ⟨hleast, hmost, hcode⟩ := h
  have htwo := Nat.le_trans (two_le_headLength ws) hhead
  by_cases hwhole : ws.length = headLength ws + lowLength ws
  · obtain ⟨hret, hmsg⟩ := returned_whole hopcode hint hwhole
    exact ⟨fun _ => ⟨⟨hopcode, htwo, hwhole⟩, hret.symm, hmsg⟩, fun h => by omega,
      fun h => by omega⟩
  · have hret := returned_mismatch hopcode hhead hint hwhole hmost
    refine ⟨fun h => by omega, fun h => by omega, fun _ _ => ⟨by omega, fun more hmore => ?_⟩⟩
    have hmissing := complete_append htwo hmore
    rw [lowLength, payloadLength_append hhead, ← lowLength] at hmissing
    omega

/-- Exactly which bytes the return value is right about, if only the low 32 bits of a length
count. -/
theorem returnsAs_low_iff (hpos : 1 ≤ ws.length) (hint : ws.length < 2 ^ 31) :
    ReturnsAs lowLength ws ↔
      (AcceptedOpcode (ws.getD 0 0) → headLength ws ≤ ws.length → Plausible ws) := by
  have htwo := two_le_headLength ws
  by_cases hone : ws.length = 1
  · exact iff_of_true (returnsAs_of_refused (.inl hone) lowLength) (fun _ hhead => by omega)
  by_cases hopcode : AcceptedOpcode (ws.getD 0 0)
  · by_cases hhead : headLength ws ≤ ws.length
    · refine ⟨fun h _ _ => ?_, fun h => returnsAs_low_of_plausible hopcode hhead hint
        (h hopcode hhead)⟩
      have hnot (hne : ws.length ≠ headLength ws + lowLength ws) : returned ws < 0 :=
        Int.not_le.mp (fun hret => hne (h.payload hret).1.whole)
      have hmost : headLength ws + lowLength ws ≤ ws.length + 2 ^ 31 := by
        apply Nat.le_of_not_lt
        intro hfar
        have hret := returned_far hopcode hhead hfar
        have hlt := lowLength_lt ws
        have hnegative := hnot (by omega)
        omega
      refine ⟨?_, hmost, ?_⟩
      · apply Nat.le_of_not_lt
        intro hmore
        have hret := returned_mismatch hopcode hhead hint (by omega) hmost
        have hnegative := hnot (by omega)
        omega
      · intro hcode
        have hret := returned_mismatch hopcode hhead hint (by omega) hmost
        exact h.error (by omega) hopcode
    · exact iff_of_true (returnsAs_low_of_cut hopcode (by omega) (by omega))
        (fun _ hhead' => absurd hhead' hhead)
  · exact iff_of_true (returnsAs_of_refused (.inr ⟨by omega, hopcode⟩) lowLength)
      (fun hopcode' => absurd hopcode' hopcode)

/-- Bytes that no header's length is at odds with are answered as they should be, but for the high
bits of a 64-bit length. -/
theorem decodeWebSockMsg_returnsAs (hpos : 1 ≤ ws.length) (hint : ws.length < 2 ^ 31)
    (hheader : AcceptedOpcode (ws.getD 0 0) → headLength ws ≤ ws.length → Plausible ws) :
    ReturnsAs lowLength ws :=
  (returnsAs_low_iff hpos hint).mpr hheader

/-- A masked frame without the last of its two bytes. -/
theorem decodeWebSockMsg_returnsAs_one : ReturnsAs lowLength [0x81, 0x82, 1, 2, 3, 4, 105] :=
  decodeWebSockMsg_returnsAs (by decide) (by decide) (fun _ _ => by unfold Plausible; decide)

/-- The header of a payload of 2³² bytes is taken for a whole frame. -/
theorem high_length_ignored : ¬ ∀ ws : List UInt8, 1 ≤ ws.length → ws.length < 2 ^ 31 →
    ReturnsAs payloadLength ws := by
  intro h
  have hreturns := h [0x81, 0x7f, 0, 0, 0, 1, 0, 0, 0, 0] (by decide) (by decide)
  have hwhole := (hreturns.payload (by decide)).1.whole
  exact absurd hwhole (by decide)

end EventLoop.WebSocket
