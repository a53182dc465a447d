import EventLoop.WebSocket.Codec
import EventLoop.Lib.Framing
import Mathlib.Data.List.GetD
import Mathlib.Data.Nat.Bitwise
import Mathlib.Tactic.Ring

/-!
What `decodeWebSockMsg` makes of a frame that `encodeWebSockMsg` wrote and of
the proper prefixes of such a frame, and the loop of `ws_decode.c` over a
stream of frames.
-/

namespace EventLoop.WebSocket

theorem byteAt_toNat (n shift : Nat) : (byteAt n shift).toNat = n / 2 ^ shift % 256 := by
  have hmask : (n &&& (0xff <<< shift)) >>> shift = n / 2 ^ shift % 2 ^ 8 := by
    rw [Nat.shiftRight_and_distrib, Nat.shiftLeft_shiftRight, Nat.shiftRight_eq_div_pow,
      ← Nat.and_two_pow_sub_one_eq_mod]
  rw [byteAt, hmask, UInt8.toNat_ofNat']
  omega

/-- Four bytes put together from the highest down. -/
theorem or_bytes (a b c d : Nat) (hb : b < 256) (hc : c < 256) (hd : d < 256) :
    a <<< 24 ||| b <<< 16 ||| c <<< 8 ||| d = ((a * 256 + b) * 256 + c) * 256 + d := by
  rw [← Nat.shiftLeft_add_eq_or_of_lt (show b <<< 16 < 2 ^ 24 by rw [Nat.shiftLeft_eq]; omega)]
  have hab : a <<< 24 + b <<< 16 = (a * 256 + b) <<< 16 := by
    simp only [Nat.shiftLeft_eq]
    ring
  rw [hab, ← Nat.shiftLeft_add_eq_or_of_lt
    (show c <<< 8 < 2 ^ 16 by rw [Nat.shiftLeft_eq]; omega)]
  have habc : (a * 256 + b) <<< 16 + c <<< 8 = ((a * 256 + b) * 256 + c) <<< 8 := by
    simp only [Nat.shiftLeft_eq]
    ring
  rw [habc, ← Nat.shiftLeft_add_eq_or_of_lt (show d < 2 ^ 8 from hd), Nat.shiftLeft_eq]

/-- The low four length bytes read back the length of a 127 header. -/
theorem assemble32 (n : Nat) (h : n < 2 ^ 32) :
    (byteAt n 24).toNat <<< 24 ||| (byteAt n 16).toNat <<< 16 ||| (byteAt n 8).toNat <<< 8 |||
      (byteAt n 0).toNat = n := by
  rw [or_bytes _ _ _ _ (UInt8.toNat_lt _) (UInt8.toNat_lt _) (UInt8.toNat_lt _)]
  simp only [byteAt_toNat]
  omega

/-- `(webSockMsg[2] << 8) | webSockMsg[3]` reads back the length of a 126 header. -/
theorem assemble16 (n : Nat) (h : n < 2 ^ 16) :
    (byteAt n 8).toNat <<< 8 ||| (byteAt n 0).toNat = n := by
  rw [← Nat.shiftLeft_add_eq_or_of_lt (UInt8.toNat_lt _), Nat.shiftLeft_eq]
  simp only [byteAt_toNat]
  omega

/-- The first bytes that `decodeWebSockMsg` takes for websock data. -/
def AcceptedOpcode (byte : UInt8) : Prop :=
  byte = 0x81 ∨ byte = 0x88 ∨ byte = 0x8a ∨ byte = 0x89

instance (byte : UInt8) : Decidable (AcceptedOpcode byte) :=
  inferInstanceAs (Decidable (_ ∨ _))

/-- The values of `bFinal` that the encoder's callers pass. -/
def sentFinals : List UInt32 := [0, 1, 8, 9, 10]

/-- The low nibble of the first byte: text for `bFinal` 0, `bFinal` itself otherwise. -/
def controlNibble (bFinal : UInt32) : UInt8 := if bFinal = 0 then 1 else bFinal.toUInt8

theorem encodeOpcode_facts {bFinal : UInt32} (h : bFinal ∈ sentFinals) :
    AcceptedOpcode (encodeOpcode bFinal) ∧
      encodeOpcode bFinal &&& 0xf = controlNibble bFinal ∧
      (encodeOpcode bFinal == 0x88) = (bFinal == 8) := by
  simp only [sentFinals, List.mem_cons, List.not_mem_nil, or_false] at h
  rcases h with rfl | rfl | rfl | rfl | rfl <;>
    decide

/-- `webSockMsg[1]`: the mask bit and the length or its escape. -/
def secondByte (key : Option MaskKey) (msgLen : Nat) : UInt8 :=
  match key with
  | some _ => (encodeLength msgLen).1 ||| 0x80
  | none => (encodeLength msgLen).1

def keyBytes (key : Option MaskKey) : List UInt8 :=
  match key with
  | some key => key.toList
  | none => []

def payloadBytes (key : Option MaskKey) (msg : List UInt8) : List UInt8 :=
  match key with
  | some key => maskBytes key msg
  | none => msg

theorem keyBytes_length (key : Option MaskKey) :
    (keyBytes key).length = if key.isSome then websockMskLen else 0 := by
  cases key <;> simp [keyBytes]

theorem payloadBytes_length (key : Option MaskKey) (msg : List UInt8) :
    (payloadBytes key msg).length = msg.length := by
  cases key <;> simp [payloadBytes, maskBytes]

theorem encodeWebSockMsg_eq (msg : List UInt8) (bFinal : UInt32) (key : Option MaskKey) :
    encodeWebSockMsg msg bFinal key =
      encodeOpcode bFinal :: secondByte key msg.length ::
        ((encodeLength msg.length).2 ++ (keyBytes key ++ payloadBytes key msg)) := by
  cases key <;> simp [encodeWebSockMsg, secondByte, keyBytes, payloadBytes]

/-- The seven length bits of the second byte, and 126 and 127 for the longer lengths. -/
def lengthCode (msgLen : Nat) : Nat :=
  if msgLen > 65535 then 127 else if msgLen > 125 then 126 else msgLen

theorem lengthCode_lt (msgLen : Nat) : lengthCode msgLen < 128 := by
  rw [lengthCode]
  split
  · omega
  · split <;> omega

theorem encodeLength_code (msgLen : Nat) :
    (encodeLength msgLen).1 = UInt8.ofNat (lengthCode msgLen) := by
  rw [encodeLength, lengthCode]
  split
  · rfl
  · split
    · rfl
    · have hmask : msgLen &&& 0x7f = msgLen % 2 ^ 7 := Nat.and_two_pow_sub_one_eq_mod msgLen 7
      change UInt8.ofNat (msgLen &&& 0x7f) = _
      rw [hmask, Nat.mod_eq_of_lt (by omega)]

/-- The length bits come back, whether the mask bit is set or not. -/
theorem secondByte_length (key : Option MaskKey) (msgLen : Nat) :
    (secondByte key msgLen &&& 0x7f).toNat = lengthCode msgLen := by
  have hlt := lengthCode_lt msgLen
  have hcode : (UInt8.ofNat (lengthCode msgLen)).toNat = lengthCode msgLen := by
    rw [UInt8.toNat_ofNat', Nat.mod_eq_of_lt (by omega)]
  have hand (n : Nat) : n &&& 127 = n % 2 ^ 7 := Nat.and_two_pow_sub_one_eq_mod n 7
  cases key with
  | none =>
      rw [secondByte, encodeLength_code, UInt8.toNat_and, hcode]
      exact (hand _).trans (Nat.mod_eq_of_lt hlt)
  | some key =>
      rw [secondByte, encodeLength_code, UInt8.toNat_and, UInt8.toNat_or, hcode]
      change (lengthCode msgLen ||| 1 <<< 7) &&& 127 = lengthCode msgLen
      rw [Nat.or_comm, ← Nat.shiftLeft_add_eq_or_of_lt hlt, hand]
      omega

theorem secondByte_mask (key : Option MaskKey) (msgLen : Nat) :
    (secondByte key msgLen &&& 0x80 != 0) = key.isSome := by
  cases key with
  | some key =>
      have hbit : ((encodeLength msgLen).1 ||| 0x80) &&& 0x80 = 0x80 := by
        apply UInt8.toNat_inj.mp
        rw [UInt8.toNat_and, UInt8.toNat_or]
        exact Nat.eq_of_testBit_eq (fun i => by simp only [Nat.testBit_and, Nat.testBit_or]; grind)
      rw [secondByte, hbit]
      rfl
  | none =>
      have hbit : (encodeLength msgLen).1 &&& 0x80 = 0 := by
        apply UInt8.toNat_inj.mp
        rw [encodeLength_code, UInt8.toNat_and, UInt8.toNat_ofNat',
          Nat.mod_eq_of_lt (by have := lengthCode_lt msgLen; omega)]
        change lengthCode msgLen &&& 2 ^ 7 = 0
        rw [Nat.and_two_pow, Nat.testBit_lt_two_pow (lengthCode_lt msgLen)]
        rfl
      rw [secondByte, hbit]
      rfl

theorem decodePayload_partial {front : List UInt8} {maskFlag : Bool} {headLen payloadLen : Nat}
    (nCtrl : UInt8)
    (h : front.length < headLen + (if maskFlag then websockMskLen else 0) + payloadLen) :
    (decodePayload front maskFlag headLen payloadLen nCtrl).ret < 0 := by
  have hshort : (front.length : Int) <
      ((headLen + (if maskFlag then websockMskLen else 0) : Nat) : Int) + payloadLen := by
    exact_mod_cast h
  rw [decodePayload, if_pos (by omega)]
  change (front.length : Int) - _ < 0
  omega

/-- The key bytes unmask what they masked. -/
theorem decodePayload_frame (b0 b1 : UInt8) (extended : List UInt8) (key : Option MaskKey)
    (msg : List UInt8) (nCtrl : UInt8) :
    decodePayload (b0 :: b1 :: (extended ++ (keyBytes key ++ payloadBytes key msg))) key.isSome
        (2 + extended.length) msg.length nCtrl =
      ⟨msg.length, msg, some (b0 == 0x88), nCtrl⟩ := by
  have hlength : ((2 + extended.length + (if key.isSome then websockMskLen else 0) : Nat) : Int) +
      msg.length =
      ((b0 :: b1 :: (extended ++ (keyBytes key ++ payloadBytes key msg))).length : Int) := by
    simp only [List.length_cons, List.length_append, keyBytes_length, payloadBytes_length]
    push_cast
    ring
  have hdrop : (b0 :: b1 :: (extended ++ (keyBytes key ++ payloadBytes key msg))).drop
      (2 + extended.length + (if key.isSome then websockMskLen else 0)) =
      payloadBytes key msg := by
    rw [← keyBytes_length, Nat.add_comm 2, Nat.add_right_comm]
    simp [List.drop_append]
  rw [decodePayload, if_neg (fun h => h hlength), hdrop, Int.toNat_natCast,
    List.take_of_length_le (payloadBytes_length key msg).le]
  cases key with
  | none => rfl
  | some key =>
      have hkey (i : Nat) (hi : i < websockMskLen) :
          (b0 :: b1 :: (extended ++ (key.toList ++ maskBytes key msg))).getD
            (2 + extended.length + i) 0 = key.toList.getD i 0 := by
        have hlen : i < key.toList.length := by simpa using hi
        rw [Nat.add_comm 2, Nat.add_right_comm, List.getD_cons_succ, List.getD_cons_succ,
          List.getD_append_right _ _ _ _ (Nat.le_add_right ..), Nat.add_sub_cancel_left,
          List.getD_append _ _ _ _ hlen]
      have hmsg : (maskBytes key msg).mapIdx (fun i byte =>
          byte ^^^ key.toList.getD (i % websockMskLen) 0) = msg := by
        apply List.ext_getElem
        · simp [maskBytes]
        · intro i h₁ h₂
          simp only [maskBytes, List.getElem_mapIdx]
          rw [UInt8.xor_assoc, UInt8.xor_self, UInt8.xor_zero]
      simp only [keyBytes, payloadBytes, Option.isSome_some, if_true, List.getD_cons_zero]
      have hunmask : (fun i byte => byte ^^^
          (b0 :: b1 :: (extended ++ (key.toList ++ maskBytes key msg))).getD
            (2 + extended.length + websockMskLen - websockMskLen + i % websockMskLen) 0) =
          fun i byte => byte ^^^ key.toList.getD (i % websockMskLen) 0 := by
        funext i byte
        rw [Nat.add_sub_cancel, hkey _ (Nat.mod_lt _ (by decide))]
      rw [hunmask, hmsg]

/-- The decoder behind the second byte, which is the one the encoder wrote. -/
theorem decode_behind_second {b0 : UInt8} (hopcode : AcceptedOpcode b0) (key : Option MaskKey)
    (msgLen : Nat) (more : List UInt8) :
    let front := b0 :: secondByte key msgLen :: more
    let keyLen : Int := if key.isSome then 4 else 0
    decodeWebSockMsg front =
      if lengthCode msgLen = 126 then
        if (front.length : Int) < 4 + keyLen then
          ⟨-(4 + keyLen - front.length), front, none, b0 &&& 0xf⟩
        else decodePayload front key.isSome 4
          (((more.getD 0 0).toNat <<< 8 ||| (more.getD 1 0).toNat : Nat) : Int) (b0 &&& 0xf)
      else if lengthCode msgLen = 127 then
        if (front.length : Int) < 10 + keyLen then
          ⟨-(10 + keyLen - front.length), front, none, b0 &&& 0xf⟩
        else decodePayload front key.isSome 10
          (asInt ((more.getD 4 0).toNat <<< 24 ||| (more.getD 5 0).toNat <<< 16 |||
            (more.getD 6 0).toNat <<< 8 ||| (more.getD 7 0).toNat)) (b0 &&& 0xf)
      else decodePayload front key.isSome 2 (lengthCode msgLen) (b0 &&& 0xf) := by
  intro front keyLen
  have htwo : ¬ (front.length : Int) < 2 := by
    simp only [front, List.length_cons]
    omega
  have hleast (m : Int) : (if key.isSome then m + 4 else m) = m + keyLen := by
    simp only [keyLen]
    split <;> omega
  have h126 := hleast 4
  have h127 := hleast 10
  norm_num at h126 h127
  rw [AcceptedOpcode] at hopcode
  rw [decodeWebSockMsg, if_neg htwo]
  simp only [front, List.getD_cons_zero, List.getD_cons_succ]
  rw [if_pos hopcode, secondByte_length, secondByte_mask, h126, h127]

/-- A front that ends before the payload is refused. -/
theorem decode_cut_header {b0 : UInt8} (hopcode : AcceptedOpcode b0) (key : Option MaskKey)
    (msgLen : Nat) (more : List UInt8)
    (hcut : more.length < (encodeLength msgLen).2.length + (keyBytes key).length) :
    (decodeWebSockMsg (b0 :: secondByte key msgLen :: more)).ret < 0 := by
  have hkey : ((keyBytes key).length : Int) = if key.isSome then 4 else 0 := by
    rw [keyBytes_length]
    split <;> rfl
  have hnat := keyBytes_length key
  rw [decode_behind_second hopcode, ← hkey]
  simp only [lengthCode, encodeLength] at hcut ⊢
  by_cases hlong : msgLen > 65535
  · simp only [if_pos hlong, List.length_cons, List.length_nil] at hcut ⊢
    rw [if_neg (by decide), if_pos trivial, if_pos (by push_cast; omega)]
    push_cast
    omega
  · by_cases hmiddle : msgLen > 125
    · simp only [if_neg hlong, if_pos hmiddle, List.length_cons, List.length_nil] at hcut ⊢
      rw [if_pos trivial, if_pos (by push_cast; omega)]
      push_cast
      omega
    · simp only [if_neg hlong, if_neg hmiddle, List.length_nil] at hcut ⊢
      rw [if_neg (by omega), if_neg (by omega)]
      apply decodePayload_partial
      rw [← hnat]
      simp only [List.length_cons]
      omega

/-- Behind a whole header the decoder works with the encoder's length. -/
theorem decode_whole_header {b0 : UInt8} (hopcode : AcceptedOpcode b0) (key : Option MaskKey)
    (msgLen : Nat) (hlen : msgLen < 2 ^ 31) (rest : List UInt8)
    (hkey : (keyBytes key).length ≤ rest.length) :
    decodeWebSockMsg (b0 :: secondByte key msgLen :: ((encodeLength msgLen).2 ++ rest)) =
      decodePayload (b0 :: secondByte key msgLen :: ((encodeLength msgLen).2 ++ rest))
        key.isSome (2 + (encodeLength msgLen).2.length) msgLen (b0 &&& 0xf) := by
  have hkeyLen : ((keyBytes key).length : Int) = if key.isSome then 4 else 0 := by
    rw [keyBytes_length]
    split <;> rfl
  rw [decode_behind_second hopcode, ← hkeyLen]
  simp only [lengthCode, encodeLength]
  by_cases hlong : msgLen > 65535
  · simp only [if_pos hlong, List.cons_append, List.nil_append, List.length_cons,
      List.length_nil, List.getD_cons_zero, List.getD_cons_succ]
    rw [if_neg (by decide), if_pos trivial, if_neg (by push_cast; omega),
      assemble32 msgLen (by omega), asInt, if_pos hlen]
  · by_cases hmiddle : msgLen > 125
    · simp only [if_neg hlong, if_pos hmiddle, List.cons_append, List.nil_append,
        List.length_cons, List.length_nil, List.getD_cons_zero, List.getD_cons_succ]
      rw [if_pos trivial, if_neg (by push_cast; omega), assemble16 msgLen (by omega)]
    · simp only [if_neg hlong, if_neg hmiddle, List.nil_append, List.length_nil]
      rw [if_neg (by omega), if_neg (by omega)]

/-- `encodeWebSockMsg` then `decodeWebSockMsg` on the whole frame. -/
theorem decode_encode (msg : List UInt8) (hlen : msg.length < 2 ^ 31) {bFinal : UInt32}
    (hFinal : bFinal ∈ sentFinals) (key : Option MaskKey) :
    decodeWebSockMsg (encodeWebSockMsg msg bFinal key) =
      ⟨msg.length, msg, some (bFinal == 8), controlNibble bFinal⟩ := by
  obtain ⟨hopcode, hnibble, hclose⟩ := encodeOpcode_facts hFinal
  rw [encodeWebSockMsg_eq, decode_whole_header hopcode key msg.length hlen _ (by simp),
    decodePayload_frame, hnibble, hclose]

/-- The decoder refuses every proper nonempty prefix of a frame. -/
theorem decode_prefix_negative (msg : List UInt8) (hlen : msg.length < 2 ^ 31)
    {bFinal : UInt32} (hFinal : bFinal ∈ sentFinals) (key : Option MaskKey)
    (front back : List UInt8) (hsplit : encodeWebSockMsg msg bFinal key = front ++ back)
    (hfront : front ≠ []) (hback : back ≠ []) : (decodeWebSockMsg front).ret < 0 := by
  obtain ⟨hopcode, -, -⟩ := encodeOpcode_facts hFinal
  rw [encodeWebSockMsg_eq] at hsplit
  obtain ⟨b0, tail, rfl⟩ := List.exists_cons_of_ne_nil hfront
  rw [List.cons_append, List.cons.injEq] at hsplit
  obtain ⟨rfl, hsplit⟩ := hsplit
  cases tail with
  | nil =>
      have hone : (([encodeOpcode bFinal].length : Nat) : Int) = 1 := rfl
      rw [decodeWebSockMsg, hone, if_pos (by decide)]
      change -(2 - (1 : Int)) < 0
      decide
  | cons b1 more =>
      rw [List.cons_append, List.cons.injEq] at hsplit
      obtain ⟨rfl, hsplit⟩ := hsplit
      have hbackPos := List.length_pos_of_ne_nil hback
      have htotal := congrArg List.length hsplit
      simp only [List.length_append, payloadBytes_length] at htotal
      by_cases hcut : more.length <
          (encodeLength msg.length).2.length + (keyBytes key).length
      · exact decode_cut_header hopcode key msg.length more hcut
      · obtain ⟨rest, rfl⟩ : (encodeLength msg.length).2 <+: more := by
          apply List.prefix_of_prefix_length_le ⟨_, hsplit⟩ ⟨back, rfl⟩
          omega
        rw [List.length_append] at htotal hcut
        rw [decode_whole_header hopcode key msg.length hlen rest (by omega)]
        apply decodePayload_partial
        have := keyBytes_length key
        simp only [List.length_cons, List.length_append]
        omega

/-- `-H` and `-f`; `-S` is about `stderr` and the delay of `-f` about time. -/
structure Options where
  bHex : Bool
  bFastExit : Bool
deriving DecidableEq, Repr

/-- `websockMsg[65536]` -/
def bufferSize : Nat := 65536

def exitExit : List UInt8 := [69, 88, 73, 84, 69, 88, 73, 84]

/-- `strcmp(str, "EXITEXIT")` finds no difference: `str` is read up to its first zero byte. -/
def isExitExit (message : List UInt8) : Bool := message.takeWhile (· != 0) == exitExit

/-- The loop ends behind this message. -/
def endsLoop (options : Options) (message : List UInt8) : Bool :=
  (options.bHex && isExitExit message) || options.bFastExit

/-- One turn behind `getchar`: the buffered bytes are a message once `nLenTx` is not negative. -/
def decodeBuffer (websockMsg : List UInt8) : Option (List UInt8) :=
  let decoded := decodeWebSockMsg websockMsg
  if decoded.ret < 0 then none else some (decoded.msg.take decoded.ret.toNat)

/-- The messages that `main` of `ws_decode.c` emits for its standard input. -/
def wsDecodeMain (options : Options) (input : List UInt8) : Option (List (List UInt8)) :=
  Framing.receive decodeBuffer (endsLoop options) bufferSize [] input

/-- `%02x` of a `char`, which is signed. -/
def printHex (byte : UInt8) : List Char :=
  (if byte < 0x80 then [] else ['f', 'f', 'f', 'f', 'f', 'f']) ++
    [Nat.digitChar (byte.toNat / 16), Nat.digitChar (byte.toNat % 16)]

/-- What one message puts on `stdout`. -/
def printMessage (options : Options) (message : List UInt8) : List UInt8 :=
  if options.bHex then
    ("msg(".toList ++ Nat.toDigits 10 message.length ++ "):".toList ++
      message.flatMap printHex ++ ['\n']).map (fun char => UInt8.ofNat char.toNat)
  else message

def wsDecodeStdout (options : Options) (input : List UInt8) : Option (List UInt8) :=
  (wsDecodeMain options input).map (·.flatMap (printMessage options))

/-- What is handed to `encodeWebSockMsg`. -/
structure Sent where
  msg : List UInt8
  bFinal : UInt32
  encKey : Option MaskKey
  length_lt : msg.length < 2 ^ 31 - 14
  bFinal_mem : bFinal ∈ sentFinals

def Sent.frame (sent : Sent) : List UInt8 := encodeWebSockMsg sent.msg sent.bFinal sent.encKey

theorem Sent.isFrame (sent : Sent) : Framing.IsFrame decodeBuffer sent.msg sent.frame where
  nonempty := by
    rw [Sent.frame, encodeWebSockMsg_eq]
    exact List.cons_ne_nil _ _
  complete := by
    have hlen : sent.msg.length < 2 ^ 31 := by have := sent.length_lt; omega
    rw [Sent.frame, decodeBuffer, decode_encode sent.msg hlen sent.bFinal_mem sent.encKey]
    simp
  partials := by
    intro front back hsplit hfront hback
    have hlen : sent.msg.length < 2 ^ 31 := by have := sent.length_lt; omega
    rw [decodeBuffer, if_pos]
    exact decode_prefix_negative sent.msg hlen sent.bFinal_mem sent.encKey front back hsplit
      hfront hback

theorem wsDecodeMain_frames (options : Options) (sents : List Sent)
    (hfits : ∀ sent ∈ sents, sent.frame.length ≤ bufferSize) :
    wsDecodeMain options (sents.map Sent.frame).flatten =
      some (throughStop (endsLoop options) (sents.map Sent.msg)) := by
  apply Framing.receive_frames
  · apply List.forall₂_map_left_iff.mpr
    apply List.forall₂_map_right_iff.mpr
    exact List.forall₂_same.mpr (fun sent _ => sent.isFrame)
  · intro frame hframe
    obtain ⟨sent, hsent, rfl⟩ := List.mem_map.mp hframe
    exact hfits sent hsent

/-- Without an option that ends the loop every message comes out. -/
theorem wsDecodeMain_all (options : Options) (sents : List Sent)
    (hfits : ∀ sent ∈ sents, sent.frame.length ≤ bufferSize)
    (hplain : ∀ sent ∈ sents, endsLoop options sent.msg = false) :
    wsDecodeMain options (sents.map Sent.frame).flatten = some (sents.map Sent.msg) := by
  rw [wsDecodeMain_frames options sents hfits, throughStop_eq_self]
  intro message hmessage
  obtain ⟨sent, hsent, rfl⟩ := List.mem_map.mp hmessage
  exact hplain sent hsent

/-- In the default mode `stdout` is the messages one behind the other. -/
theorem wsDecodeStdout_plain (sents : List Sent)
    (hfits : ∀ sent ∈ sents, sent.frame.length ≤ bufferSize) :
    wsDecodeStdout ⟨false, false⟩ (sents.map Sent.frame).flatten =
      some (sents.map Sent.msg).flatten := by
  rw [wsDecodeStdout, wsDecodeMain_all _ sents hfits (fun _ _ => rfl), Option.map_some]
  have hprint : printMessage ⟨false, false⟩ = id := rfl
  rw [hprint, List.flatMap_id]

/-- The codec on one frame, and the loop on a stream of frames: the messages come out in
order, through the first at which an option ends the loop. -/
theorem websocket_stream_framing (options : Options) (sents : List Sent)
    (hfits : ∀ sent ∈ sents, sent.frame.length ≤ bufferSize) :
    (∀ sent : Sent,
      (∀ front back, sent.frame = front ++ back → front ≠ [] → back ≠ [] →
        (decodeWebSockMsg front).ret < 0) ∧
      decodeWebSockMsg sent.frame =
        ⟨sent.msg.length, sent.msg, some (sent.bFinal == 8), controlNibble sent.bFinal⟩) ∧
    wsDecodeMain options (sents.map Sent.frame).flatten =
      some (throughStop (endsLoop options) (sents.map Sent.msg)) := by
  constructor
  · intro sent
    have hlen : sent.msg.length < 2 ^ 31 := by have := sent.length_lt; omega
    constructor
    · intro front back
      exact decode_prefix_negative sent.msg hlen sent.bFinal_mem sent.encKey front back
    · exact decode_encode sent.msg hlen sent.bFinal_mem sent.encKey
  · exact wsDecodeMain_frames options sents hfits

/-- A text message `hi`, unmasked. -/
def sentHi : Sent := ⟨[104, 105], 0, none, by decide, by decide⟩

/-- A masked close frame without payload. -/
def sentClose : Sent := ⟨[], 8, some #v[1, 2, 3, 4], by decide, by decide⟩

theorem websocket_stream_framing_hi_close :
    (∀ sent ∈ [sentHi, sentClose], sent.frame.length ≤ bufferSize) ∧
      wsDecodeMain ⟨false, false⟩ ([sentHi, sentClose].map Sent.frame).flatten =
        some [[104, 105], []] :=
  have hfits : ∀ sent ∈ [sentHi, sentClose], sent.frame.length ≤ bufferSize := by decide
  ⟨hfits, (websocket_stream_framing ⟨false, false⟩ [sentHi, sentClose] hfits).2⟩

/-- With `-f` the loop leaves after the first message. -/
theorem fastExit_drops_messages :
    ¬ (∀ (options : Options) (sents : List Sent),
      (∀ sent ∈ sents, sent.frame.length ≤ bufferSize) →
        wsDecodeMain options (sents.map Sent.frame).flatten = some (sents.map Sent.msg)) := by
  intro h
  have htwo := h ⟨false, true⟩ [sentHi, sentHi] (by decide)
  exact absurd htwo (by decide)

end EventLoop.WebSocket
