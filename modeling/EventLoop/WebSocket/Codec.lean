import Mathlib.Tactic.IntervalCases
import Mathlib.Data.List.Basic

/-!
`encodeWebSockMsg` and `decodeWebSockMsg` with `USE_WEBSOCK_LONG_DATA` set and
`WEBSOCK_MSKLEN` 4. The copies in `ws_encode.c`, `ws_decode.c`, `ws_transcode.c`
and `nc.c` are the same code. A buffer with its length is a list of bytes.
-/

namespace EventLoop.WebSocket

/-- `WEBSOCK_MSKLEN` -/
def websockMskLen : Nat := 4

abbrev MaskKey := Vector UInt8 websockMskLen

/-- The byte `(n & (0xff << shift)) >> shift`. -/
def byteAt (n shift : Nat) : UInt8 := UInt8.ofNat ((n &&& (0xff <<< shift)) >>> shift)

/-- The second header byte without the mask bit, and the extended length. -/
def encodeLength (msgLen : Nat) : UInt8 × List UInt8 :=
  if msgLen > 65535 then
    (127, [UInt8.ofNat ((msgLen &&& 0x7f00000000000000) >>> 56), byteAt msgLen 48,
      byteAt msgLen 40, byteAt msgLen 32, byteAt msgLen 24, byteAt msgLen 16,
      byteAt msgLen 8, byteAt msgLen 0])
  else if msgLen > 125 then (126, [byteAt msgLen 8, byteAt msgLen 0])
  else (UInt8.ofNat (msgLen &&& 0x7f), [])

/-- Text or control, with the final bit set. -/
def encodeOpcode (bFinal : UInt32) : UInt8 :=
  if bFinal = 0 then 0x81 else 0x80 ||| (bFinal &&& 0xf).toUInt8

def maskBytes (encKey : MaskKey) (msg : List UInt8) : List UInt8 :=
  msg.mapIdx (fun i byte => byte ^^^ encKey.toList.getD (i % websockMskLen) 0)

def encodeWebSockMsg (msg : List UInt8) (bFinal : UInt32) (encKey : Option MaskKey) :
    List UInt8 :=
  let (second, extended) := encodeLength msg.length
  match encKey with
  | some key =>
      encodeOpcode bFinal :: (second ||| 0x80) :: (extended ++ key.toList ++ maskBytes key msg)
  | none => encodeOpcode bFinal :: second :: (extended ++ msg)

/-- The return value, the bytes copied to `msg`, and what is stored through
`p_bFinal` and `p_nCtrl`; an error return leaves `p_bFinal` unset. -/
structure Decoded where
  ret : Int
  msg : List UInt8
  bFinal : Option Bool
  nCtrl : UInt8
deriving DecidableEq, Repr

/-- The value of an `unsigned int` stored in an `int`. -/
def asInt (n : Nat) : Int := if n < 2 ^ 31 then n else (n : Int) - 2 ^ 32

/-- From the length check to the return, once the header is read. -/
def decodePayload (webSockMsg : List UInt8) (maskFlag : Bool) (headLen : Nat)
    (payloadLen : Int) (nCtrl : UInt8) : Decoded :=
  let netLen : Int := webSockMsg.length
  let headLen := headLen + if maskFlag then websockMskLen else 0
  if headLen + payloadLen ≠ netLen then
    ⟨netLen - (headLen + payloadLen), webSockMsg, none, nCtrl⟩
  else
    let payload := (webSockMsg.drop headLen).take payloadLen.toNat
    let msg := if maskFlag then
      payload.mapIdx (fun i byte =>
        byte ^^^ webSockMsg.getD (headLen - websockMskLen + i % websockMskLen) 0)
      else payload
    ⟨payloadLen, msg, some (webSockMsg.getD 0 0 == 0x88), nCtrl⟩

def decodeWebSockMsg (webSockMsg : List UInt8) : Decoded :=
  let netLen : Int := webSockMsg.length
  let at' (i : Nat) : UInt8 := webSockMsg.getD i 0
  let nCtrl := at' 0 &&& 0xf
  let decodeError (ret : Int) : Decoded := ⟨ret, webSockMsg, none, nCtrl⟩
  if netLen < 2 then decodeError (-(2 - netLen))
  else if at' 0 = 0x81 ∨ at' 0 = 0x88 ∨ at' 0 = 0x8a ∨ at' 0 = 0x89 then
    let payloadLen := (at' 1 &&& 0x7f).toNat
    let maskFlag := at' 1 &&& 0x80 != 0
    if payloadLen = 126 then
      let least : Int := if maskFlag then 8 else 4
      if netLen < least then decodeError (-(least - netLen))
      else decodePayload webSockMsg maskFlag 4
        (((at' 2).toNat <<< 8 ||| (at' 3).toNat : Nat) : Int) nCtrl
    else if payloadLen = 127 then
      let least : Int := if maskFlag then 14 else 10
      if netLen < least then decodeError (-(least - netLen))
      else decodePayload webSockMsg maskFlag 10
        (asInt ((at' 6).toNat <<< 24 ||| (at' 7).toNat <<< 16 ||| (at' 8).toNat <<< 8 |||
          (at' 9).toNat)) nCtrl
    else decodePayload webSockMsg maskFlag 2 payloadLen nCtrl
  else decodeError (-9999)

end EventLoop.WebSocket
