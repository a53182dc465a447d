import EventLoop.Lib.Separated
import EventLoop.Time
import Mathlib.Data.List.Forall2
import Mathlib.Data.List.GetD
import Mathlib.Data.List.Induction
import Mathlib.Data.List.TakeWhile

/-!
The conversions of `common.c`: bytes as hexadecimal text, the byte counter and the NTP timestamp.
A text ends at a zero byte, which is no digit, so that nothing is read behind it.
-/

namespace EventLoop.Common

/-- `none` for -1. -/
def hex2num (c : UInt8) : Option Nat :=
  if 48 ≤ c ∧ c ≤ 57 then some (c.toNat - 48)
  else if 97 ≤ c ∧ c ≤ 102 then some (c.toNat - 97 + 10)
  else if 65 ≤ c ∧ c ≤ 70 then some (c.toNat - 65 + 10)
  else none

def hex2byte (hex : List UInt8) : Option Nat :=
  match hex2num (hex.getD 0 0) with
  | none => none
  | some a =>
      match hex2num (hex.getD 1 0) with
      | none => none
      | some b => some (a <<< 4 ||| b)

/-- The result of a conversion, and what it has stored. -/
structure Converted where
  ret : Int
  stored : List UInt8
deriving DecidableEq, Repr

def hexstr2bin (hex : List UInt8) : Nat → Converted
  | 0 => ⟨0, []⟩
  | len + 1 =>
      match hex2byte hex with
      | none => ⟨-1, []⟩
      | some a =>
          let rest := hexstr2bin (hex.drop 2) len
          ⟨rest.ret, UInt8.ofNat a :: rest.stored⟩

/-- The loop of `hwaddr_aton` with so many bytes to go. -/
def hwaddrLoop (txt : List UInt8) : Nat → Converted
  | 0 => ⟨0, []⟩
  | left + 1 =>
      match hex2byte txt with
      | none => ⟨-1, []⟩
      | some a =>
          if 0 < left ∧ txt.getD 2 0 ≠ 58 then ⟨-1, [UInt8.ofNat a]⟩
          else
            let rest := hwaddrLoop (txt.drop 3) left
            ⟨rest.ret, UInt8.ofNat a :: rest.stored⟩

/-- What is stored are bytes of `addr`. -/
def hwaddrAton (txt : List UInt8) : Converted := hwaddrLoop txt 6

def hexChar (uppercase : Bool) (d : Nat) : UInt8 :=
  UInt8.ofNat (if d < 10 then 48 + d else if uppercase then 55 + d else 87 + d)

/-- `%02X` or `%02x` -/
def printByte (uppercase : Bool) (byte : UInt8) : List UInt8 :=
  [hexChar uppercase (byte.toNat / 16), hexChar uppercase (byte.toNat % 16)]

/-- Characters stored from `pos` on. -/
def patch (buf : List UInt8) (pos : Nat) (chars : List UInt8) : List UInt8 :=
  buf.take pos ++ chars ++ buf.drop (pos + chars.length)

/-- `end[-1] = '\0'` -/
def endBuf (buf : List UInt8) : List UInt8 := patch buf (buf.length - 1) [0]

/-- The loop of `_wpa_snprintf_hex`: the buffer, and what is returned. `os_snprintf` stores what
there is room for, and the end of the string. -/
def snprintfHexLoop (uppercase : Bool) (buf : List UInt8) (pos : Nat) :
    List UInt8 → List UInt8 × Nat
  | [] => (endBuf buf, pos)
  | byte :: data =>
      let room := buf.length - pos
      let buf := patch buf pos ((printByte uppercase byte).take (room - 1) ++ [0])
      if room ≤ 2 then (endBuf buf, pos)
      else snprintfHexLoop uppercase buf (pos + 2) data

/-- `_wpa_snprintf_hex` -/
def snprintfHex (uppercase : Bool) (buf data : List UInt8) : List UInt8 × Nat :=
  if buf = [] then (buf, 0) else snprintfHexLoop uppercase buf 0 data

/-- The loop of `inc_byte_array` from `counter[pos - 1]` down. -/
def incByteArrayFrom (counter : List UInt8) : Nat → List UInt8
  | 0 => counter
  | pos + 1 =>
      let value := counter.getD pos 0 + 1
      let counter := counter.set pos value
      if value ≠ 0 then counter else incByteArrayFrom counter pos

def incByteArray (counter : List UInt8) : List UInt8 := incByteArrayFrom counter counter.length

/-- `host_to_be32`, as it is in memory. -/
def be32 (n : UInt32) : List UInt8 :=
  [(n >>> 24).toUInt8, (n >>> 16).toUInt8, (n >>> 8).toUInt8, n.toUInt8]

/-- `now.sec + 2208988800U` -/
def ntpSeconds (now : OsTime) : UInt32 := UInt32.ofInt (now.sec + 2208988800)

/-- Estimates 2³²/10⁶ by 4295 - 1/32 - 1/512. -/
def ntpFraction (usec : UInt32) : UInt32 :=
  (4295 : UInt32) * usec - (usec >>> 5) - (usec >>> 9)

/-- What `wpa_get_ntp_timestamp` stores for this reading of the time. -/
def wpaGetNtpTimestamp (now : OsTime) : List UInt8 :=
  be32 (ntpSeconds now) ++ be32 (ntpFraction (UInt32.ofInt now.usec))

variable {uppercase : Bool} {buf data chars rest : List UInt8} {pos : Nat}

theorem hexChar_facts : ∀ (uppercase : Bool), ∀ d < 16,
    hex2num (hexChar uppercase d) = some d ∧ hexChar uppercase d ≠ 0 := by
  decide

theorem hex2byte_printByte (uppercase : Bool) (byte : UInt8) (rest : List UInt8) :
    hex2byte (printByte uppercase byte ++ rest) = some byte.toNat := by
  have hlt := byte.toNat_lt
  have hhigh := (hexChar_facts uppercase (byte.toNat / 16) (by omega)).1
  have hlow := (hexChar_facts uppercase (byte.toNat % 16) (by omega)).1
  have hjoin : (byte.toNat / 16) <<< 4 ||| byte.toNat % 16 = byte.toNat := by
    rw [← Nat.shiftLeft_add_eq_or_of_lt (show byte.toNat % 16 < 2 ^ 4 by omega), Nat.shiftLeft_eq]
    omega
  simp [hex2byte, printByte, hhigh, hlow, hjoin]

theorem hexstr2bin_print (uppercase : Bool) (data rest : List UInt8) :
    hexstr2bin (data.flatMap (printByte uppercase) ++ rest) data.length = ⟨0, data⟩ := by
  induction data with
  | nil => rfl
  | cons byte data ih =>
      rw [List.flatMap_cons, List.append_assoc, List.length_cons, hexstr2bin, hex2byte_printByte]
      have hdrop : (printByte uppercase byte ++
          (data.flatMap (printByte uppercase) ++ rest)).drop 2 =
            data.flatMap (printByte uppercase) ++ rest := rfl
      rw [hdrop, ih]
      simp

theorem length_patch (h : pos + chars.length ≤ buf.length) :
    (patch buf pos chars).length = buf.length := by
  simp only [patch, List.length_append, List.length_take, List.length_drop]
  omega

theorem take_patch (h : pos + chars.length ≤ buf.length) :
    (patch buf pos chars).take (pos + chars.length) = buf.take pos ++ chars := by
  apply List.take_left'
  simp only [List.length_append, List.length_take]
  omega

theorem take_patch_of_le {k : Nat} (hk : k ≤ pos) (h : pos + chars.length ≤ buf.length) :
    (patch buf pos chars).take k = buf.take k := by
  have htake := congrArg (List.take k) (take_patch h)
  rw [List.take_take, Nat.min_eq_left (by omega), List.take_append_of_le_length, List.take_take,
    Nat.min_eq_left hk] at htake
  · exact htake
  · rw [List.length_take]
    omega

theorem getElem?_patch {i : Nat} (h : pos + chars.length ≤ buf.length) (hi : i < chars.length) :
    (patch buf pos chars)[pos + i]? = some chars[i] := by
  have hfront : (buf.take pos).length = pos := by
    rw [List.length_take]
    omega
  rw [patch, List.append_assoc, List.getElem?_append_right (by omega), hfront,
    Nat.add_sub_cancel_left, List.getElem?_append_left hi, List.getElem?_eq_getElem hi]

theorem endBuf_eq (h : buf ≠ []) : endBuf buf = buf.take (buf.length - 1) ++ [0] := by
  have hlength := List.length_pos_iff.mpr h
  rw [endBuf, patch, List.drop_of_length_le (by simp; omega), List.append_nil]

@[simp] theorem length_endBuf (h : buf ≠ []) : (endBuf buf).length = buf.length := by
  have hlength := List.length_pos_iff.mpr h
  apply length_patch
  simp
  omega

theorem take_endBuf {k : Nat} (hk : k < buf.length) : (endBuf buf).take k = buf.take k := by
  apply take_patch_of_le (by omega)
  simp
  omega

theorem getElem?_endBuf {k : Nat} (hk : k < buf.length) :
    (endBuf buf)[k]? = if k < buf.length - 1 then buf[k]? else some 0 := by
  have hfront : (buf.take (buf.length - 1)).length = buf.length - 1 := by simp
  rw [endBuf_eq (List.ne_nil_of_length_pos (Nat.zero_lt_of_lt hk))]
  split
  · rename_i hless
    rw [List.getElem?_append_left (by omega), List.getElem?_take_of_lt hless]
  · have hlast : k = (buf.take (buf.length - 1)).length := by omega
    rw [hlast, List.getElem?_concat_length]

/-- How many of the bytes there is room for behind `pos`. -/
def printed (buf : List UInt8) (pos : Nat) (data : List UInt8) : Nat :=
  min data.length ((buf.length - 1 - pos) / 2)

/-- The character behind the printed bytes: the first one of another byte if there is room for one
character and the end, the end of the string otherwise. -/
def behindPrinted (uppercase : Bool) (buf : List UInt8) (pos : Nat) (data : List UInt8) : UInt8 :=
  if (buf.length - pos) % 2 = 0 then
    match data[printed buf pos data]? with
    | some byte => hexChar uppercase (byte.toNat / 16)
    | none => 0
  else 0

structure Printed (uppercase : Bool) (buf : List UInt8) (pos : Nat) (data : List UInt8)
    (result : List UInt8 × Nat) : Prop where
  length : result.1.length = buf.length
  ret : result.2 = pos + 2 * printed buf pos data
  text : result.1.take result.2 =
    buf.take pos ++ (data.take (printed buf pos data)).flatMap (printByte uppercase)
  ended : result.1.getLast? = some 0
  behind : data ≠ [] ∨ buf[pos]? = some 0 →
    result.1[result.2]? = some (behindPrinted uppercase buf pos data)

theorem snprintfHexLoop_printed (uppercase : Bool) (data : List UInt8) {buf : List UInt8}
    {pos : Nat} (hpos : pos < buf.length) :
    Printed uppercase buf pos data (snprintfHexLoop uppercase buf pos data) := by
  induction data generalizing buf pos with
  | nil =>
      have hne : buf ≠ [] := List.ne_nil_of_length_pos (Nat.zero_lt_of_lt hpos)
      refine ⟨length_endBuf hne, by simp [snprintfHexLoop, printed], ?_, ?_, ?_⟩
      · simp [snprintfHexLoop, printed, take_endBuf hpos]
      · simp [snprintfHexLoop, endBuf_eq hne]
      · rintro (hdata | hzero)
        · exact absurd rfl hdata
        · simp [snprintfHexLoop, getElem?_endBuf hpos, behindPrinted, hzero]
  | cons byte data ih =>
      rw [snprintfHexLoop]
      split
      · -- no room for the byte
        rename_i hroom
        have hcount : printed buf pos (byte :: data) = 0 := by
          rw [printed, Nat.div_eq_of_lt (by omega), Nat.min_zero]
        generalize hchars : (printByte uppercase byte).take (buf.length - pos - 1) ++ [0] = chars
        have hlength : pos + chars.length = buf.length := by
          rw [← hchars]
          simp [printByte]
          omega
        have hpatch := length_patch hlength.le
        have hne : patch buf pos chars ≠ [] := List.ne_nil_of_length_pos (by omega)
        refine ⟨by rw [length_endBuf hne, hpatch], by simp [hcount], ?_, by simp [endBuf_eq hne], ?_⟩
        · dsimp only
          rw [take_endBuf (by omega), take_patch_of_le le_rfl hlength.le, hcount]
          simp
        · intro _
          dsimp only
          rw [getElem?_endBuf (by omega), hpatch, behindPrinted, hcount]
          by_cases hone : buf.length - pos = 1
          · simp [hone, show ¬ pos < buf.length - 1 by omega]
          · have hfirst := @getElem?_patch buf chars pos 0 hlength.le (by omega)
            simp only [Nat.add_zero] at hfirst
            have htwo : buf.length - pos = 2 := by omega
            rw [if_pos (by omega), hfirst]
            simp [htwo, ← hchars, printByte]
      · rename_i hroom
        have hchars : (printByte uppercase byte).take (buf.length - pos - 1) =
            printByte uppercase byte := List.take_of_length_le (by simp [printByte]; omega)
        rw [hchars]
        have hthree : (printByte uppercase byte ++ [0]).length = 3 := rfl
        have hfits : pos + (printByte uppercase byte ++ [0]).length ≤ buf.length := by omega
        have hpatch := length_patch hfits
        have hcount : printed buf pos (byte :: data) =
            printed (patch buf pos (printByte uppercase byte ++ [0])) (pos + 2) data + 1 := by
          rw [printed, printed, hpatch, List.length_cons]
          omega
        have htake : (patch buf pos (printByte uppercase byte ++ [0])).take (pos + 2) =
            buf.take pos ++ printByte uppercase byte := by
          rw [patch, ← List.append_assoc, List.append_assoc]
          apply List.take_left'
          simp [printByte]
          omega
        obtain ⟨hlength, hret, htext, hended, hbehind⟩ :=
          @ih (patch buf pos (printByte uppercase byte ++ [0])) (pos + 2) (by omega)
        refine ⟨hlength.trans hpatch, by omega, ?_, hended, ?_⟩
        · rw [htext, htake, hcount, List.take_succ_cons, List.flatMap_cons, List.append_assoc]
        · intro _
          rw [hbehind (.inr (getElem?_patch hfits (show 2 < 3 by decide)))]
          have hparity : (buf.length - (pos + 2)) % 2 = (buf.length - pos) % 2 := by omega
          rw [behindPrinted, behindPrinted, hpatch, hparity, hcount, List.getElem?_cons_succ]

theorem snprintfHex_printed (uppercase : Bool) {buf : List UInt8} (data : List UInt8)
    (h : buf ≠ []) : Printed uppercase buf 0 data (snprintfHex uppercase buf data) := by
  rw [snprintfHex, if_neg h]
  exact snprintfHexLoop_printed uppercase data (List.length_pos_iff.mpr h)

theorem flatMap_nonzero (uppercase : Bool) (data : List UInt8) :
    ∀ c ∈ data.flatMap (printByte uppercase), (c != 0) = true := by
  intro c hc
  obtain ⟨byte, -, hbyte⟩ := List.mem_flatMap.mp hc
  have hlt := byte.toNat_lt
  have hhigh := (hexChar_facts uppercase (byte.toNat / 16) (by omega)).2
  have hlow := (hexChar_facts uppercase (byte.toNat % 16) (by omega)).2
  simp only [printByte, List.mem_cons, List.not_mem_nil, or_false] at hbyte
  rcases hbyte with rfl | rfl
  · simpa using hhigh
  · simpa using hlow

/-- The string that is in the buffer. -/
def stringOf (buf : List UInt8) : List UInt8 := buf.takeWhile (· != 0)

theorem Printed.string {result : List UInt8 × Nat} (h : Printed uppercase buf 0 data result)
    (hdata : data ≠ []) (hbuf : buf ≠ []) :
    stringOf result.1 = (data.take (printed buf 0 data)).flatMap (printByte uppercase) ++
      if buf.length % 2 = 0 then (data[printed buf 0 data]?.map fun byte =>
        hexChar uppercase (byte.toNat / 16)).toList else [] := by
  obtain ⟨hlength, hret, htext, hended, hbehind⟩ := h
  have hbehind := hbehind (.inl hdata)
  have hfits : result.2 < result.1.length := (List.getElem?_eq_some_iff.mp hbehind).1
  have hdrop : result.1.drop result.2 =
      behindPrinted uppercase buf 0 data :: result.1.drop (result.2 + 1) := by
    rw [List.drop_eq_getElem_cons hfits, (List.getElem?_eq_some_iff.mp hbehind).2]
  have hsplit := List.take_append_drop result.2 result.1
  rw [htext, hdrop, List.take_zero, List.nil_append] at hsplit
  rw [stringOf, ← hsplit, List.takeWhile_append_of_pos (flatMap_nonzero uppercase _)]
  congr 1
  rw [behindPrinted, Nat.sub_zero]
  split
  · rename_i heven
    cases hbyte : data[printed buf 0 data]? with
    | none => simp
    | some byte =>
        -- half of a byte, and the end of the string behind it
        have hmore : printed buf 0 data < data.length := (List.getElem?_eq_some_iff.mp hbyte).1
        have hpositive := List.length_pos_iff.mpr hbuf
        have hlast : result.2 + 1 = result.1.length - 1 := by
          have hcount : printed buf 0 data = (buf.length - 1 - 0) / 2 := by
            rw [printed] at hmore ⊢
            omega
          omega
        have hend : result.1.drop (result.2 + 1) = [0] := by
          rw [List.getLast?_eq_getElem?, ← hlast] at hended
          obtain ⟨hless, hzero⟩ := List.getElem?_eq_some_iff.mp hended
          rw [List.drop_eq_getElem_cons hless, hzero, List.drop_of_length_le (by omega)]
        have hlt := byte.toNat_lt
        have hhigh := (hexChar_facts uppercase (byte.toNat / 16) (by omega)).2
        simp [hend, hhigh]
  · simp

/-- `wpa_snprintf_hex` prints as many bytes as fit and returns their characters; `hexstr2bin` reads
them back. The string is these characters, or one more where there is room for half a byte. -/
theorem snprintf_hex_round_trip (uppercase : Bool) (buf data : List UInt8) :
    let result := snprintfHex uppercase buf data
    let n := min data.length ((buf.length - 1) / 2)
    result.1.length = buf.length ∧ result.2 = 2 * n ∧
      hexstr2bin result.1 n = ⟨0, data.take n⟩ ∧
      (buf ≠ [] → data ≠ [] → stringOf result.1 =
        (data.take n).flatMap (printByte uppercase) ++
          if buf.length % 2 = 0 then (data[n]?.map fun byte =>
            hexChar uppercase (byte.toNat / 16)).toList else []) := by
  intro result n
  by_cases hbuf : buf = []
  · subst hbuf
    simp [result, n, snprintfHex, hexstr2bin]
  · have hprinted := snprintfHex_printed uppercase data hbuf
    refine ⟨hprinted.length, hprinted.ret.trans (Nat.zero_add _), ?_, fun _ hdata =>
      hprinted.string hdata hbuf⟩
    have hread := hexstr2bin_print uppercase (data.take n) (result.1.drop result.2)
    have htext := hprinted.text
    rw [List.take_zero, List.nil_append] at htext
    have hcount : (data.take n).length = n := by simp [n]
    rwa [hcount, show (data.take n).flatMap (printByte uppercase) = result.1.take result.2 from
      htext.symm, List.take_append_drop] at hread

/-- Two characters that are read as this byte. -/
def HexPair (pair : List UInt8) (byte : UInt8) : Prop :=
  pair.length = 2 ∧ hex2byte pair = some byte.toNat

theorem hex2byte_append {pair : List UInt8} (h : pair.length = 2) (rest : List UInt8) :
    hex2byte (pair ++ rest) = hex2byte pair := by
  match pair, h with
  | [a, b], _ => rfl

theorem hex2num_lt {c : UInt8} {a : Nat} (h : hex2num c = some a) : a < 16 := by
  unfold hex2num at h
  simp only [UInt8.le_iff_toNat_le] at h
  have h57 : (57 : UInt8).toNat = 57 := rfl
  have h102 : (102 : UInt8).toNat = 102 := rfl
  have h70 : (70 : UInt8).toNat = 70 := rfl
  split_ifs at h
  · obtain rfl := Option.some.inj h
    omega
  · obtain rfl := Option.some.inj h
    omega
  · obtain rfl := Option.some.inj h
    omega

theorem hex2byte_lt {hex : List UInt8} {a : Nat} (h : hex2byte hex = some a) : a < 256 := by
  unfold hex2byte at h
  split at h
  · cases h
  · rename_i high hhigh
    split at h
    · cases h
    · rename_i low hlow
      obtain rfl := Option.some.inj h
      have := hex2num_lt hhigh
      have := hex2num_lt hlow
      rw [← Nat.shiftLeft_add_eq_or_of_lt (show low < 2 ^ 4 by omega), Nat.shiftLeft_eq]
      omega

/-- A byte is read from two characters, none of them the end of the text. -/
theorem exists_of_hex2byte {hex : List UInt8} {a : Nat} (h : hex2byte hex = some a) :
    ∃ c1 c2 more, hex = c1 :: c2 :: more ∧ HexPair [c1, c2] (UInt8.ofNat a) := by
  have hend : hex2num 0 = none := rfl
  match hex, h with
  | [], h => simp [hex2byte, hend] at h
  | [c1], h =>
      simp only [hex2byte, List.getD_cons_zero, List.getD_cons_succ, List.getD_nil, hend] at h
      split at h <;> cases h
  | c1 :: c2 :: more, h =>
      refine ⟨c1, c2, more, rfl, rfl, ?_⟩
      rw [UInt8.toNat_ofNat', Nat.mod_eq_of_lt (hex2byte_lt h)]
      exact h

theorem cons_drop_one {text : List UInt8} {c : UInt8} (h : text.getD 0 0 = c) (hc : c ≠ 0) :
    c :: text.drop 1 = text := by
  cases text with
  | nil => exact absurd h.symm hc
  | cons first text => simpa using h.symm

/-- The address is read if it is there, with colons between its bytes, whatever stands behind it. -/
theorem hwaddrLoop_iff {txt addr : List UInt8} {left : Nat} :
    hwaddrLoop txt left = ⟨0, addr⟩ ↔ ∃ pairs rest, pairs.length = left ∧
      txt = Separated.join 58 pairs ++ rest ∧ List.Forall₂ HexPair pairs addr := by
  induction left generalizing txt addr with
  | zero =>
      rw [hwaddrLoop]
      constructor
      · intro h
        obtain ⟨-, rfl⟩ := Converted.mk.inj h
        exact ⟨[], txt, rfl, rfl, .nil⟩
      · rintro ⟨pairs, rest, hnone, -, hbytes⟩
        obtain rfl := List.length_eq_zero_iff.mp hnone
        cases hbytes
        rfl
  | succ left ih =>
      have hsplit (pairs : List (List UInt8)) (pair : List UInt8) (rest : List UInt8) :
          Separated.join 58 (pair :: pairs) ++ rest = pair ++ (if pairs = [] then rest else
            58 :: (Separated.join 58 pairs ++ rest)) := by
        by_cases hpairs : pairs = []
        · simp [hpairs]
        · simp [hpairs, Separated.join_cons hpairs]
      rw [hwaddrLoop]
      cases hbyte : hex2byte txt with
      | none =>
          simp only [Converted.mk.injEq, Int.reduceNeg, reduceCtorEq, false_and, false_iff]
          rintro ⟨pairs, rest, hcount, rfl, hbytes⟩
          obtain ⟨pair, pairs, rfl⟩ := List.exists_cons_of_length_eq_add_one hcount
          cases hbytes with
          | cons hpair _ =>
              rw [hsplit, hex2byte_append hpair.1, hpair.2] at hbyte
              cases hbyte
      | some a =>
          obtain ⟨c1, c2, more, rfl, hpair⟩ := exists_of_hex2byte hbyte
          have hcolon : (c1 :: c2 :: more).getD 2 0 = more.getD 0 0 := rfl
          simp only [hcolon]
          split
          · rename_i hmissing
            simp only [Converted.mk.injEq, Int.reduceNeg, reduceCtorEq, false_and, false_iff]
            rintro ⟨pairs, rest, hcount, htxt, hbytes⟩
            obtain ⟨pair, pairs, rfl⟩ := List.exists_cons_of_length_eq_add_one hcount
            have hmore : pairs ≠ [] := by
              rintro rfl
              simp at hcount
              omega
            cases hbytes with
            | cons hfirst _ =>
                obtain ⟨x, y, rfl⟩ := List.length_eq_two.mp hfirst.1
                rw [hsplit, if_neg hmore] at htxt
                obtain ⟨-, htxt⟩ := List.cons.inj htxt
                obtain ⟨-, rfl⟩ := List.cons.inj htxt
                exact hmissing.2 rfl
          · rename_i hpresent
            constructor
            · intro h
              obtain ⟨hret, rfl⟩ := Converted.mk.inj h
              have hstored : hwaddrLoop (more.drop 1) left =
                  ⟨0, (hwaddrLoop (more.drop 1) left).stored⟩ := by
                rw [← hret]
                rfl
              obtain ⟨pairs, rest, hcount, htxt, hbytes⟩ := ih.mp hstored
              refine ⟨[c1, c2] :: pairs, if pairs = [] then more else rest, by simp [hcount], ?_,
                .cons hpair hbytes⟩
              rw [hsplit]
              split
              · rfl
              · rename_i hpairs
                have hleft : 0 < left := hcount ▸ List.length_pos_iff.mpr hpairs
                have hmore : more.getD 0 0 = 58 := not_not.mp (not_and.mp hpresent hleft)
                rw [← htxt, ← cons_drop_one hmore (by decide)]
                rfl
            · rintro ⟨pairs, rest, hcount, htxt, hbytes⟩
              obtain ⟨pair, pairs, rfl⟩ := List.exists_cons_of_length_eq_add_one hcount
              cases hbytes with
              | @cons _ byte _ bytes hfirst hbytes =>
                  have hread : hex2byte (c1 :: c2 :: more) = some byte.toNat := by
                    rw [htxt, hsplit, hex2byte_append hfirst.1, hfirst.2]
                  obtain rfl : byte.toNat = a := Option.some.inj (hread.symm.trans hbyte)
                  obtain ⟨x, y, rfl⟩ := List.length_eq_two.mp hfirst.1
                  rw [hsplit] at htxt
                  obtain ⟨-, htxt⟩ := List.cons.inj htxt
                  obtain ⟨-, hmore⟩ := List.cons.inj htxt
                  have hcount' : pairs.length = left := by simpa using hcount
                  have hdrop : ∃ rest', more.drop 1 = Separated.join 58 pairs ++ rest' := by
                    split at hmore
                    · rename_i hpairs
                      exact ⟨more.drop 1, by simp [hpairs]⟩
                    · exact ⟨rest, by rw [hmore]; rfl⟩
                  obtain ⟨rest', hrest⟩ := hdrop
                  have hloop : hwaddrLoop (more.drop 1) left = ⟨0, bytes⟩ :=
                    ih.mpr ⟨pairs, rest', hcount', hrest, hbytes⟩
                  have hthree : (c1 :: c2 :: more).drop 3 = more.drop 1 := rfl
                  rw [hthree, hloop, UInt8.ofNat_toNat]

/-- An address is six pairs of digits with colons between them; what stands behind it is not
looked at. -/
theorem hwaddr_aton_iff (txt addr : List UInt8) :
    hwaddrAton txt = ⟨0, addr⟩ ↔ ∃ pairs rest, pairs.length = 6 ∧
      txt = Separated.join 58 pairs ++ rest ∧ List.Forall₂ HexPair pairs addr :=
  hwaddrLoop_iff

/-- Bytes as a number, the most significant one first. -/
def bigEndian (counter : List UInt8) : Nat :=
  counter.foldl (fun value byte => value * 256 + byte.toNat) 0

theorem bigEndian_concat (front : List UInt8) (byte : UInt8) :
    bigEndian (front ++ [byte]) = bigEndian front * 256 + byte.toNat := by
  simp [bigEndian]

theorem bigEndian_lt (counter : List UInt8) : bigEndian counter < 256 ^ counter.length := by
  induction counter using List.reverseRecOn with
  | nil => simp [bigEndian]
  | append_singleton front byte ih =>
      have hbyte := byte.toNat_lt
      rw [bigEndian_concat, List.length_append, List.length_singleton, Nat.pow_succ]
      omega

/-- What stands behind the part that is counted is left alone. -/
theorem incByteArrayFrom_append (front back : List UInt8) :
    ∃ front', incByteArrayFrom (front ++ back) front.length = front' ++ back ∧
      front'.length = front.length ∧
      bigEndian front' = (bigEndian front + 1) % 256 ^ front.length := by
  induction front using List.reverseRecOn generalizing back with
  | nil => exact ⟨[], rfl, rfl, by simp [bigEndian]⟩
  | append_singleton front byte ih =>
      have hlt := bigEndian_lt front
      have hbyte := byte.toNat_lt
      have hget : (front ++ [byte] ++ back).getD front.length 0 = byte := by simp
      have hset (value : UInt8) :
          (front ++ [byte] ++ back).set front.length value = front ++ [value] ++ back := by simp
      rw [List.length_append, List.length_singleton, incByteArrayFrom, hget, hset,
        bigEndian_concat, Nat.pow_succ]
      split
      · rename_i hnonzero
        have hsum : (byte + 1).toNat = (byte.toNat + 1) % 256 := UInt8.toNat_add byte 1
        have hpositive : (byte + 1).toNat ≠ 0 := fun h => hnonzero (UInt8.toNat_inj.mp h)
        have hroom := Nat.mul_le_mul_right 256 (Nat.succ_le_of_lt hlt)
        refine ⟨front ++ [byte + 1], rfl, by simp, ?_⟩
        rw [bigEndian_concat, Nat.mod_eq_of_lt (by omega)]
        omega
      · rename_i hzero
        obtain ⟨front', hfront', hlength, hvalue⟩ := ih ([byte + 1] ++ back)
        refine ⟨front' ++ [byte + 1], ?_, by simp [hlength], ?_⟩
        · rw [List.append_assoc, hfront', List.append_assoc]
        · have hcarry : byte + 1 = 0 := not_not.mp hzero
          have hsum : (byte + 1).toNat = (byte.toNat + 1) % 256 := UInt8.toNat_add byte 1
          have hnull : (0 : UInt8).toNat = 0 := rfl
          rw [hcarry, hnull] at hsum
          have hfull : bigEndian front * 256 + byte.toNat + 1 =
            (bigEndian front + 1) * 256 := by omega
          rw [bigEndian_concat, hvalue, hcarry, hnull, hfull, Nat.mul_mod_mul_right, Nat.add_zero]

/-- The counter counts, and begins again at zero behind its greatest value. -/
theorem inc_byte_array_counts (counter : List UInt8) :
    (incByteArray counter).length = counter.length ∧
      bigEndian (incByteArray counter) =
        (bigEndian counter + 1) % 256 ^ counter.length := by
  obtain ⟨counted, hcounted, hlength, hvalue⟩ := incByteArrayFrom_append counter []
  rw [List.append_nil, List.append_nil] at hcounted
  rw [incByteArray, hcounted]
  exact ⟨hlength, hvalue⟩

theorem bigEndian_append (front back : List UInt8) :
    bigEndian (front ++ back) = bigEndian front * 256 ^ back.length + bigEndian back := by
  induction back using List.reverseRecOn with
  | nil => simp [bigEndian]
  | append_singleton back byte ih =>
      rw [← List.append_assoc, bigEndian_concat, bigEndian_concat, ih, List.length_append,
        List.length_singleton, Nat.pow_succ, Nat.add_mul, Nat.mul_assoc, Nat.add_assoc]

theorem bigEndian_be32 (n : UInt32) : bigEndian (be32 n) = n.toNat := by
  have hlt := n.toNat_lt
  simp only [bigEndian, be32, List.foldl_cons, List.foldl_nil, UInt32.toNat_toUInt8,
    UInt32.toNat_shiftRight, UInt32.reduceToNat, Nat.reduceMod, Nat.shiftRight_eq_div_pow]
  omega

/-- The product overflows for the greatest microseconds; the difference does not. -/
theorem toNat_ntpFraction {usec : Nat} (h : usec < 1000000) :
    (ntpFraction (UInt32.ofNat usec)).toNat = 4295 * usec - usec / 32 - usec / 512 := by
  have husec : (UInt32.ofNat usec).toNat = usec := by
    rw [UInt32.toNat_ofNat', Nat.mod_eq_of_lt (by omega)]
  simp only [ntpFraction, UInt32.toNat_sub, UInt32.toNat_mul, UInt32.toNat_shiftRight, husec,
    UInt32.reduceToNat, Nat.reduceMod, Nat.shiftRight_eq_div_pow]
  omega

/-- The microseconds since 1900; they begin again when the seconds leave 32 bits. -/
def sinceEra (now : WallTime) : Int := (now.micros + 2208988800 * 1000000) % (2 ^ 32 * 1000000)

/-- The microseconds nearest to a timestamp. -/
def nearestMicros (stamp : List UInt8) : Nat := (bigEndian stamp * 1000000 + 2 ^ 31) / 2 ^ 32

theorem bigEndian_timestamp (now : WallTime) :
    ∃ sec usec : Nat, usec < 1000000 ∧ sinceEra now = sec * 1000000 + usec ∧
      bigEndian (wpaGetNtpTimestamp now.toOsTime) =
        sec * 2 ^ 32 + (4295 * usec - usec / 32 - usec / 512) := by
  obtain ⟨hlow, hhigh⟩ := now.normal
  have husec : UInt32.ofInt now.usec = UInt32.ofNat now.usec.toNat := by
    rw [UInt32.ofInt, Int.emod_eq_of_lt hlow (by omega)]
  have hsec : (ntpSeconds now.toOsTime).toNat = ((now.sec + 2208988800) % 2 ^ 32).toNat := by
    rw [ntpSeconds, UInt32.ofInt, UInt32.toNat_ofNat', Nat.mod_eq_of_lt (by omega)]
  refine ⟨((now.sec + 2208988800) % 2 ^ 32).toNat, now.usec.toNat, by omega, ?_, ?_⟩
  · rw [sinceEra, OsTime.micros]
    omega
  · have hfraction := toNat_ntpFraction (show now.usec.toNat < 1000000 by omega)
    have hfour (n : UInt32) : 256 ^ (be32 n).length = 2 ^ 32 := by simp [be32]
    rw [wpaGetNtpTimestamp, bigEndian_append, hfour, bigEndian_be32, bigEndian_be32, hsec, husec,
      hfraction]

theorem nearestMicros_timestamp (now : WallTime) :
    (nearestMicros (wpaGetNtpTimestamp now.toOsTime) : Int) = sinceEra now := by
  obtain ⟨sec, usec, husec, hera, hvalue⟩ := bigEndian_timestamp now
  rw [nearestMicros, hvalue, hera]
  omega

/-- The estimate is good enough: the time can be read from the timestamp to the microsecond, and
the timestamps of an era are in the order of the times. -/
theorem ntp_timestamp_keeps_time (now later : WallTime) :
    (nearestMicros (wpaGetNtpTimestamp now.toOsTime) : Int) = sinceEra now ∧
      (bigEndian (wpaGetNtpTimestamp now.toOsTime) <
        bigEndian (wpaGetNtpTimestamp later.toOsTime) ↔ sinceEra now < sinceEra later) := by
  refine ⟨nearestMicros_timestamp now, ?_⟩
  obtain ⟨sec, usec, husec, hera, hvalue⟩ := bigEndian_timestamp now
  obtain ⟨sec', usec', husec', hera', hvalue'⟩ := bigEndian_timestamp later
  rw [hvalue, hvalue', hera, hera']
  rcases Nat.lt_trichotomy sec sec' with hless | rfl | hgreater
  · apply iff_of_true
    · omega
    · omega
  · -- within a second the fractions are in the order of the microseconds
    rcases Nat.lt_trichotomy usec usec' with hless | rfl | hgreater <;> omega
  · apply iff_of_false
    · omega
    · omega

end EventLoop.Common
