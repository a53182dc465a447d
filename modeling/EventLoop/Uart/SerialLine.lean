import EventLoop.Lib.Delimited
import EventLoop.Lib.ThroughStop
import Mathlib.Data.List.Basic
import Mathlib.Data.List.TakeWhile

/-!
`OnSerialReceive` of `unix_UART.c`: the bytes of the UART are read in pieces and gathered
into the line that is handed to `OnSerialMessage`, in an accumulator that is kept between
the calls.
-/

namespace EventLoop.Uart

open Delimited

def newline : UInt8 := 10

/-- How many characters `m_sdRes` takes. -/
def sdResLimit : Nat := 250

/-- The accumulator `m_sdRes` up to `m_sdResIdx`, and the lines handed over so far. -/
structure Serial where
  sdRes : List UInt8
  messages : List (List UInt8)
deriving DecidableEq, Repr

def Serial.init : Serial := ⟨[], []⟩

/-- The body of the loop over the characters read. -/
def receiveChar (s : Serial) (ch : UInt8) : Serial :=
  if s.sdRes.length < sdResLimit ∧ ch ≠ 0 then
    let sdRes := s.sdRes ++ [ch]
    if ch = newline then ⟨[], s.messages ++ [sdRes]⟩ else { s with sdRes }
  else s

/-- What `read` comes to when `FIONREAD` has announced `bytes`: an error, or at most what
was asked for. -/
structure Reading where
  bytes : Int
  str : Option (List UInt8)
  fits : ∀ text, str = some text → text.length ≤ (min bytes 250).toNat

/-- What of the stream a call takes in. -/
def Reading.taken (reading : Reading) : List UInt8 :=
  if reading.bytes ≤ 0 then [] else reading.str.getD []

/-- `OnSerialReceive` -/
def onSerialReceive (s : Serial) (reading : Reading) : Bool × Serial :=
  if reading.bytes ≤ 0 then (true, s)
  else match reading.str with
    | some str => (true, str.foldl receiveChar s)
    | none => (false, s)

def receiveAll (s : Serial) (readings : List Reading) : Serial :=
  readings.foldl (fun s reading => (onSerialReceive s reading).2) s

/-- The lines that the stream completes, without their newlines and without NULs. -/
def lines (stream : List UInt8) : List (List UInt8) :=
  (split newline (stream.filter (· ≠ 0))).units

/-- Fewer than 250 characters. -/
def short (line : List UInt8) : Bool := line.length < sdResLimit

variable {s : Serial}

theorem onSerialReceive_eq (s : Serial) (reading : Reading) :
    (onSerialReceive s reading).2 = reading.taken.foldl receiveChar s := by
  rw [onSerialReceive, Reading.taken]
  split
  · rfl
  · cases reading.str with
    | some str => rfl
    | none => rfl

/-- Only the stream counts, not how it was read. -/
theorem receiveAll_eq (s : Serial) (readings : List Reading) :
    receiveAll s readings = (readings.flatMap Reading.taken).foldl receiveChar s := by
  induction readings generalizing s with
  | nil => rfl
  | cons reading rest ih =>
      rw [List.flatMap_cons, List.foldl_append, ← onSerialReceive_eq, ← ih]
      rfl

/-- What the accumulator is against the lines of the stream so far: once a line did not
fit, it stays full. -/
structure Gathered (s : Serial) (stream : Split UInt8) : Prop where
  messages : s.messages = (stream.units.takeWhile short).map (· ++ [newline])
  going : stream.units.all short = true → s.sdRes = stream.rest.take sdResLimit
  stuck : stream.units.all short = false → s.sdRes.length = sdResLimit

theorem receiveChar_of_full (ch : UInt8) (h : s.sdRes.length = sdResLimit) :
    receiveChar s ch = s := by
  rw [receiveChar, if_neg]
  rw [h]
  exact fun hroom => absurd hroom.1 (Nat.lt_irrefl _)

theorem takeWhile_append_of_not_all {stream : List (List UInt8)} (h : stream.all short = false)
    (line : List UInt8) : (stream ++ [line]).takeWhile short = stream.takeWhile short := by
  rw [List.takeWhile_append, if_neg]
  intro hlength
  have hall := List.takeWhile_eq_self_iff.mp
    (List.IsPrefix.eq_of_length (List.takeWhile_prefix short) hlength)
  rw [List.all_eq_true.mpr hall] at h
  exact absurd h (by simp)

theorem Gathered.newline {stream : Split UInt8} (h : Gathered s stream) :
    Gathered (receiveChar s newline) (stream.push newline newline) := by
  rw [Split.push_delimiter]
  cases hall : stream.units.all short with
  | false =>
      have hfull := h.stuck hall
      rw [receiveChar_of_full _ hfull]
      refine ⟨?_, ?_, fun _ => hfull⟩
      · rw [takeWhile_append_of_not_all hall, h.messages]
      · intro hevery
        rw [List.all_append, hall] at hevery
        exact absurd hevery (by simp)
  | true =>
      have hacc := h.going hall
      have htaken : stream.units.takeWhile short = stream.units :=
        List.takeWhile_eq_self_iff.mpr (List.all_eq_true.mp hall)
      cases hshort : short stream.rest with
      | true =>
          have hlt : stream.rest.length < sdResLimit := of_decide_eq_true hshort
          have hrest : s.sdRes = stream.rest := by
            rw [hacc, List.take_of_length_le (Nat.le_of_lt hlt)]
          have hstep : receiveChar s Uart.newline =
              ⟨[], s.messages ++ [stream.rest ++ [Uart.newline]]⟩ := by
            rw [receiveChar, if_pos ⟨by rw [hrest]; exact hlt, by decide⟩, hrest]
            rfl
          rw [hstep]
          refine ⟨?_, fun _ => by simp, ?_⟩
          · rw [h.messages, htaken, List.takeWhile_eq_self_iff.mpr, List.map_append]
            · rfl
            · intro line hline
              rcases List.mem_append.mp hline with hline | hline
              · exact List.all_eq_true.mp hall line hline
              · rw [List.mem_singleton.mp hline, hshort]
          · intro hnot
            rw [List.all_append, hall, List.all_cons, hshort] at hnot
            exact absurd hnot (by simp)
      | false =>
          have hle : sdResLimit ≤ stream.rest.length := Nat.le_of_not_lt (of_decide_eq_false hshort)
          have hfull : s.sdRes.length = sdResLimit := by
            rw [hacc, List.length_take, Nat.min_eq_left hle]
          rw [receiveChar_of_full _ hfull]
          refine ⟨?_, ?_, fun _ => hfull⟩
          · rw [h.messages, htaken, List.takeWhile_append, htaken, if_pos rfl,
              List.takeWhile_cons_of_neg (by rw [hshort]; simp), List.append_nil]
          · intro hevery
            rw [List.all_append, hall, List.all_cons, hshort] at hevery
            exact absurd hevery (by simp)

theorem Gathered.char {stream : Split UInt8} (h : Gathered s stream) {ch : UInt8} (hch : ch ≠ 0)
    (hline : ch ≠ Uart.newline) :
    Gathered (receiveChar s ch) (stream.push Uart.newline ch) := by
  rw [Split.push_of_ne _ hline]
  cases hall : stream.units.all short with
  | false =>
      have hfull := h.stuck hall
      rw [receiveChar_of_full _ hfull]
      refine ⟨h.messages, fun hevery => ?_, fun _ => hfull⟩
      exact absurd (hall.symm.trans hevery) (by simp)
  | true =>
      have hacc := h.going hall
      by_cases hroom : stream.rest.length < sdResLimit
      · have hrest : s.sdRes = stream.rest := by
          rw [hacc, List.take_of_length_le (Nat.le_of_lt hroom)]
        have hstep : receiveChar s ch = ⟨stream.rest ++ [ch], s.messages⟩ := by
          rw [receiveChar, if_pos ⟨by rw [hrest]; exact hroom, hch⟩, hrest]
          exact if_neg hline
        rw [hstep]
        refine ⟨h.messages, fun _ => ?_, fun hnot => ?_⟩
        · rw [List.take_of_length_le]
          rw [List.length_append, List.length_singleton]
          exact hroom
        · exact absurd (hall.symm.trans hnot) (by simp)
      · have hle := Nat.le_of_not_lt hroom
        have hfull : s.sdRes.length = sdResLimit := by
          rw [hacc, List.length_take, Nat.min_eq_left hle]
        rw [receiveChar_of_full _ hfull]
        refine ⟨h.messages, fun _ => ?_, fun _ => hfull⟩
        rw [hacc, List.take_append_of_le_length hle]

theorem Gathered.receive {stream : Split UInt8} (h : Gathered s stream) (text : List UInt8) :
    Gathered (text.foldl receiveChar s) (stream.feed Uart.newline (text.filter (· ≠ 0))) := by
  induction text generalizing s stream with
  | nil => exact h
  | cons ch text ih =>
      by_cases hch : ch = 0
      · have hskip : receiveChar s ch = s := if_neg (fun hroom => hroom.2 hch)
        rw [List.foldl_cons, hskip, List.filter_cons_of_neg (by simp [hch])]
        exact ih h
      · rw [List.foldl_cons, List.filter_cons_of_pos (by simp [hch])]
        by_cases hline : ch = Uart.newline
        · subst hline
          exact ih h.newline
        · exact ih (h.char hch hline)

/-- The lines before the first long one are handed over. -/
theorem messages_eq (readings : List Reading) :
    (receiveAll .init readings).messages =
      ((lines (readings.flatMap Reading.taken)).takeWhile short).map (· ++ [newline]) := by
  have hstart : Gathered .init ⟨[], []⟩ := ⟨rfl, fun _ => rfl, by simp⟩
  rw [receiveAll_eq]
  exact (hstart.receive _).messages

/-- Every short line of the stream is handed over, once and in order, exactly if none comes
behind a long one. -/
theorem serial_lines_iff (readings : List Reading) :
    (receiveAll .init readings).messages =
        ((lines (readings.flatMap Reading.taken)).filter short).map (· ++ [newline]) ↔
      (lines (readings.flatMap Reading.taken)).Pairwise
        (fun before line => short line = true → short before = true) := by
  rw [messages_eq, ← takeWhile_eq_filter_iff]
  exact (List.map_injective_iff.mpr (fun _ _ => List.append_cancel_right)).eq_iff

/-- A line of 250 characters, and behind it the line `b`. -/
def longThenShort : List Reading :=
  [⟨250, some (List.replicate sdResLimit 97), by rintro _ ⟨⟩; rw [List.length_replicate]; decide⟩,
   ⟨3, some [newline, 98, newline], by rintro _ ⟨⟩; decide⟩]

theorem lines_longThenShort :
    lines (longThenShort.flatMap Reading.taken) = [List.replicate sdResLimit 97, [98]] := by
  have htaken : longThenShort.flatMap Reading.taken =
      List.replicate sdResLimit 97 ++ [newline, 98, newline] := rfl
  have hfilter : (List.replicate sdResLimit 97 ++ [newline, 98, newline]).filter (· ≠ 0) =
      [List.replicate sdResLimit 97, [98]].flatMap (· ++ [newline]) := by
    simp [newline]
  rw [lines, htaken, hfilter, split_units (by simp [newline])]

theorem short_line_behind_long_lost :
    (receiveAll .init longThenShort).messages ≠
      ((lines (longThenShort.flatMap Reading.taken)).filter short).map (· ++ [newline]) := by
  have hlong : short (List.replicate sdResLimit 97) = false := by
    rw [short, List.length_replicate]
    rfl
  have hshort : short [98] = true := rfl
  rw [messages_eq, lines_longThenShort, List.takeWhile_cons, List.filter_cons, hlong]
  simp [hshort]

end EventLoop.Uart
