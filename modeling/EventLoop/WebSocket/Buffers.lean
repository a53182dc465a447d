import EventLoop.WebSocket.ReturnCode

/-!
The receive buffers of 65536 bytes: `websockMsg` and `str` in the loop of `ws_decode.c`, and `Buf`
of `nc.c` where it sends what it reads from `stdin` frame by frame or line by line. None of the
writes is preceded by a test, so that all depends on where a frame or a line ends.
-/

namespace EventLoop.WebSocket

open Framing

/-- What `str` holds where the decoder has returned a length. -/
def decodedStr (websockMsg : List UInt8) : List UInt8 :=
  (decodeWebSockMsg websockMsg).msg.take (returned websockMsg).toNat

/-- The first `netLen` bytes of `websockMsg`, and the indices of all writes. -/
structure DecodeLoop where
  websockMsg : List UInt8
  websockMsgWrites : List Nat
  strWrites : List Int
  ended : Bool
deriving DecidableEq, Repr

/-- One turn of the loop of `ws_decode.c`, unless it has ended. -/
def DecodeLoop.turn (options : Options) (s : DecodeLoop) (ch : UInt8) : DecodeLoop :=
  if s.ended then s
  else
    let websockMsg := s.websockMsg ++ [ch]
    let nLenTx := returned websockMsg
    let s := { s with
      websockMsg := websockMsg
      websockMsgWrites := s.websockMsgWrites ++ [s.websockMsg.length] }
    if nLenTx < 0 then s
    else
      { s with
        websockMsg := []
        strWrites := s.strWrites ++ [nLenTx]
        ended := endsLoop options (decodedStr websockMsg) }

/-- The loop of `main` in `ws_decode.c`. -/
def decodeMain (options : Options) (input : List UInt8) : DecodeLoop :=
  input.foldl (DecodeLoop.turn options) ⟨[], [], [], false⟩

structure DecodeLoop.InBounds (s : DecodeLoop) : Prop where
  websockMsg : ∀ i ∈ s.websockMsgWrites, i < bufferSize
  str : ∀ n ∈ s.strWrites, 0 ≤ n ∧ n < bufferSize

def isWSpacket (websockMsg : List UInt8) : Bool := 0 ≤ returned websockMsg

/-- The first `BufPos` bytes of `Buf`, the indices of all writes to it and what has been sent. -/
structure StdinBuffer where
  buf : List UInt8
  bufWrites : List Nat
  sent : List (List UInt8)
deriving DecidableEq, Repr

/-- `'\n'` -/
def newline : UInt8 := 10

/-- What is sent at once: a frame with `b_wsMode`, a line without. -/
def endsUnit (wsMode : Bool) (buf : List UInt8) : Bool :=
  wsMode && isWSpacket buf || !wsMode && buf.getLast? == some newline

/-- `on_stdin_read`; `none` for a `ch` below 0. -/
def onStdinRead (bufferedSend wsMode : Bool) (s : StdinBuffer) (ch : Option UInt8) : StdinBuffer :=
  match ch with
  | none =>
      if bufferedSend ∧ 0 < s.buf.length then { s with buf := [], sent := s.sent ++ [s.buf] } else s
  | some ch =>
      if bufferedSend then
        let buf := s.buf ++ [ch]
        let s := { s with buf := buf, bufWrites := s.bufWrites ++ [s.buf.length] }
        if endsUnit wsMode buf then { s with buf := [], sent := s.sent ++ [buf] } else s
      else { s with sent := s.sent ++ [[ch]] }

/-- Any calls of `on_stdin_read` with `g_bufferedSend` set. -/
def bufferedReads (wsMode : Bool) (calls : List (Option UInt8)) : StdinBuffer :=
  calls.foldl (onStdinRead true wsMode) ⟨[], [], []⟩

def StdinBuffer.InBounds (s : StdinBuffer) : Prop := ∀ i ∈ s.bufWrites, i < bufferSize

/-- The bytes up to which the decoder waits behind a whole header: those of the payload, or none
where the low 32 bits of its length exceed 2³¹. -/
def unitLength (ws : List UInt8) : Nat :=
  headLength ws + if lowLength ws ≤ 2 ^ 31 then lowLength ws else 0

structure FrameUnit (ws : List UInt8) : Prop where
  opcode : AcceptedOpcode (ws.getD 0 0)
  header : headLength ws ≤ ws.length
  whole : ws.length = unitLength ws

/-- No frame, or less than one. -/
def FramePart (ws : List UInt8) : Prop :=
  AcceptedOpcode (ws.getD 0 0) → headLength ws ≤ ws.length → ws.length < unitLength ws

/-- Such a length comes out as one that lies in `str`. -/
def StrFits (ws : List UInt8) : Prop := lowLength ws ≤ 2 ^ 31 ∨ 2 ^ 32 < lowLength ws + bufferSize

/-- The loop of `ws_decode.c` ends behind this frame. -/
def endsBehind (options : Options) (ws : List UInt8) : Bool :=
  if lowLength ws ≤ 2 ^ 31 then endsLoop options (unmasked ws) else options.bFastExit

def LineUnit (line : List UInt8) : Prop := ∃ text, line = text ++ [newline] ∧ newline ∉ text

def LinePart (line : List UInt8) : Prop := newline ∉ line

variable {ws front back : List UInt8} {options : Options} {wsMode : Bool}

theorem isWSpacket_iff : isWSpacket ws = true ↔ 0 ≤ returned ws := decide_eq_true_iff

theorem turn_waits {s : DecodeLoop} {ch : UInt8} (hended : s.ended = false)
    (h : returned (s.websockMsg ++ [ch]) < 0) :
    s.turn options ch =
      { s with
        websockMsg := s.websockMsg ++ [ch]
        websockMsgWrites := s.websockMsgWrites ++ [s.websockMsg.length] } := by
  rw [DecodeLoop.turn, hended, if_neg Bool.false_ne_true]
  exact if_pos h

theorem turn_decodes {s : DecodeLoop} {ch : UInt8} (hended : s.ended = false)
    (h : 0 ≤ returned (s.websockMsg ++ [ch])) :
    s.turn options ch =
      ⟨[], s.websockMsgWrites ++ [s.websockMsg.length],
        s.strWrites ++ [returned (s.websockMsg ++ [ch])],
        endsLoop options (decodedStr (s.websockMsg ++ [ch]))⟩ := by
  rw [DecodeLoop.turn, hended, if_neg Bool.false_ne_true]
  exact if_neg (Int.not_lt.mpr h)

theorem writes_concat_iff {writes : List Nat} {buffer : List UInt8} (ch : UInt8) :
    (∀ i ∈ writes ++ [buffer.length], i < bufferSize) ↔
      (∀ i ∈ writes, i < bufferSize) ∧ (buffer ++ [ch]).length ≤ bufferSize := by
  rw [List.forall_mem_append, List.forall_mem_singleton, List.length_append]
  rfl

/-- The writes of a run of `ws_decode.c` are in bounds if its buffers fit. -/
theorem turn_inBounds_iff (s : DecodeLoop) (input : List UInt8) :
    (input.foldl (DecodeLoop.turn options) s).InBounds ↔ s.InBounds ∧ (s.ended = false →
      BuffersFit isWSpacket (fun ws => endsLoop options (decodedStr ws))
        (fun ws => returned ws < bufferSize) bufferSize s.websockMsg (input.map some)) := by
  induction input generalizing s with
  | nil => exact ⟨fun h => ⟨h, fun _ => buffersFit_nil _⟩, fun h => h.1⟩
  | cons ch input ih =>
      rw [List.foldl_cons, ih]
      cases hended : s.ended with
      | true =>
          have hstays : s.turn options ch = s := if_pos hended
          simp [hstays, hended]
      | false =>
          by_cases hwaits : returned (s.websockMsg ++ [ch]) < 0
          · have hcomplete : isWSpacket (s.websockMsg ++ [ch]) = false := by
              rw [← Bool.not_eq_true, isWSpacket_iff]
              exact Int.not_le.mpr hwaits
            rw [turn_waits hended hwaits, List.map_cons, buffersFit_wait hcomplete]
            constructor
            · rintro ⟨⟨hws, hstr⟩, hrest⟩
              obtain ⟨hws, hfits⟩ := (writes_concat_iff ch).mp hws
              exact ⟨⟨hws, hstr⟩, fun _ => ⟨hfits, hrest hended⟩⟩
            · rintro ⟨⟨hws, hstr⟩, hrest⟩
              obtain ⟨hfits, hrest⟩ := hrest rfl
              exact ⟨⟨(writes_concat_iff ch).mpr ⟨hws, hfits⟩, hstr⟩, fun _ => hrest⟩
          · have hdecoded := Int.not_lt.mp hwaits
            have hcomplete : isWSpacket (s.websockMsg ++ [ch]) = true :=
              isWSpacket_iff.mpr hdecoded
            rw [turn_decodes hended hdecoded, List.map_cons, buffersFit_complete hcomplete]
            constructor
            · rintro ⟨⟨hws, hstr⟩, hrest⟩
              obtain ⟨hws, hfits⟩ := (writes_concat_iff ch).mp hws
              rw [List.forall_mem_append, List.forall_mem_singleton] at hstr
              exact ⟨⟨hws, hstr.1⟩, fun _ => ⟨hfits, hstr.2.2, hrest⟩⟩
            · rintro ⟨⟨hws, hstr⟩, hrest⟩
              obtain ⟨hfits, hgood, hrest⟩ := hrest rfl
              refine ⟨⟨(writes_concat_iff ch).mpr ⟨hws, hfits⟩, ?_⟩, hrest⟩
              rw [List.forall_mem_append, List.forall_mem_singleton]
              exact ⟨hstr, hdecoded, hgood⟩

theorem onStdinRead_byte {s : StdinBuffer} {ch : UInt8} :
    (onStdinRead true wsMode s (some ch)).bufWrites = s.bufWrites ++ [s.buf.length] ∧
      (onStdinRead true wsMode s (some ch)).buf =
        if endsUnit wsMode (s.buf ++ [ch]) then [] else s.buf ++ [ch] := by
  rw [onStdinRead, if_pos rfl]
  cases hends : endsUnit wsMode (s.buf ++ [ch]) with
  | true => simp [hends]
  | false => simp [hends]

/-- So are those of any calls of `on_stdin_read`. -/
theorem bufferedReads_inBounds_iff (s : StdinBuffer) (calls : List (Option UInt8)) :
    (calls.foldl (onStdinRead true wsMode) s).InBounds ↔ s.InBounds ∧
      BuffersFit (endsUnit wsMode) (fun _ => false) (fun _ => True) bufferSize s.buf calls := by
  induction calls generalizing s with
  | nil => exact ⟨fun h => ⟨h, buffersFit_nil _⟩, fun h => h.1⟩
  | cons call calls ih =>
      rw [List.foldl_cons, ih]
      cases call with
      | none =>
          have hflush : (onStdinRead true wsMode s none).InBounds ↔ s.InBounds := by
            rw [onStdinRead]
            split <;> rfl
          have hempty : (onStdinRead true wsMode s none).buf = [] := by
            rw [onStdinRead]
            split
            · rfl
            · rename_i hnone
              exact List.length_eq_zero_iff.mp
                (Nat.eq_zero_of_not_pos (fun hpos => hnone ⟨rfl, hpos⟩))
          rw [hflush, hempty]
          rfl
      | some ch =>
          obtain ⟨hwrites, hbuf⟩ := @onStdinRead_byte wsMode s ch
          rw [StdinBuffer.InBounds, hwrites, hbuf, writes_concat_iff ch]
          cases hcomplete : endsUnit wsMode (s.buf ++ [ch]) with
          | true =>
              rw [buffersFit_complete hcomplete, if_pos rfl, and_assoc]
              simp [StdinBuffer.InBounds]
          | false =>
              rw [buffersFit_wait hcomplete, if_neg Bool.false_ne_true, and_assoc]
              rfl

theorem unitLength_append (h : headLength ws ≤ ws.length) (more : List UInt8) :
    headLength (ws ++ more) = headLength ws ∧ unitLength (ws ++ more) = unitLength ws := by
  have htwo := Nat.le_trans (two_le_headLength ws) h
  have hhead := (header_append htwo more).2.2
  refine ⟨hhead, ?_⟩
  rw [unitLength, hhead, lowLength, payloadLength_append h, unitLength, lowLength]

theorem getD_zero_append (h : front ≠ []) (back : List UInt8) :
    (front ++ back).getD 0 0 = front.getD 0 0 :=
  List.getD_append _ _ _ _ (List.length_pos_of_ne_nil h)

/-- A frame is answered with a length. -/
theorem FrameUnit.packet (h : FrameUnit ws) (hint : ws.length < 2 ^ 31) : isWSpacket ws = true := by
  have hwhole := h.whole
  rw [isWSpacket_iff]
  by_cases hlow : lowLength ws ≤ 2 ^ 31
  · rw [unitLength, if_pos hlow] at hwhole
    rw [(returned_whole h.opcode hint hwhole).1]
    exact Int.natCast_nonneg _
  · rw [unitLength, if_neg hlow] at hwhole
    have hlt := lowLength_lt ws
    rw [returned_far h.opcode h.header (by omega)]
    omega

/-- What is answered with a length has a frame in front. -/
theorem unit_of_packet (h : isWSpacket ws = true) (hint : ws.length < 2 ^ 31) :
    AcceptedOpcode (ws.getD 0 0) ∧ headLength ws ≤ ws.length ∧ unitLength ws ≤ ws.length := by
  rw [isWSpacket_iff] at h
  have htwo : 2 ≤ ws.length := by
    match ws, h with
    | [], h => exact absurd h (by decide)
    | [byte], h =>
        rw [returned_one rfl] at h
        exact absurd h (by decide)
    | _ :: _ :: _, _ => simp
  have hopcode : AcceptedOpcode (ws.getD 0 0) := by
    by_contra hrefused
    rw [returned_refused htwo hrefused] at h
    exact absurd h (by decide)
  have hhead : headLength ws ≤ ws.length := by
    apply Nat.le_of_not_lt
    intro hcut
    obtain ⟨tail, -, hret, -⟩ := returned_cut hopcode htwo hcut
    omega
  refine ⟨hopcode, hhead, ?_⟩
  rw [unitLength]
  split
  · apply Nat.le_of_not_lt
    intro hshort
    have hret := returned_mismatch hopcode hhead hint (by omega) (by omega)
    omega
  · exact hhead

/-- The frame in front of what is longer. -/
theorem take_unit (hopcode : AcceptedOpcode (ws.getD 0 0))
    (hunit : unitLength ws ≤ ws.length) : FrameUnit (ws.take (unitLength ws)) := by
  have hlength : (ws.take (unitLength ws)).length = unitLength ws := by
    rw [List.length_take, Nat.min_eq_left hunit]
  have hinside : headLength ws ≤ unitLength ws := Nat.le_add_right _ _
  have htwo := two_le_headLength ws
  have hsplit := List.take_append_drop (unitLength ws) ws
  have hfirst : (ws.take (unitLength ws)).getD 0 0 = ws.getD 0 0 := by
    rw [← getD_zero_append (List.ne_nil_of_length_pos (by omega)) (ws.drop (unitLength ws)), hsplit]
  have hhead' : headLength (ws.take (unitLength ws)) = headLength ws := by
    rw [← (header_append (by omega) (ws.drop (unitLength ws))).2.2, hsplit]
  refine ⟨hfirst ▸ hopcode, by omega, ?_⟩
  have hunit' := (@unitLength_append (ws.take (unitLength ws)) (by omega)
    (ws.drop (unitLength ws))).2
  rw [hsplit] at hunit'
  exact hlength.trans hunit'

theorem framePart_iff (hint : ws.length < 2 ^ 31) : Part isWSpacket ws ↔ FramePart ws := by
  constructor
  · intro h hopcode hhead
    apply Nat.lt_of_not_le
    intro hunit
    have hframe := take_unit hopcode hunit
    have hlength : (ws.take (unitLength ws)).length < 2 ^ 31 := by
      rw [List.length_take]
      omega
    have hwaits := h _ _ (List.take_append_drop (unitLength ws) ws).symm ?_
    · rw [hframe.packet hlength] at hwaits
      cases hwaits
    · apply List.ne_nil_of_length_pos
      have htwo := two_le_headLength (ws.take (unitLength ws))
      have := hframe.header
      omega
  · rintro h front back rfl hnonempty
    rw [← Bool.not_eq_true]
    intro hpacket
    rw [List.length_append] at hint
    obtain ⟨hopcode, hhead, hunit⟩ := unit_of_packet hpacket (by omega)
    obtain ⟨hhead', hunit'⟩ := unitLength_append hhead back
    have hshort := h (by rwa [getD_zero_append hnonempty]) (by
      rw [hhead', List.length_append]
      omega)
    rw [hunit', List.length_append] at hshort
    omega

theorem frameUnit_iff (hint : ws.length < 2 ^ 31) : Whole isWSpacket ws ↔ FrameUnit ws := by
  constructor
  · rintro ⟨front, byte, rfl, hpart, hpacket⟩
    obtain ⟨hopcode, hhead, hunit⟩ := unit_of_packet hpacket hint
    have hinside : headLength (front ++ [byte]) ≤ unitLength (front ++ [byte]) :=
      Nat.le_add_right _ _
    have htwo := two_le_headLength (front ++ [byte])
    refine ⟨hopcode, hhead, Nat.le_antisymm (Nat.le_of_not_lt fun hlonger => ?_) hunit⟩
    rw [List.length_append, List.length_singleton] at hint hlonger
    have hhead' := (@header_append front (by omega) [byte]).2.2
    have hunit' := (@unitLength_append front (by omega) [byte]).2
    have hnonempty : front ≠ [] := List.ne_nil_of_length_pos (by omega)
    have hshort := (framePart_iff (by omega)).mp hpart
      (by rwa [← getD_zero_append hnonempty [byte]]) (by omega)
    omega
  · intro h
    have hpacket := h.packet hint
    rcases List.eq_nil_or_concat ws with rfl | ⟨front, byte, rfl⟩
    · exact absurd h.header (by decide)
    · rw [List.concat_eq_append] at h hint hpacket ⊢
      have hwhole := h.whole
      rw [List.length_append, List.length_singleton] at hint hwhole
      refine ⟨front, byte, rfl, (framePart_iff (by omega)).mpr fun _ hhead => ?_, hpacket⟩
      rw [← (unitLength_append hhead [byte]).2]
      omega

theorem endsLine_concat (text : List UInt8) (ch : UInt8) :
    endsUnit false (text ++ [ch]) = true ↔ ch = newline := by
  simp [endsUnit]

theorem linePart_iff {line : List UInt8} : Part (endsUnit false) line ↔ LinePart line := by
  constructor
  · intro h hmem
    obtain ⟨text, rest, rfl⟩ := List.append_of_mem hmem
    have hopen := h (text ++ [newline]) rest (by simp) (by simp)
    rw [(endsLine_concat text newline).mpr rfl] at hopen
    cases hopen
  · rintro h front back rfl hnonempty
    rcases List.eq_nil_or_concat front with rfl | ⟨text, ch, rfl⟩
    · exact absurd rfl hnonempty
    · rw [List.concat_eq_append] at h ⊢
      rw [← Bool.not_eq_true, endsLine_concat]
      rintro rfl
      exact h (by simp)

theorem lineUnit_iff {line : List UInt8} : Whole (endsUnit false) line ↔ LineUnit line := by
  constructor
  · rintro ⟨text, ch, rfl, hpart, hends⟩
    obtain rfl := (endsLine_concat text ch).mp hends
    exact ⟨text, rfl, linePart_iff.mp hpart⟩
  · rintro ⟨text, rfl, hopen⟩
    exact ⟨text, newline, rfl, linePart_iff.mpr hopen, (endsLine_concat text newline).mpr rfl⟩

theorem FrameUnit.returned_lt (h : FrameUnit ws) (hfits : ws.length ≤ bufferSize) :
    returned ws < bufferSize ↔ StrFits ws := by
  have hsize : bufferSize = 65536 := rfl
  have hwhole := h.whole
  have htwo := two_le_headLength ws
  by_cases hlow : lowLength ws ≤ 2 ^ 31
  · rw [unitLength, if_pos hlow] at hwhole
    rw [(returned_whole h.opcode (by omega) hwhole).1]
    exact iff_of_true (by omega) (.inl hlow)
  · rw [unitLength, if_neg hlow] at hwhole
    have hlt := lowLength_lt ws
    rw [returned_far h.opcode h.header (by omega), StrFits, or_iff_right hlow]
    omega

theorem isExitExit_of_opcode {byte : UInt8} (h : AcceptedOpcode byte) (rest : List UInt8) :
    isExitExit (byte :: rest) = false := by
  rcases h with rfl | rfl | rfl | rfl
  · rfl
  · rfl
  · rfl
  · rfl

theorem FrameUnit.ends (h : FrameUnit ws) (hfits : ws.length ≤ bufferSize) (options : Options) :
    endsLoop options (decodedStr ws) = endsBehind options ws := by
  have hsize : bufferSize = 65536 := rfl
  have hwhole := h.whole
  by_cases hlow : lowLength ws ≤ 2 ^ 31
  · rw [unitLength, if_pos hlow] at hwhole
    obtain ⟨hret, hmsg⟩ := returned_whole h.opcode (by omega) hwhole
    have hlength : (unmasked ws).length = lowLength ws := by
      rw [unmasked]
      split
      · rw [List.length_mapIdx, List.length_drop]
        omega
      · rw [List.length_drop]
        omega
    rw [endsBehind, if_pos hlow, decodedStr, hret, hmsg, Int.toNat_natCast,
      List.take_of_length_le (Nat.le_of_eq hlength)]
  · rw [unitLength, if_neg hlow] at hwhole
    have hlt := lowLength_lt ws
    have hret := returned_far h.opcode h.header (by omega)
    have hmsg : (decodeWebSockMsg ws).msg = ws := by
      rw [decode_header h.opcode h.header]
      have hnegative : asInt (lowLength ws) = (lowLength ws : Int) - 2 ^ 32 := if_neg (by omega)
      have hmismatch : (headLength ws : Int) + asInt (lowLength ws) ≠ ws.length := by omega
      exact congrArg Decoded.msg (if_pos hmismatch)
    have hpos : 0 < (returned ws).toNat := by omega
    rw [endsBehind, if_neg hlow, decodedStr, hmsg]
    have hopcode := h.opcode
    have htwo := two_le_headLength ws
    obtain ⟨byte, rest, hws⟩ := List.exists_cons_of_length_pos (l := ws) (by omega)
    generalize (returned ws).toNat = n at hpos
    rw [hws] at hopcode ⊢
    have hbyte : AcceptedOpcode byte := hopcode
    rw [List.take_cons hpos, endsLoop, isExitExit_of_opcode hbyte, Bool.and_false, Bool.false_or]

theorem decodeMain_inBounds_iff (options : Options) (input : List UInt8) :
    (decodeMain options input).InBounds ↔
      UnitsFit FrameUnit FramePart StrFits (endsBehind options) bufferSize (input.map some) := by
  have hsize : bufferSize < 2 ^ 31 := by decide
  rw [decodeMain, turn_inBounds_iff, buffersFit_iff]
  have hstart : DecodeLoop.InBounds ⟨[], [], [], false⟩ :=
    ⟨fun i hi => absurd hi List.not_mem_nil, fun n hn => absurd hn List.not_mem_nil⟩
  refine (and_iff_right hstart).trans ⟨fun h => (h rfl).congr ?_ ?_, fun h _ => h.congr ?_ ?_⟩
  · intro ws hfits hwhole
    have hframe := (frameUnit_iff (Nat.lt_of_le_of_lt hfits hsize)).mp hwhole
    exact ⟨hframe, (hframe.returned_lt hfits).mp, fun h => (hframe.ends hfits options).trans h⟩
  · intro ws hfits hpart
    exact (framePart_iff (Nat.lt_of_le_of_lt hfits hsize)).mp hpart
  · intro ws hfits hframe
    exact ⟨(frameUnit_iff (Nat.lt_of_le_of_lt hfits hsize)).mpr hframe,
      (hframe.returned_lt hfits).mpr, fun h => (hframe.ends hfits options).symm.trans h⟩
  · intro ws hfits hpart
    exact (framePart_iff (Nat.lt_of_le_of_lt hfits hsize)).mpr hpart

theorem packets_inBounds_iff (calls : List (Option UInt8)) :
    (bufferedReads true calls).InBounds ↔
      UnitsFit FrameUnit FramePart (fun _ => True) (fun _ => false) bufferSize calls := by
  have hsize : bufferSize < 2 ^ 31 := by decide
  have hpacket : endsUnit true = isWSpacket := by
    funext buf
    simp [endsUnit]
  rw [bufferedReads, bufferedReads_inBounds_iff, buffersFit_iff, hpacket]
  have hstart : StdinBuffer.InBounds ⟨[], [], []⟩ := fun i hi => absurd hi List.not_mem_nil
  refine (and_iff_right hstart).trans ⟨fun h => h.congr ?_ ?_, fun h => h.congr ?_ ?_⟩
  · intro ws hfits hwhole
    exact ⟨(frameUnit_iff (Nat.lt_of_le_of_lt hfits hsize)).mp hwhole, fun h => h, fun h => h⟩
  · intro ws hfits hpart
    exact (framePart_iff (Nat.lt_of_le_of_lt hfits hsize)).mp hpart
  · intro ws hfits hframe
    exact ⟨(frameUnit_iff (Nat.lt_of_le_of_lt hfits hsize)).mpr hframe, fun h => h, fun h => h⟩
  · intro ws hfits hpart
    exact (framePart_iff (Nat.lt_of_le_of_lt hfits hsize)).mpr hpart

theorem lines_inBounds_iff (calls : List (Option UInt8)) :
    (bufferedReads false calls).InBounds ↔
      UnitsFit LineUnit LinePart (fun _ => True) (fun _ => false) bufferSize calls := by
  rw [bufferedReads, bufferedReads_inBounds_iff, buffersFit_iff]
  have hstart : StdinBuffer.InBounds ⟨[], [], []⟩ := fun i hi => absurd hi List.not_mem_nil
  have hunit : Whole (endsUnit false) = LineUnit := funext fun _ => propext lineUnit_iff
  have hpart : Part (endsUnit false) = LinePart := funext fun _ => propext linePart_iff
  rw [hunit, hpart]
  exact and_iff_right hstart

/-- The buffers overflow exactly where a frame or a line, or what is left of the input, is longer
than they are, or the length of a frame is negative as an `int`, but not close below 2³². -/
theorem receive_buffers_inBounds_iff (options : Options) (input : List UInt8)
    (calls : List (Option UInt8)) :
    ((decodeMain options input).InBounds ↔
      UnitsFit FrameUnit FramePart StrFits (endsBehind options) bufferSize (input.map some)) ∧
    ((bufferedReads true calls).InBounds ↔
      UnitsFit FrameUnit FramePart (fun _ => True) (fun _ => false) bufferSize calls) ∧
    ((bufferedReads false calls).InBounds ↔
      UnitsFit LineUnit LinePart (fun _ => True) (fun _ => false) bufferSize calls) :=
  ⟨decodeMain_inBounds_iff options input, packets_inBounds_iff calls, lines_inBounds_iff calls⟩

/-- The length ffff0000 is taken for -65536, and the end of the string stored at `str[65536]`. -/
theorem negative_length_overflows :
    ¬ ((∀ options input, (decodeMain options input).InBounds) ∧
      ∀ wsMode calls, (bufferedReads wsMode calls).InBounds) := by
  rintro ⟨h, -⟩
  have hstr := (h ⟨false, false⟩ [0x81, 0x7f, 0, 0, 0, 0, 0xff, 0xff, 0, 0]).str 65536 (by decide)
  exact absurd hstr.2 (by decide)

end EventLoop.WebSocket
