import EventLoop.Lib.Delimited
import EventLoop.Lib.Iteration
import EventLoop.WebSocket.Buffers
import Mathlib.Data.List.TakeWhile

/-!
`ws_encode`, two `nc` and `ws_decode` one behind the other. The lines of a text become frames, `nc`
sends each of them at once, and what arrives at the other `nc` is cut up anew.
-/

namespace EventLoop.WebSocket

open Delimited Framing Iteration

/-- `fgets`: what is stored, and what is left to read. -/
def fgets (size : Nat) (input : List UInt8) : Option (List UInt8 × List UInt8) :=
  if input = [] then none
  else
    let stored := throughStop (· == newline) (input.take (size - 1))
    some (stored, input.drop stored.length)

/-- `"sleep "` -/
def sleepCommand : List UInt8 := [115, 108, 101, 101, 112, 32]

/-- Emulates `gets`. -/
def stripNewline (str : List UInt8) : List UInt8 :=
  if str.getLast? = some newline then str.dropLast else str

/-- `%02x` of an `unsigned char` -/
def printByte (byte : UInt8) : List Char :=
  [Nat.digitChar (byte.toNat / 16), Nat.digitChar (byte.toNat % 16)]

def printFrame (options : Options) (websockMsg : List UInt8) : List UInt8 :=
  if options.bHex then
    ("msg(".toList ++ Nat.toDigits 10 websockMsg.length ++ "):".toList ++
      websockMsg.flatMap printByte ++ ['\n']).map (fun char => UInt8.ofNat char.toNat)
  else websockMsg

/-- A turn of the loop in `main` of `ws_encode.c`, with what is left to read and what is written.
There is no result where `str[-1]` is read or a byte is stored behind the end of `websockMsg`. -/
def encodeTurn (options : Options) (testKey : Option MaskKey) (s : List UInt8 × List UInt8) :
    (List UInt8 × List UInt8) ⊕ Option (List UInt8) :=
  match fgets bufferSize s.1 with
  | none => .inr (some s.2)
  | some (stored, input) =>
      let str := stored.takeWhile (· ≠ 0)
      if str = [] then .inr none
      else
        let str := stripNewline str
        if sleepCommand.isPrefixOf str then .inl (input, s.2)
        else
          let websockMsg := encodeWebSockMsg str 1 testKey
          if bufferSize < websockMsg.length then .inr none
          else
            let output := s.2 ++ printFrame options websockMsg
            if options.bFastExit then .inr (some output) else .inl (input, output)

/-- What `main` of `ws_encode.c` writes for its standard input. -/
def wsEncodeMain (options : Options) (testKey : Option MaskKey) (input : List UInt8) :
    Option (List UInt8) :=
  (iterate (encodeTurn options testKey) (input.length + 1) (input, [])).join

/-- `stdio_thread_func` of an `nc` with one connection: its standard input, and what is buffered at
the end of it. -/
def stdioThread (bufferedSend wsMode : Bool) (input : List UInt8) : StdinBuffer :=
  let s := (input.map some).foldl (onStdinRead bufferedSend wsMode) ⟨[], [], []⟩
  if bufferedSend ∧ 0 < s.buf.length then onStdinRead bufferedSend wsMode s none else s

structure Receiver where
  recvIobuf : List UInt8
  stdout : List UInt8
  afterRecv : Bool
deriving DecidableEq, Repr

/-- `ev_handler` for `NS_RECV`. -/
def onRecv (r : Receiver) : Receiver := ⟨[], r.stdout ++ r.recvIobuf, true⟩

/-- What is received is appended to `recv_iobuf` before the handler is called. -/
def receiveAll (chunks : List (List UInt8)) : Receiver :=
  chunks.foldl (fun r chunk => onRecv { r with recvIobuf := r.recvIobuf ++ chunk }) ⟨[], [], false⟩

variable {wsMode : Bool} {options : Options} {testKey : Option MaskKey}

/-- What `nc` is to send at once. -/
def SentUnit (wsMode : Bool) (unit : List UInt8) : Prop :=
  if wsMode then FrameUnit unit else LineUnit unit

/-- What is still to be sent when there is no more input. -/
def SentPart (wsMode : Bool) (part : List UInt8) : Prop :=
  if wsMode then FramePart part else LinePart part

theorem whole_iff {unit : List UInt8} (hint : unit.length < 2 ^ 31) :
    Whole (endsUnit wsMode) unit ↔ SentUnit wsMode unit := by
  cases wsMode with
  | false => exact lineUnit_iff
  | true =>
      have hpacket : endsUnit true = isWSpacket := funext fun buf => by simp [endsUnit]
      rw [hpacket, frameUnit_iff hint]
      rfl

theorem part_iff {part : List UInt8} (hint : part.length < 2 ^ 31) :
    Part (endsUnit wsMode) part ↔ SentPart wsMode part := by
  cases wsMode with
  | false => exact linePart_iff
  | true =>
      have hpacket : endsUnit true = isWSpacket := funext fun buf => by simp [endsUnit]
      rw [hpacket, framePart_iff hint]
      rfl

theorem foldl_onStdinRead (s : StdinBuffer) (input : List UInt8) :
    ((input.map some).foldl (onStdinRead true wsMode) s).buf =
        (cut (endsUnit wsMode) s.buf input).2 ∧
      ((input.map some).foldl (onStdinRead true wsMode) s).sent =
        s.sent ++ (cut (endsUnit wsMode) s.buf input).1 := by
  induction input generalizing s with
  | nil => simp [cut]
  | cons ch input ih =>
      rw [List.map_cons, List.foldl_cons, (ih _).1, (ih _).2]
      cases hends : endsUnit wsMode (s.buf ++ [ch]) with
      | true => simp [onStdinRead, hends, cut_complete hends]
      | false => simp [onStdinRead, hends, cut_wait hends]

/-- Each unit is sent, and at the end what is left of the input, if anything is. -/
def sends (cut : List (List UInt8) × List UInt8) : List (List UInt8) :=
  cut.1 ++ if cut.2 = [] then [] else [cut.2]

theorem flatten_sends (cut : List (List UInt8) × List UInt8) :
    (sends cut).flatten = cut.1.flatten ++ cut.2 := by
  by_cases hrest : cut.2 = []
  · simp [sends, hrest]
  · simp [sends, hrest]

theorem stdioThread_sent (wsMode : Bool) (input : List UInt8) :
    (stdioThread true wsMode input).sent = sends (cut (endsUnit wsMode) [] input) ∧
      (stdioThread true wsMode input).buf = [] := by
  obtain ⟨hbuf, hsent⟩ := @foldl_onStdinRead wsMode ⟨[], [], []⟩ input
  rw [stdioThread]
  by_cases hrest : (cut (endsUnit wsMode) [] input).2 = []
  · simp [hbuf, hsent, hrest, sends]
  · have hpositive := List.length_pos_iff.mpr hrest
    simp [hbuf, hsent, hrest, sends, hpositive, onStdinRead]

theorem foldl_onStdinRead_each (s : StdinBuffer) (input : List UInt8) :
    (input.map some).foldl (onStdinRead false wsMode) s =
      { s with sent := s.sent ++ input.map fun ch => [ch] } := by
  induction input generalizing s with
  | nil => simp
  | cons ch input ih => simp [ih, onStdinRead]

theorem stdioThread_inBounds_iff (wsMode : Bool) (input : List UInt8) :
    (stdioThread true wsMode input).InBounds ↔
      (∀ unit ∈ (cut (endsUnit wsMode) [] input).1, unit.length ≤ bufferSize) ∧
        (cut (endsUnit wsMode) [] input).2.length ≤ bufferSize := by
  have hsame : (stdioThread true wsMode input).InBounds ↔
      ((input.map some).foldl (onStdinRead true wsMode) ⟨[], [], []⟩).InBounds := by
    rw [stdioThread]
    split
    · rename_i hleft
      simp [onStdinRead, hleft.2, StdinBuffer.InBounds]
    · rfl
  rw [hsame, bufferedReads_inBounds_iff, buffersFit_cut_iff (Nat.zero_le _)]
  simp [StdinBuffer.InBounds]

/-- The input as units and what is left behind the last, none of them longer than `Buf`. -/
structure CutUp (wsMode : Bool) (input : List UInt8) (units : List (List UInt8))
    (part : List UInt8) : Prop where
  all : units.flatten ++ part = input
  units : ∀ unit ∈ units, SentUnit wsMode unit ∧ unit.length ≤ bufferSize
  part : SentPart wsMode part ∧ part.length ≤ bufferSize

theorem cutUp_iff {input : List UInt8} {units : List (List UInt8)} {part : List UInt8} :
    CutUp wsMode input units part ↔
      cut (endsUnit wsMode) [] input = (units, part) ∧ (stdioThread true wsMode input).InBounds := by
  have hsize : bufferSize < 2 ^ 31 := by decide
  rw [stdioThread_inBounds_iff]
  constructor
  · rintro ⟨rfl, hunits, hpart⟩
    have hcut : cut (endsUnit wsMode) [] (units.flatten ++ part) = (units, part) := by
      apply cut_flatten
      · intro unit hunit
        obtain ⟨hsent, hfits⟩ := hunits unit hunit
        exact (whole_iff (Nat.lt_of_le_of_lt hfits hsize)).mpr hsent
      · exact (part_iff (Nat.lt_of_le_of_lt hpart.2 hsize)).mpr hpart.1
    rw [hcut]
    exact ⟨rfl, fun unit hunit => (hunits unit hunit).2, hpart.2⟩
  · rintro ⟨hcut, hfits⟩
    have hall := flatten_cut (endsUnit wsMode) [] input
    obtain ⟨hwhole, hrest⟩ := @cut_units _ (endsUnit wsMode) [] input (part_nil _)
    rw [hcut] at hall hwhole hrest hfits
    refine ⟨hall, ?_, ?_, hfits.2⟩
    · intro unit hunit
      have hunitFits := hfits.1 unit hunit
      exact ⟨(whole_iff (Nat.lt_of_le_of_lt hunitFits hsize)).mp (hwhole unit hunit), hunitFits⟩
    · exact (part_iff (Nat.lt_of_le_of_lt hfits.2 hsize)).mp hrest

/-- `nc` sends its input, and nothing else: every line or frame at once as soon as it is there, and
what is left at the end. `Buf` is large enough exactly if the input can be cut up so. -/
theorem stdin_sent (wsMode : Bool) (input : List UInt8) :
    (stdioThread true wsMode input).sent.flatten = input ∧
      (stdioThread false wsMode input).sent.flatten = input ∧
      ((stdioThread true wsMode input).InBounds ↔ ∃ units part, CutUp wsMode input units part) ∧
      ∀ units part, CutUp wsMode input units part →
        (stdioThread true wsMode input).sent = units ++ if part = [] then [] else [part] := by
  obtain ⟨hsent, -⟩ := stdioThread_sent wsMode input
  refine ⟨?_, ?_, ?_, ?_⟩
  · rw [hsent, flatten_sends, flatten_cut, List.nil_append]
  · rw [stdioThread, if_neg (by simp), foldl_onStdinRead_each]
    simp [← List.flatMap_def]
  · constructor
    · intro hfits
      exact ⟨_, _, cutUp_iff.mpr ⟨rfl, hfits⟩⟩
    · rintro ⟨units, part, hcut⟩
      exact (cutUp_iff.mp hcut).2
  · intro units part hcut
    rw [hsent, (cutUp_iff.mp hcut).1]
    rfl

theorem Sent.msg_length_lt (sent : Sent) : sent.msg.length < sent.frame.length := by
  rw [Sent.frame, encodeWebSockMsg_eq]
  simp only [List.length_cons, List.length_append, payloadBytes_length]
  omega

/-- What the encoder writes is one frame to `nc`. -/
theorem Sent.frameUnit (sent : Sent) (hfits : sent.frame.length ≤ bufferSize) :
    FrameUnit sent.frame := by
  have hsize : bufferSize < 2 ^ 31 := by decide
  have hshorter := sent.msg_length_lt
  have hdecode : decodeWebSockMsg sent.frame = _ :=
    decode_encode sent.msg (by omega) sent.bFinal_mem sent.encKey
  have hpacket : isWSpacket sent.frame = true := by
    rw [isWSpacket_iff, returned, hdecode, @int_bmod sent.msg.length (by omega) (by omega)]
    exact Int.natCast_nonneg _
  obtain ⟨hopcode, hhead, -⟩ := unit_of_packet hpacket (by omega)
  rw [decode_header hopcode hhead, decodePayload, ← headLength] at hdecode
  split at hdecode
  · -- an error would copy the whole frame
    obtain ⟨-, hmsg, -, -⟩ := Decoded.mk.inj hdecode
    rw [hmsg] at hshorter
    exact absurd hshorter (Nat.lt_irrefl _)
  · rename_i hwhole
    obtain ⟨hlow, -, -, -⟩ := Decoded.mk.inj hdecode
    have hlowNat : lowLength sent.frame = sent.msg.length := by
      unfold asInt at hlow
      split at hlow
      · exact Int.ofNat_inj.mp hlow
      · have hlt := lowLength_lt sent.frame
        omega
    refine ⟨hopcode, hhead, ?_⟩
    rw [unitLength, if_pos (by omega), hlowNat]
    rw [hlow] at hwhole
    omega

theorem ne_newline {line : List UInt8} (hline : newline ∉ line) :
    ∀ byte ∈ line, (byte == newline) = false := by
  intro byte hbyte
  simp only [beq_eq_false_iff_ne]
  rintro rfl
  exact hline hbyte

/-- A line that is stored whole. -/
theorem fgets_line {size : Nat} {line : List UInt8} (hline : newline ∉ line)
    (hsize : line.length + 1 < size) (rest : List UInt8) :
    fgets size (line ++ newline :: rest) = some (line ++ [newline], rest) := by
  have htake : (line ++ newline :: rest).take (size - 1) =
      line ++ newline :: rest.take (size - 1 - line.length - 1) := by
    obtain ⟨more, hmore⟩ := Nat.exists_eq_add_of_lt hsize
    have hcount : size - 1 = line.length + (more + 1) := by omega
    rw [hcount, List.take_length_add_append, List.take_succ_cons]
    simp
  rw [fgets, if_neg (by simp), htake, throughStop_append_cons (ne_newline hline) (by simp)]
  simp

/-- The last line, without a newline. -/
theorem fgets_last {size : Nat} {line : List UInt8} (hline : newline ∉ line) (hne : line ≠ [])
    (hsize : line.length < size) : fgets size line = some (line, []) := by
  rw [fgets, if_neg hne, List.take_of_length_le (by omega), throughStop_eq_self (ne_newline hline)]
  simp

theorem fgets_shortens {size : Nat} {input stored rest : List UInt8} (hsize : 1 < size)
    (h : fgets size input = some (stored, rest)) : rest.length < input.length := by
  rw [fgets] at h
  split at h
  · cases h
  · rename_i hne
    obtain ⟨hstored, rfl⟩ := Prod.mk.inj (Option.some.inj h)
    obtain ⟨byte, input, rfl⟩ := List.exists_cons_of_ne_nil hne
    obtain ⟨more, rfl⟩ := Nat.exists_eq_add_of_lt hsize
    have hpositive : 0 < (throughStop (· == newline)
        ((byte :: input).take (1 + more + 1 - 1))).length := by
      rw [show 1 + more + 1 - 1 = more + 1 by omega, List.take_succ_cons, throughStop]
      split <;> simp
    rw [List.length_drop, List.length_cons]
    omega

@[simp] theorem stripNewline_concat (line : List UInt8) :
    stripNewline (line ++ [newline]) = line := by
  simp [stripNewline]

theorem stripNewline_of_not_mem {line : List UInt8} (hline : newline ∉ line) :
    stripNewline line = line :=
  if_neg fun hlast => hline (List.mem_of_getLast? hlast)

/-- A line that is no command is sent. -/
def isMessage (line : List UInt8) : Bool := !sleepCommand.isPrefixOf line

/-- The frame of a line. -/
def lineFrame (testKey : Option MaskKey) (line : List UInt8) : List UInt8 :=
  encodeWebSockMsg line 1 testKey

/-- The lines of a text; the last need not be ended. -/
def textLines (input : List UInt8) : List (List UInt8) :=
  let lines := split newline input
  lines.units ++ if lines.rest = [] then [] else [lines.rest]

def writtenFor (testKey : Option MaskKey) (lines : List (List UInt8)) : List UInt8 :=
  ((lines.filter isMessage).map (lineFrame testKey)).flatten

theorem encodeTurn_stored {input stored rest line output : List UInt8}
    (hfgets : fgets bufferSize input = some (stored, rest)) (hnul : 0 ∉ stored) (hne : stored ≠ [])
    (hstrip : stripNewline stored = line) (hfits : (lineFrame testKey line).length ≤ bufferSize) :
    encodeTurn ⟨false, false⟩ testKey (input, output) =
      .inl (rest, output ++ writtenFor testKey [line]) := by
  have hstr : stored.takeWhile (· ≠ 0) = stored := by
    rw [List.takeWhile_eq_self_iff]
    intro byte hbyte
    simpa using ne_of_mem_of_not_mem hbyte hnul
  simp only [encodeTurn, hfgets, hstr, if_neg hne, hstrip]
  cases hsleep : sleepCommand.isPrefixOf line with
  | true => simp [writtenFor, isMessage, hsleep]
  | false =>
      rw [lineFrame] at hfits
      simp [writtenFor, isMessage, hsleep, lineFrame, printFrame, Nat.not_lt.mpr hfits]

theorem writtenFor_cons (testKey : Option MaskKey) (line : List UInt8) (lines : List (List UInt8)) :
    writtenFor testKey (line :: lines) = writtenFor testKey [line] ++ writtenFor testKey lines := by
  cases hmessage : isMessage line with
  | true => simp [writtenFor, hmessage]
  | false => simp [writtenFor, hmessage]

theorem lineFrame_length (testKey : Option MaskKey) (line : List UInt8) :
    line.length + 2 ≤ (lineFrame testKey line).length ∧
      (125 < line.length → line.length + 4 ≤ (lineFrame testKey line).length) := by
  rw [lineFrame, encodeWebSockMsg_eq]
  simp only [List.length_cons, List.length_append, payloadBytes_length]
  constructor
  · omega
  · intro hlong
    have hextended : 2 ≤ (encodeLength line.length).2.length := by
      rw [encodeLength]
      split
      · simp
      · simp
    omega

theorem length_lt_bufferSize {line : List UInt8}
    (hfits : (lineFrame testKey line).length ≤ bufferSize) : line.length + 1 < bufferSize := by
  obtain ⟨-, hlong⟩ := lineFrame_length testKey line
  have hsize : bufferSize = 65536 := rfl
  by_cases h : 125 < line.length
  · have := hlong h
    omega
  · omega

theorem yields_encode {lines : List (List UInt8)} {part : List UInt8}
    (hlines : ∀ line ∈ lines, newline ∉ line ∧ 0 ∉ line ∧
      (lineFrame testKey line).length ≤ bufferSize)
    (hpart : newline ∉ part ∧ 0 ∉ part ∧
      (part ≠ [] → (lineFrame testKey part).length ≤ bufferSize))
    (output : List UInt8) :
    Yields (encodeTurn ⟨false, false⟩ testKey) (lines.flatMap (· ++ [newline]) ++ part, output)
      (some (output ++ writtenFor testKey (lines ++ if part = [] then [] else [part]))) := by
  induction lines generalizing output with
  | nil =>
      have hend (output : List UInt8) :
          Yields (encodeTurn ⟨false, false⟩ testKey) ([], output) (some output) :=
        yields_of_inr rfl
      by_cases hempty : part = []
      · subst hempty
        simpa [writtenFor] using hend output
      · obtain ⟨hline, hnul, hfits⟩ := hpart
        have hless := length_lt_bufferSize (hfits hempty)
        have hturn := @encodeTurn_stored testKey part part [] part output
          (fgets_last hline hempty (by omega)) hnul hempty (stripNewline_of_not_mem hline)
          (hfits hempty)
        simpa [hempty] using (yields_of_inl hturn).mpr (hend _)
  | cons line lines ih =>
      obtain ⟨⟨hline, hnul, hfits⟩, hlines⟩ := List.forall_mem_cons.mp hlines
      have hturn := @encodeTurn_stored testKey
        (line ++ newline :: (lines.flatMap (· ++ [newline]) ++ part)) (line ++ [newline]) _ line
        output (fgets_line hline (length_lt_bufferSize hfits) _) ?_ (by simp)
        (stripNewline_concat line) hfits
      · rw [List.cons_append, writtenFor_cons, ← List.append_assoc, List.flatMap_cons,
          List.append_assoc, List.append_assoc, List.singleton_append]
        exact (yields_of_inl hturn).mpr (ih hlines _)
      · simp [hnul, newline]

/-- Every turn reads something. -/
theorem encodeTurn_shortens (s s' : List UInt8 × List UInt8)
    (hturn : encodeTurn options testKey s = .inl s') : s'.1.length < s.1.length := by
  unfold encodeTurn at hturn
  split at hturn
  · cases hturn
  · rename_i stored rest hfgets
    have hless := fgets_shortens (by decide) hfgets
    dsimp only at hturn
    split_ifs at hturn
    · cases hturn
      exact hless
    · cases hturn
      exact hless

theorem wsEncodeMain_of_yields {input : List UInt8} {result : Option (List UInt8)}
    (h : Yields (encodeTurn options testKey) (input, []) result) :
    wsEncodeMain options testKey input = result := by
  obtain ⟨r, hr⟩ := exists_iterate_of_lt encodeTurn_shortens
    (s := (input, [])) (Nat.lt_succ_self input.length)
  rw [wsEncodeMain, hr, h.iterate_eq hr]
  rfl

/-- What the text is read as, and what is written for it. -/
theorem wsEncodeMain_lines {input : List UInt8} (hnul : 0 ∉ input)
    (hfits : ∀ line ∈ textLines input, (lineFrame testKey line).length ≤ bufferSize) :
    wsEncodeMain ⟨false, false⟩ testKey input = some (writtenFor testKey (textLines input)) := by
  have hjoin := @join_split _ _ newline input
  obtain ⟨hlines, hpart⟩ := @not_mem_split _ _ newline input
  apply wsEncodeMain_of_yields
  have hyields := @yields_encode testKey (split newline input).units (split newline input).rest
    ?_ ⟨hpart, ?_, ?_⟩ []
  · rwa [hjoin] at hyields
  · intro line hline
    refine ⟨hlines line hline, ?_, hfits line (List.mem_append_left _ hline)⟩
    intro hzero
    apply hnul
    rw [← hjoin]
    exact List.mem_append_left _ (List.mem_flatMap.mpr ⟨line, hline, List.mem_append_left _ hzero⟩)
  · intro hzero
    apply hnul
    rw [← hjoin]
    exact List.mem_append_right _ hzero
  · intro hne
    apply hfits
    simp [textLines, hne]

theorem receiveAll_stdout (chunks : List (List UInt8)) :
    (receiveAll chunks).stdout = chunks.flatten := by
  have hfrom (r : Receiver) (hempty : r.recvIobuf = []) :
      (chunks.foldl (fun r chunk => onRecv { r with recvIobuf := r.recvIobuf ++ chunk }) r).stdout =
        r.stdout ++ chunks.flatten := by
    induction chunks generalizing r with
    | nil => simp
    | cons chunk chunks ih =>
        rw [List.foldl_cons, ih _ rfl]
        simp [onRecv, hempty]
  exact hfrom ⟨[], [], false⟩ rfl

/-- The lines as what is handed to the encoder. -/
theorem exists_sents {lines : List (List UInt8)}
    (hfits : ∀ line ∈ lines, (lineFrame testKey line).length ≤ bufferSize) :
    ∃ sents : List Sent, sents.map Sent.msg = lines ∧
      sents.map Sent.frame = lines.map (lineFrame testKey) := by
  induction lines with
  | nil => exact ⟨[], rfl, rfl⟩
  | cons line lines ih =>
      obtain ⟨hline, hlines⟩ := List.forall_mem_cons.mp hfits
      obtain ⟨sents, hmsgs, hframes⟩ := ih hlines
      have hless := length_lt_bufferSize hline
      have hsize : bufferSize < 2 ^ 31 - 14 := by decide
      refine ⟨⟨line, 1, testKey, by omega, by decide⟩ :: sents, ?_, ?_⟩
      · rw [List.map_cons, hmsgs]
      · rw [List.map_cons, hframes]
        rfl

/-- The lines of a text, other than commands, arrive in order and whole, each sent at once by the
first `nc`, however the second one receives them. -/
theorem lines_arrive (testKey : Option MaskKey) (options : Options) {input : List UInt8}
    (hnul : 0 ∉ input)
    (hfits : ∀ line ∈ textLines input, (lineFrame testKey line).length ≤ bufferSize) :
    ∃ output, wsEncodeMain ⟨false, false⟩ testKey input = some output ∧
      (stdioThread true true output).InBounds ∧
      (stdioThread true true output).sent =
        ((textLines input).filter isMessage).map (lineFrame testKey) ∧
      ∀ chunks : List (List UInt8),
        chunks.flatten = (stdioThread true true output).sent.flatten →
          wsDecodeMain options (receiveAll chunks).stdout =
            some (throughStop (endsLoop options) ((textLines input).filter isMessage)) := by
  obtain ⟨sents, hmsgs, hframes⟩ := @exists_sents testKey ((textLines input).filter isMessage)
    fun line hline => hfits line (List.mem_of_mem_filter hline)
  have hsentFits : ∀ sent ∈ sents, sent.frame.length ≤ bufferSize := by
    intro sent hsent
    obtain ⟨line, hline, heq⟩ := List.mem_map.mp (hframes ▸ List.mem_map_of_mem hsent)
    rw [← heq]
    exact hfits line (List.mem_of_mem_filter hline)
  have hcut : CutUp true (writtenFor testKey (textLines input)) (sents.map Sent.frame) [] := by
    refine ⟨?_, ?_, ?_, Nat.zero_le _⟩
    · rw [hframes, List.append_nil]
      rfl
    · intro unit hunit
      obtain ⟨sent, hsent, rfl⟩ := List.mem_map.mp hunit
      exact ⟨sent.frameUnit (hsentFits sent hsent), hsentFits sent hsent⟩
    · exact (part_iff (by decide)).mp (part_nil _)
  obtain ⟨hcutEq, hinBounds⟩ := cutUp_iff.mp hcut
  have hsent : (stdioThread true true (writtenFor testKey (textLines input))).sent =
      sents.map Sent.frame := by
    rw [(stdioThread_sent true _).1, hcutEq]
    simp [sends]
  refine ⟨_, wsEncodeMain_lines hnul hfits, hinBounds, hsent.trans hframes, ?_⟩
  intro chunks hchunks
  rw [receiveAll_stdout, hchunks, hsent, wsDecodeMain_frames options sents hsentFits, hmsgs]

/-- `hi`, a command and an empty line, and a last line that is not ended. -/
theorem lines_arrive_hi :
    ∃ output, wsEncodeMain ⟨false, false⟩ (some #v[1, 2, 3, 4])
        ([104, 105, 10] ++ sleepCommand ++ [49, 10, 10, 33]) = some output ∧
      (stdioThread true true output).InBounds ∧
      (stdioThread true true output).sent =
        [[104, 105], [], [33]].map (lineFrame (some #v[1, 2, 3, 4])) ∧
      ∀ chunks : List (List UInt8),
        chunks.flatten = (stdioThread true true output).sent.flatten →
          wsDecodeMain ⟨false, false⟩ (receiveAll chunks).stdout = some [[104, 105], [], [33]] :=
  lines_arrive (some #v[1, 2, 3, 4]) ⟨false, false⟩ (by decide) (by decide)

end EventLoop.WebSocket
