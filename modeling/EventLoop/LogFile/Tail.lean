import EventLoop.Json.Envelope
import EventLoop.LogFile.Buffers
import EventLoop.LogFile.ReadIn

/-!
Queries that go on behind the last stamp. `filter1` ends their range far behind the file, so that
`filter2` reads until there is nothing more: what was written after the file was opened as well.
-/

namespace EventLoop.LogFile

open Delimited Json MonotoneSplit

/-- Where the range ends far behind the file, all lines are read. What is carried from one read to
the next is less than a thousandth of what is read. -/
theorem filter2Loop_tail {file : List UInt8}
    (hshort : ∀ pos ≤ file.length, (fragment file pos).length < 512) {eoff : Int}
    {fuel off pos : Nat} (hpos : pos ≤ file.length)
    (hfar : pos < file.length → 1024 * off + 1025 * (file.length - pos : Nat) + 2 ^ 20 ≤ 1024 * eoff)
    (hfuel : file.length < pos + fuel) :
    filter2Loop file eoff fuel off pos (fragment file pos) =
      linesRead file pos (file.length - pos) := by
  induction fuel generalizing off pos with
  | zero => omega
  | succ fuel ih =>
      rcases Nat.lt_or_eq_of_le hpos with hlt | rfl
      · have hcarried := hshort pos hpos
        have hfar := hfar hlt
        obtain ⟨toRead, htoRead, hmuch⟩ : ∃ toRead : Nat,
            filter2ToRead off (fragment file pos).length eoff = toRead ∧
              (1024 * 512 ≤ toRead ∨ file.length - pos ≤ toRead) := by
          refine ⟨(filter2ToRead off (fragment file pos).length eoff).toNat, ?_⟩
          simp only [filter2ToRead, bulkBufSize]
          split <;> omega
        simp only [filter2Loop, htoRead, Int.toNat_natCast]
        have hlength : ((file.drop pos).take toRead).length = min toRead (file.length - pos) := by
          rw [List.length_take, List.length_drop]
        have hread : (file.drop pos).take toRead =
            (file.drop pos).take ((file.drop pos).take toRead).length := by
          rw [List.length_take, ← List.take_take, List.take_length]
        generalize ((file.drop pos).take toRead).length = n at hlength hread
        have hn : ((file.drop pos).take n).length = n := by
          rw [List.length_take, List.length_drop]
          omega
        have hne : (file.drop pos).take n ≠ [] := by
          apply List.ne_nil_of_length_pos
          omega
        rw [hread, if_pos ⟨by omega, by omega, hne⟩, copyLines_eq (Nat.le_refl _), ← fragment_add,
          List.length_append, hn, ih (by omega) (by omega) (by omega)]
        have hrest : file.length - pos = n + (file.length - (pos + n)) := by omega
        rw [hrest, linesRead_add]
        rfl
      · rw [filter2Loop, List.drop_length, List.take_nil, if_neg (by simp), Nat.sub_self,
          linesRead_zero]

namespace Journal

variable {log : Journal} {i pos : Nat}

theorem length_fragment_lt (hshort : log.Short 512) (hpos : pos ≤ log.bytes.length) :
    (fragment log.bytes pos).length < 512 := by
  rw [length_fragment hpos]
  exact carried_lt hshort (by decide) hpos

/-- Behind a line start all lines are read. -/
theorem filter2_tail (hshort : log.Short 512) (hi : i ≤ log.count) {eoff : Int}
    (hfar : 1025 * log.bytes.length + 2 ^ 20 ≤ 1024 * eoff) :
    filter2 log.bytes (log.start i) eoff = (log.entries.drop i).map Entry.text := by
  have hstart := log.start_le_length hi
  have hloop := @filter2Loop_tail log.bytes (fun _ => length_fragment_lt hshort) eoff
    (eoff.toNat + 1) (log.start i) (log.start i) hstart (by omega) (by omega)
  rw [fragment_start] at hloop
  rw [filter2, hloop, linesRead_start hi (Nat.le_refl _) (Nat.le_refl _)
    (by rw [start_count]; omega) (by rw [start_count]; omega) (fun h => absurd h (Nat.lt_irrefl _)),
    count, List.take_length]

end Journal

/-- A part of a text that `jss_decode` is given: as it is, or from `jss_encode`. -/
inductive JssPart where
  | plain (text : List UInt8)
  | encoded (data : List UInt8)

def JssPart.meaning : JssPart → List UInt8
  | .plain text => text
  | .encoded data => data

def JssPart.text (jss : JssEncoder) : JssPart → List UInt8
  | .plain text => text
  | .encoded data => jss.encode data

def JssPart.Readable : JssPart → Prop
  | .plain text => backslash ∉ text
  | .encoded _ => True

/-- `jss_decode`, which takes back what `jss_encode` has done and leaves everything else as it is. -/
structure JssDecoder (jss : JssEncoder) where
  decode : List UInt8 → List UInt8
  noNul : ∀ data, 0 ∉ jss.encode data
  inverts : ∀ parts : List JssPart, (∀ part ∈ parts, part.Readable) →
    decode (parts.flatMap (JssPart.text jss)) = parts.flatMap JssPart.meaning

variable {jss : JssEncoder}

/-- The filter is looked for in the encoded text. -/
def Write.passes (jss : JssEncoder) (filter : Option CString) (write : Write) : Bool :=
  filter.all (fun filter => decide (filter.chars <:+: jss.encode write.data ++ [newline]))

/-- What a query gives for a line. -/
def Write.message (query : Query) (sep : CString) (write : Write) : List UInt8 :=
  printDec (write.ct + query.tOffset.toInt64.toUInt64) ++ sep.chars ++ write.data ++ [newline]

/-- What `outfilter` writes for it. -/
def Write.sample (jss : JssEncoder) (query : Query) (sep : CString) (write : Write) : List UInt8 :=
  printDec (write.ct + query.tOffset.toInt64.toUInt64) ++ sep.chars ++
    (jss.encode write.data ++ [newline])

/-- A stamp of 32 bits takes eight characters. -/
theorem length_printHex_of_lt {stamp : UInt64} (h : stamp < 0x100000000) :
    (printHex stamp).length = 8 := by
  rw [UInt64.lt_iff_toNat_lt] at h
  rw [length_printHex, stampDigits, List.length_reverse]
  exact Nat.length_digitsAppend (by decide) 8 h

theorem drop_text {write : Write} (h : write.ct < 0x100000000) :
    (write.entry jss).text.drop 9 = jss.encode write.data ++ [newline] := by
  have hlength := length_printHex_of_lt h
  rw [Write.entry, Entry.text, lineText]
  change List.drop (8 + 1) _ = _
  rw [← List.drop_drop, List.drop_left' hlength]
  rfl

theorem Write.wanted_eq {write : Write} (h : write.ct < 0x100000000) (query : Query)
    (sep : CString) : (write.entry jss).wanted query.filter query.tOffset sep =
      if write.passes jss query.filter then write.sample jss query sep else [] := by
  have hselected : (write.entry jss).selected query.filter = write.passes jss query.filter := by
    cases query.filter with
    | none => rfl
    | some filter =>
        rw [Entry.selected, drop_text h]
        rfl
  rw [Entry.wanted, hselected, Entry.printed, drop_text h]
  rfl

theorem backslash_not_mem_printDec (value : UInt64) : backslash ∉ printDec value := by
  intro hmem
  obtain ⟨char, hchar, heq⟩ := List.mem_map.mp hmem
  have hdigit := Nat.isDigit_of_mem_toDigits (by decide) (by decide) hchar
  have hcode : char.toNat < 58 := by
    have hle := (Char.isDigit_iff_toNat.mp hdigit).2
    exact Nat.lt_succ_of_le hle
  have hvalue := congrArg UInt8.toNat heq
  rw [UInt8.toNat_ofNat_of_lt' (Nat.lt_trans hcode (by decide))] at hvalue
  rw [hvalue] at hcode
  exact absurd hcode (by decide)

/-- What `jss_decode` makes of lines. -/
theorem JssDecoder.decode_samples (decoder : JssDecoder jss) (query : Query) {sep : CString}
    (hsep : backslash ∉ sep.chars) (writes : List Write) :
    decoder.decode (writes.flatMap (Write.sample jss query sep)) =
      writes.flatMap (Write.message query sep) := by
  have hparts := decoder.inverts (writes.flatMap fun write =>
    [.plain (printDec (write.ct + query.tOffset.toInt64.toUInt64) ++ sep.chars),
      .encoded write.data, .plain [newline]]) (by
    intro part hpart
    obtain ⟨write, -, hpart⟩ := List.mem_flatMap.mp hpart
    simp only [List.mem_cons, List.not_mem_nil, or_false] at hpart
    rcases hpart with rfl | rfl | rfl
    · intro hmem
      rcases List.mem_append.mp hmem with h | h
      · exact backslash_not_mem_printDec _ h
      · exact hsep h
    · trivial
    · intro hmem
      exact absurd (List.mem_singleton.mp hmem) (by decide))
  rw [List.flatMap_assoc, List.flatMap_assoc] at hparts
  unfold Write.sample Write.message
  simpa [JssPart.text, JssPart.meaning] using hparts

/-- A message whose line is short and whose stamp takes eight characters. -/
structure ShortWrite (jss : JssEncoder) extends Write where
  short : (toWrite.entry jss).text.length ≤ 512
  stamped : ct < 0x100000000

def ShortWrite.line (write : ShortWrite jss) : Line :=
  ⟨write.ct, jss.encode write.data, jss.noNewline write.data, write.short⟩

/-- What has been written when the file is opened, and then until the query. -/
structure History (jss : JssEncoder) where
  opened : List (ShortWrite jss)
  later : List (ShortWrite jss)
  nonempty : opened ≠ []
  sorted : opened.Pairwise (fun a b => a.ct ≤ b.ct)
  small : ((opened ++ later).flatMap fun write => write.line.text).length < 2 ^ 32 - 2 ^ 23

theorem writtenFile_eq (writes : List (ShortWrite jss)) :
    writtenFile jss (writes.map ShortWrite.toWrite) =
      writes.flatMap fun write => write.line.text := by
  rcases List.eq_nil_or_concat writes with rfl | ⟨earlier, write, rfl⟩
  · rfl
  · have hlog := writtenLog_bytes jss (earlier.map ShortWrite.toWrite) write.toWrite
    rw [List.concat_eq_append, List.map_append, List.map_singleton, ← hlog]
    simp only [Journal.bytes, writtenLog, List.map_append, List.map_map, List.flatMap_append,
      List.flatMap_map]
    simp [ShortWrite.line, Write.entry, Line.text, Entry.text]

namespace History

variable (history : History jss)

/-- The log as it is opened. -/
def log : Log where
  lines := history.opened.map ShortWrite.line
  nonempty := fun h => history.nonempty (List.map_eq_nil_iff.mp h)
  sorted := List.pairwise_map.mpr history.sorted
  small := by
    have hsmall := history.small
    rw [List.flatMap_append, List.length_append] at hsmall
    rw [List.flatMap_map]
    omega

theorem log_bytes : history.log.bytes = writtenFile jss (history.opened.map ShortWrite.toWrite) := by
  rw [writtenFile_eq, Log.bytes, log, List.flatMap_map]

/-- The log at the query. -/
def journal : Journal where
  entries := (history.opened ++ history.later).map fun write => write.line.entry
  nonempty := by simp [history.nonempty]

theorem journal_bytes : history.journal.bytes =
    writtenFile jss ((history.opened ++ history.later).map ShortWrite.toWrite) := by
  rw [writtenFile_eq, Journal.bytes, journal, List.flatMap_map]
  rfl

theorem journal_bytes_eq :
    history.journal.bytes = history.log.journal.bytes ++
      history.later.flatMap (fun write => write.line.text) := by
  rw [Log.journal_bytes, log_bytes, journal_bytes, writtenFile_eq, writtenFile_eq,
    List.flatMap_append]

theorem journal_short : history.journal.Short 512 := by
  intro entry hentry
  obtain ⟨write, -, rfl⟩ := List.mem_map.mp hentry
  exact write.short

theorem log_count : history.log.count = history.opened.length := List.length_map _

theorem log_stamp {k : Nat} (hk : k < history.opened.length) :
    history.log.stamp k = (history.opened.get ⟨k, hk⟩).ct := by
  rw [Log.stamp_eq (by rwa [log_count])]
  simp [log, ShortWrite.line]

/-- A line starts where it has started before. -/
theorem journal_start {k : Nat} (hk : k ≤ history.opened.length) :
    history.journal.start k = history.log.start k := by
  simp only [Journal.start, journal, Log.start, log, Records.offset, ← List.map_take,
    List.flatMap_map, List.take_append_of_le_length hk]
  rfl

/-- What is written to `sampleData` from a line on. -/
theorem filter2Out_tail {r : Nat} (hr : r ≤ history.opened.length) (decoder : JssDecoder jss)
    (query : Query) (sep : CString) :
    filter2Out history.journal.bytes (history.log.start r) 0xFFFFFFFE query.filter query.tOffset
      sep = some ((((history.opened ++ history.later).drop r).filter
        (fun write => write.passes jss query.filter)).flatMap
          (fun write => write.sample jss query sep)) := by
  have hsmall := history.small
  have hlength : history.journal.bytes.length < 2 ^ 32 - 2 ^ 23 := by
    rwa [journal_bytes, writtenFile_eq]
  have hcount : r ≤ history.journal.count := by
    simp only [Journal.count, journal, List.length_map, List.length_append]
    omega
  rw [filter2Out, ← history.journal_start hr,
    Journal.filter2_tail history.journal_short hcount (by omega), foldlM_outfilter,
    List.nil_append, journal, ← List.map_drop, List.flatMap_map, Records.flatMap_filter]
  congr 1
  apply List.flatMap_congr
  intro write _
  have hwritten : write.line.entry.written query.filter query.tOffset sep =
      write.line.entry.wanted query.filter query.tOffset sep := by
    rw [Entry.written_eq_wanted]
    intro _ hmem
    have hdrop := @drop_text jss write.toWrite write.stamped
    change 0 ∈ (write.toWrite.entry jss).text.drop 9 at hmem
    rw [hdrop, List.mem_append] at hmem
    rcases hmem with hmem | hmem
    · exact decoder.noNul _ hmem
    · exact absurd (List.mem_singleton.mp hmem) (by decide)
  rw [hwritten]
  exact Write.wanted_eq write.stamped query sep

/-- The line at which the range starts. -/
theorem filterStart_line {st : UInt64} (h : st ≤ history.log.ctx.lt) :
    ∃ r ≤ history.opened.length,
      filterStart history.log.bytes history.log.ctx st = some (history.log.start r : Int) ∧
        (∀ write ∈ history.opened.drop r, st ≤ write.ct) ∧
          ((∀ write ∈ history.opened.take r, write.ct < st) ∨
            ∃ write ∈ (history.opened.drop r).head?, write.ct = st) := by
  obtain ⟨r, hr, hstart, -, hfound⟩ := Log.filterStart_spec h
  have hlast := history.log.last_lt
  rw [log_count] at hlast
  have hstamp (k : Nat) (hk : k < history.opened.length) :
      history.opened[k].ct = history.log.stamp k := (history.log_stamp hk).symm
  refine ⟨r, by omega, hstart, ?_, ?_⟩
  · have hat : st ≤ history.log.stamp r := by
      rcases hfound with hfirst | heq
      · exact not_lt.mp (hfirst.above r (Nat.le_refl r) (by rw [log_count]; omega))
      · exact le_of_eq heq.symm
    intro write hwrite
    obtain ⟨k, hk, rfl⟩ := List.mem_drop_iff_getElem.mp hwrite
    rw [hstamp]
    exact le_trans hat (history.log.stamp_monotone (Nat.le_add_right r k))
  · apply hfound.imp
    · intro hfirst write hwrite
      obtain ⟨k, hk, rfl⟩ := List.mem_take_iff_getElem.mp hwrite
      rw [hstamp]
      exact hfirst.below k (by omega)
    · intro heq
      refine ⟨history.opened[r], ?_, ?_⟩
      · rw [List.head?_drop, Option.mem_def, List.getElem?_eq_getElem]
      · rw [hstamp, heq]

end History

/-- A query from a time in the file up to one behind its last stamp gets every message from the
first of that time on, or from one of that time, whatever has been written since the file was
opened: it loses nothing, and it gets what is stamped behind its end as well. -/
theorem read_in_behind_last_stamp (history : History jss) (decoder : JssDecoder jss) {plfs : LfsCtx}
    (hopened : initLfs (writtenFile jss (history.opened.map ShortWrite.toWrite)) = some plfs)
    (bufLen : Nat) (query : Query) {sep : CString} (hsep : backslash ∉ sep.chars) (opt : Int32)
    (hstart : (query.touch plfs opt).utcStart ≤ plfs.lt)
    (hstop : plfs.lt < (query.touch plfs opt).utcStop)
    (hmax : (query.touch plfs opt).utcStop ≠ 0xFFFFFFFFFFFFFFFF)
    (hroom : ((history.opened ++ history.later).flatMap
      (fun write => write.sample jss (query.touch plfs opt) sep)).length ≤
        min bufLen (maxLoglinesSize - 1)) :
    ∃ front back, history.opened = front ++ back ∧
      (∀ write ∈ back, (query.touch plfs opt).utcStart ≤ write.ct) ∧
      ((∀ write ∈ front, write.ct < (query.touch plfs opt).utcStart) ∨
        ∃ write ∈ back.head?, write.ct = (query.touch plfs opt).utcStart) ∧
      lfsReadIn decoder.decode
          (writtenFile jss ((history.opened ++ history.later).map ShortWrite.toWrite)) plfs bufLen
          query sep opt =
        some (((back ++ history.later).filter
          (fun write => write.passes jss (query.touch plfs opt).filter)).flatMap
            (fun write => write.message (query.touch plfs opt) sep)) := by
  rw [← history.log_bytes, history.log.initLfs_spec] at hopened
  obtain rfl : history.log.ctx = plfs := Option.some.inj hopened
  simp only [lfsReadIn]
  generalize query.touch history.log.ctx opt = query at hstart hstop hmax hroom
  obtain ⟨r, hr, hsoff, hback, hfront⟩ := history.filterStart_line hstart
  refine ⟨history.opened.take r, history.opened.drop r, (List.take_append_drop _ _).symm, hback,
    hfront, ?_⟩
  have heoff : filterStop history.log.bytes history.log.ctx query.utcStop = some 0xFFFFFFFE := by
    obtain ⟨eoff, heoff, ⟨hwrap, -⟩ | ⟨-, rfl⟩⟩ := Log.filterStop_behind hstop
    · exact absurd hwrap hmax
    · exact heoff
  have hrange : filter1 (writtenFile jss ((history.opened ++ history.later).map ShortWrite.toWrite))
      history.log.ctx query.utcStart query.utcStop = some ((history.log.start r : Int), 0xFFFFFFFE) := by
    rw [← history.journal_bytes, history.journal_bytes_eq]
    apply (Journal.grown _ _).filter1
    rw [Log.journal_bytes, filter1_eq, hsoff, heoff]
    rfl
  rw [hrange, Option.bind_some, Int.toNat_natCast, ← history.journal_bytes,
    history.filter2Out_tail hr decoder, Option.bind_some, List.drop_append_of_le_length hr]
  have hsample : (((history.opened.drop r ++ history.later).filter
      (fun write => write.passes jss query.filter)).flatMap
        (fun write => write.sample jss query sep)).length ≤ min bufLen (maxLoglinesSize - 1) := by
    refine Nat.le_trans ?_ hroom
    have hpart : List.Sublist ((history.opened.drop r ++ history.later).filter
        (fun write => write.passes jss query.filter)) (history.opened ++ history.later) :=
      List.filter_sublist.trans ((List.drop_sublist r _).append_right _)
    exact (hpart.flatMap _).length_le
  have hdecode := decoder.decode_samples query hsep (((history.opened.drop r ++ history.later).filter
    (fun write => write.passes jss query.filter)).map ShortWrite.toWrite)
  rw [List.flatMap_map, List.flatMap_map] at hdecode
  obtain ⟨hbuf, hlines⟩ := Nat.le_min.mp hsample
  have hpositive : maxLoglinesSize - 1 < maxLoglinesSize := Nat.sub_lt (by decide) Nat.one_pos
  rw [if_neg (Nat.not_le.mpr (hlines.trans_lt hpositive)), if_neg (Nat.not_lt.mpr hbuf), hdecode]

theorem le_encodeChar {ch char : UInt8} (h : char ∈ encodeChar ch) : 32 ≤ char := by
  have hpair {second : UInt8} (hsecond : 32 ≤ second) (h : char ∈ [backslash, second]) :
      32 ≤ char := by
    simp only [List.mem_cons, List.not_mem_nil, or_false] at h
    rcases h with rfl | rfl
    · decide
    · exact hsecond
  rw [encodeChar] at h
  split_ifs at h
  iterate 8
    · exact hpair (by decide) h
  · -- an escape by number
    rcases List.mem_cons.mp h with rfl | h
    · decide
    rcases List.mem_cons.mp h with rfl | h
    · decide
    obtain ⟨digit, hdigit, rfl⟩ := List.mem_map.mp h
    have hlt := Nat.lt_of_mem_digitsAppend (by decide) _ _ (List.mem_reverse.mp hdigit)
    have hall : ∀ digit < 16, 32 ≤ hexDigit digit := by decide
    exact hall digit hlt
  · obtain rfl := List.mem_singleton.mp h
    apply UInt8.not_lt.mp
    tauto

theorem le_encoded {data : List UInt8} {char : UInt8} (h : char ∈ data.flatMap encodeChar) :
    32 ≤ char := by
  obtain ⟨ch, -, hchar⟩ := List.mem_flatMap.mp h
  exact le_encodeChar hchar

def jsonEncoder : JssEncoder where
  encode := List.flatMap encodeChar
  noNewline := fun data hmem => absurd (le_encoded hmem) (by decide)
  length_le := by
    intro data
    induction data with
    | nil => exact Nat.le_refl _
    | cons ch rest ih =>
        have hch : 1 ≤ (encodeChar ch).length := by
          rcases encodeChar_cases ch with ⟨_, h, -⟩ | h | ⟨h, -⟩ <;> simp [h]
        rw [List.flatMap_cons, List.length_append, List.length_cons]
        omega

open Iteration

/-- Each part is read and written with its meaning. -/
theorem reaches_part {part : JssPart} (h : part.Readable) (rest output : List UInt8)
    (ch2 : Option UInt32) :
    ∃ ch2', Iteration.Reaches decodeChar ⟨part.text jsonEncoder ++ rest, 0, 0, ch2, output⟩
      ⟨rest, 0, 0, ch2', output ++ part.meaning⟩ := by
  cases part with
  | encoded data => exact reaches_encoded data rest output 0 ch2
  | plain text =>
      refine ⟨ch2, ?_⟩
      change backslash ∉ text at h
      change Iteration.Reaches decodeChar ⟨text ++ rest, 0, 0, ch2, output⟩
        ⟨rest, 0, 0, ch2, output ++ text⟩
      induction text generalizing output with
      | nil =>
          rw [List.append_nil]
          exact .refl
      | cons ch text ih =>
          rw [List.mem_cons, not_or] at h
          have hturn : Turns decodeChar ⟨ch :: text ++ rest, 0, 0, ch2, output⟩
              ⟨text ++ rest, 0, 0, ch2, output ++ [ch]⟩ := by
            have hplain : ch ≠ backslash := fun heq => h.1 heq.symm
            simp [Turns, decodeChar, hplain, decodePlain, Decoder.putchar]
          have hrest := ih (output ++ [ch]) h.2
          rw [List.append_assoc] at hrest
          exact .head hturn hrest

def jsonDecoder : JssDecoder jsonEncoder where
  decode := fun text => (jssDecode (some 0) (some 0) text).getD []
  noNul := fun data hmem => absurd (le_encoded hmem) (by decide)
  inverts := by
    intro parts hparts
    have hreaches (output : List UInt8) (ch2 : Option UInt32) :
        ∃ ch2', Iteration.Reaches decodeChar
          ⟨parts.flatMap (JssPart.text jsonEncoder), 0, 0, ch2, output⟩
          ⟨[], 0, 0, ch2', output ++ parts.flatMap JssPart.meaning⟩ := by
      induction parts generalizing output ch2 with
      | nil =>
          rw [List.flatMap_nil, List.flatMap_nil, List.append_nil]
          exact ⟨ch2, .refl⟩
      | cons part parts ih =>
          obtain ⟨hpart, hparts⟩ := List.forall_mem_cons.mp hparts
          obtain ⟨first, hfirst⟩ :=
            reaches_part hpart (parts.flatMap (JssPart.text jsonEncoder)) output ch2
          obtain ⟨ch2', hrest⟩ := ih hparts (output ++ part.meaning) first
          rw [List.append_assoc] at hrest
          exact ⟨ch2', hfirst.trans hrest⟩
    obtain ⟨ch2, hall⟩ := hreaches [] none
    have hyields : Yields decodeChar ⟨parts.flatMap (JssPart.text jsonEncoder), 0, 0, none, []⟩
        (some (parts.flatMap JssPart.meaning)) := by
      rw [hall.yields_iff]
      exact yields_of_inr rfl
    rw [jssDecode_of_yields hyields, Option.getD_some]

def charWrite (ct : UInt64) (ch : UInt8) : Write :=
  ⟨ct, [ch], by rw [List.length_singleton]; decide⟩

/-- Messages of the times 1 and 5, and a newline that is written at 9. -/
def threeWrites : History jsonEncoder where
  opened := [⟨charWrite 1 97, by decide, by decide⟩, ⟨charWrite 5 34, by decide, by decide⟩]
  later := [⟨charWrite 9 10, by decide, by decide⟩]
  nonempty := List.cons_ne_nil _ _
  sorted := by decide
  small := by decide

/-- The query from 5 to 6 gets the newline of the time 9. -/
theorem threeWrites_read_in :
    ∃ back, lfsReadIn jsonDecoder.decode
        (writtenFile jsonEncoder
          ((threeWrites.opened ++ threeWrites.later).map ShortWrite.toWrite))
        ⟨0, 11, 1, 5, 23⟩ 100 ⟨5, 6, none, 0⟩ commaSep 0 =
      some (((back ++ threeWrites.later).filter
        (fun write => write.passes jsonEncoder none)).flatMap
          (fun write => write.message ⟨5, 6, none, 0⟩ commaSep)) := by
  obtain ⟨-, back, -, -, -, hread⟩ := @read_in_behind_last_stamp jsonEncoder threeWrites jsonDecoder
    ⟨0, 11, 1, 5, 23⟩ (by decide) 100 ⟨5, 6, none, 0⟩ commaSep (by decide) 0 (by decide) (by decide)
    (by decide) (by decide)
  exact ⟨back, hread⟩

end EventLoop.LogFile
