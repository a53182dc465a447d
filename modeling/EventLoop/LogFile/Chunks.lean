import EventLoop.LogFile.LowerBound
import EventLoop.LogFile.Output

/-!
What `filter2` makes of a range of lines. `off` runs ahead of the position in the file: each
read moves it past the carried start of a line again, and where it is no multiple of 512 the
read is shortened by what is missing to the next one, at the end of the range as well. So the
reads can stop short of `eoff`, and the lines behind that place are lost.
-/

namespace EventLoop.LogFile

open Delimited

structure CString where
  chars : List UInt8
  noNul : 0 ∉ chars

def commaSep : CString := ⟨[comma], by decide⟩

/-- What a C string function sees of a buffer. -/
def cString (buf : List UInt8) : List UInt8 := buf.takeWhile (· != 0)

/-- `%lu` -/
def printDec (value : UInt64) : List UInt8 :=
  (Nat.toDigits 10 value.toNat).map (fun char => UInt8.ofNat char.toNat)

/-- `!filter||strstr(msg+9,filter)` -/
def passes : Option CString → List UInt8 → Bool
  | none, _ => true
  | some filter, msg => decide (filter.chars <:+: cString (msg.drop 9))

/-- `outfilter` with an `outbuf`; `none` where `t` has no value. -/
def outfilter (filter : Option CString) (tOffset : Int32) (sep : CString)
    (outbuf msg : List UInt8) : Option (List UInt8) :=
  if passes filter msg then
    (scanHex msg).map (fun t =>
      outbuf ++ (printDec (t + tOffset.toInt64.toUInt64) ++ sep.chars ++ cString (msg.drop 9)))
  else some outbuf

/-- What `filter2` writes to an `outbuf` that is large enough. -/
def filter2Out (file : List UInt8) (soff : Nat) (eoff : Int) (filter : Option CString)
    (tOffset : Int32) (sep : CString) : Option (List UInt8) :=
  (filter2 file soff eoff).foldlM (outfilter filter tOffset sep) []

/-- The line is one that the filter asks for. -/
def Entry.selected (filter : Option CString) (entry : Entry) : Bool :=
  match filter with
  | none => true
  | some filter => decide (filter.chars <:+: entry.text.drop 9)

/-- A whole line with its time. -/
def Entry.printed (tOffset : Int32) (sep : CString) (entry : Entry) : List UInt8 :=
  printDec (entry.stamp + tOffset.toInt64.toUInt64) ++ sep.chars ++ entry.text.drop 9

/-- What is to be written of a line. -/
def Entry.wanted (filter : Option CString) (tOffset : Int32) (sep : CString)
    (entry : Entry) : List UInt8 :=
  if entry.selected filter then entry.printed tOffset sep else []

/-- What is written of a line that `filter2` copies. -/
def Entry.written (filter : Option CString) (tOffset : Int32) (sep : CString)
    (entry : Entry) : List UInt8 :=
  if passes filter entry.text then
    printDec (entry.stamp + tOffset.toInt64.toUInt64) ++ sep.chars ++ cString (entry.text.drop 9)
  else []

theorem printDec_ne_nil (value : UInt64) : printDec value ≠ [] := by
  rw [printDec, Ne, List.map_eq_nil_iff]
  exact Nat.toDigits_ne_nil

theorem cString_eq {buf : List UInt8} : cString buf = buf ↔ 0 ∉ buf := by
  rw [cString, List.takeWhile_eq_self_iff]
  simp only [bne_iff_ne]
  exact ⟨fun h hmem => h 0 hmem rfl, fun h char hchar heq => h (heq ▸ hchar)⟩

theorem cString_isPrefix (buf : List UInt8) : cString buf <+: buf := List.takeWhile_prefix _

theorem outfilter_text (filter : Option CString) (tOffset : Int32) (sep : CString)
    (outbuf : List UInt8) (entry : Entry) :
    outfilter filter tOffset sep outbuf entry.text =
      some (outbuf ++ entry.written filter tOffset sep) := by
  have hscan := scanHex_text entry []
  rw [List.append_nil] at hscan
  rw [outfilter, Entry.written, hscan]
  split
  · rfl
  · rw [List.append_nil]

theorem foldlM_outfilter (filter : Option CString) (tOffset : Int32) (sep : CString)
    (entries : List Entry) (outbuf : List UInt8) :
    (entries.map Entry.text).foldlM (outfilter filter tOffset sep) outbuf =
      some (outbuf ++ entries.flatMap (Entry.written filter tOffset sep)) := by
  induction entries generalizing outbuf with
  | nil =>
      rw [List.flatMap_nil, List.append_nil]
      rfl
  | cons entry rest ih =>
      rw [List.map_cons, List.foldlM_cons, outfilter_text, Option.bind_eq_bind, Option.bind_some,
        ih, List.flatMap_cons, List.append_assoc]

/-- What is passed is asked for. -/
theorem Entry.selected_of_passes {filter : Option CString} {entry : Entry}
    (h : passes filter entry.text = true) : entry.selected filter = true := by
  cases filter with
  | none => rfl
  | some filter =>
      rw [passes, decide_eq_true_iff] at h
      rw [Entry.selected, decide_eq_true_iff]
      exact h.trans (cString_isPrefix _).isInfix

theorem Entry.wanted_eq_nil {filter : Option CString} {tOffset : Int32} {sep : CString}
    {entry : Entry} : entry.wanted filter tOffset sep = [] ↔ ¬ entry.selected filter = true := by
  rw [Entry.wanted]
  split
  · rename_i hselected
    have hne : entry.printed tOffset sep ≠ [] := by
      rw [Entry.printed, List.append_assoc]
      exact List.append_ne_nil_of_left_ne_nil (printDec_ne_nil _) _
    exact iff_of_false hne (not_not.mpr hselected)
  · rename_i hselected
    exact iff_of_true rfl hselected

/-- A line is written whole unless the filter asks for it and it holds a NUL. -/
theorem Entry.written_eq_wanted {filter : Option CString} {tOffset : Int32} {sep : CString}
    {entry : Entry} : entry.written filter tOffset sep = entry.wanted filter tOffset sep ↔
      (entry.selected filter = true → 0 ∉ entry.text.drop 9) := by
  rw [← cString_eq]
  constructor
  · intro heq hselected
    by_cases hpasses : passes filter entry.text = true
    · rw [Entry.written, if_pos hpasses, Entry.wanted, if_pos hselected, Entry.printed] at heq
      exact List.append_cancel_left heq
    · rw [Entry.written, if_neg hpasses] at heq
      exact absurd hselected (Entry.wanted_eq_nil.mp heq.symm)
  · intro hwhole
    by_cases hselected : entry.selected filter = true
    · have hpasses : passes filter entry.text = true := by
        cases filter with
        | none => rfl
        | some filter =>
            rw [passes, hwhole hselected]
            exact hselected
      rw [Entry.written, if_pos hpasses, Entry.wanted, if_pos hselected, Entry.printed,
        hwhole hselected]
    · rw [Entry.written, if_neg (mt Entry.selected_of_passes hselected), Entry.wanted,
        if_neg hselected]

/-- The start of the line that a position falls into. -/
def fragment (file : List UInt8) (pos : Nat) : List UInt8 := (split newline (file.take pos)).rest

/-- The reads go on until the file is read up to `target`. -/
inductive Reaches (file : List UInt8) (eoff target : Nat) : Nat → Nat → Prop
  | here {off pos : Nat} (h : target ≤ pos) : Reaches file eoff target off pos
  | read {off pos : Nat} (hoff : off < eoff)
      (hread : 0 < filter2ToRead off (fragment file pos).length eoff)
      (rest : Reaches file eoff target
        (off + (fragment file pos).length +
          (filter2ToRead off (fragment file pos).length eoff).toNat)
        (pos + (filter2ToRead off (fragment file pos).length eoff).toNat)) :
      Reaches file eoff target off pos

/-- The copies are the complete lines of the buffer. -/
theorem copyLines_eq {fuel : Nat} {buf : List UInt8} (h : buf.length ≤ fuel) :
    copyLines fuel buf =
      ((split newline buf).units.map (· ++ [newline]), (split newline buf).rest) := by
  induction fuel generalizing buf with
  | zero =>
      obtain rfl := List.length_eq_zero_iff.mp (Nat.le_zero.mp h)
      rfl
  | succ fuel ih =>
      simp only [copyLines]
      split
      · rename_i hfound
        obtain ⟨htake, hline⟩ := take_findIdx hfound
        have hsplit : split newline (buf.take (buf.findIdx (· == newline) + 1)) =
            ⟨[buf.take (buf.findIdx (· == newline))], []⟩ := by
          rw [htake]
          exact Split.feed_unit _ hline []
        have hall := split_append (d := newline) (buf.take (buf.findIdx (· == newline) + 1))
          (buf.drop (buf.findIdx (· == newline) + 1))
        rw [List.take_append_drop, hsplit, List.nil_append] at hall
        have hrest := @ih (buf.drop (buf.findIdx (· == newline) + 1)) (by
          rw [List.length_drop]
          omega)
        rw [hall, hrest, List.map_append, htake]
        rfl
      · rename_i hnone
        have hline : newline ∉ buf := by
          intro hmem
          exact hnone (List.findIdx_lt_length_of_exists ⟨newline, hmem, beq_self_eq_true _⟩)
        rw [split_of_not_mem hline]
        rfl

theorem filter2ToRead_le (off unbufBytes : Nat) (eoff : Int) :
    filter2ToRead off unbufBytes eoff ≤ eoff - off := by
  simp only [filter2ToRead]
  split
  · exact Int.min_le_right _ _
  · have := Int.min_le_right (bulkBufSize - unbufBytes - 1) (eoff - off)
    omega

/-- What is read behind the start of a line leaves the start of the next one. -/
theorem fragment_add (file : List UInt8) (pos n : Nat) :
    fragment file (pos + n) =
      (split newline (fragment file pos ++ (file.drop pos).take n)).rest := by
  rw [fragment, List.take_add, split_append]
  rfl

/-- The complete lines of what is carried and of the `n` bytes behind it. -/
def linesRead (file : List UInt8) (pos n : Nat) : List (List UInt8) :=
  (split newline (fragment file pos ++ (file.drop pos).take n)).units.map (· ++ [newline])

theorem linesRead_add (file : List UInt8) (pos n more : Nat) :
    linesRead file pos (n + more) =
      linesRead file pos n ++ linesRead file (pos + n) more := by
  rw [linesRead, List.take_add, ← List.append_assoc, split_append, List.map_append,
    ← fragment_add, List.drop_drop]
  rfl

theorem linesRead_zero (file : List UInt8) (pos : Nat) : linesRead file pos 0 = [] := by
  have hfragment : newline ∉ fragment file pos := Split.not_mem_rest_feed _ _ List.not_mem_nil
  rw [linesRead, List.take_zero, List.append_nil, split_of_not_mem hfragment]
  rfl

theorem reaches_iff_of_done {file : List UInt8} {eoff target off pos : Nat}
    (hdone : ¬ (off < eoff ∧ 0 < filter2ToRead off (fragment file pos).length eoff)) :
    Reaches file eoff target off pos ↔ target ≤ pos := by
  constructor
  · intro h
    cases h with
    | here hle => exact hle
    | read hoff hread => exact absurd ⟨hoff, hread⟩ hdone
  · exact Reaches.here

theorem Reaches.mono {file : List UInt8} {eoff target target' off pos : Nat}
    (h : Reaches file eoff target off pos) (hle : target' ≤ target) :
    Reaches file eoff target' off pos := by
  induction h with
  | here hpos => exact .here (Nat.le_trans hle hpos)
  | read hoff hread _ ih => exact .read hoff hread ih

/-- Where a read ends that carries no start of a line. -/
def readEnd (eoff pos : Nat) : Nat :=
  min (pos + (bulkBufSize - 1)) eoff - (512 - pos % 512) % 512

/-- Every read but the last one starts where a line starts, and the last one starts at a
multiple of 512 and has room for all that is left. -/
inductive ReadsWhole (file : List UInt8) (eoff : Nat) : Nat → Prop
  | done : ReadsWhole file eoff eoff
  | last {pos : Nat} (haligned : pos % 512 = 0) (hpos : pos < eoff)
      (hroom : (fragment file pos).length + (eoff - pos) < bulkBufSize) : ReadsWhole file eoff pos
  | next {pos : Nat} (hline : fragment file pos = []) (hread : pos < readEnd eoff pos)
      (rest : ReadsWhole file eoff (readEnd eoff pos)) : ReadsWhole file eoff pos

theorem toRead_pos_iff {eoff pos : Nat} (hpos : pos < eoff) :
    0 < filter2ToRead pos 0 eoff ↔ pos < readEnd eoff pos := by
  simp only [filter2ToRead, readEnd, bulkBufSize]
  split <;> omega

theorem add_toRead {eoff pos : Nat} (hread : pos < readEnd eoff pos) :
    pos + (filter2ToRead pos 0 eoff).toNat = readEnd eoff pos := by
  simp only [readEnd, bulkBufSize] at hread ⊢
  simp only [filter2ToRead, bulkBufSize]
  split <;> omega

/-- The rest is asked for at once only from a multiple of 512. -/
theorem toRead_eq_rest_iff {eoff off unbufBytes : Nat} (hoff : off < eoff) :
    filter2ToRead off unbufBytes eoff = eoff - off ↔
      off % 512 = 0 ∧ unbufBytes + (eoff - off) < bulkBufSize := by
  simp only [filter2ToRead, bulkBufSize]
  split <;> omega

/-- Once a start of a line has been carried, the end is out of reach. -/
theorem Reaches.whole {file : List UInt8} {eoff off pos : Nat}
    (h : Reaches file eoff eoff off pos) (hpos : pos ≤ off) (hle : pos ≤ eoff) :
    pos = eoff ∨ off = pos ∧ ReadsWhole file eoff pos := by
  induction h with
  | here heoff => exact .inl (Nat.le_antisymm hle heoff)
  | @read off pos hoff hread _ ih =>
      have hmost := filter2ToRead_le off (fragment file pos).length eoff
      right
      rcases ih (by omega) (by omega) with hend | ⟨hsame, hwhole⟩
      · obtain rfl : off = pos := by omega
        have hall : filter2ToRead off (fragment file off).length eoff = eoff - off := by omega
        obtain ⟨haligned, hroom⟩ := (toRead_eq_rest_iff hoff).mp hall
        exact ⟨rfl, .last haligned hoff hroom⟩
      · have hline : (fragment file pos).length = 0 := by omega
        obtain rfl : off = pos := by omega
        rw [hline, toRead_pos_iff hoff] at hread
        rw [hline, add_toRead hread] at hwhole
        exact ⟨rfl, .next (List.length_eq_zero_iff.mp hline) hread hwhole⟩

theorem ReadsWhole.reaches {file : List UInt8} {eoff pos : Nat} (h : ReadsWhole file eoff pos) :
    Reaches file eoff eoff pos pos := by
  induction h with
  | done => exact .here (Nat.le_refl _)
  | @last pos haligned hpos hroom =>
      have hrest := (toRead_eq_rest_iff hpos).mpr ⟨haligned, hroom⟩
      exact .read hpos (by omega) (.here (by omega))
  | @next pos hline hread _ ih =>
      have hpos : pos < eoff := by
        rw [readEnd] at hread
        omega
      have hlength : (fragment file pos).length = 0 := List.length_eq_zero_iff.mpr hline
      refine .read hpos ?_ ?_
      · rw [hlength]
        exact (toRead_pos_iff hpos).mpr hread
      · rw [hlength, Nat.add_zero, add_toRead hread]
        exact ih

theorem readsWhole_iff {file : List UInt8} {eoff pos : Nat} (hle : pos ≤ eoff) :
    Reaches file eoff eoff pos pos ↔ ReadsWhole file eoff pos := by
  constructor
  · intro h
    rcases h.whole (Nat.le_refl pos) hle with rfl | ⟨-, hwhole⟩
    · exact .done
    · exact hwhole
  · exact ReadsWhole.reaches

/-- The text of lines and the start of one more. -/
theorem split_texts (entries : List Entry) {part : List UInt8} (hpart : newline ∉ part) :
    (split newline (entries.flatMap Entry.text ++ part)).units.map (· ++ [newline]) =
        entries.map Entry.text ∧
      (split newline (entries.flatMap Entry.text ++ part)).rest = part := by
  choose body htext hbody using Entry.text_eq
  have hunits : ∀ unit ∈ entries.map body, newline ∉ unit := by
    intro unit hunit
    obtain ⟨entry, -, rfl⟩ := List.mem_map.mp hunit
    exact hbody entry
  have hall : entries.flatMap Entry.text = (entries.map body).flatMap (· ++ [newline]) := by
    rw [List.flatMap_map]
    exact List.flatMap_congr (fun entry _ => htext entry)
  rw [hall, split_units_append hunits hpart, List.map_map]
  exact ⟨List.map_congr_left (fun entry _ => (htext entry).symm), rfl⟩

namespace Journal

variable {log : Journal} {i j k : Nat}

theorem fragment_start (log : Journal) (i : Nat) : fragment log.bytes (log.start i) = [] := by
  have htexts := Records.drop_take_flatMap Entry.text log.entries 0 i
  rw [Records.offset_zero, List.drop_zero, List.drop_zero] at htexts
  have hsplit := (split_texts (log.entries.take i) List.not_mem_nil).2
  rw [List.append_nil, ← htexts] at hsplit
  exact hsplit

/-- The start of a line has no newline. -/
theorem newline_not_mem_take {r : Nat} (hk : k < log.count) (hr : r < log.size k) :
    newline ∉ (log.bytes.drop (log.start k)).take r := by
  obtain ⟨body, htext, hbody⟩ := (log.entries.get ⟨k, hk⟩).text_eq
  rw [size_eq hk, htext, List.length_append, List.length_singleton] at hr
  rw [drop_start hk, htext, List.append_assoc,
    List.take_append_of_le_length (Nat.le_of_lt_succ hr)]
  exact fun hmem => hbody (List.mem_of_mem_take hmem)

/-- The lines that are complete at the end of what is read. -/
theorem linesRead_start {m n : Nat} (hi : i ≤ m) (hm : m ≤ j) (hj : j ≤ log.count)
    (hstart : log.start m ≤ log.start i + n) (hend : log.start i + n ≤ log.start j)
    (hnext : m < j → log.start i + n < log.start (m + 1)) :
    linesRead log.bytes (log.start i) n = ((log.entries.take m).drop i).map Entry.text := by
  have hmono := log.start_mono hi
  obtain ⟨r, hr⟩ := Nat.exists_eq_add_of_le hstart
  have hlines : (log.bytes.drop (log.start i)).take (log.start m - log.start i) =
      ((log.entries.take m).drop i).flatMap Entry.text := by
    rw [← List.drop_take]
    exact Records.drop_take_flatMap Entry.text log.entries i m
  have hpart : newline ∉ (log.bytes.drop (log.start m)).take r := by
    rcases Nat.lt_or_eq_of_le hm with hlt | rfl
    · apply newline_not_mem_take (Nat.lt_of_lt_of_le hlt hj)
      have := hnext hlt
      rw [size]
      omega
    · obtain rfl : r = 0 := by omega
      exact List.not_mem_nil
  have hread : (log.bytes.drop (log.start i)).take n =
      ((log.entries.take m).drop i).flatMap Entry.text ++
        (log.bytes.drop (log.start m)).take r := by
    have hn : n = (log.start m - log.start i) + r := by omega
    rw [hn, List.take_add, hlines, List.drop_drop, Nat.add_sub_cancel' hmono]
  rw [linesRead, fragment_start, List.nil_append, hread]
  exact (split_texts _ hpart).1

/-- All that the filter asks for, in the order of the file. -/
def wanted (log : Journal) (filter : Option CString) (tOffset : Int32) (sep : CString)
    (i j : Nat) : List UInt8 :=
  ((log.entries.take j).drop i).flatMap (Entry.wanted filter tOffset sep)

end Journal

end EventLoop.LogFile
