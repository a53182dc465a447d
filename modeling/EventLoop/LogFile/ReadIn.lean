import EventLoop.LogFile.Chunks
import EventLoop.LogFile.LineSize
import EventLoop.LogFile.RangeQuery

/-!
`lfs_read_in` on a file that is written on between `lfs_read_open` and the query. What
`init_lfs` has stored is of the file as it was when it was opened.
-/

namespace EventLoop.LogFile

/-- `MAX_LOGLINES_SIZE` -/
def maxLoglinesSize : Nat := 32 * 1024 * 1024

structure Query where
  st : UInt64
  et : UInt64
  filter : Option CString
  tOffset : Int32

/-- `opt` asks for the last line or for the first one instead. -/
def Query.touch (plfs : LfsCtx) (opt : Int32) (query : Query) : Query :=
  if opt = 2 then ⟨plfs.lt, plfs.lt + 1, none, 0⟩
  else if opt = 1 then ⟨plfs.ft, plfs.ft + 1, none, 0⟩
  else query

/-- `st-t_offset` -/
def Query.utcStart (query : Query) : UInt64 := query.st - query.tOffset.toInt64.toUInt64

/-- `et-t_offset` -/
def Query.utcStop (query : Query) : UInt64 := query.et - query.tOffset.toInt64.toUInt64

/-- `lfs_read_in`: what it leaves in `buf`; `none` where it goes on with a variable it has not
set or writes behind `sampleData`. -/
def lfsReadIn (jssDecode : List UInt8 → List UInt8) (file : List UInt8) (plfs : LfsCtx)
    (bufLen : Nat) (query : Query) (sep : CString) (opt : Int32) : Option (List UInt8) :=
  let query := query.touch plfs opt
  (filter1 file plfs query.utcStart query.utcStop).bind (fun (soff, eoff) =>
    (filter2Out file soff.toNat eoff query.filter query.tOffset sep).bind (fun sampleData =>
      if maxLoglinesSize ≤ sampleData.length then none
      else if bufLen < sampleData.length then some []
      else some (jssDecode sampleData)))

section Grown

variable {file file' : List UInt8} {t lt : UInt64} {found : Found}

/-- What stands before the end of a log is found behind it as well. -/
theorem Journal.getNearSeq_append (log : Journal) (more : List UInt8) {off : Nat}
    {near : UInt64 × Nat} (h : getNearSeq log.bytes off = some near) :
    getNearSeq (log.bytes ++ more) off = some near := by
  cases off with
  | zero => cases h
  | succ pos =>
      have hpos : pos < log.bytes.length := by
        apply Nat.lt_of_not_le
        intro hle
        rw [getNearSeq, List.drop_eq_nil_of_le hle] at h
        simp at h
      obtain ⟨k, hk, hbehind, hbefore⟩ :=
        log.exists_line (Nat.succ_pos pos) (Nat.lt_of_lt_of_eq hpos log.start_count.symm)
          (Nat.le_refl _)
      obtain ⟨body, htext, hbody⟩ := (log.entries.get ⟨k, hk⟩).text_eq
      have hsucc := Journal.start_succ hk
      rw [htext, List.length_append, List.length_singleton] at hsucc
      have hdrop : log.bytes.drop pos = body.drop (pos - log.start k) ++
          newline :: log.bytes.drop (log.start (k + 1)) := by
        have hsplit : pos = log.start k + (pos - log.start k) := by omega
        conv_lhs => rw [hsplit, ← List.drop_drop, Journal.drop_start hk, htext]
        rw [List.append_assoc, List.drop_append_of_le_length (by omega)]
        rfl
      have hdrop' : (log.bytes ++ more).drop pos = body.drop (pos - log.start k) ++
          newline :: (log.bytes.drop (log.start (k + 1)) ++ more) := by
        rw [List.drop_append_of_le_length (Nat.le_of_lt hpos), hdrop, List.append_assoc,
          List.cons_append]
      have hline : newline ∉ body.drop (pos - log.start k) :=
        fun hmem => hbody (List.mem_of_mem_drop hmem)
      rw [getNearSeq_eq hdrop hline] at h
      rw [getNearSeq_eq hdrop' hline]
      split at h
      case isFalse => cases h
      case isTrue hin =>
          rw [if_pos hin, ← h]
          congr 1
          rcases Nat.lt_or_ge (k + 1) log.count with hnext | hend
          · rw [Journal.drop_start hnext, List.append_assoc]
            generalize hwindow : dataSize - 1 - (body.drop (pos - log.start k)).length = window
            generalize log.bytes.drop (log.start (k + 1 + 1)) = rest
            generalize log.entries.get ⟨k + 1, hnext⟩ = entry
            rcases Nat.le_total window (entry.text ++ rest).length with hshort | hlong
            · rw [← List.append_assoc, List.take_append_of_le_length hshort]
            · rw [List.take_of_length_le hlong, ← List.append_assoc, List.take_append,
                List.take_of_length_le hlong, List.append_assoc, scanHex_text, scanHex_text]
          · have hrest : log.bytes.drop (log.start (k + 1)) = [] := by
              rw [show k + 1 = log.count by omega, Journal.start_count, List.drop_length]
            rw [hrest] at h
            simp [scanHex] at h

/-- The file has grown, and what was found in it is still found. -/
structure Grown (file file' : List UInt8) : Prop where
  length_le : file.length ≤ file'.length
  near : ∀ off near, getNearSeq file off = some near → getNearSeq file' off = some near

theorem Journal.grown (log : Journal) (more : List UInt8) : Grown log.bytes (log.bytes ++ more) :=
  ⟨by simp, fun _ _ => log.getNearSeq_append more⟩

theorem Grown.readAndDetect (hgrown : Grown file file') {fuel fuel' foff : Nat}
    (hfuel : fuel ≤ fuel') (h : readAndDetect file t lt fuel foff = some found) :
    readAndDetect file' t lt fuel' foff = some found := by
  induction fuel generalizing fuel' foff with
  | zero => cases h
  | succ fuel ih =>
      obtain ⟨fuel', rfl⟩ := Nat.exists_eq_add_of_lt (Nat.lt_of_lt_of_le (Nat.lt_succ_self fuel) hfuel)
      simp only [LogFile.readAndDetect, Option.bind_eq_some_iff] at h ⊢
      obtain ⟨near, hnear, h⟩ := h
      refine ⟨near, hgrown.near _ _ hnear, ?_⟩
      split
      case isTrue hstop => rwa [if_pos hstop] at h
      case isFalse hgo =>
          rw [if_neg hgo] at h
          exact ih (by omega) h

theorem Grown._getSeqPosition (hgrown : Grown file file') {fuel fuel' foff loff : Nat}
    {ft : UInt64} (hfuel : fuel ≤ fuel')
    (h : _getSeqPosition file t fuel ft lt foff loff = some found) :
    _getSeqPosition file' t fuel' ft lt foff loff = some found := by
  induction fuel generalizing fuel' ft lt foff loff with
  | zero => cases h
  | succ fuel ih =>
      obtain ⟨fuel', rfl⟩ := Nat.exists_eq_add_of_lt (Nat.lt_of_lt_of_le (Nat.lt_succ_self fuel) hfuel)
      rw [LogFile._getSeqPosition] at h ⊢
      split_ifs at h ⊢ with hbefore hbehind hnarrow
      · exact h
      · exact h
      · exact hgrown.readAndDetect (Nat.succ_le_succ hgrown.length_le) h
      · exact h
      · exact h
      · exact h
      all_goals
        simp only [Option.bind_eq_some_iff] at h ⊢
        obtain ⟨near, hnear, h⟩ := h
        refine ⟨near, hgrown.near _ _ hnear, ?_⟩
        split_ifs at h ⊢
        · exact h
        · exact ih (by omega) h
        · exact ih (by omega) h

theorem Grown.getSeqPosition (hgrown : Grown file file') {foff loff : Nat} {ft : UInt64}
    (h : getSeqPosition file t ft lt foff loff = some found) :
    getSeqPosition file' t ft lt foff loff = some found := by
  rw [LogFile.getSeqPosition] at h ⊢
  split_ifs at h ⊢
  · exact h
  · exact h
  · exact h
  · exact h
  · exact hgrown._getSeqPosition (Nat.succ_le_succ hgrown.length_le) h

/-- A range that was found is the same afterwards. -/
theorem Grown.filter1 (hgrown : Grown file file') {plfs : LfsCtx} {st et : UInt64}
    {range : Int × Int} (h : filter1 file plfs st et = some range) :
    filter1 file' plfs st et = some range := by
  simp only [filter1_eq, Option.bind_eq_some_iff, Option.map_eq_some_iff] at h ⊢
  obtain ⟨soff, hstart, eoff, hstop, rfl⟩ := h
  refine ⟨soff, ?_, eoff, ?_, rfl⟩
  · rw [filterStart, Option.map_eq_some_iff] at hstart ⊢
    obtain ⟨start, hstart, rfl⟩ := hstart
    refine ⟨start, ?_, rfl⟩
    split_ifs at hstart ⊢
    · exact hstart
    · exact hgrown.getSeqPosition hstart
  · simp only [filterStop, Option.bind_eq_some_iff] at hstop ⊢
    obtain ⟨stop, hstop, hend⟩ := hstop
    refine ⟨stop, ?_, ?_⟩
    · split_ifs at hstop ⊢
      · exact hstop
      · exact hstop
      · exact hgrown.getSeqPosition hstop
    · split_ifs at hend ⊢
      · exact hend
      · rw [Option.map_eq_some_iff] at hend ⊢
        obtain ⟨next, hnext, heoff⟩ := hend
        exact ⟨next, hgrown.getSeqPosition hnext, heoff⟩
      · exact hend

end Grown

section Bounds

variable {file : List UInt8} {t ft lt : UInt64} {found : Found} {foff loff fuel : Nat}

theorem getNearSeq_le {off : Nat} {near : UInt64 × Nat} (h : getNearSeq file off = some near) :
    near.2 ≤ file.length := by
  cases off with
  | zero => cases h
  | succ pos =>
      rw [getNearSeq] at h
      split at h
      case isFalse => cases h
      case isTrue hfound =>
          rw [Option.map_eq_some_iff] at h
          obtain ⟨mt, -, rfl⟩ := h
          rw [List.length_take, List.length_drop] at hfound
          dsimp only
          omega

theorem readAndDetect_le (h : readAndDetect file t lt fuel foff = some found) :
    found.off ≤ file.length := by
  induction fuel generalizing foff with
  | zero => cases h
  | succ fuel ih =>
      simp only [readAndDetect, Option.bind_eq_some_iff] at h
      obtain ⟨near, hnear, h⟩ := h
      split_ifs at h
      · cases h
        exact Int.ofNat_le.mpr (getNearSeq_le hnear)
      · exact ih h

theorem _getSeqPosition_le (hfoff : foff ≤ file.length) (hloff : loff ≤ file.length) (hlt : t ≤ lt)
    (h : _getSeqPosition file t fuel ft lt foff loff = some found) : found.off ≤ file.length := by
  induction fuel generalizing ft lt foff loff with
  | zero => cases h
  | succ fuel ih =>
      rw [_getSeqPosition] at h
      split_ifs at h with hbefore hbehind
      · cases h
        dsimp only
        omega
      · exact absurd hbehind (not_lt.mpr hlt)
      · exact readAndDetect_le h
      · cases h
        exact Int.ofNat_le.mpr hfoff
      · cases h
        exact Int.ofNat_le.mpr hfoff
      · cases h
        exact Int.ofNat_le.mpr hloff
      all_goals
        simp only [Option.bind_eq_some_iff] at h
        obtain ⟨near, hnear, h⟩ := h
        have hmoff := getNearSeq_le hnear
        split_ifs at h with hsame hearlier
        · cases h
          exact Int.ofNat_le.mpr hmoff
        · exact ih hfoff hmoff (le_of_lt hearlier) h
        · exact ih hmoff hloff hlt h

theorem getSeqPosition_le (hfoff : foff ≤ file.length) (hloff : loff ≤ file.length) (hlt : t ≤ lt)
    (h : getSeqPosition file t ft lt foff loff = some found) : found.off ≤ file.length := by
  rw [getSeqPosition] at h
  split_ifs at h with hbefore hbehind
  · cases h
    dsimp only
    omega
  · exact absurd hbehind (not_lt.mpr hlt)
  · cases h
    exact Int.ofNat_le.mpr hfoff
  · cases h
    exact Int.ofNat_le.mpr hloff
  · exact _getSeqPosition_le hfoff hloff hlt h

/-- The offsets that `init_lfs` stores are of the file. -/
structure LfsCtx.Within (plfs : LfsCtx) (file : List UInt8) : Prop where
  foff : plfs.foff ≤ file.length
  loff : plfs.loff ≤ file.length
  fileSize : plfs.fileSize ≤ file.length

theorem initLfs_within {plfs : LfsCtx} (h : initLfs file = some plfs) : plfs.Within file := by
  simp only [initLfs, Option.bind_eq_some_iff, Option.map_eq_some_iff] at h
  obtain ⟨lt, -, ft, -, rfl⟩ := h
  exact ⟨Nat.zero_le _, Nat.sub_le _ _, Nat.le_refl _⟩

/-- Up to the last stamp the range ends within the file as it was opened. -/
theorem filterStop_le {plfs : LfsCtx} {et : UInt64} {eoff : Int} (hplfs : plfs.Within file)
    (het : et ≤ plfs.lt) (h : filterStop file plfs et = some eoff) : eoff ≤ file.length := by
  simp only [filterStop, if_neg (not_lt.mpr het), Option.bind_eq_some_iff] at h
  obtain ⟨stop, hstop, h⟩ := h
  split_ifs at h with hlast hmet
  · cases h
    exact Int.ofNat_le.mpr hplfs.fileSize
  · rw [Option.map_eq_some_iff] at h
    obtain ⟨next, hnext, rfl⟩ := h
    have hlt : et < plfs.lt := lt_of_le_of_ne het (hmet ▸ hlast)
    exact getSeqPosition_le hplfs.foff hplfs.loff ((Log.add_one_le_iff hlt).mpr hlt) hnext
  · cases h
    split_ifs at hstop with hbehind
    · cases hstop
      exact absurd rfl hlast
    · exact getSeqPosition_le hplfs.foff hplfs.loff het hstop

end Bounds

/-- Nothing is read behind the end of the range. -/
theorem filter2Loop_append {file : List UInt8} (more : List UInt8) {eoff : Int}
    (heoff : eoff ≤ file.length) {fuel off pos : Nat} {unbuf : List UInt8} (hpos : pos ≤ off) :
    filter2Loop (file ++ more) eoff fuel off pos unbuf = filter2Loop file eoff fuel off pos unbuf := by
  induction fuel generalizing off pos unbuf with
  | zero => rfl
  | succ fuel ih =>
      have hmost := filter2ToRead_le off unbuf.length eoff
      simp only [filter2Loop]
      by_cases hgo : (off : Int) < eoff ∧ 0 < filter2ToRead off unbuf.length eoff
      · have hread : ((file ++ more).drop pos).take (filter2ToRead off unbuf.length eoff).toNat =
            (file.drop pos).take (filter2ToRead off unbuf.length eoff).toNat := by
          rw [List.drop_append_of_le_length (by omega), List.take_append_of_le_length]
          rw [List.length_drop]
          omega
        rw [hread]
        split
        · rw [ih]
          rw [List.length_append]
          omega
        · rfl
      · rw [if_neg (fun h => hgo ⟨h.1, h.2.1⟩), if_neg (fun h => hgo ⟨h.1, h.2.1⟩)]

/-- A query up to the last stamp of a file gets what it would have got when the file was opened,
whatever has been written since then. -/
theorem read_in_as_opened (jssDecode : List UInt8 → List UInt8) (log : Journal) {plfs : LfsCtx}
    (hopened : initLfs log.bytes = some plfs) (bufLen : Nat) (query : Query) (sep : CString)
    (opt : Int32) {buf : List UInt8} (hstop : (query.touch plfs opt).utcStop ≤ plfs.lt)
    (hread : lfsReadIn jssDecode log.bytes plfs bufLen query sep opt = some buf)
    (more : List UInt8) :
    lfsReadIn jssDecode (log.bytes ++ more) plfs bufLen query sep opt = some buf := by
  simp only [lfsReadIn] at hread ⊢
  generalize query.touch plfs opt = query at hstop hread
  obtain ⟨⟨soff, eoff⟩, hrange, hread⟩ := Option.bind_eq_some_iff.mp hread
  have heoff : eoff ≤ log.bytes.length := by
    rw [filter1_eq] at hrange
    simp only [Option.bind_eq_some_iff, Option.map_eq_some_iff] at hrange
    obtain ⟨_, -, _, hend, hsame⟩ := hrange
    cases hsame
    exact filterStop_le (initLfs_within hopened) hstop hend
  rw [(log.grown more).filter1 hrange, Option.bind_some]
  rw [filter2Out, filter2] at hread ⊢
  rwa [filter2Loop_append more heoff (Nat.le_refl _)]

/-- The query from 1 to 4 gets the line of the time 1, with any text written behind the last. -/
theorem threeLines_read_as_opened :
    lfsReadIn id (threeLines.bytes ++ [48, 10, 48]) ⟨0, 25, 1, 6, 35⟩ 100 ⟨1, 4, none, 0⟩ commaSep 0 =
      some [49, 44, 111, 110, 10] :=
  read_in_as_opened id threeLines (by decide) 100 ⟨1, 4, none, 0⟩ commaSep 0 (by decide) (by decide)
    [48, 10, 48]

end EventLoop.LogFile
