import EventLoop.LogFile.Journal
import EventLoop.Lib.Bisect

/-!
`getNearSeq`, `_getSeqPosition`, `getSeqPosition`, `init_lfs` and `filter1` of
`lfs_read.c`. A file is its bytes, and `read` takes what there is from an offset on. The
functions are `none` where the code goes on with a variable it has not set.
-/

namespace EventLoop.LogFile

/-- `DATA_SIZE` -/
def dataSize : Nat := 1024

/-- The stamp behind the first newline from `off - 1` on, and where it stands. -/
def getNearSeq (file : List UInt8) : Nat → Option (UInt64 × Nat)
  | 0 => none
  | pos + 1 =>
      let data := (file.drop pos).take dataSize
      let i := data.findIdx (· == newline)
      if i < data.length then (scanHex (data.drop (i + 1))).map (fun mt => (mt, pos + 1 + i))
      else none

/-- A returned offset, and what is stored through `p_mt`. -/
structure Found where
  off : Int
  mt : Option UInt64
deriving DecidableEq, Repr

/-- `read & detect is more efficient`: the loop of `_getSeqPosition`. -/
def readAndDetect (file : List UInt8) (t lt : UInt64) : Nat → Nat → Option Found
  | 0, _ => none
  | fuel + 1, foff =>
      (getNearSeq file (foff + 1)).bind (fun (nt, noff) =>
        if nt = lt ∨ t ≤ nt then some ⟨noff, some nt⟩ else readAndDetect file t lt fuel noff)

/-- `_getSeqPosition` but for its counters. -/
def _getSeqPosition (file : List UInt8) (t : UInt64) :
    Nat → UInt64 → UInt64 → Nat → Nat → Option Found
  | 0, _, _, _, _ => none
  | fuel + 1, ft, lt, foff, loff =>
      if t < ft then some ⟨-1, none⟩
      else if lt < t then some ⟨0xFFFFFFFE, none⟩
      else if (loff : Int) - foff < dataSize - 1 ∨ lt - ft ≤ 3 then
        readAndDetect file t lt (file.length + 1) foff
      else if foff = loff then some ⟨foff, some ft⟩
      else if t ≤ ft then some ⟨foff, some ft⟩
      else if lt ≤ t then some ⟨loff, some lt⟩
      else
        (getNearSeq file (if lt - ft ≤ 2 then foff + 1 else (foff + loff) / 2)).bind
          (fun (mt, moff) =>
            if mt = t then some ⟨moff, some t⟩
            else if t < mt then _getSeqPosition file t fuel ft mt foff moff
            else _getSeqPosition file t fuel mt lt moff loff)

def getSeqPosition (file : List UInt8) (t ft lt : UInt64) (foff loff : Nat) : Option Found :=
  if t < ft then some ⟨-1, none⟩
  else if lt < t then some ⟨0xFFFFFFFE, none⟩
  else if t = ft then some ⟨foff, some ft⟩
  else if t = lt then some ⟨loff, some lt⟩
  else _getSeqPosition file t (file.length + 1) ft lt foff loff

/-- Where `getNearSeq` reads. -/
def nearRead (off : Nat) : Int := off - 1

/-- The reads of the loop, in order. -/
def readAndDetectReads (file : List UInt8) (t lt : UInt64) : Nat → Nat → List Int
  | 0, _ => []
  | fuel + 1, foff =>
      nearRead (foff + 1) :: (getNearSeq file (foff + 1)).elim [] (fun (nt, noff) =>
        if nt = lt ∨ t ≤ nt then [] else readAndDetectReads file t lt fuel noff)

/-- The reads of `_getSeqPosition`. -/
def _getSeqPositionReads (file : List UInt8) (t : UInt64) :
    Nat → UInt64 → UInt64 → Nat → Nat → List Int
  | 0, _, _, _, _ => []
  | fuel + 1, ft, lt, foff, loff =>
      if t < ft then []
      else if lt < t then []
      else if (loff : Int) - foff < dataSize - 1 ∨ lt - ft ≤ 3 then
        readAndDetectReads file t lt (file.length + 1) foff
      else if foff = loff then []
      else if t ≤ ft then []
      else if lt ≤ t then []
      else
        nearRead (if lt - ft ≤ 2 then foff + 1 else (foff + loff) / 2) ::
          (getNearSeq file (if lt - ft ≤ 2 then foff + 1 else (foff + loff) / 2)).elim []
            (fun (mt, moff) =>
              if mt = t then []
              else if t < mt then _getSeqPositionReads file t fuel ft mt foff moff
              else _getSeqPositionReads file t fuel mt lt moff loff)

def getSeqPositionReads (file : List UInt8) (t ft lt : UInt64) (foff loff : Nat) : List Int :=
  if t < ft then []
  else if lt < t then []
  else if t = ft then []
  else if t = lt then []
  else _getSeqPositionReads file t (file.length + 1) ft lt foff loff

section

variable {file file' : List UInt8} {t lt : UInt64}

/-- Both files have the same behind these reads. -/
def AlikeAt (file file' : List UInt8) (reads : List Int) : Prop :=
  ∀ off, nearRead off ∈ reads → getNearSeq file' off = getNearSeq file off

theorem AlikeAt.tail {read : Int} {reads : List Int} (h : AlikeAt file file' (read :: reads)) :
    AlikeAt file file' reads := fun off hoff => h off (List.mem_cons_of_mem _ hoff)

/-- The loop goes as it goes on any file with the same behind its reads: it makes no others. -/
theorem readAndDetect_congr {fuel foff : Nat}
    (h : AlikeAt file file' (readAndDetectReads file t lt fuel foff)) :
    readAndDetect file' t lt fuel foff = readAndDetect file t lt fuel foff ∧
      readAndDetectReads file' t lt fuel foff = readAndDetectReads file t lt fuel foff := by
  induction fuel generalizing foff with
  | zero => exact ⟨rfl, rfl⟩
  | succ fuel ih =>
      have hnear : getNearSeq file' (foff + 1) = getNearSeq file (foff + 1) :=
        h (foff + 1) (List.mem_cons_self ..)
      simp only [readAndDetectReads] at h
      simp only [readAndDetect, readAndDetectReads, hnear]
      cases hfound : getNearSeq file (foff + 1) with
      | none => exact ⟨rfl, rfl⟩
      | some found =>
          obtain ⟨nt, noff⟩ := found
          simp only [hfound, Option.elim_some] at h
          simp only [Option.bind_some, Option.elim_some]
          split
          · exact ⟨rfl, rfl⟩
          · rename_i hgoes
            rw [if_neg hgoes] at h
            obtain ⟨hresult, hreads⟩ := ih h.tail
            exact ⟨hresult, congrArg _ hreads⟩

theorem _getSeqPosition_congr {fuel foff loff : Nat} {ft lt : UInt64}
    (hlength : file'.length = file.length)
    (h : AlikeAt file file' (_getSeqPositionReads file t fuel ft lt foff loff)) :
    _getSeqPosition file' t fuel ft lt foff loff = _getSeqPosition file t fuel ft lt foff loff ∧
      _getSeqPositionReads file' t fuel ft lt foff loff =
        _getSeqPositionReads file t fuel ft lt foff loff := by
  induction fuel generalizing ft lt foff loff with
  | zero => exact ⟨rfl, rfl⟩
  | succ fuel ih =>
      rw [_getSeqPositionReads] at h
      rw [_getSeqPosition, _getSeqPosition, _getSeqPositionReads, _getSeqPositionReads, hlength]
      split
      · exact ⟨rfl, rfl⟩
      split
      · exact ⟨rfl, rfl⟩
      split
      · rename_i hft hlt hnarrow
        rw [if_neg hft, if_neg hlt, if_pos hnarrow] at h
        exact readAndDetect_congr h
      split
      · exact ⟨rfl, rfl⟩
      split
      · exact ⟨rfl, rfl⟩
      split
      · exact ⟨rfl, rfl⟩
      rename_i hft hlt hwide hoff hfirst hlast
      rw [if_neg hft, if_neg hlt, if_neg hwide, if_neg hoff, if_neg hfirst, if_neg hlast] at h
      rw [h _ (List.mem_cons_self ..)]
      cases hfound : getNearSeq file (if lt - ft ≤ 2 then foff + 1 else (foff + loff) / 2) with
      | none => exact ⟨rfl, rfl⟩
      | some found =>
          obtain ⟨mt, moff⟩ := found
          simp only [hfound, Option.elim_some] at h
          simp only [Option.bind_some, Option.elim_some]
          split
          · exact ⟨rfl, rfl⟩
          split
          · rename_i hne hbefore
            rw [if_neg hne, if_pos hbefore] at h
            obtain ⟨hresult, hreads⟩ := ih h.tail
            exact ⟨hresult, congrArg _ hreads⟩
          · rename_i hne hbehind
            rw [if_neg hne, if_neg hbehind] at h
            obtain ⟨hresult, hreads⟩ := ih h.tail
            exact ⟨hresult, congrArg _ hreads⟩

/-- The search goes as it goes on any file with the same behind its reads. -/
theorem getSeqPosition_congr {foff loff : Nat} {ft lt : UInt64}
    (hlength : file'.length = file.length)
    (h : AlikeAt file file' (getSeqPositionReads file t ft lt foff loff)) :
    getSeqPosition file' t ft lt foff loff = getSeqPosition file t ft lt foff loff ∧
      getSeqPositionReads file' t ft lt foff loff = getSeqPositionReads file t ft lt foff loff := by
  rw [getSeqPositionReads] at h
  rw [getSeqPosition, getSeqPosition, getSeqPositionReads, getSeqPositionReads, hlength]
  split
  · exact ⟨rfl, rfl⟩
  split
  · exact ⟨rfl, rfl⟩
  split
  · exact ⟨rfl, rfl⟩
  split
  · exact ⟨rfl, rfl⟩
  rename_i hft hlt hfirst hlast
  rw [if_neg hft, if_neg hlt, if_neg hfirst, if_neg hlast] at h
  exact _getSeqPosition_congr hlength h

end

/-- `lfs_ctx` after `init_lfs` -/
structure LfsCtx where
  foff : Nat
  loff : Nat
  ft : UInt64
  lt : UInt64
  fileSize : Nat
deriving DecidableEq, Repr

/-- `init_lfs`: the last line is what stands behind the last newline but one. -/
def initLfs (file : List UInt8) : Option LfsCtx :=
  let data := (if dataSize ≤ file.length then file.drop (file.length - dataSize) else file).take
    dataSize
  let i := 1 + data.reverse.tail.findIdx (· == newline)
  (scanHex (data.drop (data.length - i))).bind (fun lt =>
    let first := file.take dataSize
    let j := 1 + first.tail.findIdx (· == newline)
    (scanHex (first.take (j + 1))).map (fun ft => ⟨0, file.length - i, ft, lt, file.length⟩))

/-- `filter1`: the offsets it stores in `soff` and `eoff`. -/
def filter1 (file : List UInt8) (plfs : LfsCtx) (st et : UInt64) : Option (Int × Int) :=
  let search (t : UInt64) := getSeqPosition file t plfs.ft plfs.lt plfs.foff plfs.loff
  let start : Option Found := if st < plfs.ft then some ⟨plfs.foff, some plfs.ft⟩ else search st
  start.bind (fun start =>
    let stop : Option Found :=
      if plfs.lt < et then some ⟨plfs.fileSize, some et⟩
      else if plfs.lt ≤ et then some ⟨plfs.loff, some plfs.lt⟩
      else search et
    stop.bind (fun stop =>
      let met := stop.mt.getD 0
      if met = plfs.lt then some (start.off, plfs.fileSize)
      else if met = et then (search (et + 1)).map (fun next => (start.off, next.off))
      else some (start.off, stop.off)))

/-- The bytes of the file from `soff` to before `eoff`. -/
def clipped (file : List UInt8) (soff eoff : Int) : List UInt8 :=
  (file.take eoff.toNat).drop soff.toNat

theorem findIdx_no_newline {body : List UInt8} (h : newline ∉ body) :
    body.findIdx (· == newline) = body.length := by
  rw [List.findIdx_eq_length]
  intro char hchar
  exact beq_false_of_ne (fun heq => h (heq ▸ hchar))

theorem findIdx_newline {body : List UInt8} (h : newline ∉ body) (rest : List UInt8) :
    (body ++ newline :: rest).findIdx (· == newline) = body.length := by
  rw [List.findIdx_append, findIdx_no_newline h, if_neg (Nat.lt_irrefl _), List.findIdx_cons]
  simp

/-- What `getNearSeq` makes of the window that it reads, up to a newline and behind it. -/
theorem getNearSeq_eq {file body rest : List UInt8} {pos : Nat}
    (hfile : file.drop pos = body ++ newline :: rest) (hbody : newline ∉ body) :
    getNearSeq file (pos + 1) = if body.length < dataSize then
      (scanHex (rest.take (dataSize - 1 - body.length))).map (fun mt => (mt, pos + 1 + body.length))
      else none := by
  by_cases hin : body.length < dataSize
  · have hdata : (file.drop pos).take dataSize =
        body ++ newline :: rest.take (dataSize - 1 - body.length) := by
      have hspan : dataSize = body.length + (dataSize - 1 - body.length + 1) := by omega
      conv_lhs => rw [hfile, hspan, List.take_length_add_append, List.take_succ_cons]
    have hindex := findIdx_newline hbody (rest.take (dataSize - 1 - body.length))
    rw [← hdata] at hindex
    have hfound : body.length < ((file.drop pos).take dataSize).length := by
      rw [hdata, List.length_append, List.length_cons]
      omega
    have hbehind : ((file.drop pos).take dataSize).drop (body.length + 1) =
        rest.take (dataSize - 1 - body.length) := by
      rw [hdata, ← List.drop_drop, List.drop_left]
      rfl
    simp only [getNearSeq, hindex, if_pos hfound, if_pos hin, hbehind]
  · have hdata : (file.drop pos).take dataSize = body.take dataSize := by
      rw [hfile, List.take_append_of_le_length (Nat.le_of_not_lt hin)]
    have hindex : (body.take dataSize).findIdx (· == newline) = (body.take dataSize).length :=
      findIdx_no_newline (fun hmem => hbody (List.mem_of_mem_take hmem))
    simp only [getNearSeq, hdata, hindex, Nat.lt_irrefl, if_false, if_neg hin]

theorem stampNeeds_pos (stamp : UInt64) : 0 < stampNeeds stamp := by
  have hleast := le_length_printHex stamp
  rw [stampNeeds]
  split <;> omega

/-- A stamp of 64 bits is read back from 16 characters. -/
theorem stampNeeds_le (stamp : UInt64) : stampNeeds stamp ≤ 16 := by
  have hdigits : (Nat.digits 16 stamp.toNat).length ≤ 16 :=
    (Nat.digits_length_le_iff (by decide) _).mpr stamp.toNat_lt
  have hprinted : (printHex stamp).length ≤ 16 := by
    rw [length_printHex, stampDigits, List.length_reverse, Nat.digitsAppend, List.length_append,
      List.length_replicate]
    omega
  rw [stampNeeds]
  split <;> omega

namespace Journal

variable {log : Journal} {f l k off : Nat} {t : UInt64}

/-- Between two line starts `getNearSeq` finds the second and its stamp if enough of the
stamp is within the window. -/
theorem getNearSeq_iff (hk : k < log.last) (hbehind : log.start k < off)
    (hbefore : off ≤ log.start (k + 1)) :
    getNearSeq log.bytes off = some (log.stamp (k + 1), log.start (k + 1)) ↔
      log.start (k + 1) - off + 1 + stampNeeds (log.stamp (k + 1)) ≤ dataSize := by
  have hlast := log.last_lt
  have hcount : k < log.count := by omega
  have hcount' : k + 1 < log.count := by omega
  obtain ⟨body, htext, hbody⟩ := (log.entries.get ⟨k, hcount⟩).text_eq
  have hsucc := start_succ hcount
  rw [htext, List.length_append, List.length_singleton] at hsucc
  -- the newline before line `k + 1` is the first one from `off - 1` on
  have hdrop : log.bytes.drop (off - 1) = body.drop (off - 1 - log.start k) ++ newline ::
      ((log.entries.get ⟨k + 1, hcount'⟩).text ++ log.bytes.drop (log.start (k + 1 + 1))) := by
    have hsplit : off - 1 = log.start k + (off - 1 - log.start k) := by omega
    rw [hsplit, ← List.drop_drop, drop_start hcount, htext, drop_start hcount', List.append_assoc,
      List.drop_append_of_le_length (by omega), Nat.add_sub_cancel_left]
    rfl
  have hnear := getNearSeq_eq hdrop (fun hmem => hbody (List.mem_of_mem_drop hmem))
  have hlength : (body.drop (off - 1 - log.start k)).length = log.start (k + 1) - off := by
    rw [List.length_drop]
    omega
  rw [Nat.sub_add_cancel (Nat.zero_lt_of_lt hbehind), hlength, Nat.add_sub_cancel' hbefore] at hnear
  have hneeds := stampNeeds_pos (log.stamp (k + 1))
  rw [hnear]
  by_cases hin : log.start (k + 1) - off < dataSize
  · have hstamp := scanHex_take_text_iff (log.entries.get ⟨k + 1, hcount'⟩)
      (log.bytes.drop (log.start (k + 1 + 1))) (dataSize - 1 - (log.start (k + 1) - off))
    rw [← stamp_eq hcount'] at hstamp
    rw [if_pos hin, Option.map_eq_some_iff]
    constructor
    · rintro ⟨mt, hscan, hmt⟩
      rw [(Prod.mk.inj hmt).1] at hscan
      have := hstamp.mp hscan
      omega
    · intro hfits
      exact ⟨_, hstamp.mpr (by omega), rfl⟩
  · rw [if_neg hin]
    exact iff_of_false (by simp) (by omega)

/-- `getNearSeq` finds the first line from an offset on. -/
theorem getNearSeq_spec (hshort : log.Short 1000) (hpos : 0 < off)
    (hoff : off ≤ log.start log.last) :
    getNearSeq log.bytes off = some (log.stamp (log.lineFrom off), log.start (log.lineFrom off)) := by
  have hlast := log.last_lt
  obtain ⟨k, hk, hbehind, hbefore⟩ := log.exists_line hpos hoff (Nat.le_of_lt hlast)
  have hcount' : k + 1 < log.count := by omega
  rw [lineFrom_eq (by omega) hbehind hbefore, getNearSeq_iff hk hbehind hbefore, dataSize]
  have hneeds := stampNeeds_le (log.stamp (k + 1))
  have hsucc := start_succ_le hshort (k := k) (by omega)
  omega

theorem lineFrom_start_succ (h : k < log.last) : log.lineFrom (log.start k + 1) = k + 1 := by
  have hcount : k < log.count := Nat.lt_trans h log.last_lt
  exact lineFrom_eq hcount (Nat.lt_succ_self _) (start_lt (Nat.lt_add_one k) hcount)

/-- The offset is one of the file. -/
def Inside (log : Journal) (off : Int) : Prop := 0 ≤ off ∧ off < log.bytes.length

theorem inside_nearRead (hpos : 0 < off) (hoff : off ≤ log.start log.last) :
    log.Inside (nearRead off) := by
  have hlt : log.start log.last < log.bytes.length := by
    rw [← start_count, count_eq]
    exact start_lt (Nat.lt_succ_self _) log.last_lt
  rw [Inside, nearRead]
  omega

open MonotoneSplit Bisect

/-- The loop of `_getSeqPosition` finds the first line stamped `t` or later. -/
theorem readAndDetect_spec (hshort : log.Short 1000) (hordered : log.Ordered) {lt : UInt64}
    {fuel : Nat} (hf : log.stamp f < t) (hlt : t ≤ lt) (ht : t ≤ log.stamp log.last)
    (hfuel : log.last < f + fuel) :
    ∃ r ≤ log.last, SplitsAt (fun i => log.stamp i < t) log.count r ∧
      readAndDetect log.bytes t lt fuel (log.start f) = some ⟨log.start r, some (log.stamp r)⟩ ∧
      ∀ off ∈ readAndDetectReads log.bytes t lt fuel (log.start f), log.Inside off := by
  have hbefore {k : Nat} (hk : log.stamp k < t) : k < log.last := by
    apply Nat.lt_of_not_le
    intro hle
    exact absurd hk (not_lt.mpr (le_trans ht (stamp_monotone hordered hle)))
  induction fuel generalizing f with
  | zero => exact absurd (hbefore hf) (by omega)
  | succ fuel ih =>
      have hlast := hbefore hf
      have hstart : log.start f < log.start log.last := start_lt hlast (by have := log.last_lt; omega)
      have hinside := inside_nearRead (Nat.succ_pos _) hstart
      have hnear := getNearSeq_spec hshort (Nat.succ_pos _) hstart
      rw [lineFrom_start_succ hlast] at hnear
      simp only [readAndDetect, readAndDetectReads, hnear, Option.bind_some, Option.elim_some,
        List.mem_cons, forall_eq_or_imp]
      split
      · rename_i hstop
        refine ⟨f + 1, hlast, ⟨by have := log.last_lt; omega, ?_, ?_⟩, rfl, hinside, by simp⟩
        · exact fun i hi => lt_of_le_of_lt (stamp_monotone hordered (by omega)) hf
        · intro i hi _
          have hreached : t ≤ log.stamp (f + 1) := by
            rcases hstop with heq | hle
            · rw [heq]
              exact hlt
            · exact hle
          exact not_lt.mpr (le_trans hreached (stamp_monotone hordered hi))
      · rename_i hgo
        obtain ⟨r, hr, hfirst, hresult, hreads⟩ :=
          ih (not_le.mp (fun hle => hgo (.inr hle))) (by omega)
        exact ⟨r, hr, hfirst, hresult, hinside, hreads⟩

/-- The window from line `f` to line `l` is halved. -/
def wide (log : Journal) (f l : Nat) : Prop :=
  log.start f + (dataSize - 1) ≤ log.start l ∧ 3 < log.stamp l - log.stamp f

/-- The line at which it is halved. -/
def probe (log : Journal) (f l : Nat) : Nat := log.lineFrom ((log.start f + log.start l) / 2)

/-- A wide window is halved behind its first line and not behind its last. -/
theorem probe_within (hwide : log.wide f l) (hl : l ≤ log.last) :
    f < log.probe f l ∧ log.probe f l ≤ l := by
  have hlast := log.last_lt
  have hsize := hwide.1
  rw [dataSize] at hsize
  have hmid' : (log.start f + log.start l) / 2 ≤ log.start l := by omega
  have hmid : (log.start f + log.start l) / 2 ≤ log.start (log.probe f l) :=
    le_start_lineFrom (Nat.le_trans hmid' (log.start_le_length (by omega)))
  have hstart : log.start f < log.start (log.probe f l) := by omega
  exact ⟨lt_of_start_lt hstart, lineFrom_le hmid'⟩

/-- It is halved at its last line if its middle is behind the start of the line before. -/
theorem probe_lt_iff (hwide : log.wide f l) (hl : l ≤ log.last) :
    log.probe f l < l ↔ (log.start f + log.start l) / 2 ≤ log.start (l - 1) := by
  have hlast := log.last_lt
  have hpos := (probe_within hwide hl).1.trans_le (probe_within hwide hl).2
  have hmid' : (log.start f + log.start l) / 2 ≤ log.start l := by
    have := log.start_mono (Nat.le_of_lt hpos)
    omega
  constructor
  · intro hlt
    exact Nat.le_trans (le_start_lineFrom (Nat.le_trans hmid' (log.start_le_length (by omega))))
      (log.start_mono (Nat.le_sub_one_of_lt hlt))
  · intro hmid
    exact Nat.lt_of_le_of_lt (lineFrom_le hmid) (by omega)

/-- Lines are short, so that both halves of a wide window are smaller. -/
theorem probe_between (hshort : log.Short 512) (hwide : log.wide f l) (hl : l ≤ log.last) :
    f < log.probe f l ∧ log.probe f l < l := by
  refine ⟨(probe_within hwide hl).1, (probe_lt_iff hwide hl).mpr ?_⟩
  have hlast := log.last_lt
  have hpos := (probe_within hwide hl).1.trans_le (probe_within hwide hl).2
  have hstep : log.start (l - 1 + 1) ≤ log.start (l - 1) + 512 := start_succ_le hshort (by omega)
  have hsize := hwide.1
  rw [dataSize] at hsize
  rw [Nat.sub_add_cancel (by omega)] at hstep
  omega

/-- The windows of a search lie one within the other. -/
theorem visits_within {f' l' : Nat} (h : Visits log.stamp log.probe log.wide t f l f' l')
    (hl : l ≤ log.last) : f ≤ f' ∧ l' ≤ l := by
  induction h with
  | here f l => exact ⟨Nat.le_refl _, Nat.le_refl _⟩
  | lower hwide hkey hrest ih =>
      obtain ⟨hlower, hupper⟩ := probe_within hwide hl
      obtain ⟨hf, hl'⟩ := ih (Nat.le_trans hupper hl)
      exact ⟨hf, Nat.le_trans hl' hupper⟩
  | upper hwide hkey hrest ih =>
      obtain ⟨hf, hl'⟩ := ih hl
      exact ⟨Nat.le_trans (Nat.le_of_lt (probe_within hwide hl).1) hf, hl'⟩

theorem probesWithin (hshort : log.Short 512) (hl : l ≤ log.last) :
    ProbesWithin log.stamp log.probe log.wide t f l := by
  intro f' l' hvisits hwide hft hlt
  exact probe_between hshort hwide (Nat.le_trans (visits_within hvisits hl).2 hl)

/-- A window that is not wide is small in bytes or in time. -/
theorem not_wide (h : ¬ log.wide f l) :
    (log.start l : Int) - log.start f < dataSize - 1 ∨ log.stamp l - log.stamp f ≤ 3 := by
  by_contra hnot
  rw [not_or, not_lt, not_le] at hnot
  refine h ⟨?_, hnot.2⟩
  have hsize := hnot.1
  rw [dataSize] at hsize ⊢
  omega

theorem wide.not_small (h : log.wide f l) :
    ¬ ((log.start l : Int) - log.start f < dataSize - 1 ∨ log.stamp l - log.stamp f ≤ 3) := by
  rintro (hsmall | hclose)
  · have hsize := h.1
    rw [dataSize] at hsize hsmall
    omega
  · exact absurd h.2 (not_lt.mpr hclose)

theorem wide.not_close (h : log.wide f l) : ¬ log.stamp l - log.stamp f ≤ 2 :=
  fun hclose => h.not_small (.inr (le_trans hclose (by decide)))

theorem wide.start_lt (h : log.wide f l) : log.start f < log.start l := by
  have hsize := h.1
  rw [dataSize] at hsize
  omega

/-- The middle of a wide window. -/
theorem wide.middle (h : log.wide f l) (hl : l ≤ log.last) :
    0 < (log.start f + log.start l) / 2 ∧
      (log.start f + log.start l) / 2 ≤ log.start log.last := by
  have hsize := h.1
  rw [dataSize] at hsize
  have hend := log.start_mono hl
  omega

/-- `_getSeqPosition` is the bisection for `t`, and ends if its windows get smaller. -/
theorem _getSeqPosition_spec (hshort : log.Short 1000) (hordered : log.Ordered) {fuel : Nat}
    (hft : log.stamp f < t) (hlt : t < log.stamp l) (hl : l ≤ log.last) (hfuel : l < f + fuel)
    (hwithin : ProbesWithin log.stamp log.probe log.wide t f l) :
    ∃ r ≤ log.last, Finds log.stamp log.probe log.wide log.count t f l r ∧
      _getSeqPosition log.bytes t fuel (log.stamp f) (log.stamp l) (log.start f) (log.start l) =
        some ⟨log.start r, some (log.stamp r)⟩ ∧
      ∀ off ∈ _getSeqPositionReads log.bytes t fuel (log.stamp f) (log.stamp l) (log.start f)
        (log.start l), log.Inside off := by
  have hbetween {f l : Nat} (hft : log.stamp f < t) (hlt : t < log.stamp l) : f < l := by
    apply Nat.lt_of_not_le
    intro hle
    exact absurd (lt_trans hft hlt) (not_lt.mpr (stamp_monotone hordered hle))
  induction fuel generalizing f l with
  | zero => exact absurd (hbetween hft hlt) (by omega)
  | succ fuel ih =>
      rw [_getSeqPosition, _getSeqPositionReads, if_neg (lt_asymm hft), if_neg (lt_asymm hft),
        if_neg (lt_asymm hlt), if_neg (lt_asymm hlt)]
      by_cases hwide : log.wide f l
      · obtain ⟨hlower, hupper⟩ := hwithin f l (.here f l) hwide hft hlt
        obtain ⟨hmid, hmid'⟩ := hwide.middle hl
        have hinside := inside_nearRead hmid hmid'
        have hnear := getNearSeq_spec hshort hmid hmid'
        simp only [if_neg hwide.not_small, if_neg (Nat.ne_of_lt hwide.start_lt),
          if_neg (not_le.mpr hft), if_neg (not_le.mpr hlt), if_neg hwide.not_close, hnear,
          Option.bind_some, Option.elim_some, List.mem_cons, forall_eq_or_imp]
        change ∃ r ≤ log.last, _ ∧ (if log.stamp (log.probe f l) = t then _ else
          if t < log.stamp (log.probe f l) then _ else _) = _ ∧ _ ∧
          ∀ off ∈ (if log.stamp (log.probe f l) = t then _ else
            if t < log.stamp (log.probe f l) then _ else _), _
        split
        · rename_i hhit
          refine ⟨log.probe f l, by omega, .hit hwide hhit, ?_, hinside, by simp⟩
          rw [hhit]
          rfl
        · rename_i hmiss
          split
          · rename_i hlow
            obtain ⟨r, hr, hfinds, hresult, hreads⟩ :=
              ih hft hlow (by omega) (by omega) (hwithin.lower hwide hlow)
            exact ⟨r, hr, .lower hwide hlow hfinds, hresult, hinside, hreads⟩
          · rename_i hnot
            have hhigh : log.stamp (log.probe f l) < t :=
              lt_of_le_of_ne (not_lt.mp hnot) hmiss
            obtain ⟨r, hr, hfinds, hresult, hreads⟩ :=
              ih hhigh hlt hl (by omega) (hwithin.upper hwide hhigh)
            exact ⟨r, hr, .upper hwide hhigh hfinds, hresult, hinside, hreads⟩
      · rw [if_pos (not_wide hwide), if_pos (not_wide hwide)]
        have hcount := log.le_start (Nat.le_refl log.count)
        rw [start_count] at hcount
        have hlast := log.last_lt
        have henough : log.last < f + (log.bytes.length + 1) := by omega
        obtain ⟨r, hr, hfirst, hresult, hreads⟩ := readAndDetect_spec hshort hordered hft
          (le_of_lt hlt) (le_trans (le_of_lt hlt) (stamp_monotone hordered hl)) henough
        exact ⟨r, hr, .through hwide hfirst, hresult, hreads⟩

/-- Strictly between the first and the last stamp `getSeqPosition` bisects the file. -/
theorem getSeqPosition_between (hshort : log.Short 512) (hordered : log.Ordered)
    (hft : log.stamp 0 < t) (hlt : t < log.stamp log.last) :
    ∃ r ≤ log.last, Finds log.stamp log.probe log.wide log.count t 0 log.last r ∧
      getSeqPosition log.bytes t (log.stamp 0) (log.stamp log.last) 0 (log.start log.last) =
        some ⟨log.start r, some (log.stamp r)⟩ ∧
      ∀ off ∈ getSeqPositionReads log.bytes t (log.stamp 0) (log.stamp log.last) 0
        (log.start log.last), log.Inside off := by
  rw [getSeqPosition, getSeqPositionReads]
  simp only [if_neg (lt_asymm hft), if_neg (lt_asymm hlt), if_neg (ne_of_gt hft),
    if_neg (ne_of_lt hlt)]
  have hcount := log.le_start (Nat.le_of_lt log.last_lt)
  have hend := log.start_le_length (Nat.le_of_lt log.last_lt)
  have henough : log.last < 0 + (log.bytes.length + 1) := by omega
  have hspec := _getSeqPosition_spec (hshort.mono (by decide)) hordered hft hlt (Nat.le_refl _)
    henough (probesWithin hshort (Nat.le_refl _))
  rwa [start_zero] at hspec

/-- The text in front of a line is empty or ends with a newline. -/
theorem flatMap_text_eq (entries : List Entry) :
    entries.flatMap Entry.text = [] ∨
      ∃ front, entries.flatMap Entry.text = front ++ [newline] := by
  rcases List.eq_nil_or_concat' entries with rfl | ⟨init, entry, rfl⟩
  · exact .inl rfl
  · obtain ⟨body, htext, -⟩ := entry.text_eq
    refine .inr ⟨init.flatMap Entry.text ++ body, ?_⟩
    rw [List.flatMap_append, List.flatMap_cons, List.flatMap_nil, List.append_nil, htext,
      List.append_assoc]

/-- What `init_lfs` reads of the end of a file. -/
theorem tail_window (file : List UInt8) :
    (if dataSize ≤ file.length then file.drop (file.length - dataSize) else file).take dataSize =
      file.drop (file.length - dataSize) := by
  split
  · rw [List.take_of_length_le]
    rw [List.length_drop]
    omega
  · rw [List.take_of_length_le (by omega), Nat.sub_eq_zero_of_le (by omega), List.drop_zero]

/-- From the end of a file back to the newline before its last line. -/
theorem last_line_window {front : List UInt8} (entry : Entry)
    (hline : entry.text.length ≤ dataSize)
    (hfront : front = [] ∨ ∃ init, front = init ++ [newline]) :
    ∃ data, (front ++ entry.text).drop ((front ++ entry.text).length - dataSize) =
        data ++ entry.text ∧
      1 + (data ++ entry.text).reverse.tail.findIdx (· == newline) = entry.text.length := by
  obtain ⟨body, htext, hbody⟩ := entry.text_eq
  have hlength : entry.text.length = body.length + 1 := by
    rw [htext, List.length_append, List.length_singleton]
  refine ⟨front.drop ((front ++ entry.text).length - dataSize), ?_, ?_⟩
  · rw [List.drop_append_of_le_length]
    rw [List.length_append]
    omega
  · have hreverse (before : List UInt8) :
        (before ++ entry.text).reverse.tail = body.reverse ++ before.reverse := by
      rw [htext, ← List.append_assoc, List.reverse_append, List.reverse_append]
      rfl
    have hbody' : newline ∉ body.reverse := fun hmem => hbody (List.mem_reverse.mp hmem)
    have hlast : front.drop ((front ++ entry.text).length - dataSize) = [] ∨
        ∃ init, front.drop ((front ++ entry.text).length - dataSize) = init ++ [newline] := by
      rcases hfront with rfl | ⟨init, rfl⟩
      · exact .inl (List.drop_nil)
      · by_cases hin : (init ++ [newline] ++ entry.text).length - dataSize ≤ init.length
        · exact .inr ⟨_, List.drop_append_of_le_length hin⟩
        · left
          rw [List.drop_eq_nil_iff, List.length_append, List.length_singleton]
          omega
    rw [hreverse, hlength]
    rcases hlast with hnil | ⟨init, hinit⟩
    · rw [hnil, List.reverse_nil, List.append_nil, findIdx_no_newline hbody', List.length_reverse,
        Nat.add_comm]
    · rw [hinit, List.reverse_append, List.reverse_singleton, List.singleton_append,
        findIdx_newline hbody', List.length_reverse, Nat.add_comm]

/-- From the start of a file to the newline of its first line. -/
theorem first_line_window (entry : Entry) (hline : entry.text.length ≤ dataSize)
    (rest : List UInt8) :
    ((entry.text ++ rest).take dataSize).take
      (1 + ((entry.text ++ rest).take dataSize).tail.findIdx (· == newline) + 1) =
        entry.text := by
  have hleast := entry.le_length_text
  obtain ⟨body, htext, hbody⟩ := entry.text_eq
  obtain ⟨char, body', rfl⟩ : ∃ char body', body = char :: body' := by
    cases body with
    | nil => simp [htext] at hleast
    | cons char body' => exact ⟨char, body', rfl⟩
  have hwindow : (entry.text ++ rest).take dataSize =
      char :: (body' ++ newline :: rest.take (dataSize - entry.text.length)) := by
    have hshape (tail : List UInt8) :
        entry.text ++ tail = char :: (body' ++ newline :: tail) := by
      rw [htext, List.append_assoc]
      rfl
    rw [List.take_append, List.take_of_length_le hline]
    exact hshape _
  have hbody' : newline ∉ body' := fun hmem => hbody (List.mem_cons_of_mem _ hmem)
  rw [hwindow, List.tail_cons, findIdx_newline hbody', htext, Nat.add_comm 1, List.take_succ_cons,
    List.take_length_add_append]
  rfl

theorem length_bytes (log : Journal) : log.bytes.length = log.start log.last + log.size log.last := by
  have hle := log.start_mono (Nat.le_succ log.last)
  rw [← start_count, count_eq, size, Nat.add_sub_cancel' hle]

/-- `init_lfs` reads the stamps of the first and the last line, and where the last starts, if
the two are short enough. -/
theorem initLfs_ends (hfront : log.size 0 ≤ dataSize) (hback : log.size log.last ≤ dataSize) :
    initLfs log.bytes =
      some ⟨0, log.start log.last, log.stamp 0, log.stamp log.last, log.bytes.length⟩ := by
  have hlast := log.last_lt
  have hzero : 0 < log.count := Nat.lt_of_le_of_lt (Nat.zero_le _) hlast
  rw [size_eq hzero] at hfront
  rw [size_eq hlast] at hback
  have hfirst := drop_start hzero
  rw [start_zero, List.drop_zero] at hfirst
  obtain ⟨data, hdata, hindex⟩ := last_line_window (log.entries.get ⟨log.last, hlast⟩)
    hback (flatMap_text_eq (log.entries.take log.last))
  rw [← log.bytes_eq] at hdata
  have hwindow := (tail_window log.bytes).trans hdata
  have hloff : log.bytes.length - (log.entries.get ⟨log.last, hlast⟩).text.length =
      log.start log.last := by
    rw [length_bytes, size_eq hlast, Nat.add_sub_cancel]
  have hscan := scanHex_text (log.entries.get ⟨log.last, hlast⟩) []
  have hscan' := scanHex_text (log.entries.get ⟨0, hzero⟩) []
  rw [List.append_nil] at hscan hscan'
  have hwindow' := first_line_window (log.entries.get ⟨0, hzero⟩) hfront
    (log.bytes.drop (log.start 1))
  rw [← hfirst] at hwindow'
  have hcut : (data ++ (log.entries.get ⟨log.last, hlast⟩).text).length -
      (log.entries.get ⟨log.last, hlast⟩).text.length = data.length := by
    rw [List.length_append, Nat.add_sub_cancel]
  simp only [initLfs, hwindow, hindex, hcut, List.drop_left, hscan, Option.bind_some, hwindow',
    hscan', Option.map_some, hloff, stamp_eq hlast, stamp_eq hzero]

theorem initLfs_spec (hshort : log.Short dataSize) :
    initLfs log.bytes =
      some ⟨0, log.start log.last, log.stamp 0, log.stamp log.last, log.bytes.length⟩ := by
  have hsize := short_iff.mp hshort
  have hlast := log.last_lt
  exact initLfs_ends (hsize 0 (Nat.lt_of_le_of_lt (Nat.zero_le _) hlast)) (hsize log.last hlast)

/-- In a longer last line `init_lfs` finds no newline, and takes all that it has read. -/
theorem initLfs_long (hlong : dataSize < log.size log.last) {plfs : LfsCtx}
    (h : initLfs log.bytes = some plfs) : plfs.loff = log.bytes.length - dataSize := by
  have hlast := log.last_lt
  have hlength := log.length_bytes
  have hwindow : 0 < dataSize := by decide
  obtain ⟨body, htext, hbody⟩ := (log.entries.get ⟨log.last, hlast⟩).text_eq
  rw [size_eq hlast, htext, List.length_append, List.length_singleton] at hlong hlength
  have hdrop : log.bytes.drop (log.bytes.length - dataSize) =
      body.drop (body.length + 1 - dataSize) ++ [newline] := by
    have hsplit : log.bytes.length - dataSize =
        log.start log.last + (body.length + 1 - dataSize) := by
      omega
    rw [hsplit, ← List.drop_drop, drop_start hlast, ← count_eq, start_count, List.drop_length,
      List.append_nil, htext, List.drop_append_of_le_length (by omega)]
  have hindex : 1 + (body.drop (body.length + 1 - dataSize) ++ [newline]).reverse.tail.findIdx
      (· == newline) = dataSize := by
    rw [List.reverse_append, List.reverse_singleton, List.singleton_append, List.tail_cons,
      findIdx_no_newline (fun hmem => hbody (List.mem_of_mem_drop (List.mem_reverse.mp hmem))),
      List.length_reverse, List.length_drop]
    omega
  simp only [initLfs, (tail_window log.bytes).trans hdrop, hindex, Option.bind_eq_some_iff,
    Option.map_eq_some_iff] at h
  obtain ⟨lt, -, ft, -, rfl⟩ := h
  rfl

end Journal

namespace Log

variable {log : Log} {t : UInt64}

/-- The window from line `f` to line `l` is halved. -/
def wide (log : Log) (f l : Nat) : Prop :=
  log.start f + (dataSize - 1) ≤ log.start l ∧ 3 < log.stamp l - log.stamp f

/-- The line at which it is halved. -/
def probe (log : Log) (f l : Nat) : Nat := log.lineFrom ((log.start f + log.start l) / 2)

/-- Strictly between the first and the last stamp `getSeqPosition` bisects the file. -/
theorem getSeqPosition_between (hft : log.stamp 0 < t) (hlt : t < log.stamp log.last) :
    ∃ r ≤ log.last, Bisect.Finds log.stamp log.probe log.wide log.count t 0 log.last r ∧
      getSeqPosition log.bytes t (log.stamp 0) (log.stamp log.last) 0 (log.start log.last) =
        some ⟨log.start r, some (log.stamp r)⟩ := by
  have hstamp : log.journal.stamp = log.stamp := funext log.journal_stamp
  have hprobe : log.journal.probe = log.probe := by
    funext f l
    simp [Journal.probe, probe]
  have hwide : log.journal.wide = log.wide := by
    funext f l
    simp [Journal.wide, wide]
  obtain ⟨r, hr, hfinds, hresult, -⟩ := Journal.getSeqPosition_between (t := t)
    log.journal_short log.journal_ordered (by simpa using hft) (by simpa using hlt)
  rw [hstamp, hprobe, hwide, journal_count, journal_last] at hfinds
  exact ⟨r, by simpa using hr, hfinds, by simpa using hresult⟩

theorem initLfs_spec (log : Log) :
    initLfs log.bytes =
      some ⟨0, log.start log.last, log.stamp 0, log.stamp log.last, log.bytes.length⟩ := by
  have hshort : log.journal.Short dataSize :=
    fun entry hentry => Nat.le_trans (log.journal_short entry hentry) (by decide)
  simpa using Journal.initLfs_spec hshort

end Log

/-- A line of 410 bytes. -/
def paddedLine (stamp : UInt64) (hprinted : (printHex stamp).length = 8) : Line where
  stamp
  payload := List.replicate 400 97
  noNewline := fun h => absurd (List.eq_of_mem_replicate h) (by decide)
  short := by
    rw [lineText, List.length_append, hprinted, List.length_cons, List.length_append,
      List.length_replicate, List.length_singleton]
    decide

theorem length_paddedLine (stamp : UInt64) (hprinted : (printHex stamp).length = 8) :
    (paddedLine stamp hprinted).text.length = 410 := by
  rw [Line.text, paddedLine, lineText, List.length_append, hprinted, List.length_cons,
    List.length_append, List.length_replicate, List.length_singleton]

/-- Four such lines, stamped 1, 4, 6 and 9. -/
def fourLines : Log where
  lines := [paddedLine 1 (by decide), paddedLine 4 (by decide), paddedLine 6 (by decide),
    paddedLine 9 (by decide)]
  nonempty := List.cons_ne_nil _ _
  sorted := by simp [paddedLine, -List.reduceReplicate]
  small := by
    simp only [List.flatMap_cons, List.flatMap_nil, List.length_append, length_paddedLine,
      List.length_nil]
    decide

/-- The search in them halves the file. -/
theorem fourLines_wide : fourLines.wide 0 fourLines.last := by
  have hstart : fourLines.start fourLines.last = 1230 := by
    simp [Log.start, Records.offset, Log.last, Log.count, fourLines, length_paddedLine]
  refine ⟨?_, by decide⟩
  rw [hstart, dataSize]
  exact Nat.le_of_ble_eq_true rfl

end EventLoop.LogFile
