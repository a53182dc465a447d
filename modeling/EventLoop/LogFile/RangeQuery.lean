import EventLoop.LogFile.Search

/-!
Which range `filter1` selects. `soff` is right if the search for `st` reaches the first
line stamped `st`; `eoff` is that of `et + 1` if `et` occurs, and otherwise that of `et`,
which names the first line behind the range, unless its stamp is the last one.
-/

namespace EventLoop.LogFile

open MonotoneSplit

/-- The end of the range: `filter1` behind the search for `st`. -/
def filterStop (file : List UInt8) (plfs : LfsCtx) (et : UInt64) : Option Int :=
  let search (t : UInt64) := getSeqPosition file t plfs.ft plfs.lt plfs.foff plfs.loff
  let stop : Option Found :=
    if plfs.lt < et then some ⟨plfs.fileSize, some et⟩
    else if plfs.lt ≤ et then some ⟨plfs.loff, some plfs.lt⟩
    else search et
  stop.bind (fun stop =>
    let met := stop.mt.getD 0
    if met = plfs.lt then some plfs.fileSize
    else if met = et then (search (et + 1)).map Found.off
    else some stop.off)

def filterStart (file : List UInt8) (plfs : LfsCtx) (st : UInt64) : Option Int :=
  (if st < plfs.ft then some ⟨plfs.foff, some plfs.ft⟩
    else getSeqPosition file st plfs.ft plfs.lt plfs.foff plfs.loff).map Found.off

theorem filter1_eq (file : List UInt8) (plfs : LfsCtx) (st et : UInt64) :
    filter1 file plfs st et =
      (filterStart file plfs st).bind (fun soff =>
        (filterStop file plfs et).map (fun eoff => (soff, eoff))) := by
  rw [filter1, filterStart, Option.bind_map]
  congr 1
  funext start
  simp only [Function.comp_apply, filterStop, Option.map_bind]
  congr 1
  funext stop
  simp only [apply_ite (Option.map _), Option.map_some, Option.map_map]
  rfl

namespace LfsCtx

variable {plfs : LfsCtx} {file : List UInt8} {et t : UInt64}

theorem getSeqPosition_behind (hspan : plfs.ft ≤ plfs.lt) (h : plfs.lt < t) :
    getSeqPosition file t plfs.ft plfs.lt plfs.foff plfs.loff = some ⟨0xFFFFFFFE, none⟩ := by
  rw [getSeqPosition, if_neg (not_lt.mpr (le_trans hspan (le_of_lt h))), if_pos h]

/-- Up to the first stamp `getSeqPosition` reads nothing. -/
theorem getSeqPosition_le_first (hspan : plfs.ft ≤ plfs.lt) (h : t ≤ plfs.ft) :
    ∃ found, getSeqPosition file t plfs.ft plfs.lt plfs.foff plfs.loff = some found ∧
      (found.off = -1 ∨ found.off = plfs.foff) := by
  rcases eq_or_lt_of_le h with rfl | hlt
  · refine ⟨⟨plfs.foff, some plfs.ft⟩, ?_, .inr rfl⟩
    rw [getSeqPosition, if_neg (lt_irrefl _), if_neg (not_lt.mpr hspan), if_pos rfl]
  · exact ⟨⟨-1, none⟩, if_pos hlt, .inl rfl⟩

theorem filterStart_behind (hspan : plfs.ft ≤ plfs.lt) (h : plfs.lt < t) :
    filterStart file plfs t = some 0xFFFFFFFE := by
  rw [filterStart, if_neg (not_lt.mpr (le_trans hspan (le_of_lt h))), getSeqPosition_behind hspan h]
  rfl

theorem lt_max_of_ne (h : t ≠ 0xFFFFFFFFFFFFFFFF) : t < 0xFFFFFFFFFFFFFFFF := by
  rw [UInt64.lt_iff_toNat_lt]
  have hne : t.toNat ≠ (0xFFFFFFFFFFFFFFFF : UInt64).toNat := fun heq => h (UInt64.toNat_inj.mp heq)
  have htop := t.toNat_lt
  have hval : (0xFFFFFFFFFFFFFFFF : UInt64).toNat = 2 ^ 64 - 1 := rfl
  omega

/-- `filter1` seeks the end at `et + 1`, which may wrap around to the front of the file. -/
theorem filterStop_behind (hspan : plfs.ft ≤ plfs.lt) (h : plfs.lt < et) :
    ∃ eoff, filterStop file plfs et = some eoff ∧
      ((et = 0xFFFFFFFFFFFFFFFF ∧ (eoff = -1 ∨ eoff = plfs.foff)) ∨
        (et ≠ 0xFFFFFFFFFFFFFFFF ∧ eoff = 0xFFFFFFFE)) := by
  have hstop : filterStop file plfs et =
      (getSeqPosition file (et + 1) plfs.ft plfs.lt plfs.foff plfs.loff).map Found.off := by
    rw [filterStop, if_pos h]
    simp only [Option.bind_some, Option.getD_some, if_neg (ne_of_gt h), if_true]
  by_cases hmax : et = 0xFFFFFFFFFFFFFFFF
  · have hzero : et + 1 ≤ plfs.ft := by
      rw [hmax, UInt64.le_iff_toNat_le]
      exact Nat.zero_le _
    obtain ⟨found, hfound, hoff⟩ := @getSeqPosition_le_first plfs file _ hspan hzero
    exact ⟨found.off, by rw [hstop, hfound]; rfl, .inl ⟨hmax, hoff⟩⟩
  · have hbehind : plfs.lt < et + 1 := by
      have hlt := lt_max_of_ne hmax
      rw [UInt64.lt_iff_toNat_lt] at h hlt ⊢
      have hval : (0xFFFFFFFFFFFFFFFF : UInt64).toNat = 2 ^ 64 - 1 := rfl
      rw [UInt64.toNat_add, UInt64.toNat_one, Nat.mod_eq_of_lt (by omega)]
      omega
    exact ⟨0xFFFFFFFE, by rw [hstop, getSeqPosition_behind hspan hbehind]; rfl, .inr ⟨hmax, rfl⟩⟩

end LfsCtx

namespace Log

variable {log : Log} {st et t : UInt64} {a b r : Nat}

/-- What `init_lfs` makes of the file. -/
def ctx (log : Log) : LfsCtx :=
  ⟨0, log.start log.last, log.stamp 0, log.stamp log.last, log.bytes.length⟩

/-- `getSeqPosition` gets to the first of the lines stamped `t`. -/
def FirstReached (log : Log) (t : UInt64) : Prop :=
  if t = log.stamp log.last then ∀ k < log.last, log.stamp k < t
  else ¬ Bisect.HaltsInside log.stamp log.probe log.wide t 0 log.last

def StartExact (log : Log) (st : UInt64) : Prop := st ≤ log.stamp 0 ∨ log.FirstReached st

/-- The range ends where it should: with the file; or, for an `et` that occurs, at the first
line stamped `et + 1`; or, for one that does not, at a stamp that is not the last. -/
def EndExact (log : Log) (et : UInt64) : Prop :=
  et = log.stamp log.last ∨
    (log.stamp log.last < et ∧ et ≠ 0xFFFFFFFFFFFFFFFF ∧ log.bytes.length ≠ 0xFFFFFFFF) ∨
    (et < log.stamp log.last ∧
      if ∃ k < log.count, log.stamp k = et then log.FirstReached (et + 1)
      else ∃ k < log.count, et < log.stamp k ∧ log.stamp k < log.stamp log.last)

/-- No line can be in the range, or both ends are exact. -/
def ExactRange (log : Log) (st et : UInt64) : Prop :=
  log.stamp log.last < st ∨ et < log.stamp 0 ∨ (log.StartExact st ∧ log.EndExact et)

/-- From the first to the last stamp `getSeqPosition` ends at the first line that is not
stamped earlier, unless it is at a later one stamped `t`. -/
theorem getSeqPosition_spec (hft : log.stamp 0 ≤ t) (hlt : t ≤ log.stamp log.last) :
    ∃ r ≤ log.last,
      getSeqPosition log.bytes t (log.stamp 0) (log.stamp log.last) 0 (log.start log.last) =
        some ⟨log.start r, some (log.stamp r)⟩ ∧
      (SplitsAt (fun i => log.stamp i < t) log.count r ↔ log.StartExact t) ∧
      (SplitsAt (fun i => log.stamp i < t) log.count r ∨ log.stamp r = t) := by
  have hlast := log.last_lt
  rcases eq_or_lt_of_le hft with heq | hft'
  · have hfirst : SplitsAt (fun i => log.stamp i < t) log.count 0 := by
      refine ⟨Nat.zero_le _, fun i hi => absurd hi (Nat.not_lt_zero i), fun i hi _ => ?_⟩
      rw [not_lt, ← heq]
      exact log.stamp_monotone hi
    refine ⟨0, Nat.zero_le _, ?_, iff_of_true hfirst (.inl (le_of_eq heq.symm)), .inl hfirst⟩
    rw [getSeqPosition, if_neg (not_lt.mpr hft), if_neg (not_lt.mpr hlt), if_pos heq.symm, heq,
      start_zero]
  · rcases eq_or_lt_of_le hlt with heq | hlt'
    · refine ⟨log.last, Nat.le_refl _, ?_, ?_, .inr heq.symm⟩
      · rw [getSeqPosition, if_neg (not_lt.mpr hft), if_neg (not_lt.mpr hlt),
          if_neg (ne_of_gt hft'), if_pos heq]
      · rw [StartExact, FirstReached, if_pos heq, or_iff_right (not_le.mpr hft')]
        constructor
        · exact fun hfirst => hfirst.below
        · intro hbelow
          refine ⟨Nat.le_of_lt hlast, hbelow, fun i hi _ => ?_⟩
          rw [not_lt, heq]
          exact log.stamp_monotone hi
    · obtain ⟨r, hr, hfinds, hresult⟩ := getSeqPosition_between hft' hlt'
      refine ⟨r, hr, hresult, ?_, hfinds.first_or_eq⟩
      rw [StartExact, FirstReached, if_neg (ne_of_lt hlt'), or_iff_right (not_le.mpr hft')]
      exact hfinds.first_iff log.stamp_monotone (by omega)

theorem filterStart_spec (hlt : st ≤ log.stamp log.last) :
    ∃ r ≤ log.last, filterStart log.bytes log.ctx st = some (log.start r : Int) ∧
      (SplitsAt (fun i => log.stamp i < st) log.count r ↔ log.StartExact st) ∧
      (SplitsAt (fun i => log.stamp i < st) log.count r ∨ log.stamp r = st) := by
  rcases lt_or_ge st (log.stamp 0) with hft | hft
  · have hfirst : SplitsAt (fun i => log.stamp i < st) log.count 0 := by
      refine ⟨Nat.zero_le _, fun i hi => absurd hi (Nat.not_lt_zero i), fun i hi _ => ?_⟩
      exact lt_asymm (lt_of_lt_of_le hft (log.stamp_monotone hi))
    refine ⟨0, Nat.zero_le _, ?_, iff_of_true hfirst (.inl (le_of_lt hft)), .inl hfirst⟩
    rw [filterStart, ctx, if_pos hft]
    rfl
  · obtain ⟨r, hr, hresult, hexact, hfound⟩ := getSeqPosition_spec hft hlt
    refine ⟨r, hr, ?_, hexact, hfound⟩
    rw [filterStart, ctx, if_neg (not_lt.mpr hft), hresult]
    rfl

theorem lt_add_one_iff {bound : UInt64} (h : et < bound) : t < et + 1 ↔ t ≤ et := by
  have hbound := bound.toNat_lt
  rw [UInt64.lt_iff_toNat_lt] at h ⊢
  rw [UInt64.le_iff_toNat_le, UInt64.toNat_add, UInt64.toNat_one, Nat.mod_eq_of_lt (by omega)]
  omega

theorem add_one_le_iff {bound : UInt64} (h : et < bound) : et + 1 ≤ t ↔ et < t := by
  rw [← not_lt, lt_add_one_iff h, not_le]

theorem stop_exists (log : Log) (et : UInt64) :
    ∃ b, SplitsAt (fun i => log.stamp i ≤ et) log.count b := by
  apply exists_splitsAt
  exact fun i j hij _ hj => le_trans (log.stamp_monotone hij) hj

theorem ctx_span (log : Log) : log.ctx.ft ≤ log.ctx.lt := log.stamp_monotone (Nat.zero_le _)

/-- Up to the first stamp, nothing of the file stands before the position. -/
theorem getSeqPosition_le_first (h : t ≤ log.stamp 0) :
    ∃ found, getSeqPosition log.bytes t (log.stamp 0) (log.stamp log.last) 0
      (log.start log.last) = some found ∧ found.off.toNat = 0 := by
  obtain ⟨found, hfound, hoff | hoff⟩ :=
    @LfsCtx.getSeqPosition_le_first log.ctx log.bytes t log.ctx_span h
  · exact ⟨found, hfound, by rw [hoff]; rfl⟩
  · exact ⟨found, hfound, by rw [hoff]; rfl⟩

/-- Behind the last stamp the end is sought at `et + 1`, which may wrap around. -/
theorem filterStop_behind (h : log.stamp log.last < et) :
    ∃ eoff, filterStop log.bytes log.ctx et = some eoff ∧
      ((et = 0xFFFFFFFFFFFFFFFF ∧ eoff.toNat = 0) ∨
        (et ≠ 0xFFFFFFFFFFFFFFFF ∧ eoff = 0xFFFFFFFE)) := by
  obtain ⟨eoff, hstop, ⟨hmax, hoff⟩ | hother⟩ :=
    @LfsCtx.filterStop_behind log.ctx log.bytes et log.ctx_span h
  · refine ⟨eoff, hstop, .inl ⟨hmax, ?_⟩⟩
    rcases hoff with hoff | hoff <;> rw [hoff] <;> rfl
  · exact ⟨eoff, hstop, .inr hother⟩

theorem filterStop_before (h : et < log.stamp 0) :
    ∃ eoff, filterStop log.bytes log.ctx et = some eoff ∧ eoff.toNat = 0 := by
  have hlt : et < log.stamp log.last := lt_of_lt_of_le h (log.stamp_monotone (Nat.zero_le _))
  have hlast : (0 : UInt64) ≠ log.stamp log.last := by
    intro heq
    rw [← heq, UInt64.lt_iff_toNat_lt] at hlt
    exact absurd hlt (Nat.not_lt_zero _)
  have hsearch : getSeqPosition log.bytes et (log.stamp 0) (log.stamp log.last) 0
      (log.start log.last) = some ⟨-1, none⟩ := if_pos h
  obtain ⟨found, hfound, hoff⟩ := getSeqPosition_le_first ((add_one_le_iff h).mpr h)
  simp only [filterStop, ctx, if_neg (lt_asymm hlt), if_neg (not_le.mpr hlt), hsearch,
    Option.bind_some, Option.getD_none, if_neg hlast, hfound, Option.map_some]
  split
  · exact ⟨found.off, rfl, hoff⟩
  · exact ⟨-1, rfl, rfl⟩

/-- For an `et` that occurs before the last stamp, the end is sought at `et + 1`. -/
theorem filterStop_present (hft : log.stamp 0 ≤ et) (hlt : et < log.stamp log.last)
    (hoccurs : ∃ k < log.count, log.stamp k = et) :
    ∃ r ≤ log.last, filterStop log.bytes log.ctx et = some (log.start r : Int) ∧
      (SplitsAt (fun i => log.stamp i ≤ et) log.count r ↔ log.FirstReached (et + 1)) ∧
      et < log.stamp r := by
  have hlast := log.last_lt
  obtain ⟨k, hk, hsame⟩ := hoccurs
  obtain ⟨r, hr, hresult, -, hfound⟩ := getSeqPosition_spec hft (le_of_lt hlt)
  have hmet : log.stamp r = et := by
    rcases hfound with hfirst | heq
    · apply le_antisymm
      · rw [← hsame]
        exact log.stamp_monotone (hfirst.le_of_not (r := k) (by rw [hsame]; exact lt_irrefl et))
      · exact not_lt.mp (hfirst.above r (Nat.le_refl r) (by omega))
    · exact heq
  have hft' : log.stamp 0 < et + 1 := (lt_add_one_iff hlt).mpr hft
  obtain ⟨r', hr', hresult', hexact, hfound'⟩ :=
    getSeqPosition_spec (le_of_lt hft') ((add_one_le_iff hlt).mpr hlt)
  refine ⟨r', hr', ?_, ?_, ?_⟩
  · simp only [filterStop, ctx, if_neg (lt_asymm hlt), if_neg (not_le.mpr hlt), hresult,
      Option.bind_some, Option.getD_some, hmet, if_neg (ne_of_lt hlt), if_true, hresult',
      Option.map_some]
  · rw [StartExact, or_iff_right (not_le.mpr hft')] at hexact
    simp only [lt_add_one_iff hlt] at hexact
    exact hexact
  · rw [← add_one_le_iff hlt]
    rcases hfound' with hfirst | heq
    · exact not_lt.mp (hfirst.above r' (Nat.le_refl r') (by omega))
    · exact le_of_eq heq.symm

/-- For one that does not occur, its own search names the first line behind it, and the file
size is taken if that line is stamped as the last one. -/
theorem filterStop_absent (hft : log.stamp 0 ≤ et) (hlt : et < log.stamp log.last)
    (habsent : ¬ ∃ k < log.count, log.stamp k = et) :
    ∃ r ≤ log.last, SplitsAt (fun i => log.stamp i ≤ et) log.count r ∧
      filterStop log.bytes log.ctx et =
        some (if log.stamp r = log.stamp log.last then log.bytes.length else log.start r : Nat) := by
  have hlast := log.last_lt
  obtain ⟨r, hr, hresult, -, hfound⟩ := getSeqPosition_spec hft (le_of_lt hlt)
  have hne {k : Nat} (hk : k < log.count) : log.stamp k ≠ et := fun heq => habsent ⟨k, hk, heq⟩
  have hfirst := hfound.resolve_right (hne (by omega))
  refine ⟨r, hr, ⟨hfirst.le, fun i hi => le_of_lt (hfirst.below i hi), fun i hri hi hle => ?_⟩, ?_⟩
  · exact hfirst.above i hri hi (lt_of_le_of_ne hle (hne hi))
  · simp only [filterStop, ctx, if_neg (lt_asymm hlt), if_neg (not_le.mpr hlt), hresult,
      Option.bind_some, Option.getD_some]
    split
    · rfl
    · rw [if_neg (hne (by omega))]
      rfl

/-- The range ends at a line no earlier than the first one behind `et`, and exactly there if
it should; or the file lacks its end. -/
def EndsAt (log : Log) (et : UInt64) (eoff : Int) (b : Nat) : Prop :=
  (∃ b', b ≤ b' ∧ b' ≤ log.count ∧ log.bytes.take eoff.toNat = log.bytes.take (log.start b') ∧
      (b' = b ↔ log.EndExact et)) ∨
    (b = log.count ∧ ¬ log.EndExact et ∧ eoff.toNat < log.bytes.length)

theorem endsAt_file (hcount : b ≤ log.count) (hexact : b = log.count ↔ log.EndExact et) :
    log.EndsAt et log.bytes.length b := by
  refine .inl ⟨log.count, hcount, Nat.le_refl _, ?_, eq_comm.trans hexact⟩
  rw [start_count]
  rfl

/-- Up to the last stamp, the end is exact if what it depends on is. -/
theorem endExact_iff (hlt : et < log.stamp log.last) : log.EndExact et ↔
    if ∃ k < log.count, log.stamp k = et then log.FirstReached (et + 1)
    else ∃ k < log.count, et < log.stamp k ∧ log.stamp k < log.stamp log.last := by
  rw [EndExact, or_iff_right (ne_of_lt hlt), or_iff_right (fun h => lt_asymm hlt h.1),
    and_iff_right hlt]

theorem endsAt_present (hft : log.stamp 0 ≤ et) (hlt : et < log.stamp log.last)
    (hoccurs : ∃ k < log.count, log.stamp k = et) :
    ∃ eoff b, filterStop log.bytes log.ctx et = some eoff ∧
      SplitsAt (fun i => log.stamp i ≤ et) log.count b ∧ log.EndsAt et eoff b := by
  have hlast := log.last_lt
  obtain ⟨r, hr, hresult, hreached, hbehind⟩ := filterStop_present hft hlt hoccurs
  obtain ⟨b, hb⟩ := log.stop_exists et
  refine ⟨log.start r, b, hresult, hb, .inl ⟨r, ?_, by omega, rfl, ?_⟩⟩
  · exact hb.le_of_not (not_le.mpr hbehind)
  · rw [endExact_iff hlt, if_pos hoccurs, ← hreached]
    constructor
    · rintro rfl
      exact hb
    · exact fun hr => hr.unique hb

theorem endsAt_absent (hft : log.stamp 0 ≤ et) (hlt : et < log.stamp log.last)
    (habsent : ¬ ∃ k < log.count, log.stamp k = et) :
    ∃ eoff b, filterStop log.bytes log.ctx et = some eoff ∧
      SplitsAt (fun i => log.stamp i ≤ et) log.count b ∧ log.EndsAt et eoff b := by
  have hlast := log.last_lt
  obtain ⟨r, hr, hfirst, hresult⟩ := filterStop_absent hft hlt habsent
  have hbehind : et < log.stamp r := not_le.mp (hfirst.above r (Nat.le_refl r) (by omega))
  refine ⟨_, r, hresult, hfirst, ?_⟩
  split
  · rename_i hsame
    apply endsAt_file hfirst.le
    rw [endExact_iff hlt, if_neg habsent]
    refine iff_of_false (by omega) ?_
    rintro ⟨k, -, hk, hk'⟩
    apply not_le.mpr hk'
    rw [← hsame]
    exact log.stamp_monotone (hfirst.le_of_not (not_le.mpr hk))
  · rename_i hother
    refine .inl ⟨r, Nat.le_refl r, by omega, rfl, iff_of_true rfl ?_⟩
    rw [endExact_iff hlt, if_neg habsent]
    exact ⟨r, by omega, hbehind, lt_of_le_of_ne (log.stamp_monotone hr) hother⟩

/-- From the last stamp on, every line is stamped no later. -/
theorem splitsAt_count (h : log.stamp log.last ≤ et) :
    SplitsAt (fun i => log.stamp i ≤ et) log.count log.count := by
  refine ⟨Nat.le_refl _, fun i hi => ?_, fun i hle hi => absurd hi (Nat.not_lt.mpr hle)⟩
  rw [log.count_eq] at hi
  exact le_trans (log.stamp_monotone (Nat.le_of_lt_succ hi)) h

theorem endsAt_last (heq : et = log.stamp log.last) :
    filterStop log.bytes log.ctx et = some (log.bytes.length : Int) ∧
      log.EndsAt et log.bytes.length log.count := by
  have hne : ¬ log.ctx.lt < et := by
    rw [heq]
    exact lt_irrefl _
  have hle : log.ctx.lt ≤ et := le_of_eq heq.symm
  refine ⟨?_, endsAt_file (Nat.le_refl _) (iff_of_true rfl (.inl heq))⟩
  rw [filterStop, if_neg hne, if_pos hle]
  simp only [Option.bind_some, Option.getD_some, if_true]
  rfl

theorem endsAt_behind (hgt : log.stamp log.last < et) :
    ∃ eoff, filterStop log.bytes log.ctx et = some eoff ∧ log.EndsAt et eoff log.count := by
  have hexact : log.EndExact et ↔
      et ≠ 0xFFFFFFFFFFFFFFFF ∧ log.bytes.length ≠ 0xFFFFFFFF := by
    rw [EndExact, or_iff_right (ne_of_gt hgt), or_iff_left (fun h => lt_asymm hgt h.1),
      and_iff_right hgt]
  have hsize : log.bytes.length < 2 ^ 32 := log.small
  have hlast := log.last_lt
  have hpos := log.le_start (Nat.le_refl _)
  rw [start_count] at hpos
  obtain ⟨eoff, hresult, ⟨hmax, hoff⟩ | ⟨hmax, rfl⟩⟩ := filterStop_behind hgt
  · refine ⟨eoff, hresult, .inr ⟨rfl, ?_, by omega⟩⟩
    rw [hexact]
    exact fun h => h.1 hmax
  · refine ⟨_, hresult, ?_⟩
    have hoff : (0xFFFFFFFE : Int).toNat = 0xFFFFFFFE := rfl
    by_cases hfull : log.bytes.length = 0xFFFFFFFF
    · refine .inr ⟨rfl, ?_, by omega⟩
      rw [hexact]
      exact fun h => h.2 hfull
    · refine .inl ⟨log.count, Nat.le_refl _, Nat.le_refl _, ?_, iff_of_true rfl ?_⟩
      · rw [start_count, List.take_length, hoff, List.take_of_length_le (by omega)]
      · exact hexact.mpr ⟨hmax, hfull⟩

theorem filterStop_spec (hft : log.stamp 0 ≤ et) :
    ∃ eoff b, filterStop log.bytes log.ctx et = some eoff ∧
      SplitsAt (fun i => log.stamp i ≤ et) log.count b ∧ log.EndsAt et eoff b := by
  rcases lt_trichotomy et (log.stamp log.last) with hlt | heq | hgt
  · by_cases hoccurs : ∃ k < log.count, log.stamp k = et
    · exact endsAt_present hft hlt hoccurs
    · exact endsAt_absent hft hlt hoccurs
  · obtain ⟨hresult, hends⟩ := endsAt_last heq
    exact ⟨_, _, hresult, splitsAt_count (le_of_eq heq.symm), hends⟩
  · obtain ⟨eoff, hresult, hends⟩ := endsAt_behind hgt
    exact ⟨eoff, _, hresult, splitsAt_count (le_of_lt hgt), hends⟩

theorem selected_eq (ha : SplitsAt (fun i => log.stamp i < st) log.count a)
    (hb : SplitsAt (fun i => log.stamp i ≤ et) log.count b) :
    log.selected st et = (log.lines.take b).drop a := by
  apply Records.filter_eq_drop_take
  intro k hk
  rw [decide_eq_true_eq, ← stamp_eq hk, ← hb.lt_iff hk, ← not_lt, ← ha.lt_iff hk, not_lt]

theorem selected_text (ha : SplitsAt (fun i => log.stamp i < st) log.count a)
    (hb : SplitsAt (fun i => log.stamp i ≤ et) log.count b) :
    (log.selected st et).flatMap Line.text =
      (log.bytes.take (log.start b)).drop (log.start a) := by
  rw [selected_eq ha hb]
  exact (Records.drop_take_flatMap Line.text log.lines a b).symm

/-- A start inside the run of `st` lies behind a line of the range. -/
theorem start_of_empty (ha : SplitsAt (fun i => log.stamp i < st) log.count a)
    (hb : SplitsAt (fun i => log.stamp i ≤ et) log.count b) (h : st ≤ et) (hr : r ≤ log.last)
    (hfound : SplitsAt (fun i => log.stamp i < st) log.count r ∨ log.stamp r = st)
    (hempty : b ≤ a) : r = a := by
  rcases hfound with hfirst | heq
  · exact hfirst.unique ha
  · have hle : a ≤ r := ha.le_of_not (by rw [heq]; exact lt_irrefl st)
    have hin : log.stamp a ≤ et := by
      refine le_trans ?_ h
      rw [← heq]
      exact log.stamp_monotone hle
    have hlast := log.last_lt
    exact absurd ((hb.lt_iff (by omega)).mpr hin) (Nat.not_lt_of_le hempty)

/-- Lines that are in the range end before it ends. -/
theorem end_le_of_lines_eq (ha : SplitsAt (fun i => log.stamp i < st) log.count a)
    (hb : SplitsAt (fun i => log.stamp i ≤ et) log.count b) {b' : Nat} (hb' : b' ≤ log.count)
    (hin : r < b') (hlines : (log.lines.take b').drop r = (log.lines.take b).drop a) : b' ≤ b := by
  apply Nat.le_of_not_lt
  intro hlt
  have hk : b' - 1 < log.count := by omega
  have hmem : log.lines.get ⟨b' - 1, hk⟩ ∈ (log.lines.take b').drop r := by
    rw [List.mem_drop_iff_getElem]
    have hlength : (log.lines.take b').length = b' := by
      rw [List.length_take]
      exact Nat.min_eq_left hb'
    refine ⟨b' - 1 - r, by omega, ?_⟩
    simp only [List.getElem_take, List.get_eq_getElem]
    congr 1
    omega
  rw [hlines, ← selected_eq ha hb] at hmem
  have hle := (of_decide_eq_true (List.mem_filter.mp hmem).2).2
  rw [← stamp_eq hk] at hle
  exact hb.above (b' - 1) (by omega) hk hle

/-- Between the stamps of the file the range is exact if both its ends are. -/
theorem clipped_iff {eoff : Int} (ha : SplitsAt (fun i => log.stamp i < st) log.count a)
    (hb : SplitsAt (fun i => log.stamp i ≤ et) log.count b) (h : st ≤ et) (hr : r ≤ log.last)
    (hfound : SplitsAt (fun i => log.stamp i < st) log.count r ∨ log.stamp r = st)
    (hends : log.EndsAt et eoff b) :
    clipped log.bytes (log.start r) eoff = (log.selected st et).flatMap Line.text ↔
      r = a ∧ log.EndExact et := by
  have hlast := log.last_lt
  have hle : a ≤ r := by
    rcases hfound with hfirst | heq
    · exact Nat.le_of_eq (ha.unique hfirst)
    · exact ha.le_of_not (by rw [heq]; exact lt_irrefl st)
  rw [selected_text ha hb, clipped, Int.toNat_natCast]
  rcases hends with ⟨b', hbb', hb', htake, hexact⟩ | ⟨rfl, hnot, hshort⟩
  · rw [htake, ← hexact]
    constructor
    · intro htext
      rw [start, start, start, start, bytes, Records.drop_take_flatMap,
        Records.drop_take_flatMap] at htext
      have hlines := flatMap_text_inj htext
      have hlength := congrArg List.length hlines
      rw [List.length_drop, List.length_drop, List.length_take, List.length_take] at hlength
      have hcount : log.lines.length = log.count := rfl
      have hempty := start_of_empty ha hb h hr hfound
      have hab : a ≤ b := by
        apply Nat.le_of_not_lt
        intro hlt
        have hcount := ha.le
        exact hb.above b (Nat.le_refl b) (by omega) (le_of_lt (lt_of_lt_of_le (ha.below b hlt) h))
      have hend : b' = b := by
        rcases Nat.lt_or_ge r b' with hin | hout
        · exact Nat.le_antisymm (end_le_of_lines_eq ha hb hb' hin hlines) hbb'
        · have := hb.le
          have hnone := hempty (by omega)
          omega
      refine ⟨?_, hend⟩
      rcases Nat.lt_or_ge a b with hsome | hnone
      · have := hb.le
        omega
      · exact hempty hnone
    · rintro ⟨rfl, rfl⟩
      rfl
  · refine iff_of_false ?_ (fun hboth => hnot hboth.2)
    intro htext
    have hlength := congrArg List.length htext
    rw [List.length_drop, List.length_drop, List.length_take, List.length_take, start_count]
      at hlength
    have hstart := log.start_mono hle
    have hinside := start_lt (Nat.lt_of_le_of_lt (Nat.le_trans hle hr) hlast)
      (Nat.lt_of_le_of_lt (Nat.le_trans hle hr) hlast)
    rw [start_count] at hinside
    omega

theorem selected_eq_nil (hout : ∀ k < log.count, ¬ (st ≤ log.stamp k ∧ log.stamp k ≤ et)) :
    log.selected st et = [] := by
  rw [selected, List.filter_eq_nil_iff]
  intro line hline
  obtain ⟨k, rfl⟩ := List.mem_iff_get.mp hline
  rw [decide_eq_true_eq]
  have hk := hout k.1 k.2
  rwa [stamp_eq k.2] at hk

/-- After `init_lfs`, `filter1(st, et)` selects the lines stamped from `st` to `et`, as
exactly as its searches reach the ends of the range. -/
theorem range_query_exact_iff (log : Log) (st et : UInt64) (h : st ≤ et) :
    ∃ plfs soff eoff, initLfs log.bytes = some plfs ∧
      filter1 log.bytes plfs st et = some (soff, eoff) ∧
      (clipped log.bytes soff eoff = (log.selected st et).flatMap Line.text ↔
        log.ExactRange st et) := by
  rcases lt_or_ge (log.stamp log.last) st with hbehind | hst
  · -- the range lies behind the file
    obtain ⟨eoff, hstop, heoff⟩ := filterStop_behind (lt_of_lt_of_le hbehind h)
    have hstart : filterStart log.bytes log.ctx st = some 0xFFFFFFFE :=
      LfsCtx.filterStart_behind log.ctx_span hbehind
    refine ⟨log.ctx, 0xFFFFFFFE, eoff, log.initLfs_spec, ?_, iff_of_true ?_ (.inl hbehind)⟩
    · rw [filter1_eq, hstart, hstop]
      rfl
    · have hnone : log.selected st et = [] := by
        apply selected_eq_nil
        intro k hk hin
        apply not_le.mpr hbehind
        exact le_trans hin.1 (log.stamp_monotone (by rw [log.count_eq] at hk; omega))
      rw [hnone, List.flatMap_nil, clipped, List.drop_eq_nil_iff, List.length_take]
      rcases heoff with ⟨-, hoff⟩ | ⟨-, rfl⟩
      · omega
      · exact Nat.min_le_left _ _
  · obtain ⟨r, hr, hstart, hexact, hfound⟩ := filterStart_spec hst
    rcases lt_or_ge et (log.stamp 0) with hbefore | hft
    · -- the range lies before the file
      obtain ⟨eoff, hstop, heoff⟩ := filterStop_before hbefore
      refine ⟨log.ctx, log.start r, eoff, log.initLfs_spec, ?_,
        iff_of_true ?_ (.inr (.inl hbefore))⟩
      · rw [filter1_eq, hstart, hstop]
        rfl
      · have hnone : log.selected st et = [] := by
          apply selected_eq_nil
          intro k _ hin
          exact not_le.mpr hbefore (le_trans (log.stamp_monotone (Nat.zero_le k)) hin.2)
        rw [hnone, List.flatMap_nil, clipped, heoff, List.take_zero, List.drop_nil]
    · obtain ⟨eoff, b, hstop, hb, hends⟩ := filterStop_spec hft
      obtain ⟨a, ha⟩ : ∃ a, SplitsAt (fun i => log.stamp i < st) log.count a :=
        exists_splitsAt (fun i j hij _ hj => lt_of_le_of_lt (log.stamp_monotone hij) hj)
      refine ⟨log.ctx, log.start r, eoff, log.initLfs_spec, ?_, ?_⟩
      · rw [filter1_eq, hstart, hstop]
        rfl
      · rw [clipped_iff ha hb h hr hfound hends, ExactRange, or_iff_right (not_lt.mpr hst),
          or_iff_right (not_lt.mpr hft), ← hexact]
        apply and_congr_left
        intro _
        constructor
        · rintro rfl
          exact ha
        · exact fun hr' => hr'.unique ha

end Log

theorem fourLines_stamp (k : Nat) : fourLines.stamp k =
    match k with
    | 0 => 1
    | 1 => 4
    | 2 => 6
    | _ => 9 := by
  match k with
  | 0 | 1 | 2 | 3 | _ + 4 => rfl

/-- No stamp but the last is that of two lines. -/
theorem fourLines_firstReached {t : UInt64} (ht : t ≠ 9) : fourLines.FirstReached t := by
  have hlast : fourLines.stamp fourLines.last = 9 := rfl
  rw [Log.FirstReached, hlast, if_neg ht]
  intro hinside
  obtain ⟨i, j, hij, hi, hj⟩ := hinside.repeats
  rw [← hj, fourLines_stamp] at hi ht
  rw [fourLines_stamp] at hi
  split at hi <;> split at hi <;> first | omega | exact absurd hi (by decide) | simp_all

/-- Both searches halve the file. -/
theorem fourLines_range_query : fourLines.wide 0 fourLines.last ∧
    ∃ plfs soff eoff, initLfs fourLines.bytes = some plfs ∧
      filter1 fourLines.bytes plfs 4 6 = some (soff, eoff) ∧
      clipped fourLines.bytes soff eoff = (fourLines.selected 4 6).flatMap Line.text := by
  obtain ⟨plfs, soff, eoff, hinit, hfilter, hiff⟩ :=
    fourLines.range_query_exact_iff 4 6 (by decide)
  have hend : ∃ k < fourLines.count, fourLines.stamp k = 6 := ⟨2, by decide, rfl⟩
  have hexact : fourLines.ExactRange 4 6 := by
    refine .inr (.inr ⟨.inr (fourLines_firstReached (by decide)), .inr (.inr ⟨by decide, ?_⟩)⟩)
    rw [if_pos hend]
    exact fourLines_firstReached (by decide)
  exact ⟨fourLines_wide, plfs, soff, eoff, hinit, hfilter, hiff.mpr hexact⟩

/-- Two lines, stamped 1 and 5. -/
def twoLines : Log where
  lines := [⟨1, [97], by decide, by decide⟩, ⟨5, [98], by decide, by decide⟩]
  nonempty := List.cons_ne_nil _ _
  sorted := by decide
  small := by decide

/-- No line is stamped 2 to 4: the search for 3 names the line stamped 5, the last stamp, and
the range is taken to the end of the file. -/
theorem filter1_selects_line_behind_range :
    ∃ plfs soff eoff, initLfs twoLines.bytes = some plfs ∧
      filter1 twoLines.bytes plfs 1 3 = some (soff, eoff) ∧
      clipped twoLines.bytes soff eoff ≠ (twoLines.selected 1 3).flatMap Line.text :=
  ⟨⟨0, 11, 1, 5, 22⟩, 0, 22, rfl, rfl, by decide⟩

end EventLoop.LogFile
