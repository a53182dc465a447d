import EventLoop.LogFile.LowerBound
import EventLoop.LogFile.RangeQuery

/-!
Times behind the last stamp. `getSeqPosition` answers them with 0xFFFFFFFE, an offset like
any other in a file of more than 4 GiB, and `filter1` puts that answer in the place of the
file size, since it seeks `et + 1` behind every `et` it has met.
-/

namespace EventLoop.LogFile

/-- What `filter1` stores for times behind the last stamp is no offset within the file. -/
def PastEnd (file : List UInt8) (plfs : LfsCtx) (st et : UInt64) : Prop :=
  (plfs.lt < st → ∃ soff, filterStart file plfs st = some soff ∧ (plfs.fileSize : Int) ≤ soff) ∧
  (plfs.lt < et → ∃ eoff, filterStop file plfs et = some eoff ∧ (plfs.fileSize : Int) ≤ eoff)

/-- The files on which 0xFFFFFFFE is behind the end. -/
def EndReached (plfs : LfsCtx) (st et : UInt64) : Prop :=
  (plfs.lt < st → plfs.fileSize ≤ 0xFFFFFFFE) ∧
  (plfs.lt < et → plfs.fileSize ≤ 0xFFFFFFFE ∧ et ≠ 0xFFFFFFFFFFFFFFFF)

namespace LfsCtx

variable {plfs : LfsCtx} {file : List UInt8} {st et : UInt64}

theorem start_past_iff (hspan : plfs.ft ≤ plfs.lt) (h : plfs.lt < st) :
    (∃ soff, filterStart file plfs st = some soff ∧ (plfs.fileSize : Int) ≤ soff) ↔
      plfs.fileSize ≤ 0xFFFFFFFE := by
  rw [filterStart_behind hspan h]
  constructor
  · rintro ⟨soff, hsoff, hpast⟩
    obtain rfl := Option.some.inj hsoff
    omega
  · intro hsize
    exact ⟨_, rfl, by omega⟩

theorem stop_past_iff (hspan : plfs.ft ≤ plfs.lt) (hfoff : plfs.foff < plfs.fileSize)
    (h : plfs.lt < et) :
    (∃ eoff, filterStop file plfs et = some eoff ∧ (plfs.fileSize : Int) ≤ eoff) ↔
      plfs.fileSize ≤ 0xFFFFFFFE ∧ et ≠ 0xFFFFFFFFFFFFFFFF := by
  obtain ⟨eoff, hstop, hcase⟩ := @filterStop_behind plfs file et hspan h
  have heoff : (∃ eoff, filterStop file plfs et = some eoff ∧ (plfs.fileSize : Int) ≤ eoff) ↔
      (plfs.fileSize : Int) ≤ eoff := by
    constructor
    · rintro ⟨eoff', hstop', hpast⟩
      rwa [Option.some.inj (hstop.symm.trans hstop')]
    · exact fun hpast => ⟨eoff, hstop, hpast⟩
  rw [heoff]
  rcases hcase with ⟨hmax, hoff⟩ | ⟨hmax, rfl⟩
  · -- `et + 1` is 0, and the answer is the front of the file
    refine iff_of_false ?_ (fun hboth => hboth.2 hmax)
    rcases hoff with hoff | hoff <;> omega
  · rw [and_iff_left hmax]
    omega

theorem pastEnd_iff (hspan : plfs.ft ≤ plfs.lt) (hfoff : plfs.foff < plfs.fileSize) :
    PastEnd file plfs st et ↔ EndReached plfs st et :=
  and_congr (forall_congr' (start_past_iff hspan)) (forall_congr' (stop_past_iff hspan hfoff))

end LfsCtx

namespace Journal

/-- On every log whose first and last line `init_lfs` can read, the results behind the last
stamp are past the end of the file exactly on files up to 0xFFFFFFFE bytes, and for the end
of the range only if `et + 1` does not wrap around. -/
theorem past_end_iff (log : Journal) (hordered : log.Ordered) (hfront : log.size 0 ≤ dataSize)
    (hback : log.size log.last ≤ dataSize) (st et : UInt64) :
    ∃ plfs, initLfs log.bytes = some plfs ∧ plfs.fileSize = log.bytes.length ∧
      (PastEnd log.bytes plfs st et ↔ EndReached plfs st et) := by
  refine ⟨_, initLfs_ends hfront hback, rfl, LfsCtx.pastEnd_iff ?_ ?_⟩
  · exact stamp_monotone hordered (Nat.zero_le _)
  · have hcount := log.le_start (Nat.le_refl _)
    rw [start_count, count_eq] at hcount
    exact Nat.lt_of_lt_of_le (Nat.succ_pos _) hcount

end Journal

theorem threeLines_past_end :
    ∃ plfs, initLfs threeLines.bytes = some plfs ∧ plfs.fileSize = threeLines.bytes.length ∧
      (PastEnd threeLines.bytes plfs 7 7 ↔ EndReached plfs 7 7) :=
  threeLines.past_end_iff (by unfold Journal.Ordered; decide) (by decide) (by decide) 7 7

/-- Lines of ten bytes, all stamped 1. -/
def sameLines (n : Nat) : Journal where
  entries := List.replicate (n + 1) ⟨1, [], List.not_mem_nil⟩
  nonempty := List.cons_ne_nil _ _

theorem length_sameLines (n : Nat) : (sameLines n).bytes.length = 10 * (n + 1) := by
  have hline : (⟨1, [], List.not_mem_nil⟩ : Entry).text.length = 10 := by decide
  rw [Journal.bytes, sameLines, List.length_flatMap, List.map_replicate, List.sum_replicate_nat,
    hline, Nat.mul_comm]

theorem stamp_sameLines (n k : Nat) : (sameLines n).stamp k = 1 := by
  have hall : ∀ entry ∈ (sameLines n).entries, entry.stamp = 1 := by
    intro entry hentry
    rw [List.eq_of_mem_replicate hentry]
  rw [Journal.stamp]
  rcases Nat.lt_or_ge k (sameLines n).entries.length with hk | hk
  · rw [List.getD_eq_getElem _ _ hk]
    exact hall _ (List.getElem_mem hk)
  · rw [List.getD_eq_default _ _ hk]
    exact hall _ (List.getLast_mem _)

theorem initLfs_sameLines (n : Nat) :
    initLfs (sameLines n).bytes =
      some ⟨0, (sameLines n).start (sameLines n).last, 1, 1, 10 * (n + 1)⟩ := by
  have hshort : (sameLines n).Short dataSize := by
    intro entry hentry
    rw [List.eq_of_mem_replicate hentry]
    decide
  rw [Journal.initLfs_spec hshort, stamp_sameLines, stamp_sameLines, length_sameLines]

/-- Behind the last line of 5 GiB, the range from 2 to 2 starts and ends within the file. -/
theorem large_file_cut :
    ∃ plfs, initLfs (sameLines (2 ^ 29 - 1)).bytes = some plfs ∧
      plfs.lt = 1 ∧ plfs.fileSize = 5 * 2 ^ 30 ∧
      filter1 (sameLines (2 ^ 29 - 1)).bytes plfs 2 2 = some (0xFFFFFFFE, 0xFFFFFFFE) ∧
      ¬ PastEnd (sameLines (2 ^ 29 - 1)).bytes plfs 2 2 := by
  refine ⟨_, initLfs_sameLines _, rfl, rfl, ?_, ?_⟩
  · obtain ⟨eoff, hstop, ⟨hmax, -⟩ | ⟨-, rfl⟩⟩ :=
      @LfsCtx.filterStop_behind ⟨0, (sameLines (2 ^ 29 - 1)).start (sameLines (2 ^ 29 - 1)).last, 1, 1,
        10 * (2 ^ 29 - 1 + 1)⟩ (sameLines (2 ^ 29 - 1)).bytes 2 (le_refl _) (by decide)
    · exact absurd hmax (by decide)
    · rw [filter1_eq, LfsCtx.filterStart_behind (le_refl _) (by decide), hstop]
      rfl
  · rw [LfsCtx.pastEnd_iff (le_refl _) (by decide)]
    intro hreached
    exact absurd (hreached.1 (by decide)) (by decide)

end EventLoop.LogFile
