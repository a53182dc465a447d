import EventLoop.LogFile.Search

/-!
In a log of short lines whose stamps do not repeat `getSeqPosition` finds the first line
stamped `t` or later, and reads nothing but the file.
-/

namespace EventLoop.LogFile

open MonotoneSplit

namespace Journal

def Increasing (log : Journal) : Prop := log.entries.Pairwise (fun a b => a.stamp < b.stamp)

/-- The search ends at the first line stamped `t` or later, stores its stamp, and every
read starts inside the file. -/
def LowerBoundAt (log : Journal) (plfs : LfsCtx) (t : UInt64) : Prop :=
  (∃ r < log.count, SplitsAt (fun i => log.stamp i < t) log.count r ∧
    getSeqPosition log.bytes t plfs.ft plfs.lt plfs.foff plfs.loff =
      some ⟨log.start r, some (log.stamp r)⟩) ∧
  ∀ off ∈ getSeqPositionReads log.bytes t plfs.ft plfs.lt plfs.foff plfs.loff, log.Inside off

variable {log : Journal} {t : UInt64} {i j : Nat}

theorem Increasing.ordered (h : log.Increasing) : log.Ordered := h.imp le_of_lt

theorem Increasing.stamp_lt (h : log.Increasing) (hij : i < j) (hj : j < log.count) :
    log.stamp i < log.stamp j := by
  have hi : i < log.count := Nat.lt_trans hij hj
  rw [stamp_eq hi, stamp_eq hj]
  exact List.pairwise_iff_get.mp h ⟨i, hi⟩ ⟨j, hj⟩ hij

/-- A line is the first one with its stamp or a later one. -/
theorem Increasing.splitsAt (h : log.Increasing) (hj : j < log.count) :
    SplitsAt (fun i => log.stamp i < log.stamp j) log.count j := by
  refine ⟨Nat.le_of_lt hj, fun i hij => h.stamp_lt hij hj, ?_⟩
  intro i hji _
  exact not_lt.mpr (stamp_monotone h.ordered hji)

theorem Increasing.not_haltsInside (h : log.Increasing) (hlt : t < log.stamp log.last) (f l : Nat) :
    ¬ Bisect.HaltsInside log.stamp log.probe log.wide t f l := by
  intro hinside
  obtain ⟨i, j, hij, hi, hj⟩ := hinside.repeats
  have hlast : j < log.last := by
    apply Nat.lt_of_not_le
    intro hle
    exact absurd (hj ▸ hlt) (not_lt.mpr (stamp_monotone h.ordered hle))
  have hstrict := h.stamp_lt hij (Nat.lt_trans hlast log.last_lt)
  rw [hi, hj] at hstrict
  exact absurd hstrict (lt_irrefl t)

theorem search_is_lower_bound (log : Journal) (hshort : log.Short 512)
    (hincreasing : log.Increasing) :
    ∃ plfs, initLfs log.bytes = some plfs ∧
      ∀ t, plfs.ft ≤ t → t ≤ plfs.lt → log.LowerBoundAt plfs t := by
  have hlast := log.last_lt
  have hzero : 0 < log.count := Nat.lt_of_le_of_lt (Nat.zero_le _) hlast
  refine ⟨_, initLfs_spec (fun entry hentry => Nat.le_trans (hshort entry hentry) (by decide)), ?_⟩
  intro t hft hlt
  change log.stamp 0 ≤ t at hft
  change t ≤ log.stamp log.last at hlt
  rcases eq_or_lt_of_le hft with rfl | hft
  · refine ⟨⟨0, hzero, hincreasing.splitsAt hzero, ?_⟩, ?_⟩
    · rw [getSeqPosition, if_neg (lt_irrefl _), if_neg (not_lt.mpr hlt), if_pos rfl, start_zero]
    · rw [getSeqPositionReads, if_neg (lt_irrefl _), if_neg (not_lt.mpr hlt), if_pos rfl]
      simp
  rcases eq_or_lt_of_le hlt with rfl | hlt
  · refine ⟨⟨log.last, hlast, hincreasing.splitsAt hlast, ?_⟩, ?_⟩
    · rw [getSeqPosition, if_neg (lt_asymm hft), if_neg (lt_irrefl _), if_neg (ne_of_gt hft),
        if_pos rfl]
    · rw [getSeqPositionReads, if_neg (lt_asymm hft), if_neg (lt_irrefl _), if_neg (ne_of_gt hft),
        if_pos rfl]
      simp
  · obtain ⟨r, hr, hfinds, hresult, hreads⟩ :=
      getSeqPosition_between hshort hincreasing.ordered hft hlt
    have hr' : r < log.count := Nat.lt_of_le_of_lt hr hlast
    have hfirst := (hfinds.first_iff (stamp_monotone hincreasing.ordered) hr').mpr
      (hincreasing.not_haltsInside hlt 0 log.last)
    exact ⟨⟨r, hr', hfirst, hresult⟩, hreads⟩

end Journal

/-- Three lines, stamped 1, 5 and 6. -/
def threeLines : Journal where
  entries := [⟨1, [111, 110], by decide⟩, ⟨5, [111, 102, 102], by decide⟩, ⟨6, [], by decide⟩]
  nonempty := List.cons_ne_nil _ _

theorem fourLines_lower_bound : fourLines.journal.wide 0 fourLines.journal.last ∧
    ∃ plfs, initLfs fourLines.journal.bytes = some plfs ∧
      ∀ t, plfs.ft ≤ t → t ≤ plfs.lt → fourLines.journal.LowerBoundAt plfs t := by
  constructor
  · simpa [Journal.wide, Log.wide] using fourLines_wide
  · apply fourLines.journal.search_is_lower_bound fourLines.journal_short
    simp [Journal.Increasing, Log.journal, fourLines, Line.entry, paddedLine,
      -List.reduceReplicate]

end EventLoop.LogFile
