import EventLoop.LogFile.LowerBound

/-!
The calls of `_getSeqPosition` on a log whose lines may take most of `DATA_SIZE`. The middle
of a window is moved on to the next line start; where the line before `loff` is longer than
the rest of the window that start is `loff` again, and the call is made once more.
-/

namespace EventLoop.LogFile

/-- The byte ranges of the calls, in order. -/
def _getSeqPositionCalls (file : List UInt8) (t : UInt64) :
    Nat → UInt64 → UInt64 → Nat → Nat → List (Nat × Nat)
  | 0, _, _, _, _ => []
  | fuel + 1, ft, lt, foff, loff =>
      (foff, loff) ::
        if t < ft then []
        else if lt < t then []
        else if (loff : Int) - foff < dataSize - 1 ∨ lt - ft ≤ 3 then []
        else if foff = loff then []
        else if t ≤ ft then []
        else if lt ≤ t then []
        else
          (getNearSeq file (if lt - ft ≤ 2 then foff + 1 else (foff + loff) / 2)).elim []
            (fun (mt, moff) =>
              if mt = t then []
              else if t < mt then _getSeqPositionCalls file t fuel ft mt foff moff
              else _getSeqPositionCalls file t fuel mt lt moff loff)

theorem _getSeqPositionCalls_ne_nil (file : List UInt8) (t : UInt64) (fuel : Nat) (ft lt : UInt64)
    (foff loff : Nat) : _getSeqPositionCalls file t (fuel + 1) ft lt foff loff ≠ [] := by
  rw [_getSeqPositionCalls]
  exact List.cons_ne_nil _ _

/-- A call returns by itself, or returns what the next one does: the listing has it alone, or has
the next one behind it. -/
theorem _getSeqPosition_cases (file : List UInt8) (t ft lt : UInt64) (foff loff : Nat) :
    ((∀ n m, _getSeqPosition file t (n + 1) ft lt foff loff =
          _getSeqPosition file t (m + 1) ft lt foff loff) ∧
        ∀ fuel, _getSeqPositionCalls file t (fuel + 1) ft lt foff loff = [(foff, loff)]) ∨
      ∃ ft' lt' foff' loff', ∀ fuel,
        _getSeqPosition file t (fuel + 1) ft lt foff loff =
            _getSeqPosition file t fuel ft' lt' foff' loff' ∧
          _getSeqPositionCalls file t (fuel + 1) ft lt foff loff =
            (foff, loff) :: _getSeqPositionCalls file t fuel ft' lt' foff' loff' := by
  simp only [_getSeqPosition, _getSeqPositionCalls]
  by_cases hft : t < ft
  · simp only [if_pos hft]
    exact .inl ⟨fun _ _ => trivial, fun _ => trivial⟩
  simp only [if_neg hft]
  by_cases hlt : lt < t
  · simp only [if_pos hlt]
    exact .inl ⟨fun _ _ => trivial, fun _ => trivial⟩
  simp only [if_neg hlt]
  by_cases hsmall : (loff : Int) - foff < dataSize - 1 ∨ lt - ft ≤ 3
  · simp only [if_pos hsmall]
    exact .inl ⟨fun _ _ => trivial, fun _ => trivial⟩
  simp only [if_neg hsmall]
  by_cases hoff : foff = loff
  · simp only [if_pos hoff]
    exact .inl ⟨fun _ _ => trivial, fun _ => trivial⟩
  simp only [if_neg hoff]
  by_cases hfirst : t ≤ ft
  · simp only [if_pos hfirst]
    exact .inl ⟨fun _ _ => trivial, fun _ => trivial⟩
  simp only [if_neg hfirst]
  by_cases hlast : lt ≤ t
  · simp only [if_pos hlast]
    exact .inl ⟨fun _ _ => trivial, fun _ => trivial⟩
  simp only [if_neg hlast]
  cases getNearSeq file (if lt - ft ≤ 2 then foff + 1 else (foff + loff) / 2) with
  | none => exact .inl ⟨fun _ _ => rfl, fun _ => rfl⟩
  | some found =>
      obtain ⟨mt, moff⟩ := found
      simp only [Option.bind_some, Option.elim_some]
      by_cases hfound : mt = t
      · simp only [if_pos hfound]
        exact .inl ⟨fun _ _ => trivial, fun _ => trivial⟩
      simp only [if_neg hfound]
      by_cases hbefore : t < mt
      · simp only [if_pos hbefore]
        exact .inr ⟨ft, mt, foff, moff, fun _ => ⟨rfl, rfl⟩⟩
      · simp only [if_neg hbefore]
        exact .inr ⟨mt, lt, moff, loff, fun _ => ⟨rfl, rfl⟩⟩

/-- Every call that is listed is made, and what it returns is what the search returns. -/
theorem _getSeqPositionCalls_made {file : List UInt8} {t ft lt : UInt64} {fuel foff loff f l : Nat}
    {before after : List (Nat × Nat)}
    (h : _getSeqPositionCalls file t fuel ft lt foff loff = before ++ (f, l) :: after) :
    ∃ ft' lt',
      _getSeqPosition file t (fuel - before.length) ft' lt' f l =
          _getSeqPosition file t fuel ft lt foff loff ∧
        _getSeqPositionCalls file t (fuel - before.length) ft' lt' f l = (f, l) :: after := by
  induction fuel generalizing ft lt foff loff before with
  | zero => simp [_getSeqPositionCalls] at h
  | succ fuel ih =>
      cases before with
      | nil =>
          obtain ⟨rfl, rfl⟩ : foff = f ∧ loff = l := by
            rw [_getSeqPositionCalls, List.nil_append] at h
            exact Prod.mk.inj (List.cons.inj h).1
          exact ⟨ft, lt, rfl, h⟩
      | cons first before =>
          rcases _getSeqPosition_cases file t ft lt foff loff with ⟨-, hsole⟩ | hnext
          · rw [hsole, List.cons_append] at h
            simp at h
          · obtain ⟨ft', lt', foff', loff', hnext⟩ := hnext
            obtain ⟨hreturns, hcalls⟩ := hnext fuel
            rw [hcalls, List.cons_append] at h
            rw [hreturns, List.length_cons, Nat.succ_sub_succ]
            exact ih (List.cons.inj h).2

/-- The call that is listed last makes no other: how far it might go on does not matter. -/
theorem _getSeqPositionCalls_returns {file : List UInt8} {t ft lt : UInt64}
    {fuel foff loff : Nat}
    (h : _getSeqPositionCalls file t (fuel + 2) ft lt foff loff = [(foff, loff)]) (n : Nat) :
    _getSeqPosition file t (n + 1) ft lt foff loff =
      _getSeqPosition file t (fuel + 2) ft lt foff loff := by
  rcases _getSeqPosition_cases file t ft lt foff loff with ⟨hsame, -⟩ | hnext
  · exact hsame n (fuel + 1)
  · obtain ⟨ft', lt', foff', loff', hnext⟩ := hnext
    rw [(hnext (fuel + 1)).2] at h
    exact absurd (List.cons.inj h).2 (_getSeqPositionCalls_ne_nil _ _ _ _ _ _ _)

/-- A call works within the range of the one before it, on fewer bytes. -/
def Smaller (call next : Nat × Nat) : Prop :=
  call.1 ≤ next.1 ∧ next.2 ≤ call.2 ∧ next.2 - next.1 < call.2 - call.1

/-- The search for `t` returns, and every call works on less than the one before it. -/
def SearchEnds (file : List UInt8) (plfs : LfsCtx) (t : UInt64) : Prop :=
  (∃ fuel found,
    _getSeqPosition file t fuel plfs.ft plfs.lt plfs.foff plfs.loff = some found) ∧
  ∀ fuel,
    (_getSeqPositionCalls file t fuel plfs.ft plfs.lt plfs.foff plfs.loff).IsChain Smaller

namespace Journal

open Bisect

/-- No window that is halved has its middle behind the start of the line before its last. -/
def Halves (log : Journal) (t : UInt64) : Prop :=
  ∀ f l, Visits log.stamp log.probe log.wide t 0 log.last f l →
    log.wide f l → log.stamp f < t → t < log.stamp l →
    (log.start f + log.start l) / 2 ≤ log.start (l - 1)

variable {log : Journal} {f l : Nat} {t : UInt64}

theorem halves_iff : log.Halves t ↔ ProbesWithin log.stamp log.probe log.wide t 0 log.last := by
  have hle {f l : Nat} (h : Visits log.stamp log.probe log.wide t 0 log.last f l) :=
    (visits_within h (Nat.le_refl _)).2
  constructor
  · intro hhalves f l hvisits hwide hft hlt
    exact ⟨(probe_within hwide (hle hvisits)).1,
      (probe_lt_iff hwide (hle hvisits)).mpr (hhalves f l hvisits hwide hft hlt)⟩
  · intro hwithin f l hvisits hwide hft hlt
    exact (probe_lt_iff hwide (hle hvisits)).mp (hwithin f l hvisits hwide hft hlt).2

/-- Lines of at most 512 bytes leave every window a middle. -/
theorem halves_of_short (hshort : log.Short 512) : log.Halves t :=
  halves_iff.mpr (probesWithin hshort (Nat.le_refl _))

/-- The window is halved in the search for `t`. -/
def halved (log : Journal) (t : UInt64) (f l : Nat) : Prop :=
  log.wide f l ∧ log.stamp f < t ∧ t < log.stamp l

/-- A call that does not halve its window is the last. -/
theorem _getSeqPositionCalls_last (h : ¬ log.halved t f l) (fuel : Nat) :
    _getSeqPositionCalls log.bytes t (fuel + 1) (log.stamp f) (log.stamp l) (log.start f)
      (log.start l) = [(log.start f, log.start l)] := by
  rw [_getSeqPositionCalls]
  by_cases hwide : log.wide f l
  · rw [if_neg hwide.not_small, if_neg (Nat.ne_of_lt hwide.start_lt)]
    have hedge : t ≤ log.stamp f ∨ log.stamp l ≤ t := by
      by_contra hnot
      rw [not_or, not_le, not_le] at hnot
      exact h ⟨hwide, hnot⟩
    rcases hedge with hedge | hedge
    · simp only [if_pos hedge, ite_self]
    · simp only [if_pos hedge, ite_self]
  · simp only [if_pos (not_wide hwide), ite_self]

/-- A call that halves its window is followed by one on a half unless it has hit `t`. -/
theorem _getSeqPositionCalls_halved (hshort : log.Short 1000) (hl : l ≤ log.last)
    (h : log.halved t f l) (fuel : Nat) :
    _getSeqPositionCalls log.bytes t (fuel + 1) (log.stamp f) (log.stamp l) (log.start f)
        (log.start l) =
      (log.start f, log.start l) ::
        if log.stamp (log.probe f l) = t then []
        else if t < log.stamp (log.probe f l) then
          _getSeqPositionCalls log.bytes t fuel (log.stamp f) (log.stamp (log.probe f l))
            (log.start f) (log.start (log.probe f l))
        else
          _getSeqPositionCalls log.bytes t fuel (log.stamp (log.probe f l)) (log.stamp l)
            (log.start (log.probe f l)) (log.start l) := by
  obtain ⟨hwide, hft, hlt⟩ := h
  obtain ⟨hmid, hmid'⟩ := hwide.middle hl
  rw [_getSeqPositionCalls, if_neg (lt_asymm hft), if_neg (lt_asymm hlt), if_neg hwide.not_small,
    if_neg (Nat.ne_of_lt hwide.start_lt), if_neg (not_le.mpr hft), if_neg (not_le.mpr hlt),
    if_neg hwide.not_close, getNearSeq_spec hshort hmid hmid', Option.elim_some]
  rfl

/-- Every call starts with the range it is given. -/
theorem _getSeqPositionCalls_head (fuel : Nat) :
    ∃ rest, _getSeqPositionCalls log.bytes t (fuel + 1) (log.stamp f) (log.stamp l) (log.start f)
      (log.start l) = (log.start f, log.start l) :: rest := ⟨_, rfl⟩

/-- Calls on a window whose probes are within. -/
theorem _getSeqPositionCalls_chain (hshort : log.Short 1000) (hl : l ≤ log.last)
    (hwithin : ProbesWithin log.stamp log.probe log.wide t f l) (fuel : Nat) :
    (_getSeqPositionCalls log.bytes t fuel (log.stamp f) (log.stamp l) (log.start f)
      (log.start l)).IsChain Smaller := by
  induction fuel generalizing f l with
  | zero => exact .nil
  | succ fuel ih =>
      have hlink {f' l' : Nat}
          (hsmaller : Smaller (log.start f, log.start l) (log.start f', log.start l'))
          (hchain : (_getSeqPositionCalls log.bytes t fuel (log.stamp f') (log.stamp l')
            (log.start f') (log.start l')).IsChain Smaller) :
          ((log.start f, log.start l) :: _getSeqPositionCalls log.bytes t fuel (log.stamp f')
            (log.stamp l') (log.start f') (log.start l')).IsChain Smaller := by
        cases fuel with
        | zero => exact .singleton _
        | succ fuel =>
            obtain ⟨rest, hrest⟩ := @_getSeqPositionCalls_head log f' l' t fuel
            rw [hrest] at hchain ⊢
            exact .cons_cons hsmaller hchain
      by_cases hhalved : log.halved t f l
      · obtain ⟨hwide, hft, hlt⟩ := hhalved
        obtain ⟨hlower, hupper⟩ := hwithin f l (.here f l) hwide hft hlt
        have hlast := log.last_lt
        have hstart := @start_lt log f (log.probe f l) hlower (by omega)
        have hstart' := @start_lt log (log.probe f l) l hupper (by omega)
        rw [_getSeqPositionCalls_halved hshort hl ⟨hwide, hft, hlt⟩]
        split
        · exact .singleton _
        · rename_i hmiss
          split
          · rename_i hlow
            refine hlink ?_ (ih (by omega) (hwithin.lower hwide hlow))
            exact ⟨Nat.le_refl _, Nat.le_of_lt hstart', by omega⟩
          · rename_i hnot
            refine hlink ?_ (ih hl (hwithin.upper hwide (lt_of_le_of_ne (not_lt.mp hnot) hmiss)))
            exact ⟨Nat.le_of_lt hstart, Nat.le_refl _, by omega⟩
      · rw [_getSeqPositionCalls_last hhalved]
        exact .singleton _

/-- A halved window is halved again while the halves get smaller. -/
theorem probe_lt_of_chain (hshort : log.Short 1000) (hl : l ≤ log.last) (h : log.halved t f l)
    (hchain : (_getSeqPositionCalls log.bytes t 2 (log.stamp f) (log.stamp l) (log.start f)
      (log.start l)).IsChain Smaller) : log.probe f l < l := by
  apply Nat.lt_of_le_of_ne (probe_within h.1 hl).2
  -- halved at its last line, the window is the lower half of itself
  intro hsame
  obtain ⟨rest, hrest⟩ := @_getSeqPositionCalls_head log f l t 0
  rw [_getSeqPositionCalls_halved hshort hl h, hsame, if_neg (ne_of_gt h.2.2), if_pos h.2.2, hrest,
    List.isChain_cons_cons] at hchain
  exact absurd hchain.1.2.2 (Nat.lt_irrefl _)

theorem halved_of_visits (hordered : log.Ordered) {f' l' : Nat} (hwide : log.wide f l)
    (h : log.halved t f' l') (hf : f ≤ f') (hl : l' ≤ l) : log.halved t f l :=
  ⟨hwide, lt_of_le_of_lt (stamp_monotone hordered hf) h.2.1,
    lt_of_lt_of_le h.2.2 (stamp_monotone hordered hl)⟩

/-- Calls that get smaller have their probes within. -/
theorem probesWithin_of_chain (hshort : log.Short 1000) (hordered : log.Ordered)
    (hl : l ≤ log.last)
    (hchain : ∀ fuel, (_getSeqPositionCalls log.bytes t fuel (log.stamp f) (log.stamp l)
      (log.start f) (log.start l)).IsChain Smaller) :
    ProbesWithin log.stamp log.probe log.wide t f l := by
  intro f' l' hvisits hwide hft hlt
  have hhalved : log.halved t f' l' := ⟨hwide, hft, hlt⟩
  refine ⟨(probe_within hwide (Nat.le_trans (visits_within hvisits hl).2 hl)).1, ?_⟩
  induction hvisits with
  | here f l => exact probe_lt_of_chain hshort hl hhalved (hchain 2)
  | lower hwide' hkey hrest ih =>
      have hl' := Nat.le_trans (probe_within hwide' hl).2 hl
      have hwithin := visits_within (.lower hwide' hkey hrest) hl
      have hhalved' := halved_of_visits hordered hwide' hhalved hwithin.1 hwithin.2
      refine ih hl' (fun fuel => ?_) hwide hft hlt hhalved
      have htail := (hchain (fuel + 1)).tail
      rwa [_getSeqPositionCalls_halved hshort hl hhalved', List.tail_cons, if_neg (ne_of_gt hkey),
        if_pos hkey] at htail
  | upper hwide' hkey hrest ih =>
      have hwithin := visits_within (.upper hwide' hkey hrest) hl
      have hhalved' := halved_of_visits hordered hwide' hhalved hwithin.1 hwithin.2
      refine ih hl (fun fuel => ?_) hwide hft hlt hhalved
      have htail := (hchain (fuel + 1)).tail
      rwa [_getSeqPositionCalls_halved hshort hl hhalved', List.tail_cons, if_neg (ne_of_lt hkey),
        if_neg (lt_asymm hkey)] at htail

/-- With a line behind it the loop of `_getSeqPosition` ends. -/
theorem readAndDetect_ends (hshort : log.Short 1000) (hordered : log.Ordered) {lt : UInt64}
    {fuel : Nat} (hf : f < log.last) (ht : t ≤ log.stamp log.last) (hfuel : log.last < f + fuel) :
    ∃ found, readAndDetect log.bytes t lt fuel (log.start f) = some found := by
  induction fuel generalizing f with
  | zero => exact absurd hf (by omega)
  | succ fuel ih =>
      have hstart : log.start f < log.start log.last := start_lt hf (by have := log.last_lt; omega)
      have hnear := getNearSeq_spec hshort (Nat.succ_pos _) hstart
      rw [lineFrom_start_succ hf] at hnear
      simp only [readAndDetect, hnear, Option.bind_some]
      split
      · exact ⟨_, rfl⟩
      · rename_i hgo
        have hbehind : log.stamp (f + 1) < t := not_le.mp (fun hle => hgo (.inr hle))
        refine ih (Nat.lt_of_not_le (fun hle => ?_)) (by omega)
        exact absurd hbehind (not_lt.mpr (le_trans ht (stamp_monotone hordered hle)))

/-- A call that does not halve its window returns. -/
theorem _getSeqPosition_last (hshort : log.Short 1000) (hordered : log.Ordered)
    (hf : f < log.last) (hl : l ≤ log.last) (hft : log.stamp f ≤ t) (hlt : t ≤ log.stamp l)
    (h : ¬ log.halved t f l) :
    ∃ found, _getSeqPosition log.bytes t 1 (log.stamp f) (log.stamp l) (log.start f)
      (log.start l) = some found := by
  rw [_getSeqPosition, if_neg (not_lt.mpr hft), if_neg (not_lt.mpr hlt)]
  by_cases hwide : log.wide f l
  · rw [if_neg hwide.not_small, if_neg (Nat.ne_of_lt hwide.start_lt)]
    split
    · exact ⟨_, rfl⟩
    · rename_i hnot
      rw [if_pos (not_lt.mp (fun hlt => h ⟨hwide, not_le.mp hnot, hlt⟩))]
      exact ⟨_, rfl⟩
  · rw [if_pos (not_wide hwide)]
    have hcount := log.le_start (Nat.le_refl log.count)
    have hlast := log.last_lt
    rw [start_count] at hcount
    exact readAndDetect_ends hshort hordered hf (le_trans hlt (stamp_monotone hordered hl))
      (by omega)

/-- Behind the only line of a log `getNearSeq` finds no stamp. -/
theorem _getSeqPosition_single (h : log.last = 0) (fuel : Nat) :
    _getSeqPosition log.bytes (log.stamp 0) fuel (log.stamp 0) (log.stamp 0) 0 0 = none := by
  cases fuel with
  | zero => rfl
  | succ fuel =>
      have hlast := log.last_lt
      obtain ⟨body, htext, hbody⟩ := (log.entries.get ⟨log.last, hlast⟩).text_eq
      have hfile : log.bytes.drop 0 = body ++ newline :: [] := by
        have hline := drop_start hlast
        rwa [← count_eq, start_count, List.drop_length, List.append_nil, htext, h,
          start_zero] at hline
      have hnear := getNearSeq_eq hfile hbody
      have hnothing : scanHex [] = none := by decide
      rw [List.take_nil, hnothing, Option.map_none, ite_self] at hnear
      rw [_getSeqPosition, if_neg (lt_irrefl _), if_neg (lt_irrefl _),
        if_pos (.inl (by decide)), readAndDetect, hnear, Option.bind_none]

/-- On a log of lines of at most 1000 bytes the search for a time from the first to the last
stamp ends exactly if there is a second line and no window that it halves has its middle
behind the start of the line before its last. -/
theorem search_ends_iff (log : Journal) (hshort : log.Short 1000)
    (hincreasing : log.Increasing) :
    ∃ plfs, initLfs log.bytes = some plfs ∧
      ∀ t, plfs.ft ≤ t → t ≤ plfs.lt →
        (SearchEnds log.bytes plfs t ↔ 0 < log.last ∧ log.Halves t) := by
  have hordered := hincreasing.ordered
  refine ⟨_, initLfs_spec (hshort.mono (by decide)), ?_⟩
  intro t hft hlt
  change log.stamp 0 ≤ t at hft
  change t ≤ log.stamp log.last at hlt
  rw [halves_iff]
  constructor
  · rintro ⟨⟨fuel, found, hfound⟩, hchain⟩
    refine ⟨Nat.pos_of_ne_zero (fun hsingle => ?_), ?_⟩
    · simp only [hsingle, start_zero] at hfound hlt
      rw [le_antisymm hlt hft, _getSeqPosition_single hsingle] at hfound
      exact absurd hfound (by simp)
    · have hwithin := @probesWithin_of_chain log 0 log.last t hshort hordered (Nat.le_refl _)
      rw [start_zero] at hwithin
      exact hwithin hchain
  · rintro ⟨hlast, hwithin⟩
    have hcalls := _getSeqPositionCalls_chain hshort (Nat.le_refl _) hwithin
    rw [start_zero] at hcalls
    refine ⟨?_, hcalls⟩
    by_cases hhalved : log.halved t 0 log.last
    · have hcount := log.le_start (Nat.le_of_lt log.last_lt)
      have hend := log.start_le_length (Nat.le_of_lt log.last_lt)
      obtain ⟨r, -, -, hresult, -⟩ := @_getSeqPosition_spec log 0 log.last t hshort hordered
        (log.last + 1) hhalved.2.1 hhalved.2.2 (Nat.le_refl _) (by omega) hwithin
      rw [start_zero] at hresult
      exact ⟨_, _, hresult⟩
    · obtain ⟨found, hfound⟩ :=
        _getSeqPosition_last hshort hordered hlast (Nat.le_refl _) hft hlt hhalved
      rw [start_zero] at hfound
      exact ⟨_, _, hfound⟩

end Journal

/-- A line of 23 bytes, one of 1000 and a short one, stamped 1, 2 and 10. -/
def longLine : Journal where
  entries := [⟨1, List.replicate 13 97, fun h => absurd (List.eq_of_mem_replicate h) (by decide)⟩,
    ⟨2, List.replicate 990 97, fun h => absurd (List.eq_of_mem_replicate h) (by decide)⟩,
    ⟨10, [], List.not_mem_nil⟩]
  nonempty := List.cons_ne_nil _ _

theorem longLine_short : longLine.Short 1000 := by
  intro entry hentry
  have hprinted : (printHex 1).length = 8 ∧ (printHex 2).length = 8 ∧ (printHex 10).length = 8 := by
    decide
  simp only [longLine, List.mem_cons, List.not_mem_nil, or_false] at hentry
  rcases hentry with rfl | rfl | rfl <;> simp [-List.reduceReplicate, Entry.text, lineText, hprinted]

theorem longLine_increasing : longLine.Increasing := by
  unfold Journal.Increasing longLine
  decide

theorem longLine_search_ends :
    ∃ plfs, initLfs longLine.bytes = some plfs ∧
      ∀ t, plfs.ft ≤ t → t ≤ plfs.lt →
        (SearchEnds longLine.bytes plfs t ↔ 0 < longLine.last ∧ longLine.Halves t) :=
  longLine.search_ends_iff longLine_short longLine_increasing

/-- The long line is in front of the last one, and the search for 5 calls itself on the whole
file again. -/
theorem longLine_search_stuck :
    longLine.Short 1000 ∧ longLine.Increasing ∧
      ∃ plfs, initLfs longLine.bytes = some plfs ∧ plfs.ft ≤ 5 ∧ 5 ≤ plfs.lt ∧
        ¬ SearchEnds longLine.bytes plfs 5 := by
  refine ⟨longLine_short, longLine_increasing, _,
    Journal.initLfs_spec (longLine_short.mono (by decide)), by decide, by decide, ?_⟩
  rintro ⟨-, hchain⟩
  have hprinted : (printHex 1).length = 8 ∧ (printHex 2).length = 8 := by decide
  have hstart : longLine.start 1 = 23 := by
    simp [-List.reduceReplicate, Journal.start, Records.offset, longLine, Entry.text, lineText,
      hprinted]
  have hstart' : longLine.start 2 = 1023 := by
    simp [-List.reduceReplicate, Journal.start, Records.offset, longLine, Entry.text, lineText,
      hprinted]
  have hwide : longLine.wide 0 2 := by
    refine ⟨?_, by decide⟩
    rw [hstart', Journal.start_zero, dataSize]
  have hprobe := Journal.probe_lt_of_chain longLine_short (Nat.le_refl 2)
    ⟨hwide, by decide, by decide⟩ (hchain 2)
  have hmid := (Journal.probe_lt_iff hwide (Nat.le_refl 2)).mp hprobe
  rw [hstart', Journal.start_zero, hstart] at hmid
  omega

end EventLoop.LogFile
