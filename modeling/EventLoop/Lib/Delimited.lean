import Mathlib.Tactic.Common

/-!
Streams of units that are each ended by a delimiter. The complete units of a stream and
the fragment behind its last delimiter are collected one symbol at a time, so that a
receiver can be compared with them after any part of the stream.
-/

namespace EventLoop.Delimited

variable {α : Type*}

/-- A part without the delimiter ends before the first one or starts behind it. -/
theorem infix_of_not_mem {d : α} {part front back : List α} (hpart : d ∉ part)
    (h : part <:+: front ++ d :: back) : part.length ≤ front.length ∨ part <:+: back := by
  obtain ⟨before, after, heq⟩ := h
  rcases List.append_eq_append_iff.mp heq with ⟨more, hfront, -⟩ | ⟨beyond, hbeyond, hback⟩
  · left
    rw [hfront, List.length_append, List.length_append]
    omega
  rcases beyond with _ | ⟨a, beyond⟩
  · left
    rw [← List.append_nil front, ← hbeyond, List.length_append]
    omega
  obtain ⟨rfl, rfl⟩ := List.cons.inj hback
  rcases List.append_eq_append_iff.mp hbeyond with ⟨more, -, hmore⟩ | ⟨past, -, hpast⟩
  · exact absurd (hmore ▸ List.mem_append_right more (List.mem_cons_self ..)) hpart
  · rcases past with _ | ⟨b, past⟩
    · rw [List.nil_append] at hpast
      exact absurd (hpast ▸ List.mem_cons_self ..) hpart
    · obtain ⟨-, rfl⟩ := List.cons.inj hpast
      exact .inr ⟨past, after, rfl⟩

variable [DecidableEq α]

/-- The complete units, without their delimiters, and what stands behind them. -/
structure Split (α : Type*) where
  units : List (List α)
  rest : List α

variable (d : α)

def Split.push (s : Split α) (a : α) : Split α :=
  if a = d then ⟨s.units ++ [s.rest], []⟩ else ⟨s.units, s.rest ++ [a]⟩

def Split.feed (s : Split α) (stream : List α) : Split α := stream.foldl (Split.push d) s

def split (stream : List α) : Split α := Split.feed d ⟨[], []⟩ stream

variable {d}

theorem Split.feed_append (s : Split α) (front back : List α) :
    s.feed d (front ++ back) = (s.feed d front).feed d back :=
  List.foldl_append

theorem Split.feed_cons (s : Split α) (a : α) (stream : List α) :
    s.feed d (a :: stream) = (s.push d a).feed d stream :=
  rfl

theorem Split.push_delimiter (s : Split α) : s.push d d = ⟨s.units ++ [s.rest], []⟩ :=
  if_pos rfl

theorem Split.push_of_ne (s : Split α) {a : α} (h : a ≠ d) :
    s.push d a = ⟨s.units, s.rest ++ [a]⟩ :=
  if_neg h

/-- Without a delimiter the fragment grows. -/
theorem Split.feed_of_not_mem (s : Split α) {part : List α} (h : d ∉ part) :
    s.feed d part = ⟨s.units, s.rest ++ part⟩ := by
  induction part generalizing s with
  | nil => rw [List.append_nil]; rfl
  | cons a part ih =>
      obtain ⟨hne, hpart⟩ := not_or.mp (mt List.mem_cons.mpr h)
      rw [s.feed_cons, s.push_of_ne (Ne.symm hne), ih _ hpart, List.append_assoc]
      rfl

theorem split_of_not_mem {part : List α} (h : d ∉ part) : split d part = ⟨[], part⟩ :=
  Split.feed_of_not_mem _ h

/-- A delimiter completes the unit that the fragment is the start of. -/
theorem Split.feed_unit (s : Split α) {part : List α} (h : d ∉ part) (back : List α) :
    s.feed d (part ++ d :: back) = Split.feed d ⟨s.units ++ [s.rest ++ part], []⟩ back := by
  rw [s.feed_append, s.feed_of_not_mem h, Split.feed_cons, Split.push_delimiter]

/-- Complete units stay in front, whatever follows. -/
theorem Split.feed_units_append (units : List (List α)) (rest stream : List α) :
    Split.feed d ⟨units, rest⟩ stream =
      ⟨units ++ (Split.feed d ⟨[], rest⟩ stream).units, (Split.feed d ⟨[], rest⟩ stream).rest⟩ := by
  induction stream generalizing units rest with
  | nil =>
      change (⟨units, rest⟩ : Split α) = ⟨units ++ [], rest⟩
      rw [List.append_nil]
  | cons a stream ih =>
      rw [Split.feed_cons, Split.feed_cons]
      by_cases ha : a = d
      · subst ha
        rw [Split.push_delimiter, Split.push_delimiter, ih, ih ([] ++ [rest]), List.append_assoc]
        rfl
      · rw [Split.push_of_ne _ ha, Split.push_of_ne _ ha, ih]

/-- No delimiter is left over. -/
theorem Split.not_mem_rest_feed (s : Split α) (stream : List α) (h : d ∉ s.rest) :
    d ∉ (s.feed d stream).rest := by
  induction stream generalizing s with
  | nil => exact h
  | cons a stream ih =>
      apply ih
      rw [Split.push]
      split
      · exact List.not_mem_nil
      · rename_i hne
        rw [List.mem_append, List.mem_singleton, not_or]
        exact ⟨h, Ne.symm hne⟩

/-- A stream may be split a part at a time, the fragment in front of the next part. -/
theorem split_append (front back : List α) :
    split d (front ++ back) =
      ⟨(split d front).units ++ (split d ((split d front).rest ++ back)).units,
        (split d ((split d front).rest ++ back)).rest⟩ := by
  have hrest : d ∉ (split d front).rest := Split.not_mem_rest_feed _ _ List.not_mem_nil
  rw [split, Split.feed_append]
  change Split.feed d ⟨(split d front).units, (split d front).rest⟩ back = _
  rw [Split.feed_units_append]
  have hnext : split d ((split d front).rest ++ back) =
      Split.feed d ⟨[], (split d front).rest⟩ back := by
    rw [split, Split.feed_append, Split.feed_of_not_mem _ hrest, List.nil_append]
  rw [hnext]

/-- Complete units stay, and the fragment is the start of what comes next. -/
theorem Split.feed_grows (s : Split α) (stream : List α) :
    s.units <+: (s.feed d stream).units ∧
      (s.rest <+: (s.feed d stream).rest ∨ ∃ unit ∈ (s.feed d stream).units, s.rest <+: unit) := by
  induction stream generalizing s with
  | nil => exact ⟨List.prefix_refl _, .inl (List.prefix_refl _)⟩
  | cons a stream ih =>
      obtain ⟨hunits, hrest⟩ := ih (s.push d a)
      rw [Split.feed_cons]
      by_cases ha : a = d
      · subst ha
        rw [Split.push_delimiter] at hunits ⊢
        have hmem : s.rest ∈ s.units ++ [s.rest] := List.mem_append_right _ (List.mem_cons_self ..)
        exact ⟨(List.prefix_append _ _).trans hunits,
          .inr ⟨s.rest, hunits.subset hmem, List.prefix_refl _⟩⟩
      · rw [Split.push_of_ne _ ha] at hunits hrest ⊢
        refine ⟨hunits, ?_⟩
        have hfirst : s.rest <+: s.rest ++ [a] := List.prefix_append _ _
        rcases hrest with hrest | ⟨unit, hunit, hstart⟩
        · exact .inl (hfirst.trans hrest)
        · exact .inr ⟨unit, hunit, hfirst.trans hstart⟩

/-- Units written one behind the other come out again. -/
theorem Split.feed_units (s : Split α) {units : List (List α)} (h : ∀ unit ∈ units, d ∉ unit)
    (hrest : s.rest = []) :
    s.feed d (units.flatMap (· ++ [d])) = ⟨s.units ++ units, []⟩ := by
  induction units generalizing s with
  | nil =>
      obtain ⟨done, rest⟩ := s
      obtain rfl : rest = [] := hrest
      rw [List.append_nil]
      rfl
  | cons unit units ih =>
      obtain ⟨hunit, hunits⟩ := List.forall_mem_cons.mp h
      rw [List.flatMap_cons, List.append_assoc, List.singleton_append, s.feed_unit hunit,
        ih _ hunits rfl, hrest, List.nil_append, List.append_assoc, List.singleton_append]

theorem split_units {units : List (List α)} (h : ∀ unit ∈ units, d ∉ unit) :
    split d (units.flatMap (· ++ [d])) = ⟨units, []⟩ := by
  have hfed := Split.feed_units ⟨[], []⟩ h rfl
  rwa [List.nil_append] at hfed

/-- The start of one more unit is what is left over. -/
theorem split_units_append {units : List (List α)} {part : List α} (h : ∀ unit ∈ units, d ∉ unit)
    (hpart : d ∉ part) : split d (units.flatMap (· ++ [d]) ++ part) = ⟨units, part⟩ := by
  rw [split_append, split_units h, List.nil_append, split_of_not_mem hpart, List.append_nil]

/-- Nothing is lost. -/
theorem Split.join_feed (s : Split α) (stream : List α) :
    (s.feed d stream).units.flatMap (· ++ [d]) ++ (s.feed d stream).rest =
      s.units.flatMap (· ++ [d]) ++ s.rest ++ stream := by
  induction stream generalizing s with
  | nil => simp [Split.feed]
  | cons a stream ih =>
      rw [Split.feed_cons, ih]
      by_cases ha : a = d
      · subst ha
        simp [Split.push_delimiter]
      · simp [Split.push_of_ne s ha]

theorem join_split (stream : List α) :
    (split d stream).units.flatMap (· ++ [d]) ++ (split d stream).rest = stream := by
  simpa [split] using Split.join_feed ⟨[], []⟩ stream

theorem Split.not_mem_units_feed (s : Split α) (stream : List α) (h : ∀ unit ∈ s.units, d ∉ unit)
    (hrest : d ∉ s.rest) : ∀ unit ∈ (s.feed d stream).units, d ∉ unit := by
  induction stream generalizing s with
  | nil => exact h
  | cons a stream ih =>
      rw [Split.feed_cons]
      by_cases ha : a = d
      · subst ha
        rw [Split.push_delimiter]
        apply ih
        · exact List.forall_mem_append.mpr ⟨h, List.forall_mem_singleton.mpr hrest⟩
        · exact List.not_mem_nil
      · rw [Split.push_of_ne s ha]
        refine ih ⟨s.units, s.rest ++ [a]⟩ h ?_
        simp [hrest, Ne.symm ha]

theorem not_mem_split (stream : List α) :
    (∀ unit ∈ (split d stream).units, d ∉ unit) ∧ d ∉ (split d stream).rest := by
  refine ⟨Split.not_mem_units_feed _ stream ?_ List.not_mem_nil,
    Split.not_mem_rest_feed _ stream List.not_mem_nil⟩
  intro unit hunit
  cases hunit

end EventLoop.Delimited
