import EventLoop.Lib.Records
import EventLoop.LogFile.Format
import Mathlib.Data.List.GetD

/-!
A log is a file of lines one behind the other. A `Journal` has lines of any length and in
any order; the lines of a `Log` are short and sorted by stamp.
-/

namespace EventLoop.LogFile

structure Journal where
  entries : List Entry
  nonempty : entries ≠ []

namespace Journal

variable (log : Journal)

def bytes : List UInt8 := log.entries.flatMap Entry.text

def count : Nat := log.entries.length

/-- The stamp of a line; behind the end, that of the last line. -/
def stamp (k : Nat) : UInt64 := (log.entries.getD k (log.entries.getLast log.nonempty)).stamp

/-- Where a line starts. -/
def start (k : Nat) : Nat := Records.offset Entry.text log.entries k

/-- The bytes of a line, with its newline. -/
def size (k : Nat) : Nat := log.start (k + 1) - log.start k

/-- The first line that starts at the offset or behind it. -/
def lineFrom (off : Nat) : Nat := Records.indexFrom Entry.text log.entries off

def last : Nat := log.count - 1

/-- No line is longer than the bound. -/
def Short (bound : Nat) : Prop := ∀ entry ∈ log.entries, entry.text.length ≤ bound

def Ordered : Prop := log.entries.Pairwise (fun a b => a.stamp ≤ b.stamp)

variable {log} {i j k off bound : Nat}

theorem count_eq (log : Journal) : log.count = log.last + 1 := by
  have hpos := List.length_pos_iff.mpr log.nonempty
  rw [last, count]
  omega

theorem last_lt (log : Journal) : log.last < log.count := by
  rw [log.count_eq]
  exact Nat.lt_succ_self _

@[simp] theorem start_zero (log : Journal) : log.start 0 = 0 := rfl

@[simp] theorem start_count (log : Journal) : log.start log.count = log.bytes.length :=
  Records.offset_of_length_le Entry.text (Nat.le_refl _)

theorem start_mono (log : Journal) (h : i ≤ j) : log.start i ≤ log.start j :=
  Records.offset_mono Entry.text log.entries h

theorem start_lt (h : i < j) (hi : i < log.count) : log.start i < log.start j :=
  Records.offset_lt Entry.text_ne_nil h hi

theorem lt_of_start_lt (h : log.start i < log.start j) : i < j := by
  apply Nat.lt_of_not_le
  exact fun hji => Nat.not_le_of_lt h (log.start_mono hji)

theorem le_start (log : Journal) (h : k ≤ log.count) : k ≤ log.start k := by
  induction k with
  | zero => exact Nat.zero_le _
  | succ k ih =>
      have hk : log.start k < log.start (k + 1) := start_lt (Nat.lt_add_one k) (by omega)
      have := ih (by omega)
      omega

theorem start_le_length (log : Journal) (h : k ≤ log.count) : log.start k ≤ log.bytes.length := by
  rw [← start_count]
  exact log.start_mono h

theorem start_succ (h : k < log.count) :
    log.start (k + 1) = log.start k + (log.entries.get ⟨k, h⟩).text.length :=
  Records.offset_succ Entry.text h

theorem size_eq (h : k < log.count) : log.size k = (log.entries.get ⟨k, h⟩).text.length := by
  rw [size, start_succ h, Nat.add_sub_cancel_left]

theorem short_iff : log.Short bound ↔ ∀ k < log.count, log.size k ≤ bound := by
  constructor
  · intro hshort k hk
    rw [size_eq hk]
    exact hshort _ (List.get_mem _ _)
  · intro hsize entry hentry
    obtain ⟨k, rfl⟩ := List.mem_iff_get.mp hentry
    rw [← size_eq k.2]
    exact hsize k k.2

theorem Short.mono {bound' : Nat} (h : log.Short bound) (hle : bound ≤ bound') : log.Short bound' :=
  fun entry hentry => Nat.le_trans (h entry hentry) hle

theorem start_succ_le (hshort : log.Short bound) (h : k < log.count) :
    log.start (k + 1) ≤ log.start k + bound := by
  rw [start_succ h]
  exact Nat.add_le_add_left (hshort _ (List.get_mem _ _)) _

theorem stamp_eq (h : k < log.count) : log.stamp k = (log.entries.get ⟨k, h⟩).stamp := by
  rw [stamp, List.getD_eq_getElem _ _ h]
  rfl

theorem stamp_monotone (hordered : log.Ordered) : Monotone log.stamp := by
  have hsorted := List.pairwise_iff_get.mp hordered
  intro i j hij
  rcases Nat.lt_or_ge j log.count with hj | hj
  · have hi : i < log.count := Nat.lt_of_le_of_lt hij hj
    rw [stamp_eq hi, stamp_eq hj]
    rcases Nat.lt_or_eq_of_le hij with hlt | rfl
    · exact hsorted ⟨i, hi⟩ ⟨j, hj⟩ hlt
    · exact le_refl _
  · have hlast : log.stamp j = log.stamp log.last := by
      rw [stamp_eq log.last_lt, stamp, List.getD_eq_default _ _ hj, List.getLast_eq_getElem]
      rfl
    rcases Nat.lt_or_ge i log.count with hi | hi
    · rw [hlast, stamp_eq hi, stamp_eq log.last_lt]
      rcases Nat.lt_or_eq_of_le (Nat.le_sub_one_of_lt hi) with hlt | heq
      · exact hsorted ⟨i, hi⟩ ⟨log.last, log.last_lt⟩ hlt
      · apply le_of_eq
        congr 2
        exact Fin.ext heq
    · rw [stamp, stamp, List.getD_eq_default _ _ hi, List.getD_eq_default _ _ hj]

theorem le_start_lineFrom (h : off ≤ log.bytes.length) : off ≤ log.start (log.lineFrom off) :=
  Records.le_offset_indexFrom h

theorem start_lt_of_lt_lineFrom (h : k < log.lineFrom off) : log.start k < off :=
  Records.offset_lt_of_lt_indexFrom h

theorem lineFrom_le (h : off ≤ log.start k) : log.lineFrom off ≤ k := by
  apply Nat.le_of_not_lt
  exact fun hlt => Nat.not_le_of_lt (start_lt_of_lt_lineFrom hlt) h

/-- Between two line starts the next line is the second. -/
theorem lineFrom_eq (hk : k < log.count) (hbehind : log.start k < off)
    (hbefore : off ≤ log.start (k + 1)) : log.lineFrom off = k + 1 := by
  apply Nat.le_antisymm (lineFrom_le hbefore)
  apply lt_of_start_lt
  exact Nat.lt_of_lt_of_le hbehind
    (le_start_lineFrom (Nat.le_trans hbefore (log.start_le_length hk)))

/-- Every offset behind the first line start lies between two line starts. -/
theorem exists_line (log : Journal) (hpos : 0 < off) (hoff : off ≤ log.start j) (hj : j ≤ log.count) :
    ∃ k < j, log.start k < off ∧ off ≤ log.start (k + 1) := by
  have hle := lineFrom_le hoff
  have hat := le_start_lineFrom (Nat.le_trans hoff (log.start_le_length hj))
  obtain ⟨k, hk⟩ : ∃ k, log.lineFrom off = k + 1 := by
    apply Nat.exists_eq_succ_of_ne_zero
    intro hzero
    rw [hzero, start_zero] at hat
    omega
  rw [hk] at hle hat
  exact ⟨k, hle, start_lt_of_lt_lineFrom (by omega), hat⟩

/-- The text from a line on. -/
theorem drop_start (h : k < log.count) :
    log.bytes.drop (log.start k) =
      (log.entries.get ⟨k, h⟩).text ++ log.bytes.drop (log.start (k + 1)) := by
  have hall : log.bytes.take (log.start log.count) = log.bytes := by
    rw [start_count, List.take_length]
  have hdrop (i : Nat) : log.bytes.drop (log.start i) =
      (log.entries.drop i).flatMap Entry.text := by
    have hpart := Records.drop_take_flatMap Entry.text log.entries i log.count
    rw [count, List.take_length] at hpart
    rw [← hpart]
    conv_lhs => rw [← hall]
    rfl
  rw [hdrop, hdrop, ← List.flatMap_cons]
  congr 1
  exact List.drop_eq_getElem_cons h

/-- A log ends with its last line. -/
theorem bytes_eq (log : Journal) : log.bytes = (log.entries.take log.last).flatMap Entry.text ++
    (log.entries.get ⟨log.last, log.last_lt⟩).text := by
  have hend : log.bytes.drop (log.start log.last) =
      (log.entries.get ⟨log.last, log.last_lt⟩).text := by
    rw [drop_start log.last_lt, ← count_eq, start_count, List.drop_length, List.append_nil]
  have hfront := Records.drop_take_flatMap Entry.text log.entries 0 log.last
  rw [Records.offset_zero, List.drop_zero, List.drop_zero] at hfront
  rw [← hfront, ← hend]
  exact (List.take_append_drop _ _).symm

end Journal

/-- A non-empty log of less than 4 GiB. -/
structure Log where
  lines : List Line
  nonempty : lines ≠ []
  sorted : lines.Pairwise (fun a b => a.stamp ≤ b.stamp)
  small : (lines.flatMap Line.text).length < 2 ^ 32

namespace Log

variable (log : Log)

def bytes : List UInt8 := log.lines.flatMap Line.text

def count : Nat := log.lines.length

/-- The stamp of a line; behind the end, that of the last line. -/
def stamp (k : Nat) : UInt64 := (log.lines.getD k (log.lines.getLast log.nonempty)).stamp

/-- Where a line starts. -/
def start (k : Nat) : Nat := Records.offset Line.text log.lines k

/-- The first line that starts at the offset or behind it. -/
def lineFrom (off : Nat) : Nat := Records.indexFrom Line.text log.lines off

def last : Nat := log.count - 1

/-- The lines stamped from `st` to `et`. -/
def selected (st et : UInt64) : List Line :=
  log.lines.filter (fun line => decide (st ≤ line.stamp ∧ line.stamp ≤ et))

/-- The same file, without the bounds. -/
def journal : Journal := ⟨log.lines.map Line.entry, fun h => log.nonempty (List.map_eq_nil_iff.mp h)⟩

@[simp] theorem journal_bytes : log.journal.bytes = log.bytes := List.flatMap_map ..

@[simp] theorem journal_count : log.journal.count = log.count := List.length_map ..

@[simp] theorem journal_last : log.journal.last = log.last := by
  rw [Journal.last, journal_count, last]

@[simp] theorem journal_start (k : Nat) : log.journal.start k = log.start k :=
  Records.offset_map Line.entry Entry.text log.lines k

@[simp] theorem journal_lineFrom (off : Nat) : log.journal.lineFrom off = log.lineFrom off :=
  Records.indexFrom_map Line.entry Entry.text log.lines off

@[simp] theorem journal_stamp (k : Nat) : log.journal.stamp k = log.stamp k := by
  have hlast : log.journal.entries.getLast log.journal.nonempty =
      (log.lines.getLast log.nonempty).entry := List.getLast_map ..
  rw [Journal.stamp, hlast]
  exact congrArg Entry.stamp (List.getD_map ..)

theorem journal_short : log.journal.Short 512 := by
  intro entry hentry
  obtain ⟨line, -, rfl⟩ := List.mem_map.mp hentry
  exact line.short

theorem journal_ordered : log.journal.Ordered := List.pairwise_map.mpr log.sorted

variable {log} {i j k off : Nat}

theorem count_eq (log : Log) : log.count = log.last + 1 := by
  simpa using log.journal.count_eq

theorem last_lt (log : Log) : log.last < log.count := by
  simpa using log.journal.last_lt

@[simp] theorem start_zero (log : Log) : log.start 0 = 0 := rfl

@[simp] theorem start_count (log : Log) : log.start log.count = log.bytes.length := by
  simpa using log.journal.start_count

theorem start_mono (log : Log) (h : i ≤ j) : log.start i ≤ log.start j := by
  simpa using log.journal.start_mono h

theorem start_lt (h : i < j) (hi : i < log.count) : log.start i < log.start j :=
  Records.offset_lt (fun line => line.entry.text_ne_nil) h hi

theorem le_start (log : Log) (h : k ≤ log.count) : k ≤ log.start k := by
  have hle := log.journal.le_start (k := k) (by simpa using h)
  simpa using hle

theorem stamp_eq (h : k < log.count) : log.stamp k = (log.lines.get ⟨k, h⟩).stamp := by
  rw [stamp, List.getD_eq_getElem _ _ h]
  rfl

theorem stamp_monotone (log : Log) : Monotone log.stamp := by
  intro i j hij
  simpa using Journal.stamp_monotone log.journal_ordered hij

end Log

end EventLoop.LogFile
