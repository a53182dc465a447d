import EventLoop.LogFile.Chunks
import Mathlib.Data.Nat.Find

/-!
How far `filter2` reads. While there is more than a buffer left, each read fills the buffer behind
the start of the line that the read before has ended in, but for what is missing from `off` to the
next multiple of 512. Of the rest it leaves out as much; and `off`, which has counted what was
carried twice, decides how often it asks for `eoff % 512` bytes more.
-/

namespace EventLoop.LogFile

/-- What is missing to the next multiple of 512 from `soff`, moved on by `i` full reads. -/
def sectorGap (soff i : Nat) : Nat := (2 ^ i * ((512 - soff % 512) % 512 + 1) + 511) % 512

/-- How many bytes the buffer holds behind the `i`-th full read. -/
def room (soff i : Nat) : Nat := bulkBufSize - 1 - sectorGap soff i

/-- `soff`, moved on by `i` full reads. -/
def counted (soff i : Nat) : Nat := soff + ((List.range i).map (room soff)).sum

theorem sectorGap_succ (soff i : Nat) : sectorGap soff (i + 1) = (2 * sectorGap soff i + 1) % 512 := by
  have hdouble : 2 ^ (i + 1) * ((512 - soff % 512) % 512 + 1) =
      2 * (2 ^ i * ((512 - soff % 512) % 512 + 1)) := by
    rw [Nat.pow_succ, Nat.mul_comm (2 ^ i) 2, Nat.mul_assoc]
  unfold sectorGap
  rw [hdouble]
  generalize 2 ^ i * ((512 - soff % 512) % 512 + 1) = gap
  omega

theorem counted_succ (soff i : Nat) : counted soff (i + 1) = counted soff i + room soff i := by
  rw [counted, counted, List.range_succ, List.map_append, List.sum_append, List.map_singleton,
    List.sum_singleton, Nat.add_assoc]

/-- `off` is at the end of a sector of 512 but for the gap. -/
theorem gap_counted (soff i : Nat) : (512 - counted soff i % 512) % 512 = sectorGap soff i := by
  induction i with
  | zero =>
      simp only [counted, sectorGap, List.range_zero, List.map_nil, List.sum_nil]
      omega
  | succ i ih =>
      rw [counted_succ, sectorGap_succ, ← ih, room, ← ih, bulkBufSize]
      omega

theorem sectorGap_lt (soff i : Nat) : sectorGap soff i < 512 := Nat.mod_lt _ (by decide)

theorem le_counted (soff i : Nat) : i ≤ counted soff i := by
  induction i with
  | zero => exact Nat.zero_le _
  | succ i ih =>
      have := sectorGap_lt soff i
      rw [counted_succ, room, bulkBufSize]
      omega

theorem filter2ToRead_eq (off unbufBytes : Nat) (eoff : Int) :
    filter2ToRead off unbufBytes eoff =
      min ((bulkBufSize : Int) - unbufBytes - 1) (eoff - off) - ((512 - off % 512) % 512 : Nat) := by
  simp only [filter2ToRead]
  split <;> omega

namespace Journal

/-- The last line that starts in front of a place or at it. -/
def lineAt (log : Journal) (pos : Nat) : Nat :=
  Nat.findGreatest (fun k => log.start k ≤ pos) log.count

/-- What lies between the start of that line and the place. -/
def carried (log : Journal) (pos : Nat) : Nat := pos - log.start (log.lineAt pos)

/-- Where the `i`-th read begins if all before it are full. -/
def readFrom (log : Journal) (soff : Nat) : Nat → Nat
  | 0 => soff
  | i + 1 => log.start (log.lineAt (log.readFrom soff i)) + room soff i

/-- There is enough left for the `i`-th read to be full. -/
def Full (log : Journal) (soff eoff i : Nat) : Prop :=
  counted soff i + (bulkBufSize - 1) ≤ eoff + log.carried (log.readFrom soff i)

/-- Reads of `eoff % 512` bytes from `pos` on come to `place`, where `spare` is left to be
counted: the bytes that are read and, a second time, what has been carried. -/
def ReadOn (log : Journal) (eoff spare pos place : Nat) : Prop :=
  0 < eoff % 512 ∧ ∀ r, pos + r * (eoff % 512) < place →
    (r + 1) * (eoff % 512) +
      ((List.range r).map (fun t => log.carried (pos + t * (eoff % 512)))).sum ≤ spare

/-- The lines are read up to `place`: by the full reads, or by the read behind them, which leaves
out the gap and what has been carried by the full ones, or by those that go on from there. -/
def ReadUpTo (log : Journal) (soff eoff place : Nat) : Prop :=
  ∃ i, (∀ t < i, log.Full soff eoff t) ∧ ¬ log.Full soff eoff i ∧
    (place ≤ log.readFrom soff i ∨
      counted soff i + sectorGap soff i < eoff ∧
        let pos := log.readFrom soff i + (eoff - counted soff i - sectorGap soff i)
        (place ≤ pos ∨ log.ReadOn eoff (sectorGap soff i - log.carried (log.readFrom soff i)) pos
          place))

variable {log : Journal} {i j k soff eoff off pos place : Nat}

theorem lineAt_spec (log : Journal) (pos : Nat) : log.lineAt pos ≤ log.count ∧
    log.start (log.lineAt pos) ≤ pos ∧
      (log.lineAt pos < log.count → pos < log.start (log.lineAt pos + 1)) := by
  refine ⟨Nat.findGreatest_le _, ?_, fun hlt => ?_⟩
  · exact @Nat.findGreatest_spec 0 (fun k => log.start k ≤ pos) _ log.count (Nat.zero_le _)
      (Nat.zero_le _)
  · exact Nat.lt_of_not_le (@Nat.findGreatest_is_greatest _ (fun k => log.start k ≤ pos) _
      log.count (Nat.lt_succ_self _) hlt)

theorem start_add_carried (log : Journal) (pos : Nat) :
    log.start (log.lineAt pos) + log.carried pos = pos :=
  Nat.add_sub_cancel' (log.lineAt_spec pos).2.1

/-- What is carried to the next read is the start of a line. -/
theorem length_fragment (hpos : pos ≤ log.bytes.length) :
    (fragment log.bytes pos).length = log.carried pos := by
  obtain ⟨hline, hstart, hnext⟩ := log.lineAt_spec pos
  have hpart : newline ∉ (log.bytes.drop (log.start (log.lineAt pos))).take (log.carried pos) := by
    rcases Nat.lt_or_eq_of_le hline with hlt | heq
    · apply newline_not_mem_take hlt
      have hinside := hnext hlt
      rw [size, carried]
      omega
    · rw [heq, start_count, List.drop_length, List.take_nil]
      exact List.not_mem_nil
  have hfragment := fragment_add log.bytes (log.start (log.lineAt pos)) (log.carried pos)
  rw [start_add_carried, fragment_start, List.nil_append, Delimited.split_of_not_mem hpart]
    at hfragment
  rw [hfragment, List.length_take, List.length_drop]
  have := start_add_carried log pos
  omega

theorem carried_lt {bound : Nat} (hshort : log.Short bound) (hbound : 0 < bound)
    (hpos : pos ≤ log.bytes.length) : log.carried pos < bound := by
  obtain ⟨hline, hstart, hnext⟩ := log.lineAt_spec pos
  rw [carried]
  rcases Nat.lt_or_eq_of_le hline with hlt | heq
  · have hsize := short_iff.mp hshort _ hlt
    have := hnext hlt
    rw [size] at hsize
    omega
  · rw [heq, start_count]
    omega

/-- A read goes on. -/
theorem reaches_read {n : Nat} (hpos : pos ≤ log.bytes.length) (hoff : off < eoff) (hn : 0 < n)
    (hread : filter2ToRead off (log.carried pos) eoff = n) :
    Reaches log.bytes eoff place off pos ↔
      Reaches log.bytes eoff place (off + log.carried pos + n) (pos + n) := by
  rw [← length_fragment hpos] at hread ⊢
  constructor
  · intro h
    cases h with
    | here hle => exact .here (Nat.le_add_right_of_le hle)
    | read _ _ rest =>
        rw [hread, Int.toNat_natCast] at rest
        exact rest
  · intro h
    refine .read hoff (by omega) ?_
    rwa [hread, Int.toNat_natCast]

theorem reaches_end (hpos : pos ≤ log.bytes.length)
    (hdone : off < eoff → filter2ToRead off (log.carried pos) eoff ≤ 0) :
    Reaches log.bytes eoff place off pos ↔ place ≤ pos := by
  apply reaches_iff_of_done
  rw [length_fragment hpos]
  exact fun h => absurd (hdone h.1) (Int.not_le.mpr h.2)

theorem ReadOn.sector_le {spare : Nat} (h : log.ReadOn eoff spare pos place) (hlt : pos < place) :
    eoff % 512 ≤ spare := by
  simpa using h.2 0 (by omega)

/-- One more such read leaves less to be counted. -/
theorem readOn_iff {spare : Nat} (hsector : 0 < eoff % 512) (hspare : eoff % 512 ≤ spare) :
    place ≤ pos ∨ log.ReadOn eoff spare pos place ↔
      place ≤ pos + eoff % 512 ∨
        log.ReadOn eoff (spare - (eoff % 512 + log.carried pos)) (pos + eoff % 512) place := by
  have hnext (r : Nat) : pos + (r + 1) * (eoff % 512) = pos + eoff % 512 + r * (eoff % 512) := by
    rw [Nat.succ_mul]
    omega
  have hsum (r : Nat) :
      ((List.range (r + 1)).map (fun t => log.carried (pos + t * (eoff % 512)))).sum =
        log.carried pos +
          ((List.range r).map (fun t => log.carried (pos + eoff % 512 + t * (eoff % 512)))).sum := by
    rw [List.range_succ_eq_map, List.map_cons, List.sum_cons, List.map_map, Nat.zero_mul,
      Nat.add_zero]
    congr 3
    exact funext (fun t => congrArg log.carried (hnext t))
  constructor
  · intro h
    rcases Nat.lt_or_ge (pos + eoff % 512) place with hmore | hend
    · right
      refine ⟨hsector, fun r hr => ?_⟩
      rw [← hnext] at hr
      have hread := (h.resolve_left (by omega)).2 (r + 1) hr
      rw [hsum, Nat.succ_mul] at hread
      omega
    · exact .inl hend
  · intro h
    right
    refine ⟨hsector, fun r hr => ?_⟩
    cases r with
    | zero => simpa using hspare
    | succ r =>
        rw [hnext] at hr
        have hread := (h.resolve_left (by omega)).2 r hr
        have hpos : 0 < (r + 1) * (eoff % 512) := Nat.mul_pos (Nat.succ_pos r) hsector
        rw [hsum, Nat.succ_mul]
        omega

/-- The reads behind the one that has left out the gap. -/
theorem reaches_readOn (hshort : log.Short dataSize) (heoff : eoff ≤ log.bytes.length)
    {spare : Nat} (hspare : spare < 512) (hoff : eoff ≤ off + spare)
    (hexact : 0 < spare → off + spare = eoff) (hle : pos ≤ off) (hpos : pos ≤ eoff) :
    Reaches log.bytes eoff place off pos ↔
      place ≤ pos ∨ log.ReadOn eoff spare pos place := by
  induction spare using Nat.strong_induction_on generalizing off pos with
  | _ spare ih =>
      have hcarried := carried_lt hshort (by decide) (Nat.le_trans hpos heoff)
      rw [dataSize] at hcarried
      have htoRead := filter2ToRead_eq off (log.carried pos) eoff
      rw [bulkBufSize] at htoRead
      by_cases hgo : 0 < eoff % 512 ∧ eoff % 512 ≤ spare
      · obtain ⟨hsector, hroom⟩ := hgo
        have hoff := hexact (by omega)
        have hread : filter2ToRead off (log.carried pos) eoff = (eoff % 512 : Nat) := by omega
        rw [reaches_read (Nat.le_trans hpos heoff) (by omega) hsector hread,
          readOn_iff hsector hroom]
        exact ih (spare - (eoff % 512 + log.carried pos)) (by omega) (by omega) (by omega)
          (by omega) (by omega) (by omega)
      · rw [reaches_end (Nat.le_trans hpos heoff) (fun hlt => by omega)]
        constructor
        · exact Or.inl
        · rintro (hend | hread)
          · exact hend
          · apply Nat.le_of_not_lt
            exact fun hlt => hgo ⟨hread.1, hread.sector_le hlt⟩

/-- A full read leads to the next one. -/
theorem reaches_full (hshort : log.Short dataSize) (heoff : eoff ≤ log.bytes.length)
    (hfull : log.Full soff eoff i) (hle : log.readFrom soff i ≤ counted soff i)
    (hpos : log.readFrom soff i ≤ eoff) :
    log.readFrom soff (i + 1) ≤ counted soff (i + 1) ∧ log.readFrom soff (i + 1) ≤ eoff ∧
      (Reaches log.bytes eoff place (counted soff i) (log.readFrom soff i) ↔
        Reaches log.bytes eoff place (counted soff (i + 1)) (log.readFrom soff (i + 1))) := by
  have hcarried := carried_lt hshort (by decide) (Nat.le_trans hpos heoff)
  have hgap := sectorGap_lt soff i
  have htoRead := filter2ToRead_eq (counted soff i) (log.carried (log.readFrom soff i)) eoff
  have hstart := log.start_add_carried (log.readFrom soff i)
  rw [gap_counted] at htoRead
  rw [Full] at hfull
  rw [dataSize] at hcarried
  simp only [bulkBufSize] at htoRead hfull
  have hread : filter2ToRead (counted soff i) (log.carried (log.readFrom soff i)) eoff =
      (room soff i - log.carried (log.readFrom soff i) : Nat) := by
    rw [room, bulkBufSize]
    omega
  have hroom : room soff i = 1048575 - sectorGap soff i := rfl
  rw [reaches_read (Nat.le_trans hpos heoff) (by omega) (by omega) hread, counted_succ, readFrom]
  refine ⟨by omega, by omega, ?_⟩
  have hoff : counted soff i + log.carried (log.readFrom soff i) +
      (room soff i - log.carried (log.readFrom soff i)) = counted soff i + room soff i := by omega
  have hplace : log.readFrom soff i + (room soff i - log.carried (log.readFrom soff i)) =
      log.start (log.lineAt (log.readFrom soff i)) + room soff i := by omega
  rw [hoff, hplace]

theorem reaches_filled (hshort : log.Short dataSize) (heoff : eoff ≤ log.bytes.length)
    (hsoff : soff ≤ eoff) (hfull : ∀ t < i, log.Full soff eoff t) :
    log.readFrom soff i ≤ counted soff i ∧ log.readFrom soff i ≤ eoff ∧
      (Reaches log.bytes eoff place soff soff ↔
        Reaches log.bytes eoff place (counted soff i) (log.readFrom soff i)) := by
  induction i with
  | zero => exact ⟨Nat.le_refl _, hsoff, Iff.rfl⟩
  | succ i ih =>
      obtain ⟨hle, hpos, hreaches⟩ := ih (fun t ht => hfull t (Nat.lt_succ_of_lt ht))
      obtain ⟨hle', hpos', hnext⟩ := @reaches_full log i soff eoff place hshort heoff
        (hfull i (Nat.lt_succ_self i)) hle hpos
      exact ⟨hle', hpos', hreaches.trans hnext⟩

/-- The first read that is not full, and what follows it. -/
theorem reaches_rest (hshort : log.Short dataSize) (heoff : eoff ≤ log.bytes.length)
    (hfull : ¬ log.Full soff eoff i) (hle : log.readFrom soff i ≤ counted soff i)
    (hpos : log.readFrom soff i ≤ eoff) :
    Reaches log.bytes eoff place (counted soff i) (log.readFrom soff i) ↔
      place ≤ log.readFrom soff i ∨ counted soff i + sectorGap soff i < eoff ∧
        (place ≤ log.readFrom soff i + (eoff - counted soff i - sectorGap soff i) ∨
          log.ReadOn eoff (sectorGap soff i - log.carried (log.readFrom soff i))
            (log.readFrom soff i + (eoff - counted soff i - sectorGap soff i)) place) := by
  have hcarried := carried_lt hshort (by decide) (Nat.le_trans hpos heoff)
  have hgap := sectorGap_lt soff i
  have htoRead := filter2ToRead_eq (counted soff i) (log.carried (log.readFrom soff i)) eoff
  rw [gap_counted] at htoRead
  rw [Full] at hfull
  rw [dataSize] at hcarried
  simp only [bulkBufSize] at htoRead hfull
  rcases Nat.lt_or_ge (counted soff i + sectorGap soff i) eoff with hmore | hend
  · have hread : filter2ToRead (counted soff i) (log.carried (log.readFrom soff i)) eoff =
        (eoff - counted soff i - sectorGap soff i : Nat) := by omega
    rw [reaches_read (Nat.le_trans hpos heoff) (by omega) (by omega) hread,
      reaches_readOn hshort heoff
        (show sectorGap soff i - log.carried (log.readFrom soff i) < 512 by omega)
        (by omega) (by omega) (by omega) (by omega)]
    constructor
    · exact fun h => .inr ⟨hmore, h⟩
    · rintro (h | h)
      · exact .inl (Nat.le_add_right_of_le h)
      · exact h.2
  · rw [reaches_end (Nat.le_trans hpos heoff) (fun hlt => by omega)]
    constructor
    · exact Or.inl
    · rintro (h | h)
      · exact h
      · omega

theorem exists_not_full (hshort : log.Short dataSize) (heoff : eoff ≤ log.bytes.length)
    (hsoff : soff ≤ eoff) : ∃ i, ¬ log.Full soff eoff i := by
  by_contra hall
  rw [not_exists] at hall
  simp only [not_not] at hall
  obtain ⟨-, hpos, -⟩ := @reaches_filled log (eoff + 1) soff eoff 0 hshort heoff hsoff
    (fun t _ => hall t)
  have hcarried := carried_lt hshort (by decide) (Nat.le_trans hpos heoff)
  have hcounted := le_counted soff (eoff + 1)
  have hfull := hall (eoff + 1)
  rw [Full, bulkBufSize] at hfull
  rw [dataSize] at hcarried
  omega

/-- The reads of `filter2` come to `place` exactly if the lines say so. -/
theorem reaches_iff (hshort : log.Short dataSize) (heoff : eoff ≤ log.bytes.length)
    (hsoff : soff ≤ eoff) :
    Reaches log.bytes eoff place soff soff ↔ log.ReadUpTo soff eoff place := by
  have hiff {i : Nat} (hfull : ∀ t < i, log.Full soff eoff t) (hrest : ¬ log.Full soff eoff i) :=
    have hfilled := @reaches_filled log i soff eoff place hshort heoff hsoff hfull
    hfilled.2.2.trans (reaches_rest hshort heoff hrest hfilled.1 hfilled.2.1)
  constructor
  · intro h
    classical
    have hfirst := Nat.find_spec (exists_not_full hshort heoff hsoff)
    have hbefore : ∀ t < Nat.find (exists_not_full hshort heoff hsoff), log.Full soff eoff t :=
      fun t ht => not_not.mp (Nat.find_min _ ht)
    exact ⟨_, hbefore, hfirst, (hiff hbefore hfirst).mp h⟩
  · rintro ⟨i, hfull, hrest, h⟩
    exact (hiff hfull hrest).mpr h

/-- Whatever the filter, nothing is lost of a range without NUL that is read whole. -/
theorem all_read_iff (hshort : log.Short dataSize) (hij : i ≤ j) (hj : j ≤ log.count) :
    (∀ k, i ≤ k → k < j → log.ReadUpTo (log.start i) (log.start j) (log.start (k + 1))) ↔
    ReadsWhole log.bytes (log.start j) (log.start i) := by
  simp only [← reaches_iff hshort (log.start_le_length hj) (log.start_mono hij)]
  rw [← readsWhole_iff (log.start_mono hij)]
  constructor
  · intro hall
    rcases Nat.eq_or_lt_of_le hij with rfl | hlt
    · exact .here (Nat.le_refl _)
    · have hlast := hall (j - 1) (by omega) (by omega)
      rwa [Nat.sub_add_cancel (by omega)] at hlast
  · intro hwhole k _ hk
    exact hwhole.mono (log.start_mono hk)

/-- A range from a multiple of 512 on that fits the buffer is read at once. -/
theorem readsWhole_of_aligned (hij : i < j) (hj : j ≤ log.count) (haligned : log.start i % 512 = 0)
    (hroom : log.start j - log.start i < bulkBufSize) :
    ReadsWhole log.bytes (log.start j) (log.start i) := by
  apply ReadsWhole.last haligned (start_lt hij (Nat.lt_of_lt_of_le hij hj))
  rw [fragment_start, List.length_nil, Nat.zero_add]
  exact hroom

end Journal

end EventLoop.LogFile
