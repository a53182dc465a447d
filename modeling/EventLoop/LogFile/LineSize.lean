import EventLoop.LogFile.Output
import EventLoop.LogFile.Search

/-!
Which lines of `lfs_write_out` the readers can take. The writer accepts payloads of up to
32 KiB; `init_lfs` and `getNearSeq` look at 1024 bytes, and `msg` holds as many.
-/

namespace EventLoop.LogFile

/-- `MAX_LOGLINE_SIZE` -/
def maxLoglineSize : Nat := 32768

/-- The text that `jss_encode` makes of a payload. -/
structure JssEncoder where
  encode : List UInt8 → List UInt8
  noNewline : ∀ data, newline ∉ encode data
  length_le : ∀ data, data.length ≤ (encode data).length

/-- `lfs_write_out`: what it returns, and the file. -/
def lfsWriteOut (jss : JssEncoder) (ct : UInt64) (data file : List UInt8) : Nat × List UInt8 :=
  if maxLoglineSize ≤ data.length then (0, file)
  else
    let sampleData := lineText ct (jss.encode data)
    (sampleData.length, file ++ sampleData)

/-- A call that `lfs_write_out` accepts. -/
structure Write where
  ct : UInt64
  data : List UInt8
  accepted : data.length < maxLoglineSize

def writtenFile (jss : JssEncoder) (writes : List Write) : List UInt8 :=
  writes.foldl (fun file write => (lfsWriteOut jss write.ct write.data file).2) []

def Write.entry (jss : JssEncoder) (write : Write) : Entry :=
  ⟨write.ct, jss.encode write.data, jss.noNewline write.data⟩

/-- The lines of a file that was written, and of one more payload behind them. -/
def writtenLog (jss : JssEncoder) (earlier : List Write) (write : Write) : Journal :=
  ⟨(earlier ++ [write]).map (Write.entry jss), by simp⟩

/-- `init_lfs` recovers where the last line starts and its stamp, `getNearSeq` the line
start that comes next and its stamp, and no copy overruns `msg`. -/
structure ReadBack (log : Journal) : Prop where
  last : ∃ plfs, initLfs log.bytes = some plfs ∧ plfs.loff = log.start log.last ∧
    plfs.lt = log.stamp log.last
  near : ∀ off, 0 < off → off ≤ log.start log.last →
    getNearSeq log.bytes off = some (log.stamp (log.lineFrom off), log.start (log.lineFrom off))
  copied : ∀ soff eoff, ∀ msg ∈ filter2 log.bytes soff eoff, msg.length + 1 ≤ dataSize + 1

/-- The last line fits the window, and any other does with what is needed of the stamp
behind it. -/
structure LinesFit (log : Journal) : Prop where
  last : log.size log.last ≤ dataSize
  earlier : ∀ k < log.last, log.size k + stampNeeds (log.stamp (k + 1)) ≤ dataSize

theorem writtenLog_bytes (jss : JssEncoder) (earlier : List Write) (write : Write) :
    (writtenLog jss earlier write).bytes = writtenFile jss (earlier ++ [write]) := by
  have hfold (writes : List Write) (file : List UInt8) :
      writes.foldl (fun file write => (lfsWriteOut jss write.ct write.data file).2) file =
        file ++ (writes.map (Write.entry jss)).flatMap Entry.text := by
    induction writes generalizing file with
    | nil => exact (List.append_nil file).symm
    | cons write rest ih =>
        rw [List.foldl_cons, ih, lfsWriteOut, if_neg (Nat.not_le.mpr write.accepted),
          List.append_assoc]
        rfl
  exact (hfold _ []).symm

theorem LinesFit.short {log : Journal} (h : LinesFit log) : log.Short dataSize := by
  apply Journal.short_iff.mpr
  intro k hk
  rw [log.count_eq] at hk
  rcases Nat.lt_or_eq_of_le (Nat.le_of_lt_succ hk) with hlt | rfl
  · exact Nat.le_trans (Nat.le_add_right _ _) (h.earlier k hlt)
  · exact h.last

/-- `getNearSeq` is right at every offset of a line if it is at the first. -/
theorem near_iff (log : Journal) :
    (∀ off, 0 < off → off ≤ log.start log.last →
      getNearSeq log.bytes off =
        some (log.stamp (log.lineFrom off), log.start (log.lineFrom off))) ↔
    ∀ k < log.last, log.size k + stampNeeds (log.stamp (k + 1)) ≤ dataSize := by
  have hlast := log.last_lt
  constructor
  · intro hnear k hk
    have hstart : log.start k < log.start (k + 1) := Journal.start_lt (Nat.lt_succ_self k) (by omega)
    have hat := hnear (log.start k + 1) (Nat.succ_pos _)
      (Nat.le_trans hstart (log.start_mono hk))
    rw [Journal.lineFrom_start_succ hk, Journal.getNearSeq_iff hk (Nat.lt_succ_self _) hstart] at hat
    rw [Journal.size]
    omega
  · intro hfits off hpos hoff
    obtain ⟨k, hk, hbehind, hbefore⟩ := log.exists_line hpos hoff (Nat.le_of_lt hlast)
    have hfit := hfits k hk
    rw [Journal.size] at hfit
    rw [Journal.lineFrom_eq (by omega) hbehind hbefore, Journal.getNearSeq_iff hk hbehind hbefore]
    omega

theorem readBack_iff (log : Journal) : ReadBack log ↔ LinesFit log := by
  constructor
  · intro h
    refine ⟨?_, (near_iff log).mp h.near⟩
    obtain ⟨plfs, hinit, hloff, -⟩ := h.last
    apply Nat.le_of_not_lt
    intro hlong
    have hlength := log.length_bytes
    have hwrong := Journal.initLfs_long hlong hinit
    rw [hloff] at hwrong
    omega
  · intro h
    refine ⟨⟨_, Journal.initLfs_spec h.short, rfl, rfl⟩, (near_iff log).mpr h.earlier, ?_⟩
    intro soff eoff msg hmsg
    exact Nat.succ_le_succ (Journal.filter2_short h.short (by decide) hmsg)

theorem line_size_agreed_iff (jss : JssEncoder) (earlier : List Write) (write : Write) :
    (writtenLog jss earlier write).bytes = writtenFile jss (earlier ++ [write]) ∧
      (ReadBack (writtenLog jss earlier write) ↔ LinesFit (writtenLog jss earlier write)) :=
  ⟨writtenLog_bytes jss earlier write, readBack_iff _⟩

/-- A line is longer than its payload. -/
theorem lt_size_last (jss : JssEncoder) (earlier : List Write) (write : Write) :
    write.data.length < (writtenLog jss earlier write).size (writtenLog jss earlier write).last := by
  have hentry : (writtenLog jss earlier write).entries.getLast
      (writtenLog jss earlier write).nonempty = write.entry jss := by
    simp [writtenLog]
  rw [List.getLast_eq_getElem] at hentry
  have hgrows := jss.length_le write.data
  rw [Journal.size_eq (Journal.last_lt _)]
  refine Nat.lt_of_lt_of_eq ?_ (congrArg (fun entry => entry.text.length) hentry.symm)
  simp only [Write.entry, Entry.text, lineText, List.length_append, List.length_cons]
  omega

/-- `\n` for a newline. -/
def escapeChar (char : UInt8) : List UInt8 := if char = newline then [92, 110] else [char]

def escapeNewline : JssEncoder where
  encode := List.flatMap escapeChar
  noNewline := by
    intro data hmem
    obtain ⟨char, -, hchar⟩ := List.mem_flatMap.mp hmem
    rw [escapeChar] at hchar
    split at hchar
    · exact absurd hchar (by decide)
    · rename_i hne
      exact hne (List.mem_singleton.mp hchar).symm
  length_le := by
    intro data
    induction data with
    | nil => exact Nat.le_refl _
    | cons char rest ih =>
        have hchar : 1 ≤ (escapeChar char).length := by
          rw [escapeChar]
          split <;> simp
        rw [List.flatMap_cons, List.length_append, List.length_cons]
        omega

def longWrite : Write := ⟨1, List.replicate 1100 97, by rw [List.length_replicate]; decide⟩

theorem long_line_not_read_back : ¬ ReadBack (writtenLog escapeNewline [] longWrite) := by
  intro h
  have hfits := ((readBack_iff _).mp h).last
  have hlong := lt_size_last escapeNewline [] longWrite
  rw [longWrite, List.length_replicate, dataSize] at *
  omega

end EventLoop.LogFile
