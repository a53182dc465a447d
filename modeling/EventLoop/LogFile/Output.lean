import EventLoop.Lib.Delimited
import EventLoop.LogFile.Journal

/-!
The loops of `filter2`: a file is read a buffer at a time, every line of the buffer is copied
into `msg` and passed to `outfilter`, and the start of an unfinished line is kept in front of
what is read next.
-/

namespace EventLoop.LogFile

/-- `BULK_BUF_SIZE` -/
def bulkBufSize : Nat := 0x100000

/-- The `do` loop: the copies into `msg`, and the `unbufBytes` bytes that stay in `buf`. -/
def copyLines : Nat → List UInt8 → List (List UInt8) × List UInt8
  | 0, buf => ([], buf)
  | fuel + 1, buf =>
      let j := buf.findIdx (· == newline)
      if j < buf.length then
        let copied := copyLines fuel (buf.drop (j + 1))
        (buf.take (j + 1) :: copied.1, copied.2)
      else ([], buf)

/-- How many bytes the `while` loop asks for. -/
def filter2ToRead (off unbufBytes : Nat) (eoff : Int) : Int :=
  let toRead : Int := min (bulkBufSize - unbufBytes - 1) (eoff - off)
  if off % 512 = 0 then toRead else toRead - (512 - off % 512)

/-- The `while` loop; `pos` is where the file is read. -/
def filter2Loop (file : List UInt8) (eoff : Int) : Nat → Nat → Nat → List UInt8 → List (List UInt8)
  | 0, _, _, _ => []
  | fuel + 1, off, pos, unbuf =>
      let toRead := filter2ToRead off unbuf.length eoff
      let read := (file.drop pos).take toRead.toNat
      if (off : Int) < eoff ∧ 0 < toRead ∧ read ≠ [] then
        let buf := unbuf ++ read
        let copied := copyLines buf.length buf
        copied.1 ++ filter2Loop file eoff fuel (off + buf.length) (pos + read.length) copied.2
      else []

/-- The lines that `filter2` passes to `outfilter`. -/
def filter2 (file : List UInt8) (soff : Nat) (eoff : Int) : List (List UInt8) :=
  filter2Loop file eoff (eoff.toNat + 1) soff soff []

theorem copyLines_flatten (fuel : Nat) (buf : List UInt8) :
    (copyLines fuel buf).1.flatten ++ (copyLines fuel buf).2 = buf := by
  induction fuel generalizing buf with
  | zero => rfl
  | succ fuel ih =>
      simp only [copyLines]
      split
      · rw [List.flatten_cons, List.append_assoc, ih, List.take_append_drop]
      · rfl

/-- Up to the newline that is found. -/
theorem take_findIdx {buf : List UInt8} (h : buf.findIdx (· == newline) < buf.length) :
    buf.take (buf.findIdx (· == newline) + 1) =
        buf.take (buf.findIdx (· == newline)) ++ [newline] ∧
      newline ∉ buf.take (buf.findIdx (· == newline)) := by
  constructor
  · have hget : buf[buf.findIdx (· == newline)] = newline :=
      eq_of_beq (List.findIdx_getElem (w := h))
    rw [List.take_succ_eq_append_getElem h, hget]
  · intro hmem
    obtain ⟨i, hi, hget⟩ := List.mem_take_iff_getElem.mp hmem
    have hnot := List.not_of_lt_findIdx (Nat.lt_of_lt_of_le hi (Nat.min_le_left _ _))
    rw [hget] at hnot
    exact absurd hnot (by simp)

/-- A copy ends with its only newline. -/
theorem copyLines_line {fuel : Nat} {buf msg : List UInt8} (h : msg ∈ (copyLines fuel buf).1) :
    ∃ body, msg = body ++ [newline] ∧ newline ∉ body := by
  induction fuel generalizing buf with
  | zero => exact absurd h List.not_mem_nil
  | succ fuel ih =>
      simp only [copyLines] at h
      split at h
      · rename_i hfound
        rcases List.mem_cons.mp h with rfl | h
        · exact ⟨buf.take (buf.findIdx (· == newline)), take_findIdx hfound⟩
        · exact ih h
      · exact absurd h List.not_mem_nil

/-- Every copy is a part of the file that ends with its only newline. -/
theorem filter2Loop_line {file : List UInt8} {eoff : Int} {fuel off pos : Nat}
    {unbuf msg : List UInt8} (hpart : unbuf ++ file.drop pos <:+: file)
    (h : msg ∈ filter2Loop file eoff fuel off pos unbuf) :
    ∃ body, msg = body ++ [newline] ∧ newline ∉ body ∧ body <:+: file := by
  induction fuel generalizing off pos unbuf with
  | zero => exact absurd h List.not_mem_nil
  | succ fuel ih =>
      simp only [filter2Loop] at h
      set read := (file.drop pos).take (filter2ToRead off unbuf.length eoff).toNat
      have hread : read ++ file.drop (pos + read.length) = file.drop pos := by
        rw [← List.drop_drop]
        exact List.prefix_iff_eq_append.mp (List.take_prefix _ _)
      have hflatten := copyLines_flatten (unbuf ++ read).length (unbuf ++ read)
      have hline (msg : List UInt8) := @copyLines_line (unbuf ++ read).length (unbuf ++ read) msg
      generalize copyLines (unbuf ++ read).length (unbuf ++ read) = copied at h hflatten hline
      rw [← hread, ← List.append_assoc, ← hflatten, List.append_assoc] at hpart
      split at h
      · rcases List.mem_append.mp h with h | h
        · obtain ⟨body, rfl, hbody⟩ := hline msg h
          refine ⟨body, rfl, hbody, (List.prefix_append body [newline]).isInfix.trans ?_⟩
          apply (List.infix_of_mem_flatten h).trans
          exact (List.prefix_append _ _).isInfix.trans hpart
        · apply ih _ h
          exact (List.suffix_append _ _).isInfix.trans hpart
      · exact absurd h List.not_mem_nil

theorem filter2_line {file msg : List UInt8} {soff : Nat} {eoff : Int}
    (h : msg ∈ filter2 file soff eoff) :
    ∃ body, msg = body ++ [newline] ∧ newline ∉ body ∧ body <:+: file :=
  filter2Loop_line (List.drop_suffix soff file).isInfix h

/-- Without a newline no part of the text of lines is as long as the longest line. -/
theorem length_infix {entries : List Entry} {bound : Nat} {part : List UInt8}
    (hshort : ∀ entry ∈ entries, entry.text.length ≤ bound) (hpart : newline ∉ part)
    (h : part <:+: entries.flatMap Entry.text) : part.length ≤ bound - 1 := by
  induction entries with
  | nil =>
      obtain rfl := List.infix_nil.mp h
      exact Nat.zero_le _
  | cons entry rest ih =>
      obtain ⟨body, htext, hbody⟩ := entry.text_eq
      obtain ⟨hentry, hrest⟩ := List.forall_mem_cons.mp hshort
      rw [List.flatMap_cons, htext, List.append_assoc] at h
      rw [htext, List.length_append, List.length_singleton] at hentry
      rcases Delimited.infix_of_not_mem hpart h with hle | h
      · omega
      · exact ih hrest h

/-- Where no line is longer than the bound, no copy is. -/
theorem Journal.filter2_short {log : Journal} {bound : Nat} (hshort : log.Short bound)
    (hbound : 0 < bound) {msg : List UInt8} {soff : Nat} {eoff : Int}
    (h : msg ∈ filter2 log.bytes soff eoff) : msg.length ≤ bound := by
  obtain ⟨body, rfl, hbody, hpart⟩ := filter2_line h
  have hlength := length_infix hshort hbody hpart
  rw [List.length_append, List.length_singleton]
  omega

end EventLoop.LogFile
