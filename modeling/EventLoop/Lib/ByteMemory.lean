import Mathlib.Algebra.GroupWithZero.Nat
import Mathlib.Data.List.GetD
import Mathlib.Tactic.Common

/-!
Memory as bytes at addresses: runs of bytes and words that are read and written, and what a
write leaves as it was. A `Store` also keeps the places that have been written, so that a
program can be asked whether it has stayed in its buffer.
-/

namespace EventLoop.ByteMemory

variable {m : Nat → UInt8} {p q n : Nat} {bytes : List UInt8}

/-- The bytes from `p` on. -/
def read (m : Nat → UInt8) (p n : Nat) : List UInt8 := (List.range n).map (fun i => m (p + i))

/-- The memory with the bytes from `p` on. -/
def write (m : Nat → UInt8) (p : Nat) (bytes : List UInt8) : Nat → UInt8 :=
  fun a => if p ≤ a then bytes.getD (a - p) (m a) else m a

@[simp] theorem length_read (m : Nat → UInt8) (p n : Nat) : (read m p n).length = n := by
  rw [read, List.length_map, List.length_range]

@[simp] theorem read_zero (m : Nat → UInt8) (p : Nat) : read m p 0 = [] := rfl

theorem getElem_read (m : Nat → UInt8) (p n : Nat) {i : Nat} (h : i < (read m p n).length) :
    (read m p n)[i] = m (p + i) := by
  simp [read]

/-- Equal bytes, equal reads. -/
theorem read_congr {m' : Nat → UInt8} (h : ∀ i < n, m (p + i) = m' (q + i)) :
    read m p n = read m' q n :=
  List.map_congr_left (fun i hi => h i (List.mem_range.mp hi))

theorem read_eq_iff (hlength : bytes.length = n) :
    read m p n = bytes ↔ ∀ i (hi : i < bytes.length), m (p + i) = bytes[i] := by
  constructor
  · rintro rfl i hi
    exact (getElem_read m p n hi).symm
  · intro h
    apply List.ext_getElem ((length_read m p n).trans hlength.symm)
    intro i hi hi'
    rw [getElem_read, h i hi']

theorem read_add (m : Nat → UInt8) (p k n : Nat) :
    read m p (k + n) = read m p k ++ read m (p + k) n := by
  simp [read, List.range_add, Nat.add_assoc]

theorem read_succ (m : Nat → UInt8) (p n : Nat) : read m p (n + 1) = m p :: read m (p + 1) n := by
  rw [Nat.add_comm, read_add]
  rfl

theorem take_read (m : Nat → UInt8) (p n k : Nat) : (read m p n).take k = read m p (min k n) := by
  rw [read, read, ← List.map_take, List.take_range]

theorem read_append_iff {front back : List UInt8} :
    read m p (front.length + back.length) = front ++ back ↔
      read m p front.length = front ∧ read m (p + front.length) back.length = back := by
  rw [read_add]
  constructor
  · intro h
    exact List.append_inj h (length_read m p front.length)
  · rintro ⟨hfront, hback⟩
    rw [hfront, hback]

theorem read_part {k l : Nat} (h : k + l ≤ n) :
    read m (p + k) l = ((read m p n).drop k).take l := by
  obtain ⟨rest, rfl⟩ := Nat.exists_eq_add_of_le h
  have hdrop : (read m p k).length = k := length_read m p k
  rw [Nat.add_assoc, read_add, List.drop_left' hdrop, take_read, Nat.min_eq_left (by omega)]

theorem length_flatten_of_forall {pieces : List (List UInt8)}
    (hsize : ∀ piece ∈ pieces, piece.length = n) : pieces.flatten.length = n * pieces.length := by
  have hlengths : ∀ l ∈ pieces.map List.length, l = n := by
    intro l hl
    obtain ⟨piece, hpiece, rfl⟩ := List.mem_map.mp hl
    exact hsize piece hpiece
  rw [List.length_flatten, List.eq_replicate_of_mem hlengths, List.sum_replicate_nat,
    List.length_map, Nat.mul_comm]

/-- Pieces of one size that stand one behind the other, read as a whole. -/
theorem read_flatten {pieces : List (List UInt8)} (hsize : ∀ piece ∈ pieces, piece.length = n)
    (hread : ∀ j (hj : j < pieces.length), read m (p + n * j) n = pieces[j]) :
    read m p pieces.flatten.length = pieces.flatten := by
  induction pieces generalizing p with
  | nil => rfl
  | cons piece pieces ih =>
      have hpiece : piece.length = n := hsize piece (List.mem_cons_self ..)
      have hfirst := hread 0 (Nat.succ_pos _)
      rw [Nat.mul_zero, Nat.add_zero] at hfirst
      rw [List.flatten_cons, List.length_append, read_append_iff, hpiece]
      refine ⟨hfirst, ih (fun other hother => hsize other (List.mem_cons_of_mem _ hother)) ?_⟩
      intro j hj
      have hplace : p + n + n * j = p + n * (j + 1) := by
        rw [Nat.mul_succ]
        omega
      rw [hplace]
      exact hread (j + 1) (Nat.succ_lt_succ hj)

/-- Pieces of one size that stand one behind the other, read one by one. -/
theorem map_read_of_flatten {pieces : List (List UInt8)}
    (hsize : ∀ piece ∈ pieces, piece.length = n)
    (hread : read m p (n * pieces.length) = pieces.flatten) :
    (List.range pieces.length).map (fun i => read m (p + n * i) n) = pieces := by
  induction pieces generalizing p with
  | nil => rfl
  | cons piece pieces ih =>
      have hpiece : piece.length = n := hsize piece (List.mem_cons_self ..)
      have hrest : pieces.flatten.length = n * pieces.length :=
        length_flatten_of_forall (fun other hother => hsize other (List.mem_cons_of_mem _ hother))
      rw [List.length_cons, Nat.mul_succ, Nat.add_comm, List.flatten_cons, ← hrest] at hread
      nth_rewrite 1 [← hpiece] at hread
      obtain ⟨hfirst, hbehind⟩ := read_append_iff.mp hread
      rw [hpiece] at hfirst hbehind
      rw [hrest] at hbehind
      have hpieces := ih (fun other hother => hsize other (List.mem_cons_of_mem _ hother)) hbehind
      rw [List.length_cons, List.range_succ_eq_map, List.map_cons, List.map_map, Nat.mul_zero,
        Nat.add_zero, hfirst]
      nth_rewrite 2 [← hpieces]
      refine congrArg _ (List.map_congr_left (fun i _ => ?_))
      have hplace : p + n * (i + 1) = p + n + n * i := by
        rw [Nat.mul_succ]
        omega
      change read m (p + n * (i + 1)) n = _
      rw [hplace]

theorem write_of_lt {a : Nat} (h : a < p) : write m p bytes a = m a :=
  if_neg (Nat.not_le.mpr h)

theorem write_of_ge {a : Nat} (h : p + bytes.length ≤ a) : write m p bytes a = m a := by
  rw [write]
  split
  · exact List.getD_eq_default _ _ (by omega)
  · rfl

theorem write_at {i : Nat} (h : i < bytes.length) : write m p bytes (p + i) = bytes[i] := by
  rw [write, if_pos (Nat.le_add_right p i), Nat.add_sub_cancel_left]
  exact List.getD_eq_getElem _ _ h

theorem write_congr_at {m' : Nat → UInt8} {a : Nat} (h : m a = m' a) :
    write m p bytes a = write m' p bytes a := by
  rw [write, write, h]

@[simp] theorem write_nil : write m p [] = m := by
  funext a
  simp [write]

theorem read_write_self (m : Nat → UInt8) (p : Nat) (bytes : List UInt8) :
    read (write m p bytes) p bytes.length = bytes :=
  (read_eq_iff rfl).mpr (fun _ hi => write_at hi)

/-- A write leaves what is apart from it. -/
theorem read_write_of_disjoint (h : q + n ≤ p ∨ p + bytes.length ≤ q) :
    read (write m p bytes) q n = read m q n := by
  apply read_congr
  intro i hi
  rcases h with hbefore | hbehind
  · exact write_of_lt (by omega)
  · exact write_of_ge (by omega)

/-- A part of what a write has written. -/
theorem read_write_part {k : Nat} (h : k + n ≤ bytes.length) :
    read (write m p bytes) (p + k) n = (bytes.drop k).take n := by
  have hlength : ((bytes.drop k).take n).length = n := by
    rw [List.length_take, List.length_drop]
    omega
  rw [read_eq_iff hlength]
  intro i hi
  rw [List.getElem_take, List.getElem_drop, Nat.add_assoc, write_at (by omega)]

theorem write_append (m : Nat → UInt8) (p : Nat) (front back : List UInt8) :
    write (write m p front) (p + front.length) back = write m p (front ++ back) := by
  funext a
  by_cases hbefore : a < p
  · rw [write_of_lt (by omega), write_of_lt hbefore, write_of_lt hbefore]
  · obtain ⟨i, rfl⟩ := Nat.exists_eq_add_of_le (Nat.le_of_not_lt hbefore)
    by_cases hfront : i < front.length
    · rw [write_of_lt (by omega), write_at hfront, write_at (by rw [List.length_append]; omega),
        List.getElem_append_left hfront]
    · obtain ⟨j, rfl⟩ := Nat.exists_eq_add_of_le (Nat.le_of_not_lt hfront)
      by_cases hback : j < back.length
      · rw [← Nat.add_assoc, write_at hback, Nat.add_assoc,
          write_at (by rw [List.length_append]; omega),
          List.getElem_append_right (Nat.le_add_right _ _)]
        simp
      · rw [write_of_ge (by omega), write_of_ge (by omega),
          write_of_ge (by rw [List.length_append]; omega)]

/-- Bytes on either side of a write are the same before it and behind it. -/
theorem write_comm_of_disjoint {q : Nat} {other : List UInt8}
    (h : p + bytes.length ≤ q ∨ q + other.length ≤ p) :
    write (write m p bytes) q other = write (write m q other) p bytes := by
  funext a
  by_cases hother : q ≤ a ∧ a < q + other.length
  · obtain ⟨i, rfl⟩ := Nat.exists_eq_add_of_le hother.1
    have hi : i < other.length := by omega
    have hapart (m : Nat → UInt8) : write m p bytes (q + i) = m (q + i) := by
      rcases h with hbefore | hbehind
      · exact write_of_ge (by omega)
      · exact write_of_lt (by omega)
    rw [write_at hi, hapart, write_at hi]
  · have hapart (m : Nat → UInt8) : write m q other a = m a := by
      by_cases hbefore : a < q
      · exact write_of_lt hbefore
      · exact write_of_ge (by omega)
    rw [hapart]
    exact write_congr_at (hapart m).symm

theorem write_prepend (m : Nat → UInt8) (p : Nat) (front back : List UInt8) :
    write (write m (p + front.length) back) p front = write m p (front ++ back) := by
  rw [← write_append]
  exact write_comm_of_disjoint (.inr (Nat.le_refl _))

variable {size w : Nat}

/-- A word of so many bytes, the least significant one first. -/
def wordBytes : Nat → Nat → List UInt8
  | 0, _ => []
  | size + 1, w => UInt8.ofNat w :: wordBytes size (w / 256)

def wordOf : List UInt8 → Nat
  | [] => 0
  | byte :: rest => byte.toNat + 256 * wordOf rest

@[simp] theorem length_wordBytes (size w : Nat) : (wordBytes size w).length = size := by
  induction size generalizing w with
  | zero => rfl
  | succ size ih => rw [wordBytes, List.length_cons, ih]

theorem wordOf_wordBytes (h : w < 256 ^ size) : wordOf (wordBytes size w) = w := by
  induction size generalizing w with
  | zero =>
      obtain rfl : w = 0 := by simpa using h
      rfl
  | succ size ih =>
      have hquotient : w / 256 < 256 ^ size := Nat.div_lt_of_lt_mul (by rwa [← Nat.pow_succ'])
      have hbyte : (UInt8.ofNat w).toNat = w % 256 := UInt8.toNat_ofNat'
      rw [wordBytes, wordOf, ih hquotient, hbyte]
      exact Nat.mod_add_div w 256

def readWord (size : Nat) (m : Nat → UInt8) (p : Nat) : Nat := wordOf (read m p size)

theorem readWord_write_self (h : w < 256 ^ size) :
    readWord size (write m p (wordBytes size w)) p = w := by
  have hread := read_write_self m p (wordBytes size w)
  rw [length_wordBytes] at hread
  rw [readWord, hread, wordOf_wordBytes h]

theorem readWord_congr {m' : Nat → UInt8} (h : read m p size = read m' q size) :
    readWord size m p = readWord size m' q :=
  congrArg wordOf h

def wordsBytes (size : Nat) (words : List Nat) : List UInt8 := words.flatMap (wordBytes size)

@[simp] theorem length_wordsBytes (size : Nat) (words : List Nat) :
    (wordsBytes size words).length = size * words.length := by
  induction words with
  | nil => rfl
  | cons word words ih =>
      rw [wordsBytes, List.flatMap_cons, List.length_append, length_wordBytes, ← wordsBytes, ih,
        List.length_cons, Nat.mul_succ, Nat.add_comm]

theorem wordsBytes_append (size : Nat) (front back : List Nat) :
    wordsBytes size (front ++ back) = wordsBytes size front ++ wordsBytes size back :=
  List.flatMap_append

theorem readWord_of_wordsBytes {words : List Nat} (hbounds : ∀ word ∈ words, word < 256 ^ size)
    (hread : read m p (size * words.length) = wordsBytes size words) {i : Nat}
    (hi : i < words.length) : readWord size m (p + size * i) = words[i] := by
  induction words generalizing p i with
  | nil => exact absurd hi (Nat.not_lt_zero i)
  | cons word words ih =>
      have hsplit : read m p ((wordBytes size word).length + (wordsBytes size words).length) =
          wordBytes size word ++ wordsBytes size words := by
        rw [length_wordBytes, length_wordsBytes, Nat.add_comm, ← Nat.mul_succ]
        exact hread
      obtain ⟨hword, hwords⟩ := read_append_iff.mp hsplit
      rw [length_wordBytes] at hword hwords
      rw [length_wordsBytes] at hwords
      cases i with
      | zero =>
          rw [Nat.mul_zero, Nat.add_zero, readWord, hword]
          exact wordOf_wordBytes (hbounds word (List.mem_cons_self ..))
      | succ i =>
          have hplace : p + size * (i + 1) = p + size + size * i := by
            rw [Nat.mul_succ]
            omega
          rw [hplace]
          exact ih (fun w hw => hbounds w (List.mem_cons_of_mem _ hw)) hwords
            (Nat.lt_of_succ_lt_succ hi)

/-- Pointers to these places, and a null pointer behind them. -/
structure PointerTable (size : Nat) (m : Nat → UInt8) (p : Nat) (targets : List Nat) : Prop where
  entries : ∀ i (hi : i < targets.length), readWord size m (p + size * i) = targets[i]
  nonnull : ∀ target ∈ targets, target ≠ 0
  ended : readWord size m (p + size * targets.length) = 0

variable {targets : List Nat}

theorem pointerTable_of_read
    (hbounds : ∀ target ∈ targets, 0 < target ∧ target < 256 ^ size)
    (hread : read m p (size * (targets.length + 1)) = wordsBytes size (targets ++ [0])) :
    PointerTable size m p targets := by
  have hall : ∀ word ∈ targets ++ [0], word < 256 ^ size := by
    intro word hword
    rcases List.mem_append.mp hword with htarget | hnull
    · exact (hbounds word htarget).2
    · obtain rfl := List.mem_singleton.mp hnull
      exact Nat.pow_pos (by decide)
  have hlength : (targets ++ [0]).length = targets.length + 1 := by simp
  rw [← hlength] at hread
  constructor
  · intro i hi
    rw [readWord_of_wordsBytes hall hread (by omega), List.getElem_append_left hi]
  · exact fun target htarget => Nat.ne_of_gt (hbounds target htarget).1
  · rw [readWord_of_wordsBytes hall hread (by omega)]
    simp

theorem PointerTable.congr {m' : Nat → UInt8} (h : PointerTable size m p targets)
    (hread : read m' p (size * (targets.length + 1)) = read m p (size * (targets.length + 1))) :
    PointerTable size m' p targets := by
  have hword {i : Nat} (hi : i ≤ targets.length) :
      readWord size m' (p + size * i) = readWord size m (p + size * i) := by
    apply readWord_congr
    apply read_congr
    intro j hj
    have hplace : size * i + j < size * (targets.length + 1) := by
      have := Nat.mul_le_mul_left size hi
      rw [Nat.mul_succ]
      omega
    have hall := (read_eq_iff (length_read m p _)).mp hread (size * i + j)
      (by rwa [length_read])
    rw [getElem_read] at hall
    rw [Nat.add_assoc, hall]
  constructor
  · intro i hi
    rw [hword (Nat.le_of_lt hi), h.entries i hi]
  · exact h.nonnull
  · rw [hword (Nat.le_refl _), h.ended]

/-- What `strncpy` writes of a string: `n` of its characters, or all of them and null bytes. -/
def padded (string : List UInt8) (n : Nat) : List UInt8 :=
  string.take n ++ List.replicate (n - string.length) 0

@[simp] theorem length_padded (string : List UInt8) (n : Nat) : (padded string n).length = n := by
  rw [padded, List.length_append, List.length_take, List.length_replicate]
  omega

theorem take_padded {string : List UInt8} (h : string.length < n) :
    (padded string n).take (string.length + 1) = string ++ [0] := by
  obtain ⟨more, hmore⟩ := Nat.exists_eq_add_of_lt h
  have hleft : n - string.length = more + 1 := by omega
  rw [padded, List.take_of_length_le (Nat.le_of_lt h), hleft, List.replicate_succ,
    List.take_length_add_append]
  rfl

/-- The string at `p`, with its null byte, lies in `n` bytes from there. -/
structure StringIn (m : Nat → UInt8) (p n : Nat) (text : List UInt8) : Prop where
  fits : text.length < n
  chars : read m p (text.length + 1) = text ++ [0]
  nonnull : 0 ∉ text

theorem StringIn.at_char {text : List UInt8} (h : StringIn m p n text) {i : Nat}
    (hi : i < text.length) : m (p + i) ≠ 0 := by
  have hlength : (text ++ [0]).length = text.length + 1 := by simp
  have hchar := (read_eq_iff hlength).mp h.chars i (by omega)
  rw [List.getElem_append_left hi] at hchar
  intro hzero
  exact h.nonnull (hzero ▸ hchar ▸ List.getElem_mem hi)

theorem StringIn.at_end {text : List UInt8} (h : StringIn m p n text) :
    m (p + text.length) = 0 := by
  have hlength : (text ++ [0]).length = text.length + 1 := by simp
  have hchar := (read_eq_iff hlength).mp h.chars text.length (by omega)
  simpa using hchar

theorem StringIn.takeWhile_read {text : List UInt8} (h : StringIn m p n text) :
    (read m p n).takeWhile (· ≠ 0) = text := by
  obtain ⟨rest, rfl⟩ := Nat.exists_eq_add_of_le (Nat.succ_le_of_lt h.fits)
  have hchars : ∀ c ∈ text, decide (c ≠ 0) = true := by
    intro c hc
    rw [decide_eq_true_iff]
    rintro rfl
    exact h.nonnull hc
  rw [read_add, h.chars, List.append_assoc, List.takeWhile_append_of_pos hchars]
  simp

/-- `strlen`; `none` if the string has not ended by then. -/
def stringLength (m : Nat → UInt8) (p : Nat) : Nat → Option Nat
  | 0 => none
  | fuel + 1 => if m p = 0 then some 0 else (stringLength m (p + 1) fuel).map (· + 1)

theorem StringIn.stringLength_eq {text : List UInt8} (h : StringIn m p n text) {fuel length : Nat}
    (hlength : stringLength m p fuel = some length) : length = text.length := by
  suffices hcount : ∀ i ≤ text.length, ∀ fuel length,
      stringLength m (p + i) fuel = some length → i + length = text.length by
    exact (Nat.zero_add length).symm.trans (hcount 0 (Nat.zero_le _) fuel length hlength)
  intro i hi fuel
  induction fuel generalizing i with
  | zero =>
      intro length hlength
      cases hlength
  | succ fuel ih =>
      intro length hlength
      rw [stringLength] at hlength
      split at hlength
      · rename_i hend
        obtain rfl := Option.some.inj hlength
        exact Nat.le_antisymm hi (Nat.le_of_not_lt (fun hlt => h.at_char hlt hend))
      · rename_i hchar
        obtain ⟨rest, hrest, rfl⟩ := Option.map_eq_some_iff.mp hlength
        have hlt : i < text.length := by
          apply Nat.lt_of_le_of_ne hi
          rintro rfl
          exact hchar h.at_end
        have hnext := ih (i + 1) hlt rest hrest
        omega

/-- Strings one behind the other, each with its null byte. -/
def stringsBytes (texts : List (List UInt8)) : List UInt8 := texts.flatMap (· ++ [0])

/-- Where they start, from `p` on. -/
def stringPlaces : Nat → List (List UInt8) → List Nat
  | _, [] => []
  | p, text :: rest => p :: stringPlaces (p + (text.length + 1)) rest

@[simp] theorem length_stringPlaces (p : Nat) (texts : List (List UInt8)) :
    (stringPlaces p texts).length = texts.length := by
  induction texts generalizing p with
  | nil => rfl
  | cons text rest ih => rw [stringPlaces, List.length_cons, ih, List.length_cons]

theorem stringsBytes_cons (text : List UInt8) (rest : List (List UInt8)) :
    stringsBytes (text :: rest) = (text ++ [0]) ++ stringsBytes rest := List.flatMap_cons

theorem stringsBytes_concat (texts : List (List UInt8)) (text : List UInt8) :
    stringsBytes (texts ++ [text]) = stringsBytes texts ++ (text ++ [0]) := by
  rw [stringsBytes, List.flatMap_append, List.flatMap_singleton]
  rfl

theorem length_stringsBytes_cons (text : List UInt8) (rest : List (List UInt8)) :
    (stringsBytes (text :: rest)).length = text.length + 1 + (stringsBytes rest).length := by
  rw [stringsBytes_cons, List.length_append, List.length_append, List.length_singleton]

theorem stringPlaces_concat (p : Nat) (texts : List (List UInt8)) (text : List UInt8) :
    stringPlaces p (texts ++ [text]) =
      stringPlaces p texts ++ [p + (stringsBytes texts).length] := by
  induction texts generalizing p with
  | nil => rfl
  | cons first rest ih =>
      rw [List.cons_append, stringPlaces, ih, stringPlaces, length_stringsBytes_cons,
        Nat.add_assoc p]
      rfl

theorem mem_stringPlaces {texts : List (List UInt8)} {place : Nat}
    (h : place ∈ stringPlaces p texts) : p ≤ place ∧ place < p + (stringsBytes texts).length := by
  induction texts generalizing p with
  | nil => cases h
  | cons text rest ih =>
      rw [length_stringsBytes_cons]
      rcases List.mem_cons.mp h with rfl | hrest
      · omega
      · have hbounds := ih hrest
        omega

theorem stringIn_of_stringsBytes {texts : List (List UInt8)} (hnonnull : ∀ text ∈ texts, 0 ∉ text)
    (hread : read m p (stringsBytes texts).length = stringsBytes texts) :
    List.Forall₂ (fun place text => StringIn m place (text.length + 1) text)
      (stringPlaces p texts) texts := by
  induction texts generalizing p with
  | nil => exact .nil
  | cons text rest ih =>
      rw [stringsBytes_cons, List.length_append] at hread
      obtain ⟨hfirst, hrest⟩ := read_append_iff.mp hread
      rw [List.length_append, List.length_singleton] at hfirst hrest
      refine .cons ⟨Nat.lt_succ_self _, hfirst, hnonnull text (List.mem_cons_self ..)⟩ ?_
      exact ih (fun t ht => hnonnull t (List.mem_cons_of_mem _ ht)) hrest

/-- Memory, with the start and the length of every write to it. -/
structure Store where
  bytes : Nat → UInt8
  writes : List (Nat × Nat)

def Store.write (s : Store) (p : Nat) (bytes : List UInt8) : Store :=
  ⟨ByteMemory.write s.bytes p bytes, s.writes ++ [(p, bytes.length)]⟩

/-- Every write lies in the buffer. -/
def Store.Within (base len : Nat) (s : Store) : Prop :=
  ∀ place ∈ s.writes, base ≤ place.1 ∧ place.1 + place.2 ≤ base + len

variable {s : Store} {base len : Nat}

@[simp] theorem Store.bytes_write (s : Store) (p : Nat) (bytes : List UInt8) :
    (s.write p bytes).bytes = ByteMemory.write s.bytes p bytes := rfl

@[simp] theorem Store.within_write : (s.write p bytes).Within base len ↔
    s.Within base len ∧ base ≤ p ∧ p + bytes.length ≤ base + len := by
  simp only [Store.Within, Store.write, List.mem_append, List.mem_singleton]
  constructor
  · intro h
    exact ⟨fun place hplace => h place (.inl hplace), h (p, bytes.length) (.inr rfl)⟩
  · rintro ⟨hbefore, hplace⟩ place (hmem | rfl)
    · exact hbefore place hmem
    · exact hplace

end EventLoop.ByteMemory
