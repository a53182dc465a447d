import EventLoop.Dns.Lookup
import EventLoop.Lib.Delimited
import EventLoop.LogFile.Format

/-!
How `__open_nameservers` reads `resolv.conf`. `fgets` cuts the file behind each newline and, where a
line is too long for `szBuffer`, behind 127 bytes; each piece is taken for a line. What the file
lists is what its whole lines say.
-/

namespace EventLoop.Dns

open Delimited LogFile

/-- `sizeof(szBuffer)` -/
def szBufferSize : Nat := 128

/-- `RESOLV_ARGS` -/
def resolvArgs : Nat := 5

/-- `#` -/
def hash : UInt8 := 35

/-- What the calls of `fgets` put into `szBuffer`, behind what the current one has read. -/
def fgetsPieces : List UInt8 → List UInt8 → List (List UInt8)
  | piece, [] => if piece = [] then [] else [piece]
  | piece, char :: file =>
      if char = newline ∨ piece.length + 2 = szBufferSize then
        (piece ++ [char]) :: fgetsPieces [] file
      else fgetsPieces (piece ++ [char]) file

/-- The words from `p` on, at most so many. -/
def splitWords : Nat → List UInt8 → List (List UInt8)
  | 0, _ => []
  | args + 1, p =>
      if p = [] then []
      else p.takeWhile (!isSpace ·) ::
        splitWords args ((p.dropWhile (!isSpace ·)).dropWhile isSpace)

/-- A word as a string, with a character for each byte. -/
def wordOf (word : List UInt8) : String := String.ofList (word.map (fun char => Char.ofNat char.toNat))

/-- The first words of a line, none if it is blank or a comment; `szBuffer` ends at a NUL. -/
def lineWords (args : Nat) (szBuffer : List UInt8) : List String :=
  let p := (szBuffer.takeWhile (· ≠ 0)).dropWhile isSpace
  if p.head? = some hash then [] else (splitWords args p).map wordOf

/-- The words that `__open_nameservers` finds in a file. -/
def readConf (file : List UInt8) : ResolvConf :=
  (fgetsPieces [] file).map (lineWords resolvArgs)

/-- The lines of a file behind the start of one, whole, without their newlines. -/
def linesFrom (start file : List UInt8) : List (List UInt8) :=
  (Split.feed newline ⟨[], start⟩ file).units ++ [(Split.feed newline ⟨[], start⟩ file).rest]

def fileLines (file : List UInt8) : List (List UInt8) := linesFrom [] file

/-- The servers that a line names. -/
def lineNames : List String → List String
  | [] => []
  | keyword :: args => if keyword = "nameserver" then args else []

/-- The arguments of the `nameserver` lines, in order. -/
def ResolvConf.names (conf : ResolvConf) : List String := conf.flatMap lineNames

/-- The servers that a file lists: all words of the whole lines, of each up to a NUL. -/
def listedNames (file : List UInt8) : List String :=
  (fileLines file).flatMap (fun line => lineNames (lineWords line.length line))

/-- No line is longer than `szBuffer` has room for. -/
def LinesFit (file : List UInt8) : Prop := ∀ line ∈ fileLines file, line.length + 1 ≤ szBufferSize

instance (file : List UInt8) : Decidable (LinesFit file) :=
  inferInstanceAs (Decidable (∀ line ∈ fileLines file, line.length + 1 ≤ szBufferSize))

variable {file piece p : List UInt8} {args : Nat}

theorem linesFrom_newline (piece file : List UInt8) :
    linesFrom piece (newline :: file) = piece :: linesFrom [] file := by
  simp only [linesFrom, Split.feed_cons, Split.push_delimiter]
  rw [Split.feed_units_append]
  rfl

theorem linesFrom_char {char : UInt8} (h : char ≠ newline) :
    linesFrom piece (char :: file) = linesFrom (piece ++ [char]) file := by
  simp only [linesFrom, Split.feed_cons, Split.push_of_ne _ h]

/-- A line that is not yet at its end is one of those to come. -/
theorem exists_line_of_start (piece file : List UInt8) :
    ∃ line ∈ linesFrom piece file, piece <+: line := by
  induction file generalizing piece with
  | nil => exact ⟨piece, List.mem_singleton.mpr rfl, List.prefix_rfl⟩
  | cons char file ih =>
      rcases eq_or_ne char newline with rfl | hchar
      · rw [linesFrom_newline]
        exact ⟨piece, List.mem_cons_self .., List.prefix_rfl⟩
      · rw [linesFrom_char hchar]
        obtain ⟨line, hline, hprefix⟩ := ih (piece ++ [char])
        exact ⟨line, hline, (List.prefix_append _ _).trans hprefix⟩

/-- Where the lines fit, the pieces are the lines, but for newlines and pieces without a word. -/
theorem flatMap_fgetsPieces {g : List UInt8 → List String} (hnil : g [] = [])
    (hnewline : ∀ piece, g (piece ++ [newline]) = g piece)
    (hpiece : piece.length + 1 < szBufferSize)
    (hfit : ∀ line ∈ linesFrom piece file, line.length + 1 ≤ szBufferSize) :
    (fgetsPieces piece file).flatMap g = (linesFrom piece file).flatMap g := by
  induction hn : file.length using Nat.strong_induction_on generalizing piece file with
  | _ n ih =>
      have hempty : ([] : List UInt8).length + 1 < szBufferSize := by decide
      cases file with
      | nil =>
          rw [fgetsPieces]
          split
          · rename_i hpiece
            simp [linesFrom, Split.feed, hpiece, hnil]
          · rfl
      | cons char file =>
          rw [List.length_cons] at hn
          rw [fgetsPieces]
          rcases eq_or_ne char newline with rfl | hchar
          · rw [linesFrom_newline] at hfit ⊢
            rw [if_pos (.inl rfl), List.flatMap_cons, List.flatMap_cons, hnewline,
              ih file.length (by omega) hempty (fun line hline => hfit line (List.mem_cons_of_mem _ hline))
                rfl]
          · rw [linesFrom_char hchar] at hfit ⊢
            by_cases hfull : piece.length + 2 = szBufferSize
            · -- the buffer is full: the line ends here, or the file does
              rw [if_pos (.inr hfull), List.flatMap_cons]
              have hlength : (piece ++ [char]).length + 1 = szBufferSize := by simpa using hfull
              cases file with
              | nil => simp [fgetsPieces, linesFrom, Split.feed]
              | cons next file =>
                  obtain rfl : next = newline := by
                    by_contra hnext
                    rw [linesFrom_char hnext] at hfit
                    obtain ⟨line, hline, hprefix⟩ := exists_line_of_start (piece ++ [char] ++ [next]) file
                    have hle := hprefix.length_le
                    have hshort := hfit line hline
                    rw [List.length_append, List.length_singleton] at hle
                    omega
                  rw [linesFrom_newline] at hfit ⊢
                  rw [fgetsPieces, if_pos (.inl rfl), List.flatMap_cons, List.flatMap_cons, hnewline [],
                    hnil, List.nil_append,
                    ih file.length (by rw [List.length_cons] at hn; omega) hempty
                      (fun line hline => hfit line (List.mem_cons_of_mem _ hline)) rfl]
            · rw [if_neg (not_or.mpr ⟨hchar, hfull⟩)]
              exact ih file.length (by omega)
                (by rw [List.length_append, List.length_singleton]; omega) hfit rfl

theorem dropWhile_newline (p : List UInt8) : (p ++ [newline]).dropWhile isSpace =
    if p.dropWhile isSpace = [] then [] else p.dropWhile isSpace ++ [newline] := by
  induction p with
  | nil => rfl
  | cons char p ih =>
      rw [List.cons_append]
      cases hspace : isSpace char with
      | true => rw [List.dropWhile_cons_of_pos hspace, List.dropWhile_cons_of_pos hspace, ih]
      | false =>
          rw [List.dropWhile_cons_of_neg (by simp [hspace]),
            List.dropWhile_cons_of_neg (by simp [hspace]), if_neg (List.cons_ne_nil _ _)]
          rfl

theorem takeWhile_word_newline (p : List UInt8) :
    (p ++ [newline]).takeWhile (!isSpace ·) = p.takeWhile (!isSpace ·) ∧
      (p ++ [newline]).dropWhile (!isSpace ·) = p.dropWhile (!isSpace ·) ++ [newline] := by
  induction p with
  | nil => exact ⟨rfl, rfl⟩
  | cons char p ih =>
      rw [List.cons_append]
      cases hspace : isSpace char with
      | true => simp [hspace]
      | false => simp [hspace, ih]

/-- A newline at the end of a line adds no word. -/
theorem splitWords_newline (args : Nat) (p : List UInt8) :
    splitWords args ((p ++ [newline]).dropWhile isSpace) = splitWords args (p.dropWhile isSpace) := by
  induction args generalizing p with
  | zero => rfl
  | succ args ih =>
      rw [dropWhile_newline]
      by_cases hempty : p.dropWhile isSpace = []
      · rw [if_pos hempty, hempty]
      · obtain ⟨htake, hdrop⟩ := takeWhile_word_newline (p.dropWhile isSpace)
        rw [if_neg hempty, splitWords, if_neg (by simp), htake, hdrop, ih, splitWords, if_neg hempty]

theorem lineWords_nil (args : Nat) : lineWords args [] = [] := by
  cases args <;> rfl

theorem head_newline (p : List UInt8) :
    ((p ++ [newline]).dropWhile isSpace).head? = some hash ↔
      (p.dropWhile isSpace).head? = some hash := by
  rw [dropWhile_newline]
  split
  · rename_i hblank
    rw [hblank]
  · rename_i hword
    rw [List.head?_append_of_ne_nil _ hword]

/-- A newline at the end of a line changes none of its words. -/
theorem lineWords_newline (args : Nat) (piece : List UInt8) :
    lineWords args (piece ++ [newline]) = lineWords args piece := by
  have hcut : (piece ++ [newline]).takeWhile (· ≠ 0) = piece.takeWhile (· ≠ 0) ∨
      (piece ++ [newline]).takeWhile (· ≠ 0) = piece.takeWhile (· ≠ 0) ++ [newline] := by
    rw [List.takeWhile_append]
    split
    · rename_i hlength
      have hwhole := (List.takeWhile_prefix (l := piece) (· ≠ (0 : UInt8))).eq_of_length hlength
      exact .inr (congrArg (· ++ [newline]) hwhole.symm)
    · exact .inl rfl
  rcases hcut with hcut | hcut
  · simp only [lineWords, hcut]
  · simp only [lineWords, hcut, splitWords_newline, head_newline]

theorem length_behind_word (hp : p ≠ []) :
    ((p.dropWhile (!isSpace ·)).dropWhile isSpace).length < p.length := by
  cases p with
  | nil => exact absurd rfl hp
  | cons char p =>
      have hword := (List.dropWhile_suffix (l := p) (!isSpace ·)).length_le
      have hspaces := (List.dropWhile_suffix (l := p) isSpace).length_le
      have hrest := (List.dropWhile_suffix (l := p.dropWhile (!isSpace ·)) isSpace).length_le
      rw [List.length_cons]
      cases hspace : isSpace char with
      | true =>
          simp only [List.dropWhile_cons, hspace, Bool.not_true, Bool.false_eq_true, if_false, if_true]
          exact Nat.lt_succ_of_le hspaces
      | false =>
          simp only [List.dropWhile_cons, hspace, Bool.not_false, if_true]
          exact Nat.lt_succ_of_le (Nat.le_trans hrest hword)

/-- The words found are the first of all there are. -/
theorem splitWords_take {args n : Nat} (hall : p.length ≤ n) :
    splitWords args p = (splitWords n p).take args := by
  induction args generalizing n p with
  | zero => rfl
  | succ args ih =>
      cases n with
      | zero =>
          obtain rfl := List.eq_nil_of_length_eq_zero (Nat.le_zero.mp hall)
          rfl
      | succ n =>
          rw [splitWords, splitWords]
          split
          · rfl
          · rename_i hp
            have hshorter := length_behind_word hp
            rw [List.take_succ_cons, ← ih (Nat.le_of_lt_succ (Nat.lt_of_lt_of_le hshorter hall))]

/-- No name of a line is missed for which there is room in the table. -/
theorem lineNames_words (line : List UInt8) :
    lineNames (lineWords resolvArgs line) =
      (lineNames (lineWords line.length line)).take (resolvArgs - 1) := by
  have hlength : ((line.takeWhile (· ≠ 0)).dropWhile isSpace).length ≤ line.length :=
    Nat.le_trans (List.dropWhile_suffix _).length_le (List.takeWhile_prefix _).length_le
  rw [lineWords, lineWords, splitWords_take hlength]
  split
  · rfl
  · cases splitWords line.length ((line.takeWhile (· ≠ 0)).dropWhile isSpace) with
    | nil => rfl
    | cons keyword words =>
        rw [resolvArgs, List.take_succ_cons, List.map_cons, List.map_cons, lineNames, lineNames,
          List.map_take]
        split <;> rfl

theorem take_flatMap_take {α β : Type} (f : α → List β) {m n : Nat} (hle : n ≤ m) (xs : List α) :
    (xs.flatMap (fun x => (f x).take m)).take n = (xs.flatMap f).take n := by
  induction xs generalizing n with
  | nil => rfl
  | cons x xs ih =>
      rw [List.flatMap_cons, List.flatMap_cons, List.take_append, List.take_append, List.take_take,
        Nat.min_eq_left hle, List.length_take]
      rcases Nat.le_total (f x).length m with hshort | hlong
      · rw [Nat.min_eq_right hshort, ih (by omega)]
      · rw [Nat.min_eq_left hlong, Nat.sub_eq_zero_of_le hle,
          Nat.sub_eq_zero_of_le (Nat.le_trans hle hlong), List.take_zero, List.take_zero]

/-- Where every line fits the buffer, the names found are those listed, as far as there is room. -/
theorem readConf_names (hfit : LinesFit file) :
    (readConf file).names.take maxServers = (listedNames file).take maxServers := by
  have hpieces : (readConf file).names =
      (fileLines file).flatMap (fun line => lineNames (lineWords resolvArgs line)) := by
    rw [readConf, ResolvConf.names, List.flatMap_map]
    apply flatMap_fgetsPieces
    · rw [lineWords_nil]
      rfl
    · intro piece
      rw [lineWords_newline]
    · decide
    · exact hfit
  simp only [hpieces, lineNames_words, listedNames]
  exact take_flatMap_take _ (by decide) _

end EventLoop.Dns
