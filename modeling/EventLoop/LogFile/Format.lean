import Mathlib.Data.Nat.Digits.Lemmas
import Mathlib.Data.List.TakeWhile

/-!
The log files that `lfs_write_out` writes: lines `%08lx,payload\n` of a time stamp and a
payload, the stamps whole seconds that never decrease.
-/

namespace EventLoop.LogFile

/-- The order of `unsigned long`. -/
instance instLinearOrderUInt64 : LinearOrder UInt64 where
  le_refl := UInt64.le_refl
  le_trans := fun _ _ _ => UInt64.le_trans
  lt_iff_le_not_ge := by
    intro a b
    rw [UInt64.lt_iff_toNat_lt, UInt64.le_iff_toNat_le, UInt64.le_iff_toNat_le]
    omega
  le_antisymm := fun _ _ => UInt64.le_antisymm
  le_total := UInt64.le_total
  toDecidableLE := inferInstance

def newline : UInt8 := 10

def comma : UInt8 := 44

def hexDigit (digit : Nat) : UInt8 := UInt8.ofNat (if digit < 10 then 48 + digit else 87 + digit)

/-- `%08lx` -/
def printHex (stamp : UInt64) : List UInt8 :=
  (Nat.digitsAppend 16 8 stamp.toNat).reverse.map hexDigit

def digitValue (char : UInt8) : Option Nat :=
  if 48 ≤ char ∧ char ≤ 57 then some (char.toNat - 48)
  else if 97 ≤ char ∧ char ≤ 102 then some (char.toNat - 87)
  else if 65 ≤ char ∧ char ≤ 70 then some (char.toNat - 55)
  else none

def isSpace (char : UInt8) : Bool := char = 32 || (9 ≤ char && char ≤ 13)

/-- `sscanf(text, "%lx,", &value)`; `none` if nothing is stored. -/
def scanHex (text : List UInt8) : Option UInt64 :=
  let text := text.dropWhile isSpace
  let negative := text.head? = some 45
  let text := if negative ∨ text.head? = some 43 then text.tail else text
  let text :=
    if text.head? = some 48 ∧ (text[1]? = some 120 ∨ text[1]? = some 88) then text.drop 2 else text
  let digits := (text.takeWhile (fun char => (digitValue char).isSome)).filterMap digitValue
  let value := digits.foldl (fun value digit => value * 16 + digit) 0
  if digits = [] then none
  else if 2 ^ 64 ≤ value then some (UInt64.ofNat (2 ^ 64 - 1))
  else some (if negative then -UInt64.ofNat value else UInt64.ofNat value)

theorem hexDigit_facts : ∀ digit < 16,
    digitValue (hexDigit digit) = some digit ∧ isSpace (hexDigit digit) = false ∧
      hexDigit digit ∉ [10, 43, 44, 45, 88, 120] := by
  decide

theorem mem_printHex {stamp : UInt64} {char : UInt8} (h : char ∈ printHex stamp) :
    ∃ digit < 16, char = hexDigit digit := by
  obtain ⟨digit, hdigit, rfl⟩ := List.mem_map.mp h
  exact ⟨digit, Nat.lt_of_mem_digitsAppend (by norm_num) _ _ (List.mem_reverse.mp hdigit), rfl⟩

theorem le_length_printHex (stamp : UInt64) : 8 ≤ (printHex stamp).length := by
  rw [printHex, List.length_map, List.length_reverse, Nat.digitsAppend, List.length_append,
    List.length_replicate]
  omega

theorem newline_not_mem_printHex (stamp : UInt64) : newline ∉ printHex stamp := by
  intro hmem
  obtain ⟨digit, hdigit, heq⟩ := mem_printHex hmem
  have hnot := (hexDigit_facts digit hdigit).2.2
  rw [← heq] at hnot
  exact hnot (List.mem_cons_self ..)

/-- The digits that `printHex` prints. -/
def stampDigits (stamp : UInt64) : List Nat := (Nat.digitsAppend 16 8 stamp.toNat).reverse

/-- The value that `scanHex` gives to digits. -/
def hexValue (digits : List Nat) : Nat := digits.foldl (fun value digit => value * 16 + digit) 0

/-- So many characters of a printed stamp must be there for it to be read back. -/
def stampNeeds (stamp : UInt64) : Nat := if stamp = 0 then 1 else (printHex stamp).length

theorem stampDigits_lt {stamp : UInt64} {digit : Nat} (h : digit ∈ stampDigits stamp) :
    digit < 16 :=
  Nat.lt_of_mem_digitsAppend (by norm_num) _ _ (List.mem_reverse.mp h)

theorem length_printHex (stamp : UInt64) : (printHex stamp).length = (stampDigits stamp).length := by
  rw [printHex, List.length_map, stampDigits]

/-- The digits of a number, as many as are asked for or more, have its value. -/
theorem hexValue_digitsAppend (width n : Nat) :
    hexValue (Nat.digitsAppend 16 width n).reverse = n := by
  have hvalue := Nat.ofDigits_append_replicate_zero (b := 16)
    (k := width - (Nat.digits 16 n).length) (Nat.digits 16 n)
  rw [Nat.ofDigits_digits, Nat.ofDigits_eq_foldr] at hvalue
  rw [hexValue, List.foldl_reverse, Nat.digitsAppend]
  refine Eq.trans ?_ hvalue
  simp only [Nat.cast_id, Nat.mul_comm, Nat.add_comm]

/-- The digits of a printed number have its value. -/
theorem hexValue_stampDigits (stamp : UInt64) : hexValue (stampDigits stamp) = stamp.toNat :=
  hexValue_digitsAppend 8 stamp.toNat

/-- The first digits of a number are worth at most a sixteenth of all of them. -/
theorem hexValue_take {digits : List Nat} {m : Nat} (hm : m < digits.length) :
    hexValue (digits.take m) * 16 ≤ hexValue digits := by
  have hgrows (value : Nat) (digits : List Nat) :
      value ≤ digits.foldl (fun value digit => value * 16 + digit) value := by
    induction digits generalizing value with
    | nil => exact Nat.le_refl value
    | cons digit rest ih => exact Nat.le_trans (by omega) (ih (value * 16 + digit))
  have hsplit : hexValue digits = (digits.drop (m + 1)).foldl
      (fun value digit => value * 16 + digit) (hexValue (digits.take m) * 16 + digits[m]) := by
    conv_lhs => rw [← List.take_append_drop m digits, List.drop_eq_getElem_cons hm]
    rw [hexValue, List.foldl_append]
    rfl
  have hle := hgrows (hexValue (digits.take m) * 16 + digits[m]) (digits.drop (m + 1))
  rw [← hsplit] at hle
  omega

theorem takeWhile_digits {digits : List Nat} {rest : List UInt8} (hdigits : ∀ d ∈ digits, d < 16)
    (hrest : ∀ char ∈ rest.head?, char = comma) :
    ((digits.map hexDigit ++ rest).takeWhile
      (fun char => (digitValue char).isSome)).filterMap digitValue = digits := by
  have hstop : rest.takeWhile (fun char => (digitValue char).isSome) = [] := by
    cases rest with
    | nil => rfl
    | cons char rest =>
        obtain rfl := hrest char rfl
        exact List.takeWhile_cons_of_neg (by decide)
  rw [List.takeWhile_append_of_pos, hstop, List.append_nil, List.filterMap_map]
  · refine (List.filterMap_congr ?_).trans List.filterMap_some
    exact fun digit hdigit => (hexDigit_facts digit (hdigits digit hdigit)).1
  · intro char hchar
    obtain ⟨digit, hdigit, rfl⟩ := List.mem_map.mp hchar
    rw [(hexDigit_facts digit (hdigits digit hdigit)).1]
    rfl

/-- Scanning finds the value of digits that end the text or stand before a comma. -/
theorem scanHex_digits {digits : List Nat} {rest : List UInt8} (hdigits : ∀ d ∈ digits, d < 16)
    (hne : digits ≠ []) (hvalue : hexValue digits < 2 ^ 64)
    (hrest : ∀ char ∈ rest.head?, char = comma) :
    scanHex (digits.map hexDigit ++ rest) = some (UInt64.ofNat (hexValue digits)) := by
  have hscan := takeWhile_digits hdigits hrest
  obtain ⟨d, others, rfl⟩ := List.exists_cons_of_ne_nil hne
  obtain ⟨-, hspace, hd⟩ := hexDigit_facts d (hdigits d (List.mem_cons_self ..))
  have hsecond : ∀ char, ((d :: others).map hexDigit ++ rest)[1]? = some char →
      char ≠ 120 ∧ char ≠ 88 := by
    intro char hchar
    cases others with
    | nil =>
        obtain rfl := hrest char (by rw [List.head?_eq_getElem?]; exact hchar)
        decide
    | cons e others =>
        obtain rfl : hexDigit e = char := Option.some.inj hchar
        have he := (hexDigit_facts e (hdigits e (by simp))).2.2
        simp only [List.mem_cons, List.not_mem_nil, or_false, not_or] at he
        exact ⟨he.2.2.2.2.2, he.2.2.2.2.1⟩
  have hdrop : ((d :: others).map hexDigit ++ rest).dropWhile isSpace =
      (d :: others).map hexDigit ++ rest :=
    List.dropWhile_cons_of_neg (by rw [hspace]; simp)
  have hhead : ((d :: others).map hexDigit ++ rest).head? = some (hexDigit d) := rfl
  have hx : ¬ (((d :: others).map hexDigit ++ rest)[1]? = some 120 ∨
      ((d :: others).map hexDigit ++ rest)[1]? = some 88) := by
    rintro (h | h)
    · exact (hsecond 120 h).1 rfl
    · exact (hsecond 88 h).2 rfl
  simp only [List.mem_cons, List.not_mem_nil, or_false, not_or] at hd
  simp only [scanHex, hdrop, hhead, Option.some.injEq, hd, hx, or_self, and_false, if_false, hscan,
    hne]
  rw [hexValue] at hvalue ⊢
  rw [if_neg (Nat.not_le.mpr hvalue)]

theorem hexValue_stampDigits_lt (stamp : UInt64) : hexValue (stampDigits stamp) < 2 ^ 64 := by
  rw [hexValue_stampDigits]
  exact stamp.toNat_lt

theorem stampDigits_ne_nil (stamp : UInt64) : stampDigits stamp ≠ [] := by
  have hlength := le_length_printHex stamp
  rw [length_printHex] at hlength
  exact List.length_pos_iff.mp (Nat.lt_of_lt_of_le (by decide) hlength)

/-- Scanning finds the number that was printed, whatever stands behind the comma. -/
theorem scanHex_printHex (stamp : UInt64) (rest : List UInt8) :
    scanHex (printHex stamp ++ comma :: rest) = some stamp := by
  have hscan := @scanHex_digits (stampDigits stamp) (comma :: rest) (fun _ => stampDigits_lt)
    (stampDigits_ne_nil stamp) (hexValue_stampDigits_lt stamp)
    (fun char hchar => (Option.some.inj hchar).symm)
  rwa [hexValue_stampDigits, UInt64.ofNat_toNat] at hscan

/-- A printed number that is cut off is read back if enough of it is there. -/
theorem scanHex_take_iff (stamp : UInt64) (rest : List UInt8) (m : Nat) :
    scanHex ((printHex stamp ++ comma :: rest).take m) = some stamp ↔ stampNeeds stamp ≤ m := by
  have hlength := length_printHex stamp
  have hleast := le_length_printHex stamp
  have hneeds : stampNeeds stamp ≤ (printHex stamp).length := by
    rw [stampNeeds]
    split <;> omega
  rcases Nat.lt_or_ge (printHex stamp).length m with hm | hm
  · rw [List.take_append, List.take_of_length_le (Nat.le_of_lt hm),
      ← Nat.succ_pred_eq_of_pos (Nat.sub_pos_of_lt hm), List.take_succ_cons]
    exact iff_of_true (scanHex_printHex _ _) (Nat.le_trans hneeds (Nat.le_of_lt hm))
  rcases Nat.eq_zero_or_pos m with rfl | hpos
  · refine iff_of_false (by simp [scanHex]) ?_
    rw [stampNeeds]
    split <;> omega
  have hvalue := hexValue_stampDigits stamp
  have hlt := stamp.toNat_lt
  have hcut : m < (stampDigits stamp).length →
      hexValue ((stampDigits stamp).take m) * 16 ≤ stamp.toNat := by
    rw [← hvalue]
    exact hexValue_take
  have hwhole : m = (stampDigits stamp).length →
      hexValue ((stampDigits stamp).take m) = stamp.toNat := by
    rintro rfl
    rw [List.take_length, hvalue]
  have hle : hexValue ((stampDigits stamp).take m) ≤ stamp.toNat := by omega
  have hne : (stampDigits stamp).take m ≠ [] := by
    rw [← List.length_pos_iff, List.length_take]
    omega
  have hscan := @scanHex_digits ((stampDigits stamp).take m) []
    (fun d hd => stampDigits_lt (List.mem_of_mem_take hd)) hne (Nat.lt_of_le_of_lt hle hlt)
    (fun char hchar => by simp at hchar)
  have hstamp : scanHex ((printHex stamp ++ comma :: rest).take m) = some stamp ↔
      hexValue ((stampDigits stamp).take m) = stamp.toNat := by
    rw [List.append_nil, List.map_take] at hscan
    rw [List.take_append_of_le_length hm, printHex, ← stampDigits, hscan, Option.some.injEq,
      ← UInt64.toNat_inj, UInt64.toNat_ofNat_of_lt' (Nat.lt_of_le_of_lt hle hlt)]
  rw [hstamp, stampNeeds]
  split
  · rename_i hzero
    have hzero' : stamp.toNat = 0 := by rw [hzero, UInt64.toNat_zero]
    exact iff_of_true (by omega) hpos
  · rename_i hnonzero
    have hnonzero' : stamp.toNat ≠ 0 := fun h => hnonzero (UInt64.toNat_inj.mp h)
    omega

/-- `"%08lx,%.*s\n"` -/
def lineText (stamp : UInt64) (payload : List UInt8) : List UInt8 :=
  printHex stamp ++ comma :: (payload ++ [newline])

/-- A line of any length. -/
structure Entry where
  stamp : UInt64
  payload : List UInt8
  noNewline : newline ∉ payload

def Entry.text (entry : Entry) : List UInt8 := lineText entry.stamp entry.payload

structure Line where
  stamp : UInt64
  payload : List UInt8
  noNewline : newline ∉ payload
  short : (lineText stamp payload).length ≤ 512

def Line.text (line : Line) : List UInt8 := lineText line.stamp line.payload

def Line.entry (line : Line) : Entry := ⟨line.stamp, line.payload, line.noNewline⟩

theorem Entry.le_length_text (entry : Entry) : 8 ≤ entry.text.length := by
  rw [Entry.text, lineText, List.length_append]
  exact Nat.le_trans (le_length_printHex entry.stamp) (Nat.le_add_right _ _)

theorem scanHex_text (entry : Entry) (rest : List UInt8) :
    scanHex (entry.text ++ rest) = some entry.stamp := by
  rw [Entry.text, lineText, List.append_assoc, List.cons_append]
  exact scanHex_printHex _ _

/-- The stamp of a line that is cut off. -/
theorem scanHex_take_text_iff (entry : Entry) (rest : List UInt8) (m : Nat) :
    scanHex ((entry.text ++ rest).take m) = some entry.stamp ↔ stampNeeds entry.stamp ≤ m := by
  rw [Entry.text, lineText, List.append_assoc, List.cons_append]
  exact scanHex_take_iff _ _ _

/-- The newline of a line is its last character. -/
theorem Entry.text_eq (entry : Entry) :
    ∃ body, entry.text = body ++ [newline] ∧ newline ∉ body := by
  refine ⟨printHex entry.stamp ++ comma :: entry.payload, ?_, ?_⟩
  · rw [Entry.text, lineText, List.append_assoc, List.cons_append]
  · intro hmem
    rcases List.mem_append.mp hmem with hmem | hmem
    · exact newline_not_mem_printHex entry.stamp hmem
    · rcases List.mem_cons.mp hmem with heq | hmem
      · exact absurd heq (by decide)
      · exact entry.noNewline hmem

theorem Entry.text_ne_nil (entry : Entry) : entry.text ≠ [] := by
  obtain ⟨body, htext, -⟩ := entry.text_eq
  rw [htext]
  exact List.append_ne_nil_of_right_ne_nil _ (List.cons_ne_nil _ _)

/-- What stands before the first newline, and what behind it. -/
theorem append_newline_inj {first second rest rest' : List UInt8} (hfirst : newline ∉ first)
    (hsecond : newline ∉ second) (h : first ++ newline :: rest = second ++ newline :: rest') :
    first = second ∧ rest = rest' := by
  induction first generalizing second with
  | nil =>
      cases second with
      | nil => exact ⟨rfl, (List.cons.inj h).2⟩
      | cons char second =>
          have hchar : newline = char := (List.cons.inj h).1
          exact absurd (hchar ▸ List.mem_cons_self ..) hsecond
  | cons char first ih =>
      cases second with
      | nil =>
          have hchar : char = newline := (List.cons.inj h).1
          exact absurd (hchar ▸ List.mem_cons_self ..) hfirst
      | cons char' second =>
          obtain ⟨rfl, htail⟩ := List.cons.inj h
          obtain ⟨rfl, hrest⟩ := ih (fun hmem => hfirst (List.mem_cons_of_mem _ hmem))
            (fun hmem => hsecond (List.mem_cons_of_mem _ hmem)) htail
          exact ⟨rfl, hrest⟩

@[simp] theorem Line.text_entry (line : Line) : line.entry.text = line.text := rfl

theorem Line.text_append_inj {line line' : Line} {rest rest' : List UInt8}
    (h : line.text ++ rest = line'.text ++ rest') : line = line' ∧ rest = rest' := by
  obtain ⟨body, htext, hbody⟩ := line.entry.text_eq
  obtain ⟨body', htext', hbody'⟩ := line'.entry.text_eq
  have hstamp : line.stamp = line'.stamp := by
    have hscan := scanHex_text line.entry rest
    rw [line.text_entry, h, ← line'.text_entry, scanHex_text] at hscan
    exact (Option.some.inj hscan).symm
  rw [Line.text_entry] at htext htext'
  rw [htext, htext', List.append_assoc, List.append_assoc] at h
  obtain ⟨hsame, hrest⟩ := append_newline_inj hbody hbody' h
  have hpayload : line.text = line'.text := by rw [htext, htext', hsame]
  rw [Line.text, Line.text, lineText, lineText, hstamp] at hpayload
  have hpayload := List.append_cancel_left hpayload
  obtain ⟨stamp, payload, _, _⟩ := line
  obtain ⟨stamp', payload', _, _⟩ := line'
  obtain rfl : stamp = stamp' := hstamp
  obtain rfl : payload = payload' := List.append_cancel_right (List.cons.inj hpayload).2
  exact ⟨rfl, hrest⟩

/-- A text of lines is the text of no other lines. -/
theorem flatMap_text_inj {lines lines' : List Line}
    (h : lines.flatMap Line.text = lines'.flatMap Line.text) : lines = lines' := by
  induction lines generalizing lines' with
  | nil =>
      cases lines' with
      | nil => rfl
      | cons line' rest' =>
          rw [List.flatMap_nil, List.flatMap_cons] at h
          exact absurd (List.append_eq_nil_iff.mp h.symm).1 line'.entry.text_ne_nil
  | cons line rest ih =>
      cases lines' with
      | nil =>
          rw [List.flatMap_nil, List.flatMap_cons] at h
          exact absurd (List.append_eq_nil_iff.mp h).1 line.entry.text_ne_nil
      | cons line' rest' =>
          rw [List.flatMap_cons, List.flatMap_cons] at h
          obtain ⟨rfl, hrest⟩ := Line.text_append_inj h
          rw [ih hrest]

end EventLoop.LogFile
