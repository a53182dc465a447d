import EventLoop.LogFile.Format
import EventLoop.Lib.Iteration

/-!
The filters of `jss_encode.c` and `jss_decode.c`, which put a text into a JSON string and
take it out again. What stands before and behind the string is given to the first and
counted by the second.
-/

namespace EventLoop.Json

open EventLoop.Iteration EventLoop.LogFile

def quote : UInt8 := 34

def backslash : UInt8 := 92

/-- `%04x` -/
def printUnicode (ch : UInt8) : List UInt8 :=
  (Nat.digitsAppend 16 4 ch.toNat).reverse.map hexDigit

/-- What the loop of `jss_encode` writes for a character. -/
def encodeChar (ch : UInt8) : List UInt8 :=
  if ch = quote then [backslash, quote]
  else if ch = 12 then [backslash, 102]
  else if ch = 10 then [backslash, 110]
  else if ch = 13 then [backslash, 114]
  else if ch = 9 then [backslash, 116]
  else if ch = 8 then [backslash, 98]
  else if ch = backslash then [backslash, backslash]
  else if ch = 47 then [backslash, 47]
  else if ch < 0x20 ∨ 0x10FFFF < ch.toNat then backslash :: 117 :: printUnicode ch
  else [ch]

/-- `printf("%s", text)`; nothing for a null pointer. -/
def printString (text : Option (List UInt8)) : List UInt8 :=
  (text.getD []).takeWhile (· ≠ 0)

/-- The output of `jss_encode` for an input and its arguments. -/
def jssEncode (insertPre appendPost : Option (List UInt8)) (input : List UInt8) : List UInt8 :=
  printString insertPre ++ input.flatMap encodeChar ++ printString appendPost

/-- How much of a field the conversion `%x` takes: a sign, `0x` and the digits. -/
def hexItem (field : List UInt8) : Nat :=
  let signed := if field.head? = some 45 ∨ field.head? = some 43 then 1 else 0
  let text := field.drop signed
  let marked := if text.head? = some 48 ∧ (text[1]? = some 120 ∨ text[1]? = some 88) then 2 else 0
  signed + marked + ((text.drop marked).takeWhile (fun char => (digitValue char).isSome)).length

/-- `scanf("%04x", &ch2)`: the value, `none` if nothing is stored, and what is left to read. -/
def scanUnicode (text : List UInt8) : Option UInt32 × List UInt8 :=
  let text := text.dropWhile isSpace
  let field := text.take 4
  ((scanHex field).map UInt64.toUInt32, text.drop (hexItem field))

/-- The variables of `jss_decode` with what is still to be read and what is written. `ch2` is
`none` until something is stored in it. -/
structure Decoder where
  input : List UInt8
  skipN : Int
  tailCut : Int
  ch2 : Option UInt32
  output : List UInt8
deriving Repr, DecidableEq

def Decoder.putchar (d : Decoder) (ch : UInt8) : Decoder := { d with output := d.output ++ [ch] }

/-- What is written for an escaped character, other than `u`. -/
def unescape (ch1 : UInt8) : Option UInt8 :=
  if ch1 = quote then some quote
  else if ch1 = 110 then some 10
  else if ch1 = 114 then some 13
  else if ch1 = 116 then some 9
  else if ch1 = 98 then some 8
  else if ch1 = 102 then some 12
  else if ch1 = backslash then some backslash
  else if ch1 = 47 then some 47
  else none

/-- The character behind a backslash. The filter has no result where it writes a `ch2` that
nothing was stored in. -/
def decodeEscape (d : Decoder) (ch1 : UInt8) : Decoder ⊕ Option (List UInt8) :=
  match unescape ch1 with
  | some ch => .inl (d.putchar ch)
  | none =>
      if ch1 = 117 then
        let (value, rest) := scanUnicode d.input
        match value.or d.ch2 with
        | some ch2 => .inl ({ d with input := rest, ch2 := some ch2 }.putchar ch2.toUInt8)
        | none => .inr none
      else .inl d

/-- A character that is not a backslash. -/
def decodePlain (d : Decoder) (ch : UInt8) : Decoder :=
  if 0 < d.skipN then { d with skipN := d.skipN - 1 }
  else if d.tailCut ≠ 0 ∧ ch = quote then
    let d := { d with tailCut := d.tailCut - 1 }
    if 0 < d.tailCut then { d with input := d.input.tail, tailCut := d.tailCut - 1 } else d
  else d.putchar ch

/-- One turn of the loop of `jss_decode`. -/
def decodeChar (d : Decoder) : Decoder ⊕ Option (List UInt8) :=
  match d.input with
  | [] => .inr (some d.output)
  | ch :: rest =>
      if ch = backslash then
        match rest with
        | [] => .inl { d with input := [] }
        | ch1 :: rest => decodeEscape { d with input := rest } ch1
      else .inl (decodePlain { d with input := rest } ch)

/-- The output of `jss_decode` for an input and the values that `atoi` gives to its
arguments. -/
def jssDecode (skipN tailCut : Option Int) (input : List UInt8) : Option (List UInt8) :=
  (iterate decodeChar (input.length + 1)
    ⟨input, skipN.getD 34, tailCut.getD 2, none, []⟩).join

theorem length_scanUnicode (text : List UInt8) : (scanUnicode text).2.length ≤ text.length := by
  rw [scanUnicode, List.length_drop]
  exact Nat.le_trans (Nat.sub_le _ _) (List.length_dropWhile_le _ _)

theorem decodeEscape_shortens {d d' : Decoder} {ch1 : UInt8} (h : decodeEscape d ch1 = .inl d') :
    d'.input.length ≤ d.input.length := by
  rw [decodeEscape] at h
  split at h
  · obtain rfl := Sum.inl.inj h
    exact Nat.le_refl _
  · split at h
    · dsimp only at h
      split at h
      · obtain rfl := Sum.inl.inj h
        exact length_scanUnicode d.input
      · cases h
    · obtain rfl := Sum.inl.inj h
      exact Nat.le_refl _

theorem decodePlain_shortens (d : Decoder) (ch : UInt8) :
    (decodePlain d ch).input.length ≤ d.input.length := by
  unfold decodePlain
  dsimp only
  split_ifs
  · exact Nat.le_refl _
  · exact (List.tail_sublist d.input).length_le
  · exact Nat.le_refl _
  · exact Nat.le_refl _

/-- Every turn reads something. -/
theorem decodeChar_shortens (d d' : Decoder) (h : decodeChar d = .inl d') :
    d'.input.length < d.input.length := by
  unfold decodeChar at h
  split at h
  · cases h
  · rename_i ch rest hinput
    rw [hinput, List.length_cons, Nat.lt_succ_iff]
    split_ifs at h with hch
    · split at h
      · obtain rfl := Sum.inl.inj h
        exact Nat.zero_le _
      · exact Nat.le_succ_of_le (decodeEscape_shortens h)
    · obtain rfl := Sum.inl.inj h
      exact decodePlain_shortens { d with input := rest } ch

/-- The filter gives the result that its loop ends with. -/
theorem jssDecode_of_yields {skipN tailCut : Option Int} {input : List UInt8}
    {result : Option (List UInt8)}
    (h : Yields decodeChar ⟨input, skipN.getD 34, tailCut.getD 2, none, []⟩ result) :
    jssDecode skipN tailCut input = result := by
  obtain ⟨r, hr⟩ := exists_iterate_of_lt decodeChar_shortens
    (s := ⟨input, skipN.getD 34, tailCut.getD 2, none, []⟩) (Nat.lt_succ_self input.length)
  rw [jssDecode, hr, h.iterate_eq hr]
  rfl

theorem hexItem_digits {digits : List Nat} (hdigits : ∀ d ∈ digits, d < 16) :
    hexItem (digits.map hexDigit) = digits.length := by
  have hnot (i : Nat) (char : UInt8) (hchar : char ∈ [43, 45, 88, 120]) :
      (digits.map hexDigit)[i]? ≠ some char := by
    intro hat
    obtain ⟨d, hd, rfl⟩ := List.mem_map.mp (List.mem_of_getElem? hat)
    have hfacts := (hexDigit_facts d (hdigits d hd)).2.2
    simp only [List.mem_cons, List.not_mem_nil, or_false, not_or] at hfacts hchar
    rcases hchar with h | h | h | h
    · exact hfacts.2.1 h
    · exact hfacts.2.2.2.1 h
    · exact hfacts.2.2.2.2.1 h
    · exact hfacts.2.2.2.2.2 h
  have hall : (digits.map hexDigit).takeWhile (fun char => (digitValue char).isSome) =
      digits.map hexDigit := by
    refine List.takeWhile_eq_self_iff.mpr ?_
    intro char hchar
    obtain ⟨d, hd, rfl⟩ := List.mem_map.mp hchar
    rw [(hexDigit_facts d (hdigits d hd)).1]
    rfl
  have hsigned : ¬ ((digits.map hexDigit).head? = some 45 ∨
      (digits.map hexDigit).head? = some 43) := by
    rw [List.head?_eq_getElem?, not_or]
    exact ⟨hnot 0 45 (by decide), hnot 0 43 (by decide)⟩
  have hmarked : ¬ ((digits.map hexDigit)[1]? = some 120 ∨
      (digits.map hexDigit)[1]? = some 88) :=
    not_or.mpr ⟨hnot 1 120 (by decide), hnot 1 88 (by decide)⟩
  rw [hexItem, if_neg hsigned, List.drop_zero, if_neg (fun h => hmarked h.2), List.drop_zero, hall,
    List.length_map]
  exact Nat.zero_add _

/-- Scanning takes the four digits of a printed character and no more. -/
theorem scanUnicode_printUnicode (ch : UInt8) (rest : List UInt8) :
    scanUnicode (printUnicode ch ++ rest) = (some ch.toUInt32, rest) := by
  have hch : ch.toNat < 16 ^ 4 := Nat.lt_trans ch.toNat_lt (by decide)
  obtain ⟨digits, hprinted⟩ : ∃ digits, (Nat.digitsAppend 16 4 ch.toNat).reverse = digits := ⟨_, rfl⟩
  have hdigits : ∀ d ∈ digits, d < 16 := fun d hd =>
    Nat.lt_of_mem_digitsAppend (by decide) 4 d (List.mem_reverse.mp (hprinted ▸ hd))
  have hlength : digits.length = 4 := by
    rw [← hprinted, List.length_reverse, Nat.length_digitsAppend (by decide) 4 hch]
  have hvalue : hexValue digits = ch.toNat := hprinted ▸ hexValue_digitsAppend 4 ch.toNat
  have hne : digits ≠ [] := List.length_pos_iff.mp (by omega)
  have hspace : (digits.map hexDigit ++ rest).dropWhile isSpace = digits.map hexDigit ++ rest := by
    obtain ⟨d, others, rfl⟩ := List.exists_cons_of_ne_nil hne
    obtain ⟨-, hspace, -⟩ := hexDigit_facts d (hdigits d (List.mem_cons_self ..))
    exact List.dropWhile_cons_of_neg (by rw [hspace]; exact Bool.false_ne_true)
  have hfield : (digits.map hexDigit ++ rest).take 4 = digits.map hexDigit :=
    List.take_left' (by rw [List.length_map, hlength])
  have hscan := @scanHex_digits digits [] hdigits hne
    (by rw [hvalue]; exact Nat.lt_trans ch.toNat_lt (by decide)) (fun char h => by cases h)
  rw [List.append_nil] at hscan
  rw [printUnicode, hprinted, scanUnicode]
  simp only [hspace, hfield, hscan, hexItem_digits hdigits, hvalue, Option.map_some]
  rw [List.drop_left' (List.length_map _)]
  congr 2
  apply UInt32.toNat_inj.mp
  have := ch.toNat_lt
  simp

/-- A character is written as an escape, by its number or as it is. -/
theorem encodeChar_cases (ch : UInt8) :
    (∃ ch1, encodeChar ch = [backslash, ch1] ∧ unescape ch1 = some ch) ∨
      encodeChar ch = backslash :: 117 :: printUnicode ch ∨
      encodeChar ch = [ch] ∧ ch ≠ backslash ∧ ch ≠ quote := by
  by_cases h1 : ch = quote
  · exact .inl ⟨quote, if_pos h1, by rw [h1]; rfl⟩
  by_cases h2 : ch = 12
  · exact .inl ⟨102, by rw [h2]; rfl, by rw [h2]; rfl⟩
  by_cases h3 : ch = 10
  · exact .inl ⟨110, by rw [h3]; rfl, by rw [h3]; rfl⟩
  by_cases h4 : ch = 13
  · exact .inl ⟨114, by rw [h4]; rfl, by rw [h4]; rfl⟩
  by_cases h5 : ch = 9
  · exact .inl ⟨116, by rw [h5]; rfl, by rw [h5]; rfl⟩
  by_cases h6 : ch = 8
  · exact .inl ⟨98, by rw [h6]; rfl, by rw [h6]; rfl⟩
  by_cases h7 : ch = backslash
  · exact .inl ⟨backslash, by rw [h7]; rfl, by rw [h7]; rfl⟩
  by_cases h8 : ch = 47
  · exact .inl ⟨47, by rw [h8]; rfl, by rw [h8]; rfl⟩
  rw [encodeChar, if_neg h1, if_neg h2, if_neg h3, if_neg h4, if_neg h5, if_neg h6, if_neg h7,
    if_neg h8]
  split
  · exact .inr (.inl rfl)
  · exact .inr (.inr ⟨rfl, h7, h1⟩)

/-- What is written for a character is read back as that character, nothing of it taken for
the text before the string or for its end. -/
theorem reaches_encodeChar (ch : UInt8) (rest output : List UInt8) (tailCut : Int)
    (ch2 : Option UInt32) :
    ∃ ch2', Reaches decodeChar ⟨encodeChar ch ++ rest, 0, tailCut, ch2, output⟩
      ⟨rest, 0, tailCut, ch2', output ++ [ch]⟩ := by
  rcases encodeChar_cases ch with
    ⟨ch1, hencode, hunescape⟩ | hencode | ⟨hencode, hbackslash, hquote⟩
  · refine ⟨ch2, .single ?_⟩
    rw [hencode, Turns, decodeChar]
    simp only [List.cons_append, List.nil_append, if_true, decodeEscape, hunescape]
    rfl
  · refine ⟨some ch.toUInt32, .single ?_⟩
    rw [hencode, Turns, decodeChar]
    simp only [List.cons_append, if_true, decodeEscape, scanUnicode_printUnicode]
    rw [show unescape 117 = none from rfl]
    simp [Decoder.putchar]
  · refine ⟨ch2, .single ?_⟩
    rw [hencode, Turns, decodeChar]
    simp only [List.cons_append, List.nil_append, if_neg hbackslash, decodePlain]
    rw [if_neg (by decide), if_neg (fun h => hquote h.2)]
    rfl

/-- The text of the string is read back. -/
theorem reaches_encoded (input rest output : List UInt8) (tailCut : Int) (ch2 : Option UInt32) :
    ∃ ch2', Reaches decodeChar ⟨input.flatMap encodeChar ++ rest, 0, tailCut, ch2, output⟩
      ⟨rest, 0, tailCut, ch2', output ++ input⟩ := by
  induction input generalizing output ch2 with
  | nil => exact ⟨ch2, by rw [List.append_nil]; exact .refl⟩
  | cons ch input ih =>
      obtain ⟨first, hfirst⟩ :=
        reaches_encodeChar ch (input.flatMap encodeChar ++ rest) output tailCut ch2
      obtain ⟨ch2', hinput⟩ := ih (output ++ [ch]) first
      refine ⟨ch2', ?_⟩
      rw [List.flatMap_cons, List.append_assoc]
      rw [List.append_assoc] at hinput
      exact hfirst.trans hinput

/-- Characters that are counted are read and not written, unless they begin an escape. -/
theorem reaches_skipped {skipped : List UInt8} (hescape : backslash ∉ skipped)
    (rest output : List UInt8) (tailCut : Int) (ch2 : Option UInt32) :
    Reaches decodeChar ⟨skipped ++ rest, skipped.length, tailCut, ch2, output⟩
      ⟨rest, 0, tailCut, ch2, output⟩ := by
  induction skipped with
  | nil => exact .refl
  | cons ch skipped ih =>
      rw [List.mem_cons, not_or] at hescape
      refine .head ?_ (ih hescape.2)
      have hplain : ch ≠ backslash := fun h => hescape.1 h.symm
      have hskip : (0 : Int) < (ch :: skipped).length := by simp
      rw [Turns, decodeChar, List.cons_append]
      simp only [if_neg hplain, decodePlain, if_pos hskip]
      simp

/-- At the end of the string the quotation mark and the brace are read and not written. -/
theorem yields_tail (output : List UInt8) (ch2 : Option UInt32) :
    Yields decodeChar ⟨[quote, 125], 0, 2, ch2, output⟩ (some output) :=
  ⟨2, rfl⟩

/-- Decoding with the number of characters that were put before the string, and with both of
those behind it cut, gives the text that was encoded. -/
theorem jssDecode_jssEncode (insertPre input : List UInt8) (hescape : backslash ∉ insertPre)
    (hnul : 0 ∉ insertPre) :
    jssDecode (some insertPre.length) (some 2)
      (jssEncode (some insertPre) (some [quote, 125]) input) = some input := by
  have hpre : printString (some insertPre) = insertPre :=
    List.takeWhile_eq_self_iff.mpr fun ch hch => decide_eq_true fun h => hnul (h ▸ hch)
  have hpost : printString (some [quote, 125]) = [quote, 125] := rfl
  have hskipped := reaches_skipped hescape (input.flatMap encodeChar ++ [quote, 125]) [] 2 none
  obtain ⟨ch2, hinput⟩ := reaches_encoded input [quote, 125] [] 2 none
  refine jssDecode_of_yields ?_
  rw [jssEncode, hpre, hpost, List.append_assoc]
  exact Reaches.yields_iff (hskipped.trans hinput) |>.mpr (yields_tail input ch2)

/-- A text of all the characters that are escaped in a way of their own or are not, put behind
`{"t":"`. -/
theorem jssDecode_jssEncode_envelope :
    jssDecode (some 6) (some 2)
      (jssEncode (some [123, 34, 116, 34, 58, 34]) (some [quote, 125]) [34, 92, 47, 125, 1, 10]) =
        some [34, 92, 47, 125, 1, 10] :=
  jssDecode_jssEncode [123, 34, 116, 34, 58, 34] [34, 92, 47, 125, 1, 10] (by decide) (by decide)

end EventLoop.Json
