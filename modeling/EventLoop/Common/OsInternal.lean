import EventLoop.Lib.ByteMemory
import EventLoop.Lib.Iteration

/-!
The memory and string functions of `os_internal.c`, which stand in for those of the C library. A
pointer is an address, and what the functions are handed does not lie around the end of memory.
-/

namespace EventLoop.OsInternal

open ByteMemory Iteration

abbrev Memory := Nat → UInt8

def osMemcpy (m : Memory) (dest src : Nat) : Nat → Memory
  | 0 => m
  | n + 1 => osMemcpy (Function.update m dest (m src)) (dest + 1) (src + 1) n

/-- The loop of `os_memmove` for overlapping areas. -/
def moveDown (m : Memory) (dest src : Nat) : Nat → Memory
  | 0 => m
  | n + 1 => moveDown (Function.update m (dest + n) (m (src + n))) dest src n

def osMemmove (m : Memory) (dest src n : Nat) : Memory :=
  if dest < src then osMemcpy m dest src n else moveDown m dest src n

/-- `c` is stored as a byte. -/
def osMemset (m : Memory) (s : Nat) (c : UInt8) : Nat → Memory
  | 0 => m
  | n + 1 => osMemset (Function.update m s c) (s + 1) c n

def osMemcmp (m : Memory) (s1 s2 : Nat) : Nat → Int
  | 0 => 0
  | n + 1 => if m s1 = m s2 then osMemcmp m (s1 + 1) (s2 + 1) n else (m s1).toNat - (m s2).toNat

/-- A turn of the loop of `os_strlen`. -/
def strlenTurn (m : Memory) (p : Nat) : Nat ⊕ Nat := if m p = 0 then .inr p else .inl (p + 1)

def osStrlen (m : Memory) (fuel s : Nat) : Option Nat :=
  (iterate (strlenTurn m) fuel s).map (· - s)

/-- The value of a `char`, which is signed. -/
def charValue (byte : UInt8) : Int := byte.toInt8.toInt

def osStrncmp (m : Memory) (s1 s2 : Nat) : Nat → Int
  | 0 => 0
  | n + 1 =>
      if m s1 = m s2 then if m s1 = 0 then 0 else osStrncmp m (s1 + 1) (s2 + 1) n
      else charValue (m s1) - charValue (m s2)

/-- A turn of the loop of `os_strstr`. -/
def strstrTurn (m : Memory) (needle len haystack : Nat) : Nat ⊕ Option Nat :=
  if m haystack = 0 then .inr none
  else if osStrncmp m haystack needle len = 0 then .inr (some haystack)
  else .inl (haystack + 1)

def osStrstr (m : Memory) (fuel haystack needle : Nat) : Option (Option Nat) :=
  (osStrlen m fuel needle).bind fun len => iterate (strstrTurn m needle len) fuel haystack

def osStrncpy (m : Memory) (dest src : Nat) : Nat → Memory
  | 0 => m
  | n + 1 =>
      let m := Function.update m dest (m src)
      if m src = 0 then m else osStrncpy m (dest + 1) (src + 1) n

variable {m : Memory} {dest src n : Nat}

theorem update_eq_write (m : Memory) (p : Nat) (byte : UInt8) :
    Function.update m p byte = write m p [byte] := by
  funext a
  rcases Nat.lt_trichotomy a p with hbefore | rfl | hbehind
  · rw [Function.update_of_ne (by omega), write_of_lt hbefore]
  · rw [Function.update_self]
    exact (@write_at m a [byte] 0 (by simp)).symm
  · rw [Function.update_of_ne (by omega), write_of_ge (by simp; omega)]

/-- The last byte is copied last. -/
theorem osMemcpy_succ (m : Memory) (dest src n : Nat) :
    osMemcpy m dest src (n + 1) =
      Function.update (osMemcpy m dest src n) (dest + n) (osMemcpy m dest src n (src + n)) := by
  induction n generalizing m dest src with
  | zero => rfl
  | succ n ih =>
      rw [osMemcpy, ih, osMemcpy]
      simp [Nat.add_comm, Nat.add_left_comm]

/-- Where the areas overlap and the copy runs into its source, the bytes before the copy repeat. -/
theorem osMemcpy_eq (m : Memory) (dest src n : Nat) :
    osMemcpy m dest src n =
      write m dest ((List.range n).map fun i => m (src + i % (dest - src))) := by
  induction n with
  | zero => simp [osMemcpy]
  | succ n ih =>
      have hvalue : osMemcpy m dest src n (src + n) = m (src + n % (dest - src)) := by
        rw [ih]
        by_cases hinside : dest ≤ src + n ∧ src < dest
        · obtain ⟨j, hj⟩ := Nat.exists_eq_add_of_le hinside.1
          have hless : j < ((List.range n).map fun i => m (src + i % (dest - src))).length := by
            simp
            omega
          have hperiod : n = j + (dest - src) := by omega
          rw [hj, write_at hless]
          simp [hperiod]
        · have hsmall : n % (dest - src) = n := by
            rcases Nat.lt_or_ge src dest with hbefore | hbehind
            · exact Nat.mod_eq_of_lt (by omega)
            · rw [Nat.sub_eq_zero_of_le hbehind, Nat.mod_zero]
          rw [hsmall]
          rcases Nat.lt_or_ge (src + n) dest with hbefore | hbehind
          · exact write_of_lt hbefore
          · exact write_of_ge (by simp; omega)
      rw [osMemcpy_succ, hvalue, ih, update_eq_write, List.range_succ, List.map_append, List.map_singleton]
      have happend := write_append m dest ((List.range n).map fun i => m (src + i % (dest - src)))
        [m (src + n % (dest - src))]
      rwa [List.length_map, List.length_range] at happend

theorem osMemcpy_of_apart (h : dest ≤ src ∨ src + n ≤ dest) :
    osMemcpy m dest src n = write m dest (read m src n) := by
  rw [osMemcpy_eq, ByteMemory.read]
  congr 1
  apply List.map_congr_left
  intro i hi
  rw [List.mem_range] at hi
  rcases Nat.lt_or_ge src dest with hbefore | hbehind
  · rw [Nat.mod_eq_of_lt (by omega)]
  · rw [Nat.sub_eq_zero_of_le hbehind, Nat.mod_zero]

theorem moveDown_eq (h : src ≤ dest) : moveDown m dest src n = write m dest (read m src n) := by
  induction n generalizing m with
  | zero => simp [moveDown]
  | succ n ih =>
      have hsame : read (Function.update m (dest + n) (m (src + n))) src n = read m src n := by
        apply read_congr
        intro i hi
        exact Function.update_of_ne (by omega) _ _
      have happend := write_prepend m dest (read m src n) [m (src + n)]
      rw [length_read] at happend
      rw [moveDown, ih, hsame, update_eq_write, happend, read_add]
      rfl

/-- `os_memmove` copies what was in the source before, wherever the areas lie; `os_memcpy` only if
its destination does not begin inside its source, where it repeats the bytes in front instead. -/
theorem os_memmove_memcpy (m : Memory) (dest src n : Nat) :
    osMemmove m dest src n = write m dest (read m src n) ∧
      osMemcpy m dest src n =
        write m dest ((List.range n).map fun i => m (src + i % (dest - src))) := by
  refine ⟨?_, osMemcpy_eq m dest src n⟩
  rw [osMemmove]
  split
  · exact osMemcpy_of_apart (.inl (by omega))
  · exact moveDown_eq (by omega)

theorem osMemset_eq (m : Memory) (s : Nat) (c : UInt8) (n : Nat) :
    osMemset m s c n = write m s (List.replicate n c) := by
  induction n generalizing m s with
  | zero => simp [osMemset]
  | succ n ih =>
      have happend := write_append m s [c] (List.replicate n c)
      rw [List.length_singleton] at happend
      rw [osMemset, ih, update_eq_write, happend, List.replicate_succ]
      rfl

theorem osMemcmp_eq_zero_iff (m : Memory) (s1 s2 n : Nat) :
    osMemcmp m s1 s2 n = 0 ↔ read m s1 n = read m s2 n := by
  induction n generalizing s1 s2 with
  | zero => simp [osMemcmp]
  | succ n ih =>
      rw [osMemcmp, read_succ, read_succ, List.cons.injEq]
      by_cases heq : m s1 = m s2
      · rw [if_pos heq, ih]
        exact (and_iff_right heq).symm
      · rw [if_neg heq]
        have hne : (m s1).toNat ≠ (m s2).toNat := fun h => heq (UInt8.toNat_inj.mp h)
        simp only [heq, false_and, iff_false]
        omega

/-- The string at `s`: its characters, and a zero byte behind them. -/
def StringAt (m : Memory) : Nat → List UInt8 → Prop
  | s, [] => m s = 0
  | s, c :: text => m s = c ∧ c ≠ 0 ∧ StringAt m (s + 1) text

variable {s s1 s2 fuel : Nat} {text text1 text2 : List UInt8}

theorem iterate_strlenTurn (h : StringAt m s text) (hfuel : text.length < fuel) :
    iterate (strlenTurn m) fuel s = some (s + text.length) := by
  induction text generalizing s fuel with
  | nil =>
      obtain ⟨fuel, rfl⟩ := Nat.exists_eq_add_of_lt hfuel
      have hended : m s = 0 := h
      exact iterate_of_inr (by simp [strlenTurn, hended])
  | cons c text ih =>
      obtain ⟨hc, hne, htext⟩ := h
      obtain ⟨fuel, rfl⟩ := Nat.exists_eq_add_of_lt (Nat.zero_lt_of_lt hfuel)
      have hturn : strlenTurn m s = .inl (s + 1) := by simp [strlenTurn, hc, hne]
      rw [iterate_of_inl hturn, ih htext (by simp at hfuel; omega), List.length_cons]
      congr 1
      omega

theorem osStrlen_eq (h : StringAt m s text) (hfuel : text.length < fuel) :
    osStrlen m fuel s = some text.length := by
  simp [osStrlen, iterate_strlenTurn h hfuel]

theorem charValue_sub_ne {a b : UInt8} (h : a ≠ b) : charValue a - charValue b ≠ 0 := by
  intro hzero
  apply h
  have hsigned : a.toInt8 = b.toInt8 := Int8.toInt_inj.mp (Int.eq_of_sub_eq_zero hzero)
  rw [← UInt8.toUInt8_toInt8 a, hsigned, UInt8.toUInt8_toInt8]

/-- The first characters are compared, up to the end of both strings. -/
theorem osStrncmp_eq_zero_iff (h1 : StringAt m s1 text1) (h2 : StringAt m s2 text2) (n : Nat) :
    osStrncmp m s1 s2 n = 0 ↔ text1.take n = text2.take n := by
  induction n generalizing s1 s2 text1 text2 with
  | zero => simp [osStrncmp]
  | succ n ih =>
      rw [osStrncmp]
      cases text1 with
      | nil =>
          have hend1 : m s1 = 0 := h1
          cases text2 with
          | nil =>
              have hend2 : m s2 = 0 := h2
              simp [hend1, hend2]
          | cons c2 text2 =>
              obtain ⟨hc2, hne2, -⟩ := h2
              simp [hend1, hc2, Ne.symm hne2, charValue_sub_ne (Ne.symm hne2)]
      | cons c1 text1 =>
          obtain ⟨hc1, hne1, htext1⟩ := h1
          cases text2 with
          | nil =>
              have hend2 : m s2 = 0 := h2
              simp [hc1, hend2, hne1, charValue_sub_ne hne1]
          | cons c2 text2 =>
              obtain ⟨hc2, -, htext2⟩ := h2
              by_cases heq : c1 = c2
              · subst heq
                simp [hc1, hc2, hne1, ih htext1 htext2]
              · simp [hc1, hc2, heq, charValue_sub_ne heq]

/-- The loop of `os_strstr` behind the characters at which the needle is not found. -/
theorem iterate_strstrTurn {needle : Nat} (hneedle : StringAt m needle text2)
    (h : StringAt m s text) (hfuel : text.length < fuel) :
    ∃ result, iterate (strstrTurn m needle text2.length) fuel s = some result ∧
      (result = none ↔ text = [] ∨ ¬ text2 <:+: text) ∧
      ∀ p, result = some p → ∃ front back, text = front ++ text2 ++ back ∧ p = s + front.length ∧
        ∀ front' back', text = front' ++ text2 ++ back' → front.length ≤ front'.length := by
  induction text generalizing s fuel with
  | nil =>
      obtain ⟨fuel, rfl⟩ := Nat.exists_eq_add_of_lt hfuel
      have hended : m s = 0 := h
      exact ⟨none, iterate_of_inr (by simp [strstrTurn, hended]), by simp, by simp⟩
  | cons c text ih =>
      obtain ⟨fuel, rfl⟩ := Nat.exists_eq_add_of_lt (Nat.zero_lt_of_lt hfuel)
      have hcompare := osStrncmp_eq_zero_iff h hneedle text2.length
      rw [List.take_length, @eq_comm (List UInt8), ← List.prefix_iff_eq_take] at hcompare
      obtain ⟨hc, hne, htext⟩ := h
      by_cases hfront : text2 <+: c :: text
      · refine ⟨some s, iterate_of_inr ?_, ?_, ?_⟩
        · simp [strstrTurn, hc, hne, hcompare.mpr hfront]
        · simp [hfront.isInfix]
        · rintro p ⟨⟩
          obtain ⟨back, hback⟩ := hfront
          exact ⟨[], back, by simp [hback], by simp, by simp⟩
      · have hturn : strstrTurn m needle text2.length s = .inl (s + 1) := by
          simp [strstrTurn, hc, hne, mt hcompare.mp hfront]
        obtain ⟨result, hresult, hnone, hsome⟩ :=
          @ih (s + 1) fuel htext (by simp at hfuel; omega)
        refine ⟨result, by rw [Nat.zero_add, iterate_of_inl hturn, hresult], ?_, ?_⟩
        · rw [hnone, List.infix_cons_iff]
          have hend : ¬ text2 <:+: [] := by
            rintro hinfix
            obtain rfl := List.infix_nil.mp hinfix
            exact hfront List.nil_prefix
          constructor
          · rintro (rfl | hmissing)
            · simp [hfront, hend]
            · simp [hfront, hmissing]
          · simp [hfront]
            exact Or.inr
        · intro p hp
          obtain ⟨front, back, hsplit, hplace, hfirst⟩ := hsome p hp
          refine ⟨c :: front, back, by simp [hsplit], by simp [hplace]; omega, ?_⟩
          intro front' back' hsplit'
          cases front' with
          | nil => exact absurd ⟨back', by simpa using hsplit'.symm⟩ hfront
          | cons c' front' =>
              simp only [List.cons_append, List.cons.injEq] at hsplit'
              exact Nat.succ_le_succ (hfirst front' back' (by simpa using hsplit'.2))

/-- `os_strstr` finds the first place, unlike `strstr` not that of the empty string in itself. -/
theorem os_strstr_finds_first {needle : Nat} (hneedle : StringAt m needle text2)
    (h : StringAt m s text) (hneedleFuel : text2.length < fuel) (hfuel : text.length < fuel) :
    ∃ result, osStrstr m fuel s needle = some result ∧
      (result = none ↔ text = [] ∨ ¬ text2 <:+: text) ∧
      ∀ p, result = some p → ∃ front back, text = front ++ text2 ++ back ∧ p = s + front.length ∧
        ∀ front' back', text = front' ++ text2 ++ back' → front.length ≤ front'.length := by
  obtain ⟨result, hresult, hfacts⟩ := iterate_strstrTurn hneedle h hfuel
  refine ⟨result, ?_, hfacts⟩
  rw [osStrstr, osStrlen_eq hneedle hneedleFuel]
  exact hresult

/-- `aab` -/
def sampleText : List UInt8 := [97, 97, 98]

/-- This text, and `ab` at 20. -/
def sampleStrings : Memory := write (write (fun _ => 0) 10 sampleText) 20 [97, 98]

theorem os_strstr_finds_first_sample :
    ∃ result, osStrstr sampleStrings 4 10 20 = some result ∧
      (result = none ↔ sampleText = [] ∨ ¬ [97, 98] <:+: sampleText) ∧
      ∀ p, result = some p → ∃ front back, sampleText = front ++ [97, 98] ++ back ∧
        p = 10 + front.length ∧
        ∀ front' back', sampleText = front' ++ [97, 98] ++ back' → front.length ≤ front'.length :=
  @os_strstr_finds_first sampleStrings 10 4 sampleText [97, 98] 20
    (by simp [StringAt, sampleStrings, sampleText, write])
    (by simp [StringAt, sampleStrings, sampleText, write])
    (by decide) (by decide)

theorem StringAt.congr {m' : Memory} (h : StringAt m s text)
    (hsame : ∀ a, s ≤ a → a ≤ s + text.length → m' a = m a) : StringAt m' s text := by
  induction text generalizing s with
  | nil => exact (hsame s le_rfl le_rfl).trans h
  | cons c text ih =>
      obtain ⟨hc, hne, htext⟩ := h
      refine ⟨(hsame s le_rfl (Nat.le_add_right _ _)).trans hc, hne, ih htext ?_⟩
      intro a hlow hhigh
      exact hsame a (by omega) (by simp; omega)

/-- `os_strncpy` writes no more than the string, with its end if there is room for that: what is
left of the destination is not cleared. -/
theorem osStrncpy_eq (h : StringAt m src text)
    (happart : dest + n ≤ src ∨ src + text.length < dest) :
    osStrncpy m dest src n = write m dest ((text ++ [0]).take n) := by
  induction n generalizing m dest src text with
  | zero => simp [osStrncpy]
  | succ n ih =>
      have hkept : Function.update m dest (m src) src = m src := by
        by_cases heq : src = dest
        · rw [heq, Function.update_self]
        · exact Function.update_of_ne heq _ _
      cases text with
      | nil =>
          have hended : m src = 0 := h
          rw [osStrncpy, hkept, hended, if_pos rfl, update_eq_write]
          simp
      | cons c text =>
          obtain ⟨hc, hne, htext⟩ := h
          rw [List.length_cons] at happart
          have htext' : StringAt (Function.update m dest (m src)) (src + 1) text := by
            apply htext.congr
            intro a hlow hhigh
            exact Function.update_of_ne (by omega) _ _
          have happend := write_append m dest [c] ((text ++ [0]).take n)
          rw [List.length_singleton] at happend
          rw [osStrncpy, hkept, hc, if_neg hne]
          rw [hc] at htext'
          rw [ih htext' (by omega), update_eq_write, happend]
          rfl

end EventLoop.OsInternal
