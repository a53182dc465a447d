import EventLoop.Dns.Expansion
import EventLoop.Dns.Reply
import EventLoop.Lib.Delimited

/-!
How a question is written: `__encode_dotted` makes labels of what stands between the dots,
`__encode_question` adds the type and the class. What has been written so far is a list, from
`dest[0]` on, as the code never goes back. Lengths and differences are kept in an `int`.
-/

namespace EventLoop.Dns

open Iteration

/-- What an `int` keeps of a number. -/
def asInt (n : Int) : Int := n.bmod (2 ^ 32)

/-- The locals of `__encode_dotted`; `used` is the length of `dest`. -/
structure Encoding where
  dotted : List UInt8
  dest : List UInt8
deriving DecidableEq, Repr

/-- What an encoder returns and has written; or the `memcpy` of a negative `l`, which is a size of
2^63 and more. -/
inductive Encoded where
  | returned (result : Int) (dest : List UInt8)
  | overrun
deriving DecidableEq, Repr

/-- Behind the loop: the result and what has been written. -/
def encodeEnd (maxlen : Int) (dest : List UInt8) : Encoded :=
  if maxlen < 1 then .returned (-1) dest else .returned (dest.length + 1) (dest ++ [0])

/-- One turn of the loop of `__encode_dotted`. -/
def encodeLabel (maxlen : Int) (s : Encoding) : Encoding ⊕ Encoded :=
  if s.dotted = [] then .inr (encodeEnd maxlen s.dest)
  else
    let label := s.dotted.takeWhile (· ≠ dot)
    let l := asInt label.length
    if asInt (maxlen - s.dest.length - 1) ≤ l then .inr (.returned (-1) s.dest)
    else if l < 0 then .inr .overrun
    else
      let dest := s.dest ++ UInt8.ofInt l :: label.take l.toNat
      if dot ∈ s.dotted then .inl ⟨s.dotted.drop (label.length + 1), dest⟩
      else .inr (encodeEnd maxlen dest)

/-- `__encode_dotted`, of the characters of a C string. -/
def encodeDotted (dotted : List UInt8) (maxlen : Int) (fuel : Nat) : Option Encoded :=
  iterate (encodeLabel maxlen) fuel ⟨dotted, []⟩

structure Question where
  dotted : List UInt8
  qtype : BitVec 32
  qclass : BitVec 32
deriving DecidableEq, Repr

/-- `(x & 0xff00) >> 8` and `(x & 0x00ff) >> 0` -/
def shortBytes (x : BitVec 32) : List UInt8 :=
  [UInt8.ofNat ((x &&& 0xff00#32) >>> 8).toNat, UInt8.ofNat (x &&& 0x00ff#32).toNat]

/-- `__encode_question`, behind `__encode_dotted`. -/
def encodeFixed (q : Question) (maxlen : Int) : Encoded → Encoded
  | .returned i dest =>
      if i < 0 then .returned i dest
      else if asInt (maxlen - i) < 4 then .returned (-1) dest
      else .returned (asInt (i + 4)) (dest ++ shortBytes q.qtype ++ shortBytes q.qclass)
  | .overrun => .overrun

/-- `__encode_question` -/
def encodeQuestion (q : Question) (maxlen : Int) (fuel : Nat) : Option Encoded :=
  (encodeDotted q.dotted maxlen fuel).map (encodeFixed q maxlen)

/-- The labels as they stand in a message, without the root. -/
def wireLabels (labels : List (List UInt8)) : List UInt8 :=
  labels.flatMap (fun label => UInt8.ofNat label.length :: label)

/-- The wire form of a name. -/
def wire (labels : List (List UInt8)) : List UInt8 := wireLabels labels ++ [0]

/-- The labels of a name that can be asked for. -/
structure AskedName where
  labels : List (List UInt8)
  nonempty : labels ≠ []
  short : ∀ label ∈ labels, 0 < label.length ∧ label.length ≤ 63
  chars : ∀ label ∈ labels, dot ∉ label ∧ 0 ∉ label
  wire_le : (wire labels).length ≤ 255

/-- Nothing is written at or behind `dest[maxlen]`. -/
def WithinRoom (maxlen : Int) (dest : List UInt8) : Prop := dest = [] ∨ (dest.length : Int) ≤ maxlen

def Encoded.Within (maxlen : Int) : Encoded → Prop
  | .returned _ dest => WithinRoom maxlen dest
  | .overrun => False

/-- What stands between the dots of a string; behind a dot at its end stands nothing. -/
def pieces (dotted : List UInt8) : List (List UInt8) :=
  let s := Delimited.split dot dotted
  if s.rest = [] then s.units else s.units ++ [s.rest]

/-- The bytes that labels take where lengths are counted modulo 2^32. -/
def countedLabels (labels : List (List UInt8)) : Nat :=
  (labels.map (fun label => label.length % 2 ^ 32 + 1)).sum

/-- No label that the labels in front of it leave room for has a length that is negative as an
`int`, unless it is the first and the room is even less. -/
def LabelsInside (maxlen : Int) (used : Nat) (labels : List (List UInt8)) : Prop :=
  ∀ front label back, labels = front ++ label :: back →
    (front = [] ∨ (used + countedLabels front : Int) < maxlen) →
      label.length % 2 ^ 32 < 2 ^ 31 ∨
        maxlen - used ≤ (label.length % 2 ^ 32 : Nat) - 2 ^ 32 + 1

/-- The labels are so, and the room is not the least `int`, unless the first label is refused
there. -/
structure StaysInside (dotted : List UInt8) (maxlen : Int) : Prop where
  lowest : maxlen = -2 ^ 31 → dotted ≠ [] →
    (dotted.takeWhile (· ≠ dot)).length % 2 ^ 32 = 2 ^ 31 - 1
  labels : LabelsInside maxlen 0 (pieces dotted)

variable {maxlen : Int} {s : Encoding} {label : List UInt8} {labels : List (List UInt8)}

/-- There is room for the null byte too, if there is room at all. -/
def RoomForEnd (maxlen : Int) (dest : List UInt8) : Prop :=
  dest = [] ∨ (dest.length : Int) < maxlen

/-- The result counts what has been written, or is negative. -/
def Encoded.Counted : Encoded → Prop
  | .returned result dest => result < 0 ∨ result = dest.length
  | .overrun => True

theorem asInt_eq {n : Int} (hlow : -2 ^ 31 ≤ n) (hhigh : n < 2 ^ 31) : asInt n = n :=
  Int.bmod_eq_of_le_mul_two (by omega) (by omega)

theorem asInt_natCast (n : Nat) : asInt n =
    if n % 2 ^ 32 < 2 ^ 31 then ((n % 2 ^ 32 : Nat) : Int) else (n % 2 ^ 32 : Nat) - 2 ^ 32 := by
  rw [asInt, Int.bmod]
  split <;> split <;> omega

theorem pieces_cons {dotted : List UInt8} (h : dotted ≠ []) :
    pieces dotted = dotted.takeWhile (· ≠ dot) ::
      pieces (dotted.drop ((dotted.takeWhile (· ≠ dot)).length + 1)) := by
  by_cases hdot : dot ∈ dotted
  · obtain ⟨label, back, rfl, hlabel⟩ := List.eq_append_cons_of_mem hdot
    have htake : (label ++ dot :: back).takeWhile (· ≠ dot) = label := by
      rw [List.takeWhile_append_of_pos]
      · simp
      · exact fun char hchar => decide_eq_true (fun heq => hlabel (heq ▸ hchar))
    have hdrop : (label ++ dot :: back).drop (label.length + 1) = back := by simp
    have hsplit : Delimited.split dot (label ++ dot :: back) =
        ⟨[label] ++ (Delimited.split dot back).units, (Delimited.split dot back).rest⟩ := by
      rw [Delimited.split, Delimited.Split.feed_unit _ hlabel, Delimited.Split.feed_units_append]
      rfl
    rw [htake, hdrop, pieces, hsplit, pieces]
    dsimp only
    split <;> rfl
  · have htake : dotted.takeWhile (· ≠ dot) = dotted :=
      List.takeWhile_eq_self_iff.mpr
        (fun char hchar => decide_eq_true (fun heq => hdot (heq ▸ hchar)))
    rw [htake, List.drop_of_length_le (Nat.le_succ _), pieces, Delimited.split_of_not_mem hdot]
    dsimp only
    rw [if_neg h]
    rfl

theorem pieces_nil : pieces [] = [] := rfl

theorem length_le_of_mem_pieces {dotted : List UInt8} (h : label ∈ pieces dotted) :
    label.length ≤ dotted.length := by
  induction hn : dotted.length using Nat.strong_induction_on generalizing dotted with
  | _ n ih =>
      by_cases hdotted : dotted = []
      · rw [hdotted, pieces_nil] at h
        cases h
      · rw [pieces_cons hdotted] at h
        have hpos := List.length_pos_of_ne_nil hdotted
        rcases List.mem_cons.mp h with rfl | hrest
        · exact hn ▸ (List.takeWhile_prefix _).length_le
        · have hless := ih _ (by rw [List.length_drop]; omega) hrest rfl
          rw [List.length_drop] at hless
          omega

/-- No string that is shorter than 2^31 characters is written outside, in any room but the least. -/
theorem staysInside_of_short {dotted : List UInt8} (hshort : dotted.length < 2 ^ 31)
    (hlow : -2 ^ 31 < maxlen) : StaysInside dotted maxlen where
  lowest := fun heq => absurd heq (Int.ne_of_gt hlow)
  labels := by
    intro front label back heq _
    have hle := length_le_of_mem_pieces (heq ▸ List.mem_append_right front (List.mem_cons_self ..))
    exact .inl (Nat.lt_of_le_of_lt (Nat.mod_le _ _) (Nat.lt_of_le_of_lt hle hshort))

theorem countedLabels_cons (label : List UInt8) (labels : List (List UInt8)) :
    countedLabels (label :: labels) = label.length % 2 ^ 32 + 1 + countedLabels labels := by
  rw [countedLabels, List.map_cons, List.sum_cons, ← countedLabels]

/-- A label that is written, and those behind it. -/
theorem labelsInside_cons {used : Nat} (hlength : label.length % 2 ^ 32 < 2 ^ 31)
    (hroom : (used + (label.length % 2 ^ 32 + 1) : Int) < maxlen) :
    LabelsInside maxlen used (label :: labels) ↔
      LabelsInside maxlen (used + (label.length % 2 ^ 32 + 1)) labels := by
  have hcounted (front : List (List UInt8)) :
      ((used + (label.length % 2 ^ 32 + 1) : Nat) + countedLabels front : Int) =
        used + countedLabels (label :: front) := by
    rw [countedLabels_cons]
    push_cast
    omega
  constructor
  · intro h front label' back heq hfront
    have hmore : (used + countedLabels (label :: front) : Int) < maxlen := by
      rcases hfront with rfl | hfront
      · rw [countedLabels_cons]
        push_cast at hroom ⊢
        simpa [countedLabels] using hroom
      · rwa [← hcounted]
    rcases h (label :: front) label' back (congrArg _ heq) (.inr hmore) with hpositive | hnegative
    · exact .inl hpositive
    · have : label'.length % 2 ^ 32 < 2 ^ 32 := Nat.mod_lt _ (by decide)
      push_cast at hroom
      omega
  · intro h front label' back heq hfront
    cases front with
    | nil =>
        obtain ⟨rfl, -⟩ := List.cons.inj heq
        exact .inl hlength
    | cons first front =>
        obtain ⟨rfl, rfl⟩ := List.cons.inj heq
        have hmore := hfront.resolve_left (by simp)
        rw [← hcounted] at hmore
        rcases h front label' back rfl (.inr hmore) with hpositive | hnegative
        · exact .inl hpositive
        · omega

theorem encodeEnd_within {dest : List UInt8} (h : RoomForEnd maxlen dest) :
    (encodeEnd maxlen dest).Within maxlen ∧ (encodeEnd maxlen dest).Counted := by
  rw [encodeEnd]
  split
  · exact ⟨h.imp_right Int.le_of_lt, .inl (by simp)⟩
  · rename_i hroom
    have hlength : ((dest ++ [0]).length : Int) = dest.length + 1 := by simp
    refine ⟨.inr ?_, .inr hlength.symm⟩
    rw [hlength]
    rcases h with rfl | hlt
    · simpa using hroom
    · omega

theorem labelsInside_nil (maxlen : Int) (used : Nat) : LabelsInside maxlen used [] :=
  fun _ _ _ heq => absurd heq.symm (by simp)

/-- Behind a label that is refused none is come to. -/
theorem labelsInside_of_refused {used : Nat}
    (hrefused : maxlen - used - 1 ≤ asInt label.length) :
    LabelsInside maxlen used (label :: labels) := by
  have hl := asInt_natCast label.length
  intro front label' back heq hfront
  cases front with
  | nil =>
      obtain ⟨rfl, -⟩ := List.cons.inj heq
      split at hl <;> omega
  | cons first front =>
      obtain ⟨rfl, -⟩ := List.cons.inj heq
      have hless := hfront.resolve_left (by simp)
      rw [countedLabels_cons] at hless
      push_cast at hless
      split at hl <;> omega

theorem not_labelsInside {used : Nat} (htaken : ¬ maxlen - used - 1 ≤ asInt label.length)
    (hnegative : asInt label.length < 0) : ¬ LabelsInside maxlen used (label :: labels) := by
  have hl := asInt_natCast label.length
  intro hinside
  have hfirst := hinside [] label _ rfl (.inl rfl)
  split at hl <;> omega

theorem asInt_of_nonneg {n : Nat} (h : ¬ asInt n < 0) :
    n % 2 ^ 32 < 2 ^ 31 ∧ asInt n = (n % 2 ^ 32 : Nat) := by
  have hn := asInt_natCast n
  have hmod : n % 2 ^ 32 < 2 ^ 32 := Nat.mod_lt _ (by decide)
  split at hn
  · rename_i hpositive
    exact ⟨hpositive, hn⟩
  · omega

theorem encodeLabel_of_nil (h : s.dotted = []) :
    encodeLabel maxlen s = .inr (encodeEnd maxlen s.dest) := if_pos h

/-- A turn with a string left. -/
theorem encodeLabel_of_ne_nil (hdotted : s.dotted ≠ [])
    (hlabel : s.dotted.takeWhile (· ≠ dot) = label) :
    encodeLabel maxlen s =
      if asInt (maxlen - s.dest.length - 1) ≤ asInt label.length then .inr (.returned (-1) s.dest)
      else if asInt label.length < 0 then .inr .overrun
      else
        let dest := s.dest ++ UInt8.ofInt (asInt label.length) ::
          label.take (asInt label.length).toNat
        if dot ∈ s.dotted then .inl ⟨s.dotted.drop (label.length + 1), dest⟩
        else .inr (encodeEnd maxlen dest) := by
  rw [encodeLabel, if_neg hdotted, ← hlabel]

theorem asInt_room {dest : List UInt8} (hlow : -2 ^ 31 < maxlen) (hhigh : maxlen < 2 ^ 31)
    (h : RoomForEnd maxlen dest) : asInt (maxlen - dest.length - 1) = maxlen - dest.length - 1 := by
  rcases h with rfl | hless
  · rw [List.length_nil]
    exact asInt_eq (by omega) (by omega)
  · exact asInt_eq (by omega) (by omega)

/-- The encoder returns, and stays within the room where no label that it comes to is negative. -/
theorem encodeLabel_within_iff (hlow : -2 ^ 31 < maxlen) (hhigh : maxlen < 2 ^ 31)
    (h : RoomForEnd maxlen s.dest) :
    ∃ r, Yields (encodeLabel maxlen) s r ∧ r.Counted ∧
      (r.Within maxlen ↔ LabelsInside maxlen s.dest.length (pieces s.dotted)) := by
  induction hn : s.dotted.length using Nat.strong_induction_on generalizing s with
  | _ n ih =>
      by_cases hdotted : s.dotted = []
      · obtain ⟨hwithin, hcounted⟩ := encodeEnd_within h
        refine ⟨_, yields_of_inr (encodeLabel_of_nil hdotted), hcounted, iff_of_true hwithin ?_⟩
        rw [hdotted]
        exact labelsInside_nil _ _
      obtain ⟨label, hlabel⟩ : ∃ label, s.dotted.takeWhile (· ≠ dot) = label := ⟨_, rfl⟩
      have hturn := @encodeLabel_of_ne_nil maxlen s label hdotted hlabel
      rw [asInt_room hlow hhigh h] at hturn
      rw [pieces_cons hdotted, hlabel]
      by_cases hrefused : maxlen - s.dest.length - 1 ≤ asInt label.length
      · rw [if_pos hrefused] at hturn
        exact ⟨_, yields_of_inr hturn, .inl (by simp),
          iff_of_true (h.imp_right Int.le_of_lt) (labelsInside_of_refused hrefused)⟩
      · rw [if_neg hrefused] at hturn
        by_cases hnegative : asInt label.length < 0
        · rw [if_pos hnegative] at hturn
          exact ⟨_, yields_of_inr hturn, trivial,
            iff_of_false id (not_labelsInside hrefused hnegative)⟩
        · rw [if_neg hnegative] at hturn
          obtain ⟨hlength, hl⟩ := asInt_of_nonneg hnegative
          -- the label is written, as far as its length counts
          generalize hdest : s.dest ++ UInt8.ofInt (asInt label.length) ::
            label.take (asInt label.length).toNat = dest at hturn
          have hused : dest.length = s.dest.length + (label.length % 2 ^ 32 + 1) := by
            rw [← hdest, List.length_append, List.length_cons, List.length_take, hl,
              Int.toNat_natCast, Nat.min_eq_left (Nat.mod_le _ _)]
          have hroom : RoomForEnd maxlen dest := .inr (by omega)
          rw [labelsInside_cons hlength (by omega), ← hused]
          dsimp only at hturn
          split at hturn
          · have hshorter : (s.dotted.drop (label.length + 1)).length < n := by
              have := List.length_pos_of_ne_nil hdotted
              rw [List.length_drop]
              omega
            obtain ⟨r, hr, hwritten⟩ :=
              @ih _ hshorter ⟨s.dotted.drop (label.length + 1), dest⟩ hroom rfl
            exact ⟨r, (yields_of_inl hturn).mpr hr, hwritten⟩
          · rename_i hdot
            obtain ⟨hwithin, hcounted⟩ := encodeEnd_within hroom
            refine ⟨_, yields_of_inr hturn, hcounted, iff_of_true hwithin ?_⟩
            have hall : s.dotted.takeWhile (· ≠ dot) = s.dotted :=
              List.takeWhile_eq_self_iff.mpr
                (fun char hchar => decide_eq_true (fun heq => hdot (heq ▸ hchar)))
            rw [← hlabel, hall, List.drop_of_length_le (Nat.le_succ _), pieces_nil]
            exact labelsInside_nil _ _

@[simp] theorem wire_nil : wire [] = [0] := rfl

theorem wire_cons (label : List UInt8) (labels : List (List UInt8)) :
    wire (label :: labels) = UInt8.ofNat label.length :: (label ++ wire labels) := by
  simp [wire, wireLabels]

theorem dotted_ne_nil (hdot : dot ∉ label) (hlabel : label ≠ []) :
    dotted (label :: labels) ≠ [] := by
  intro hempty
  have htake : (dotted (label :: labels)).takeWhile (· ≠ dot) = label :=
    Separated.takeWhile_join_cons hdot
  rw [hempty] at htake
  exact hlabel htake.symm

/-- One label that has room; behind the last one comes the end of the name. -/
theorem encodeLabel_dotted (hmax : maxlen < 2 ^ 31) (hdot : dot ∉ label) (hlabel : label ≠ [])
    {dest : List UInt8} (hfits : ¬ maxlen - dest.length - 1 ≤ label.length) :
    encodeLabel maxlen ⟨dotted (label :: labels), dest⟩ =
      if labels ≠ [] then .inl ⟨dotted labels, dest ++ UInt8.ofNat label.length :: label⟩
      else .inr (encodeEnd maxlen (dest ++ UInt8.ofNat label.length :: label)) := by
  have hl : asInt label.length = label.length := asInt_eq (by omega) (by omega)
  have hroom : asInt (maxlen - dest.length - 1) = maxlen - dest.length - 1 :=
    asInt_eq (by omega) (by omega)
  have htake : (dotted (label :: labels)).takeWhile (· ≠ dot) = label :=
    Separated.takeWhile_join_cons hdot
  have hbyte : UInt8.ofInt (label.length : Int) = UInt8.ofNat label.length := by
    apply UInt8.toNat_inj.mp
    simp [UInt8.ofInt]
    omega
  rw [encodeLabel_of_ne_nil (dotted_ne_nil hdot hlabel) htake]
  dsimp only
  rw [hl, hroom, if_neg hfits, if_neg (by omega), hbyte, Int.toNat_natCast, List.take_length, dotted]
  by_cases hmore : labels = []
  · rw [if_neg (fun hmem => (Separated.mem_join_cons hdot).mp hmem hmore),
      if_neg (not_not.mpr hmore)]
  · rw [if_pos ((Separated.mem_join_cons hdot).mpr hmore), if_pos hmore,
      Separated.drop_join_cons hmore, ← dotted]

/-- A name is encoded as its wire form, where that has room. -/
theorem encodeLabel_yields_wire (hnonempty : labels ≠ []) (hdots : ∀ label ∈ labels, dot ∉ label)
    (hlabels : ∀ label ∈ labels, label ≠ []) (hmax : maxlen < 2 ^ 31) {dest : List UInt8}
    (hroom : (dest.length + (wire labels).length : Int) ≤ maxlen) :
    Yields (encodeLabel maxlen) ⟨dotted labels, dest⟩
      (.returned (dest.length + (wire labels).length) (dest ++ wire labels)) := by
  induction labels generalizing dest with
  | nil => exact absurd rfl hnonempty
  | cons label labels ih =>
      have hdot : dot ∉ label := hdots label (List.mem_cons_self ..)
      rw [wire_cons, List.length_cons, List.length_append] at hroom ⊢
      have hwire : 0 < (wire labels).length := by simp [wire]
      have hfits : ¬ maxlen - dest.length - 1 ≤ label.length := by
        push_cast at hroom
        omega
      have hturn := @encodeLabel_dotted maxlen label labels hmax hdot
        (hlabels label (List.mem_cons_self ..)) dest hfits
      by_cases hmore : labels = []
      · subst hmore
        rw [if_neg (not_not.mpr rfl)] at hturn
        have hend : encodeEnd maxlen (dest ++ UInt8.ofNat label.length :: label) =
            .returned (dest.length + (label.length + (wire []).length + 1 : Nat))
              (dest ++ UInt8.ofNat label.length :: (label ++ wire [])) := by
          rw [encodeEnd, if_neg (by push_cast at hroom; omega)]
          simp [Int.add_assoc]
        exact hend ▸ yields_of_inr hturn
      · rw [if_pos hmore] at hturn
        rw [yields_of_inl hturn]
        have hrest : Yields (encodeLabel maxlen)
            ⟨dotted labels, dest ++ UInt8.ofNat label.length :: label⟩
            (.returned ((dest ++ UInt8.ofNat label.length :: label).length + (wire labels).length)
              (dest ++ UInt8.ofNat label.length :: label ++ wire labels)) := by
          apply ih hmore (fun l hl => hdots l (List.mem_cons_of_mem _ hl))
            (fun l hl => hlabels l (List.mem_cons_of_mem _ hl))
          rw [List.length_append, List.length_cons]
          push_cast at hroom ⊢
          omega
        have hcount : ((dest ++ UInt8.ofNat label.length :: label).length +
            (wire labels).length : Int) =
            dest.length + (label.length + (wire labels).length + 1 : Nat) := by
          rw [List.length_append, List.length_cons]
          push_cast
          omega
        rw [hcount, List.append_assoc] at hrest
        exact hrest

open ByteMemory

theorem itemAt_label {data : Memory} {offset : Nat} (hbyte : data offset = UInt8.ofNat label.length)
    (hpos : 0 < label.length) (hshort : label.length ≤ 63) :
    itemAt data offset = .label label.length := by
  have hvalue : (UInt8.ofNat label.length).toNat = label.length :=
    UInt8.toNat_ofNat_of_lt' (Nat.lt_of_le_of_lt hshort (by decide))
  have hzero : UInt8.ofNat label.length ≠ 0 := by
    intro heq
    rw [heq] at hvalue
    exact Nat.ne_of_lt hpos hvalue
  have hpointer : UInt8.ofNat label.length &&& 0xc0 ≠ 0xc0 := by
    intro heq
    have hand := congrArg UInt8.toNat heq
    rw [UInt8.toNat_and, hvalue] at hand
    have hle : label.length &&& (0xc0 : UInt8).toNat ≤ label.length := Nat.and_le_left
    rw [hand] at hle
    exact absurd (Nat.le_trans hle hshort) (by decide)
  rw [itemAt, hbyte, if_neg hzero, if_neg hpointer, hvalue]

/-- Where the wire form of a name stands, the name stands. -/
theorem expands_wire {data : Memory} {offset : Nat}
    (hlabels : ∀ label ∈ labels, 0 < label.length ∧ label.length ≤ 63)
    (hread : bytesAt data offset (wire labels).length = wire labels) :
    Expands data offset labels (wire labels).length ∧
      (labels ≠ [] → Terminated data offset) := by
  induction labels generalizing offset with
  | nil =>
      have hzero : data offset = 0 := List.head_eq_of_cons_eq hread
      exact ⟨.root (itemAt_eq_zero.mpr hzero), fun hne => absurd rfl hne⟩
  | cons label labels ih =>
      obtain ⟨hpos, hshort⟩ := hlabels label (List.mem_cons_self ..)
      rw [wire_cons, List.length_cons, List.length_append, bytesAt_eq_read, read_succ] at hread
      obtain ⟨hbyte, hbehind⟩ := List.cons.inj hread
      obtain ⟨hlabel, hrest⟩ := read_append_iff.mp hbehind
      have hitem := itemAt_label hbyte hpos hshort
      obtain ⟨hexpands, hterminated⟩ :=
        ih (fun l hl => hlabels l (List.mem_cons_of_mem _ hl)) hrest
      constructor
      · have hsize : (wire (label :: labels)).length =
            1 + label.length + (wire labels).length := by
          rw [wire_cons, List.length_cons, List.length_append]
          omega
        rw [hsize]
        have hall := Expands.label hitem hshort hexpands
        rwa [bytesAt_eq_read, hlabel] at hall
      · intro _
        rw [terminated_label hitem]
        by_cases hmore : labels = []
        · subst hmore
          left
          exact itemAt_eq_zero.mpr (List.head_eq_of_cons_eq hrest)
        · exact .inr (hterminated hmore)

theorem length_wire_cons (label : List UInt8) (labels : List (List UInt8)) :
    (wire (label :: labels)).length = label.length + 1 + (wire labels).length := by
  rw [wire_cons, List.length_cons, List.length_append]
  omega

/-- The wire form is two bytes longer than the text. -/
theorem length_wire (h : labels ≠ []) : (wire labels).length = (dotted labels).length + 2 := by
  induction labels with
  | nil => exact absurd rfl h
  | cons label labels ih =>
      rw [length_wire_cons]
      by_cases hmore : labels = []
      · rw [hmore, dotted, Separated.join_singleton, wire_nil]
        rfl
      · rw [dotted, Separated.length_join_cons hmore, ← dotted, ih hmore]
        omega

/-- What the decoder makes of the wire form of a name: its size and its text. -/
theorem AskedName.decode_yields (name : AskedName) {data : Memory} {offset : Nat}
    (hread : bytesAt data offset (wire name.labels).length = wire name.labels) :
    Yields (decodeItem data 256) (.start offset)
      (some ((wire name.labels).length, dotted name.labels ++ [0])) := by
  obtain ⟨hexpands, hterminated⟩ := expands_wire name.short hread
  have hroom : (Decoding.start offset).dest.length + (dotted name.labels).length + 1 < 256 := by
    have hlength := length_wire name.nonempty
    have hle := name.wire_le
    change 0 + _ + 1 < 256
    omega
  obtain ⟨last, hlast, hyields⟩ := hexpands.yields_text rfl name.nonempty hroom
  obtain rfl := hlast.mpr (hterminated name.nonempty)
  have htotal : (Decoding.start offset).totalWith (wire name.labels).length =
      (wire name.labels).length := Nat.zero_add _
  rwa [htotal] at hyields

theorem AskedName.encode_yields (name : AskedName) {maxlen : Int} (hmax : maxlen < 2 ^ 31)
    (hroom : ((wire name.labels).length : Int) ≤ maxlen) :
    Yields (encodeLabel maxlen) ⟨dotted name.labels, []⟩
      (.returned (wire name.labels).length (wire name.labels)) := by
  have hyields := @encodeLabel_yields_wire maxlen name.labels name.nonempty
    (fun label hlabel => (name.chars label hlabel).1)
    (fun label hlabel => List.ne_nil_of_length_pos (name.short label hlabel).1) hmax []
    (by simpa using hroom)
  simpa using hyields

/-- The type and the class behind a name that has room with them. -/
theorem encodeFixed_wire (q : Question) (hmax : maxlen < 2 ^ 31)
    (hroom : ((wire labels).length + 4 : Int) ≤ maxlen) :
    encodeFixed q maxlen (.returned (wire labels).length (wire labels)) =
      .returned ((wire labels).length + 4 : Int)
        (wire labels ++ (shortBytes q.qtype ++ shortBytes q.qclass)) := by
  have hleft : asInt (maxlen - (wire labels).length) = maxlen - (wire labels).length :=
    asInt_eq (by omega) (by omega)
  have hresult : asInt ((wire labels).length + 4) = (wire labels).length + 4 :=
    asInt_eq (by omega) (by omega)
  rw [encodeFixed, if_neg (by omega), hleft, if_neg (by omega), hresult, List.append_assoc]

theorem not_withinRoom {dest : List UInt8} (hdest : dest ≠ []) (hmax : maxlen < 0) :
    ¬ WithinRoom maxlen dest := by
  rintro (hempty | hle)
  · exact hdest hempty
  · omega

/-- Where there is no room, whatever has been written is outside. -/
theorem encodeLabel_outside (hmax : maxlen < 0)
    (h : s.dest ≠ [] ∨ s.dotted ≠ [] ∧ ¬ asInt (maxlen - s.dest.length - 1) ≤
      asInt (s.dotted.takeWhile (· ≠ dot)).length) {r : Encoded} {fuel : Nat}
    (hr : iterate (encodeLabel maxlen) fuel s = some r) : ¬ r.Within maxlen := by
  induction fuel generalizing s with
  | zero => cases hr
  | succ fuel ih =>
      by_cases hdotted : s.dotted = []
      · have hdest := h.resolve_right (fun hleft => hleft.1 hdotted)
        rw [iterate_of_inr (encodeLabel_of_nil hdotted), encodeEnd, if_pos (by omega)] at hr
        obtain rfl := Option.some.inj hr
        exact not_withinRoom hdest hmax
      have hturn := @encodeLabel_of_ne_nil maxlen s _ hdotted rfl
      split at hturn
      · rename_i hrefused
        have hdest := h.resolve_right (fun hleft => hleft.2 hrefused)
        rw [iterate_of_inr hturn] at hr
        obtain rfl := Option.some.inj hr
        exact not_withinRoom hdest hmax
      · split at hturn
        · rw [iterate_of_inr hturn] at hr
          obtain rfl := Option.some.inj hr
          exact id
        · dsimp only at hturn
          split at hturn
          · rw [iterate_of_inl hturn] at hr
            exact ih (.inl (by simp)) hr
          · rw [iterate_of_inr hturn, encodeEnd, if_pos (by omega)] at hr
            obtain rfl := Option.some.inj hr
            exact not_withinRoom (by simp) hmax

theorem encodeLabel_shorter {s' : Encoding} (h : encodeLabel maxlen s = .inl s') :
    s'.dotted.length < s.dotted.length := by
  by_cases hdotted : s.dotted = []
  · rw [encodeLabel_of_nil hdotted] at h
    cases h
  · rw [encodeLabel_of_ne_nil hdotted rfl] at h
    split at h
    · cases h
    · split at h
      · cases h
      · dsimp only at h
        split at h
        · obtain rfl := Sum.inl.inj h
          have := List.length_pos_of_ne_nil hdotted
          rw [List.length_drop]
          omega
        · cases h

/-- `__encode_dotted` returns, and nothing is written outside the room exactly if the lengths of
the labels say so. -/
theorem encodeDotted_within_iff (dotted : List UInt8) (maxlen : Int32) :
    ∃ r, Yields (encodeLabel maxlen.toInt) ⟨dotted, []⟩ r ∧
      (r.Within maxlen.toInt → r.Counted) ∧
        (r.Within maxlen.toInt ↔ StaysInside dotted maxlen.toInt) := by
  have hhigh := maxlen.toInt_lt
  rcases Int.lt_or_eq_of_le maxlen.le_toInt with hlow | hlowest
  · obtain ⟨r, hr, hcounted, hwithin⟩ := @encodeLabel_within_iff _ ⟨dotted, []⟩ hlow hhigh (.inl rfl)
    refine ⟨r, hr, fun _ => hcounted, hwithin.trans ⟨fun hlabels => ⟨?_, hlabels⟩, ?_⟩⟩
    · exact fun heq => absurd heq (Int.ne_of_gt hlow)
    · exact StaysInside.labels
  · rw [← hlowest]
    rcases eq_or_ne dotted [] with rfl | hdotted
    · refine ⟨_, yields_of_inr (encodeLabel_of_nil rfl), fun _ => .inl (by decide), iff_of_true ?_ ?_⟩
      · exact .inl rfl
      · exact ⟨fun _ hne => absurd rfl hne, labelsInside_nil _ _⟩
    · have hroom : asInt (-2 ^ 31 - ([] : List UInt8).length - 1) = 2 ^ 31 - 1 := by decide
      have hl := asInt_natCast (dotted.takeWhile (· ≠ dot)).length
      by_cases hfirst : (dotted.takeWhile (· ≠ dot)).length % 2 ^ 32 = 2 ^ 31 - 1
      · rw [if_pos (by omega)] at hl
        have hturn := @encodeLabel_of_ne_nil (-2 ^ 31) ⟨dotted, []⟩ _ hdotted rfl
        rw [if_pos (by rw [hroom, hl]; omega)] at hturn
        refine ⟨_, yields_of_inr hturn, fun _ => .inl (by decide), iff_of_true (.inl rfl) ?_⟩
        refine ⟨fun _ _ => hfirst, ?_⟩
        rw [pieces_cons hdotted]
        apply labelsInside_of_refused
        rw [hl]
        omega
      · obtain ⟨r, hr⟩ := @exists_iterate_of_lt _ _ (encodeLabel (-2 ^ 31)) ⟨dotted, []⟩
          (dotted.length + 1) (fun s => s.dotted.length) (fun _ _ h => encodeLabel_shorter h)
          (Nat.lt_succ_self _)
        have hout : ¬ r.Within (-2 ^ 31) := by
          refine encodeLabel_outside (by decide) (.inr ⟨hdotted, ?_⟩) hr
          change ¬ _ ≤ asInt (dotted.takeWhile (· ≠ dot)).length
          rw [hroom]
          split at hl <;> omega
        refine ⟨r, ⟨_, hr⟩, fun hin => absurd hin hout, iff_of_false hout ?_⟩
        exact fun hinside => hfirst (hinside.lowest rfl hdotted)

theorem encodeFixed_within_iff (q : Question) {r : Encoded} (hmin : -2 ^ 31 ≤ maxlen)
    (hmax : maxlen < 2 ^ 31) (hcounted : r.Within maxlen → r.Counted) :
    (encodeFixed q maxlen r).Within maxlen ↔ r.Within maxlen := by
  cases r with
  | overrun => exact Iff.rfl
  | returned i dest =>
      rw [encodeFixed]
      split
      · exact Iff.rfl
      · rename_i hresult
        split
        · exact Iff.rfl
        · rename_i hroom
          have hlength :
              ((dest ++ shortBytes q.qtype ++ shortBytes q.qclass).length : Int) = dest.length + 4 := by
            rw [List.length_append, List.length_append]
            rfl
          constructor
          · rintro (hempty | hle)
            · simp [shortBytes] at hempty
            · exact .inr (by omega)
          · intro hin
            have hcount : i = dest.length := (hcounted hin).resolve_left hresult
            have hexact : asInt (maxlen - i) = maxlen - i := by
              rcases hin with rfl | hle
              · rw [hcount, List.length_nil]
                exact asInt_eq (by omega) (by omega)
              · exact asInt_eq (by omega) (by omega)
            exact .inr (by omega)

/-- For every string and room: both encoders return, and they write nothing outside the room exactly
if no label that is come to has a length that is negative as an `int`. For every name that can be
asked for, wherever its question is placed: encoder, length and decoder agree on the size, and the
decoder gives the name back. -/
theorem question_round_trip_iff (q : Question) (maxlen : Int32) (name : AskedName)
    (qtype qclass : BitVec 32) (packet : Memory) (offset : Nat) :
    ((∃ fuel r, encodeDotted q.dotted maxlen.toInt fuel = some r ∧
        encodeQuestion q maxlen.toInt fuel = some (encodeFixed q maxlen.toInt r)) ∧
      ((∀ fuel r, encodeDotted q.dotted maxlen.toInt fuel = some r → r.Within maxlen.toInt) ∧
        (∀ fuel r, encodeQuestion q maxlen.toInt fuel = some r → r.Within maxlen.toInt) ↔
          StaysInside q.dotted maxlen.toInt)) ∧
    (((wire name.labels).length + 4 : Int) ≤ maxlen.toInt →
      ∃ bytes fuel,
        encodeQuestion ⟨dotted name.labels, qtype, qclass⟩ maxlen.toInt fuel =
          some (.returned ((wire name.labels).length + 4 : Int) bytes) ∧
        lengthQuestion (write packet offset bytes) offset fuel =
          some ((wire name.labels).length + 4) ∧
        decodeDotted (write packet offset bytes) offset 256 fuel =
          some (some ((wire name.labels).length, dotted name.labels ++ [0]))) := by
  constructor
  · obtain ⟨r, ⟨fuel, hr⟩, hcounted, hwithin⟩ := encodeDotted_within_iff q.dotted maxlen
    refine ⟨⟨fuel, r, hr, congrArg (Option.map _) hr⟩, ?_⟩
    rw [← hwithin]
    constructor
    · exact fun h => h.1 fuel r hr
    · intro hin
      constructor
      · intro fuel' r' hr'
        obtain rfl := Yields.iterate_eq ⟨fuel, hr⟩ hr'
        exact hin
      · intro fuel' r' hr'
        obtain ⟨r'', hr'', rfl⟩ := Option.map_eq_some_iff.mp hr'
        obtain rfl := Yields.iterate_eq ⟨fuel, hr⟩ hr''
        exact (encodeFixed_within_iff q maxlen.le_toInt maxlen.toInt_lt hcounted).mpr hin
  · intro hroom
    have hmax := maxlen.toInt_lt
    obtain ⟨encodeFuel, hencode⟩ := name.encode_yields hmax (Int.le_trans (by omega) hroom)
    let bytes := wire name.labels ++ (shortBytes qtype ++ shortBytes qclass)
    have hread : bytesAt (write packet offset bytes) offset (wire name.labels).length =
        wire name.labels := by
      have hall := read_write_self packet offset bytes
      rw [List.length_append] at hall
      exact (read_append_iff.mp hall).1
    obtain ⟨decodeFuel, hdecode⟩ := name.decode_yields hread
    obtain ⟨lengthFuel, hlength⟩ := (expands_wire name.short hread).1.length_yields
    refine ⟨bytes, encodeFuel + decodeFuel + lengthFuel, ?_, ?_, ?_⟩
    · rw [encodeQuestion, encodeDotted, iterate_mono hencode (by omega), Option.map_some,
        encodeFixed_wire ⟨_, qtype, qclass⟩ hmax hroom]
    · rw [lengthQuestion, lengthDotted, iterate_mono hlength (by omega), Option.map_some,
        Option.map_some, Nat.add_sub_cancel_left]
    · exact iterate_mono hdecode (by omega)

/-- `www.a` -/
def askedExample : AskedName where
  labels := [[119, 119, 119], [97]]
  nonempty := by decide
  short := by decide
  chars := by decide
  wire_le := by decide

theorem askedExample_round_trip : ∃ bytes fuel,
    encodeQuestion ⟨dotted askedExample.labels, 1, 1⟩ 512 fuel = some (.returned 11 bytes) ∧
      lengthQuestion (write (fun _ => 0) 12 bytes) 12 fuel = some 11 ∧
      decodeDotted (write (fun _ => 0) 12 bytes) 12 256 fuel =
        some (some (7, [119, 119, 119, 46, 97, 0])) :=
  (question_round_trip_iff ⟨[97], 1, 1⟩ 512 askedExample 1 1 (fun _ => 0) 12).2 (by decide)

/-- A string of 2^31 characters has a negative length, which no room is too small for. Any other
string leaves the least room that an `int` can say. -/
theorem longString_overrun :
    (∃ fuel, encodeDotted (List.replicate (2 ^ 31) 97) 512 fuel = some .overrun) ∧
      ∃ fuel, encodeDotted [97] (-2147483648) fuel = some (.returned (-1) [1, 97]) ∧
        ¬ (Encoded.returned (-1) [1, 97]).Within (-2147483648) := by
  constructor
  · have hlabel : (List.replicate (2 ^ 31) (97 : UInt8)).takeWhile (· ≠ dot) =
        List.replicate (2 ^ 31) 97 := by
      apply List.takeWhile_eq_self_iff.mpr
      intro char hchar
      rw [List.eq_of_mem_replicate hchar]
      decide
    have hne : List.replicate (2 ^ 31) (97 : UInt8) ≠ [] := by
      rw [Ne, List.replicate_eq_nil_iff]
      decide
    refine ⟨1, iterate_of_inr ((encodeLabel_of_ne_nil hne hlabel).trans ?_)⟩
    rw [List.length_replicate]
    rfl
  · exact ⟨1, by decide +kernel, not_withinRoom (by decide) (by decide)⟩

end EventLoop.Dns
