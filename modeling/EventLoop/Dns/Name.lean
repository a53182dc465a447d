import EventLoop.Lib.Iteration
import Mathlib.Data.Nat.Bitwise

/-!
The names of a DNS message, as `__decode_dotted` and `__length_dotted` go through them. A
message is what is in memory from its first byte on. Labels that are decoded use up the
room for the text; a compression pointer uses up nothing, so that the decoding of a name
does not end where pointers lead back to one another.
-/

namespace EventLoop.Dns

open Iteration

abbrev Memory := Nat → UInt8

/-- What `data[offset]` begins. -/
inductive Item where
  /-- The null byte behind the last label. -/
  | zero
  /-- `((l & 0x3f) << 8) | data[offset]` -/
  | pointer (target : Nat)
  | label (l : Nat)
deriving DecidableEq, Repr

def itemAt (data : Memory) (offset : Nat) : Item :=
  let l := data offset
  if l = 0 then .zero
  else if l &&& 0xc0 = 0xc0 then
    .pointer (((l &&& 0x3f).toNat <<< 8) ||| (data (offset + 1)).toNat)
  else .label l.toNat

/-- The bytes from `offset` on. -/
def bytesAt (data : Memory) (offset count : Nat) : List UInt8 :=
  (List.range count).map (fun i => data (offset + i))

/-- The locals of `__decode_dotted`; `used` is the length of `dest`. -/
structure Decoding where
  offset : Nat
  measure : Bool
  total : Nat
  dest : List UInt8
deriving DecidableEq, Repr

def dot : UInt8 := 46

/-- One turn of the loop of `__decode_dotted`; the result is -1 or `total` and the text. -/
def decodeItem (data : Memory) (maxlen : Nat) (s : Decoding) :
    Decoding ⊕ Option (Nat × List UInt8) :=
  match itemAt data s.offset with
  | .zero => .inr (some (if s.measure then s.total + 1 else s.total, s.dest))
  | .pointer target =>
      .inl ⟨target, false, if s.measure then s.total + 2 else s.total, s.dest⟩
  | .label l =>
      if maxlen ≤ s.dest.length + l + 1 then .inr none
      else
        let behind := s.offset + 1 + l
        .inl ⟨behind, s.measure, if s.measure then s.total + 1 + l else s.total,
          s.dest ++ bytesAt data (s.offset + 1) l ++ [if data behind ≠ 0 then dot else 0]⟩

def Decoding.start (offset : Nat) : Decoding := ⟨offset, true, 0, []⟩

/-- `__decode_dotted` -/
def decodeDotted (data : Memory) (offset maxlen fuel : Nat) : Option (Option (Nat × List UInt8)) :=
  iterate (decodeItem data maxlen) fuel (.start offset)

/-- One turn of the loop of `__length_dotted`. -/
def lengthItem (data : Memory) (offset : Nat) : Nat ⊕ Nat :=
  match itemAt data offset with
  | .zero => .inr (offset + 1)
  | .pointer _ => .inr (offset + 2)
  | .label l => .inl (offset + 1 + l)

/-- `__length_dotted` -/
def lengthDotted (data : Memory) (offset fuel : Nat) : Option Nat :=
  (iterate (lengthItem data) fuel offset).map (· - offset)

/-- `__decode_dotted` comes to an item at `offset` with so much text behind it. -/
inductive ItemOf (data : Memory) (maxlen first : Nat) : Nat → Nat → Prop
  | first : ItemOf data maxlen first first 0
  | pointer {offset used target : Nat} (hitem : ItemOf data maxlen first offset used)
      (hpointer : itemAt data offset = .pointer target) : ItemOf data maxlen first target used
  | label {offset used l : Nat} (hitem : ItemOf data maxlen first offset used)
      (hlabel : itemAt data offset = .label l) (hroom : used + l + 1 < maxlen) :
      ItemOf data maxlen first (offset + 1 + l) (used + l + 1)

variable {data : Memory} {maxlen first offset used target : Nat} {s s' : Decoding}

@[simp] theorem length_bytesAt (data : Memory) (offset count : Nat) :
    (bytesAt data offset count).length = count := by
  rw [bytesAt, List.length_map, List.length_range]

/-- What a turn that goes on does. -/
theorem decodeItem_inl (h : decodeItem data maxlen s = .inl s') :
    (∃ target, itemAt data s.offset = .pointer target ∧ s'.offset = target ∧
        s'.dest.length = s.dest.length) ∨
      ∃ l, itemAt data s.offset = .label l ∧ s.dest.length + l + 1 < maxlen ∧
        s'.offset = s.offset + 1 + l ∧ s'.dest.length = s.dest.length + l + 1 := by
  rw [decodeItem] at h
  cases hitem : itemAt data s.offset with
  | zero =>
      rw [hitem] at h
      cases h
  | pointer target =>
      rw [hitem] at h
      obtain rfl := Sum.inl.inj h
      exact .inl ⟨target, rfl, rfl, rfl⟩
  | label l =>
      rw [hitem] at h
      dsimp only at h
      split at h
      · cases h
      · rename_i hroom
        obtain rfl := Sum.inl.inj h
        refine .inr ⟨l, rfl, Nat.lt_of_not_le hroom, rfl, ?_⟩
        simp only [List.length_append, length_bytesAt, List.length_singleton]

theorem decodeItem_pointer (h : itemAt data s.offset = .pointer target) :
    ∃ s', decodeItem data maxlen s = .inl s' ∧ s'.offset = target ∧
      s'.dest.length = s.dest.length := by
  rw [decodeItem, h]
  exact ⟨_, rfl, rfl, rfl⟩

theorem decodeItem_label {l : Nat} (h : itemAt data s.offset = .label l)
    (hroom : s.dest.length + l + 1 < maxlen) :
    ∃ s', decodeItem data maxlen s = .inl s' ∧ s'.offset = s.offset + 1 + l ∧
      s'.dest.length = s.dest.length + l + 1 := by
  rw [decodeItem, h]
  refine ⟨_, if_neg (Nat.not_le.mpr hroom), rfl, ?_⟩
  simp only [List.length_append, length_bytesAt, List.length_singleton]

/-- The items of a name are what the loop comes to. -/
theorem itemOf_iff : ItemOf data maxlen first offset used ↔
    ∃ s, Reaches (decodeItem data maxlen) (.start first) s ∧ s.offset = offset ∧
      s.dest.length = used := by
  constructor
  · intro h
    induction h with
    | first => exact ⟨_, .refl, rfl, rfl⟩
    | pointer _ hpointer ih =>
        obtain ⟨s, hreach, rfl, rfl⟩ := ih
        obtain ⟨s', hturn, hoffset, hused⟩ := decodeItem_pointer hpointer
        exact ⟨s', hreach.tail hturn, hoffset, hused⟩
    | label _ hlabel hroom ih =>
        obtain ⟨s, hreach, rfl, rfl⟩ := ih
        obtain ⟨s', hturn, hoffset, hused⟩ := decodeItem_label hlabel hroom
        exact ⟨s', hreach.tail hturn, hoffset, hused⟩
  · rintro ⟨s, hreach, rfl, rfl⟩
    induction hreach with
    | refl => exact .first
    | tail _ hturn ih =>
        rcases decodeItem_inl hturn with ⟨target, hpointer, hoffset, hused⟩ |
          ⟨l, hlabel, hroom, hoffset, hused⟩
        · rw [hoffset, hused]
          exact ih.pointer hpointer
        · rw [hoffset, hused]
          exact ih.label hlabel hroom

/-- From pointer to pointer. -/
def followPointer (data : Memory) (offset : Nat) : Nat ⊕ Unit :=
  match itemAt data offset with
  | .pointer target => .inl target
  | .zero | .label _ => .inr ()

/-- Compression pointers alone lead from the offset back to it. -/
def PointerCycle (data : Memory) (offset : Nat) : Prop := Returns (followPointer data) offset

/-- None of the items that the decoding of the name comes to is on a cycle of pointers. -/
def NameAcyclic (data : Memory) (maxlen first : Nat) : Prop :=
  ∀ offset used, ItemOf data maxlen first offset used → ¬ PointerCycle data offset

theorem followPointer_inl : followPointer data offset = .inl target ↔
    itemAt data offset = .pointer target := by
  rw [followPointer]
  cases itemAt data offset with
  | zero => exact ⟨nofun, nofun⟩
  | pointer target' => rw [Sum.inl.injEq, Item.pointer.injEq]
  | label l => exact ⟨nofun, nofun⟩

theorem pointer_lt (h : itemAt data offset = .pointer target) : target < 2 ^ 14 := by
  rw [itemAt] at h
  split at h
  · cases h
  · split at h
    · obtain rfl := Item.pointer.inj h
      apply Nat.or_lt_two_pow
      · have hbits : (data offset &&& 0x3f).toNat ≤ 0x3f := by
          rw [UInt8.toNat_and]
          exact Nat.and_le_right
        rw [Nat.shiftLeft_eq]
        omega
      · have := (data (offset + 1)).toNat_lt
        omega
    · cases h

/-- Pointers lead to finitely many offsets. -/
theorem finite_followPointer (data : Memory) (offset : Nat) :
    {t | Reaches (followPointer data) offset t}.Finite := by
  refine ((Set.finite_lt_nat (2 ^ 14)).insert offset).subset ?_
  intro t ht
  rcases Relation.ReflTransGen.cases_tail ht with rfl | ⟨t', -, hturn⟩
  · exact Set.mem_insert _ _
  · exact Set.mem_insert_of_mem _ (pointer_lt (followPointer_inl.mp hturn))

/-- A name whose decoding ends does not begin with pointers without end. -/
theorem ends_followPointer (h : Ends (decodeItem data maxlen) s) :
    Ends (followPointer data) s.offset := by
  obtain ⟨fuel, r, hends⟩ := h
  induction fuel generalizing s with
  | zero => cases hends
  | succ fuel ih =>
      cases hfollow : followPointer data s.offset with
      | inr _ => exact ends_of_inr hfollow
      | inl target =>
          obtain ⟨s', hturn, rfl, -⟩ := decodeItem_pointer (followPointer_inl.mp hfollow)
          rw [iterate_of_inl hturn] at hends
          exact (ends_of_inl hfollow).mpr (ih hends)

/-- Where pointers end behind every item, the labels use up the room for the text. -/
theorem ends_decodeItem
    (h : ∀ t, Reaches (decodeItem data maxlen) s t → Ends (followPointer data) t.offset) :
    Ends (decodeItem data maxlen) s := by
  induction hroom : maxlen - s.dest.length using Nat.strong_induction_on generalizing s with
  | _ room ih =>
      obtain ⟨fuel, r, hfollow⟩ := h s .refl
      induction fuel generalizing s with
      | zero => cases hfollow
      | succ fuel ihPointers =>
          have hahead {s' : Decoding} (hturn : decodeItem data maxlen s = .inl s') :
              ∀ t, Reaches (decodeItem data maxlen) s' t → Ends (followPointer data) t.offset :=
            fun t ht => h t (.head hturn ht)
          cases hbody : decodeItem data maxlen s with
          | inr r => exact ends_of_inr hbody
          | inl s' =>
              rw [ends_of_inl hbody]
              rcases decodeItem_inl hbody with ⟨target, hpointer, hoffset, hused⟩ |
                ⟨l, hlabel, hfits, hoffset, hused⟩
              · rw [iterate_of_inl (followPointer_inl.mpr hpointer), ← hoffset] at hfollow
                exact ihPointers (hahead hbody) (by rw [hused, hroom]) hfollow
              · exact ih (maxlen - s'.dest.length) (by omega) (hahead hbody) rfl

/-- The decoding of a name ends exactly if none of its items is on a cycle of pointers. -/
theorem decodeDotted_ends_iff :
    (∃ fuel r, decodeDotted data first maxlen fuel = some r) ↔ NameAcyclic data maxlen first := by
  constructor
  · intro hends offset used hitem hcycle
    obtain ⟨s, hreach, rfl, -⟩ := itemOf_iff.mp hitem
    have hacyclic := (ends_iff_acyclic (finite_followPointer data s.offset)).mp
      (ends_followPointer (hreach.ends_iff.mp hends))
    exact hacyclic s.offset .refl hcycle
  · intro hacyclic
    apply ends_decodeItem
    intro s hreach
    refine (ends_iff_acyclic (finite_followPointer data s.offset)).mpr ?_
    intro t ht
    have hitem : ItemOf data maxlen first s.offset s.dest.length :=
      itemOf_iff.mpr ⟨s, hreach, rfl, rfl⟩
    have hitem' : ItemOf data maxlen first t s.dest.length := by
      induction ht with
      | refl => exact hitem
      | tail _ hturn ih => exact ih.pointer (followPointer_inl.mp hturn)
    exact hacyclic t s.dest.length hitem'

end EventLoop.Dns
