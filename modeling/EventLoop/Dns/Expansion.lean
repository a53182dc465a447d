import EventLoop.Dns.Name
import EventLoop.Lib.ByteMemory
import EventLoop.Lib.Separated

/-!
What a name in a message stands for, and what `__decode_dotted` makes of it. A name is a
sequence of labels that ends with the root, or with a pointer to where the rest of it is.
The code writes the separator or the terminator of a label by the byte behind the label, and
so misses the end where the root does not stand directly behind one.
-/

namespace EventLoop.Dns

open Iteration

/-- The name at the offset has these labels and takes up so many bytes there. -/
inductive Expands (data : Memory) : Nat → List (List UInt8) → Nat → Prop
  | root {offset : Nat} (hitem : itemAt data offset = .zero) : Expands data offset [] 1
  | label {offset l size : Nat} {labels : List (List UInt8)} (hitem : itemAt data offset = .label l)
      (hshort : l ≤ 63) (hrest : Expands data (offset + 1 + l) labels size) :
      Expands data offset (bytesAt data (offset + 1) l :: labels) (1 + l + size)
  | pointer {offset target size : Nat} {labels : List (List UInt8)}
      (hitem : itemAt data offset = .pointer target) (hrest : Expands data target labels size) :
      Expands data offset labels 2

/-- The root that ends the name stands directly behind its last label. -/
inductive Terminated (data : Memory) : Nat → Prop
  | last {offset l : Nat} (hitem : itemAt data offset = .label l)
      (hzero : itemAt data (offset + 1 + l) = .zero) : Terminated data offset
  | label {offset l : Nat} (hitem : itemAt data offset = .label l)
      (hrest : Terminated data (offset + 1 + l)) : Terminated data offset
  | pointer {offset target : Nat} (hitem : itemAt data offset = .pointer target)
      (hrest : Terminated data target) : Terminated data offset

/-- The dotted text of the labels. -/
def dotted (labels : List (List UInt8)) : List UInt8 := Separated.join dot labels

/-- -1 for a text that has no room, or the length of the name with the text in `dest`, of which
the call has written so much from the first byte on. -/
def ExpandsInto (dest : Memory) (maxlen : Nat) (labels : List (List UInt8)) (size : Nat) :
    Option (Nat × List UInt8) → Prop
  | none => maxlen < (dotted labels).length + 1
  | some (total, written) =>
      total = size ∧ (dotted labels).length + 1 ≤ maxlen ∧
        bytesAt (ByteMemory.write dest 0 written) 0 ((dotted labels).length + 1) =
          dotted labels ++ [0]

/-- The root is written as it should be only into a `dest` that is empty already; other names
only where their text is not as long as the room for it, and where it fits only if the root
stands directly behind the last label. -/
def Rendered (data : Memory) (offset : Nat) (dest : Memory) (maxlen : Nat) :
    List (List UInt8) → Prop
  | [] => 0 < maxlen ∧ dest 0 = 0
  | labels => (dotted labels).length + 1 ≠ maxlen ∧
      (maxlen < (dotted labels).length + 1 ∨ Terminated data offset)

variable {data : Memory} {maxlen offset size l : Nat} {s : Decoding} {labels : List (List UInt8)}

theorem itemAt_eq_zero : itemAt data offset = .zero ↔ data offset = 0 := by
  rw [itemAt]
  constructor
  · intro h
    by_contra hne
    rw [if_neg hne] at h
    split at h <;> cases h
  · intro h
    exact if_pos h

theorem terminated_label (hitem : itemAt data offset = .label l) : Terminated data offset ↔
    itemAt data (offset + 1 + l) = .zero ∨ Terminated data (offset + 1 + l) := by
  constructor
  · intro h
    cases h with
    | last hitem' hzero =>
        obtain rfl := Item.label.inj (hitem.symm.trans hitem')
        exact .inl hzero
    | label hitem' hrest =>
        obtain rfl := Item.label.inj (hitem.symm.trans hitem')
        exact .inr hrest
    | pointer hitem' _ => rw [hitem] at hitem'; cases hitem'
  · rintro (hzero | hrest)
    · exact .last hitem hzero
    · exact .label hitem hrest

theorem terminated_pointer {target : Nat} (hitem : itemAt data offset = .pointer target) :
    Terminated data offset ↔ Terminated data target := by
  constructor
  · intro h
    cases h with
    | last hitem' _ => rw [hitem] at hitem'; cases hitem'
    | label hitem' _ => rw [hitem] at hitem'; cases hitem'
    | pointer hitem' hrest =>
        obtain rfl := Item.pointer.inj (hitem.symm.trans hitem')
        exact hrest
  · exact .pointer hitem

/-- A name without labels has no last label. -/
theorem Expands.not_terminated (h : Expands data offset [] size) : ¬ Terminated data offset := by
  intro hterminated
  induction hterminated generalizing size with
  | last hitem _ => cases h with
    | root hroot => rw [hitem] at hroot; cases hroot
    | pointer hpointer _ => rw [hitem] at hpointer; cases hpointer
  | label hitem _ _ => cases h with
    | root hroot => rw [hitem] at hroot; cases hroot
    | pointer hpointer _ => rw [hitem] at hpointer; cases hpointer
  | pointer hitem _ ih => cases h with
    | root hroot => rw [hitem] at hroot; cases hroot
    | pointer hpointer hrest =>
        obtain rfl := Item.pointer.inj (hitem.symm.trans hpointer)
        exact ih hrest

/-- `total` where so many bytes of the name are left. -/
def Decoding.totalWith (s : Decoding) (size : Nat) : Nat :=
  if s.measure then s.total + size else s.total

theorem yields_zero (h : itemAt data s.offset = .zero) :
    Yields (decodeItem data maxlen) s (some (s.totalWith 1, s.dest)) := by
  apply yields_of_inr
  rw [decodeItem, h]
  rfl

/-- What stands behind a pointer is not counted. -/
theorem yields_pointer {target : Nat} (h : itemAt data s.offset = .pointer target) :
    ∃ s', s'.offset = target ∧ s'.dest = s.dest ∧ (∀ size, s'.totalWith size = s.totalWith 2) ∧
      ∀ r, Yields (decodeItem data maxlen) s r ↔ Yields (decodeItem data maxlen) s' r := by
  refine ⟨⟨target, false, s.totalWith 2, s.dest⟩, rfl, rfl, fun _ => rfl, ?_⟩
  intro r
  apply yields_of_inl
  rw [decodeItem, h]
  rfl

theorem yields_label_full (h : itemAt data s.offset = .label l)
    (hfull : maxlen ≤ s.dest.length + l + 1) : Yields (decodeItem data maxlen) s none := by
  apply yields_of_inr
  rw [decodeItem, h]
  exact if_pos hfull

theorem yields_label (h : itemAt data s.offset = .label l)
    (hroom : s.dest.length + l + 1 < maxlen) :
    ∃ s', s'.offset = s.offset + 1 + l ∧
      s'.dest = s.dest ++ bytesAt data (s.offset + 1) l ++
        [if data (s.offset + 1 + l) ≠ 0 then dot else 0] ∧
      (∀ size, s'.totalWith size = s.totalWith (1 + l + size)) ∧
      ∀ r, Yields (decodeItem data maxlen) s r ↔ Yields (decodeItem data maxlen) s' r := by
  refine ⟨⟨s.offset + 1 + l, s.measure, if s.measure then s.total + 1 + l else s.total, _⟩,
    rfl, rfl, ?_, ?_⟩
  · intro size
    unfold Decoding.totalWith
    cases s.measure with
    | false => rfl
    | true =>
        change s.total + 1 + l + size = s.total + (1 + l + size)
        omega
  · intro r
    apply yields_of_inl
    rw [decodeItem, h]
    exact if_neg (Nat.not_le.mpr hroom)

/-- A name without labels leaves `dest` as it was. -/
theorem Expands.yields_root (h : Expands data offset [] size) (hs : s.offset = offset) :
    Yields (decodeItem data maxlen) s (some (s.totalWith size, s.dest)) := by
  generalize hlabels : ([] : List (List UInt8)) = labels at h
  induction h generalizing s with
  | root hitem => exact yields_zero (hs ▸ hitem)
  | label _ _ _ => cases hlabels
  | pointer hitem _ ih =>
      obtain ⟨s', hoffset, hdest, htotal, hyields⟩ := yields_pointer (hs ▸ hitem)
      rw [hyields, ← htotal, ← hdest]
      exact ih hoffset hlabels

/-- Where the text and one more byte do not leave room, the result is -1. -/
theorem Expands.yields_none (h : Expands data offset labels size) (hs : s.offset = offset)
    (hlabels : labels ≠ []) (hfull : maxlen ≤ s.dest.length + (dotted labels).length + 1) :
    Yields (decodeItem data maxlen) s none := by
  induction h generalizing s with
  | root => exact absurd rfl hlabels
  | @label offset l size labels hitem _ hrest ih =>
      subst hs
      by_cases hhere : maxlen ≤ s.dest.length + l + 1
      · exact yields_label_full hitem hhere
      · obtain ⟨s', hoffset, hdest, -, hyields⟩ := yields_label hitem (Nat.lt_of_not_le hhere)
        have hmore : labels ≠ [] := by
          rintro rfl
          rw [dotted, Separated.join_singleton, length_bytesAt] at hfull
          exact hhere hfull
        rw [hyields]
        apply ih hoffset hmore
        rw [dotted, Separated.length_join_cons hmore, length_bytesAt, ← dotted] at hfull
        rw [hdest, List.length_append, List.length_append, length_bytesAt, List.length_singleton]
        omega
  | pointer hitem _ ih =>
      obtain ⟨s', hoffset, hdest, -, hyields⟩ := yields_pointer (hs ▸ hitem)
      rw [hyields]
      exact ih hoffset hlabels (hdest ▸ hfull)

/-- Where they do, the text is written with one more byte, which is null only where the root
stands directly behind the last label. -/
theorem Expands.yields_text (h : Expands data offset labels size) (hs : s.offset = offset)
    (hlabels : labels ≠ []) (hroom : s.dest.length + (dotted labels).length + 1 < maxlen) :
    ∃ last, (last = 0 ↔ Terminated data offset) ∧
      Yields (decodeItem data maxlen) s
        (some (s.totalWith size, s.dest ++ dotted labels ++ [last])) := by
  induction h generalizing s with
  | root => exact absurd rfl hlabels
  | @label offset l size labels hitem _ hrest ih =>
      subst hs
      have hlength : l ≤ (dotted (bytesAt data (s.offset + 1) l :: labels)).length := by
        by_cases hmore : labels = []
        · rw [hmore, dotted, Separated.join_singleton, length_bytesAt]
        · rw [dotted, Separated.length_join_cons hmore, length_bytesAt]
          omega
      have hhere : s.dest.length + l + 1 < maxlen := by omega
      obtain ⟨s', hoffset, hdest, htotal, hyields⟩ := yields_label hitem hhere
      by_cases hmore : labels = []
      · subst hmore
        refine ⟨if data (s.offset + 1 + l) ≠ 0 then dot else 0, ?_, ?_⟩
        · rw [terminated_label hitem, or_iff_left hrest.not_terminated, itemAt_eq_zero]
          by_cases hzero : data (s.offset + 1 + l) = 0
          · simp [hzero]
          · rw [if_pos hzero]
            exact iff_of_false (by decide) hzero
        · rw [hyields, ← htotal, dotted, Separated.join_singleton, ← hdest]
          exact hrest.yields_root hoffset
      · have hnext : data (s.offset + 1 + l) ≠ 0 := by
          intro hzero
          cases hrest with
          | root => exact hmore rfl
          | label hitem' => rw [itemAt_eq_zero.mpr hzero] at hitem'; cases hitem'
          | pointer hitem' => rw [itemAt_eq_zero.mpr hzero] at hitem'; cases hitem'
        rw [dotted, Separated.length_join_cons hmore, length_bytesAt, ← dotted] at hroom
        rw [if_pos hnext] at hdest
        have hused : s'.dest.length = s.dest.length + l + 1 := by
          rw [hdest, List.length_append, List.length_append, length_bytesAt, List.length_singleton]
        obtain ⟨last, hlast, hrestYields⟩ := ih hoffset hmore (by omega)
        refine ⟨last, ?_, ?_⟩
        · rw [hlast, terminated_label hitem]
          refine (or_iff_right ?_).symm
          rw [itemAt_eq_zero]
          exact hnext
        · rw [hyields, ← htotal, dotted, Separated.join_cons hmore]
          rw [hdest] at hrestYields
          simpa [dotted] using hrestYields
  | pointer hitem _ ih =>
      obtain ⟨s', hoffset, hdest, htotal, hyields⟩ := yields_pointer (hs ▸ hitem)
      obtain ⟨last, hlast, hrestYields⟩ := ih hoffset hlabels (hdest ▸ hroom)
      refine ⟨last, hlast.trans (terminated_pointer hitem).symm, ?_⟩
      rw [hyields, ← htotal, ← hdest]
      exact hrestYields

/-- `__length_dotted` finds the size of a well-formed name. -/
theorem Expands.length_yields (h : Expands data offset labels size) :
    Yields (lengthItem data) offset (offset + size) := by
  induction h with
  | root hitem =>
      apply yields_of_inr
      rw [lengthItem, hitem]
  | @label offset l size labels hitem _ _ ih =>
      have hturn : lengthItem data offset = .inl (offset + 1 + l) := by rw [lengthItem, hitem]
      rw [yields_of_inl hturn]
      have hend : offset + (1 + l + size) = offset + 1 + l + size := by omega
      rw [hend]
      exact ih
  | pointer hitem _ _ =>
      apply yields_of_inr
      rw [lengthItem, hitem]

theorem bytesAt_eq_read : bytesAt = ByteMemory.read := rfl

theorem expandsInto_nil {dest : Memory} {total : Nat} :
    ExpandsInto dest maxlen [] size (some (total, [])) ↔
      total = size ∧ 0 < maxlen ∧ dest 0 = 0 := by
  simp [ExpandsInto, dotted, bytesAt, Nat.lt_iff_add_one_le]

theorem expandsInto_text {dest : Memory} {last : UInt8}
    (hroom : (dotted labels).length + 1 < maxlen) :
    ExpandsInto dest maxlen labels size (some (size, dotted labels ++ [last])) ↔ last = 0 := by
  have hwritten := ByteMemory.read_write_self dest 0 (dotted labels ++ [last])
  rw [List.length_append, List.length_singleton, ← bytesAt_eq_read] at hwritten
  simp [ExpandsInto, hwritten, Nat.le_of_lt hroom]

/-- For every well-formed name and every `dest`: `__decode_dotted` returns; and it returns -1 for
a text without room, or the size of the name with its text in `dest`, exactly if `Rendered`. -/
theorem decodeDotted_expands_iff (h : Expands data offset labels size) (dest : Memory)
    (maxlen : Nat) :
    (∃ fuel r, decodeDotted data offset maxlen fuel = some r) ∧
      ∀ fuel r, decodeDotted data offset maxlen fuel = some r →
        (ExpandsInto dest maxlen labels size r ↔ Rendered data offset dest maxlen labels) := by
  have hresult : ∃ r, Yields (decodeItem data maxlen) (.start offset) r ∧
      (ExpandsInto dest maxlen labels size r ↔ Rendered data offset dest maxlen labels) := by
    have htotal : (Decoding.start offset).totalWith size = size := Nat.zero_add size
    have hused : (Decoding.start offset).dest.length = 0 := rfl
    cases labels with
    | nil =>
        refine ⟨_, h.yields_root rfl, ?_⟩
        rw [htotal]
        change ExpandsInto dest maxlen [] size (some (size, [])) ↔ _
        rw [expandsInto_nil]
        exact and_iff_right rfl
    | cons first rest =>
        by_cases hroom : (dotted (first :: rest)).length + 1 < maxlen
        · obtain ⟨last, hlast, hyields⟩ := h.yields_text rfl (List.cons_ne_nil first rest)
            (by rwa [hused, Nat.zero_add])
          refine ⟨_, hyields, ?_⟩
          rw [htotal]
          change ExpandsInto dest maxlen _ size (some (size, dotted (first :: rest) ++ [last])) ↔ _
          rw [expandsInto_text hroom, hlast]
          change _ ↔ _ ∧ (_ ∨ _)
          simp [Nat.ne_of_lt hroom, Nat.not_lt.mpr (Nat.le_of_lt hroom)]
        · refine ⟨none, h.yields_none rfl (List.cons_ne_nil first rest)
            (by rw [hused]; omega), ?_⟩
          change maxlen < _ ↔ _ ∧ (_ ∨ _)
          constructor
          · intro hfull
            exact ⟨Nat.ne_of_gt hfull, .inl hfull⟩
          · rintro ⟨hne, -⟩
            omega
  obtain ⟨r, ⟨fuel, hends⟩, hiff⟩ := hresult
  refine ⟨⟨fuel, r, hends⟩, ?_⟩
  intro fuel' r' hends'
  obtain rfl := Yields.iterate_eq ⟨fuel, hends⟩ hends'
  exact hiff

/-- `www` and a pointer behind it to the root. -/
def pointerToRoot : Memory := fun i =>
  if i = 0 then 3 else if i < 4 then 119 else if i = 4 then 0xc0 else if i = 5 then 6 else 0

theorem pointerToRoot_expands : Expands pointerToRoot 0 [[119, 119, 119]] 6 := by
  have hroot : Expands pointerToRoot 6 [] 1 := .root rfl
  have hpointer : Expands pointerToRoot 4 [] 2 := .pointer rfl hroot
  exact @Expands.label pointerToRoot 0 3 2 [] rfl (by decide) hpointer

/-- With room for 256 bytes the text of this name gets a dot in the place of its end. -/
theorem pointerToRoot_not_terminated :
    ¬ ∀ (data : Memory) (offset size : Nat) (labels : List (List UInt8)) (dest : Memory)
      (maxlen fuel : Nat) (r : Option (Nat × List UInt8)), Expands data offset labels size →
        decodeDotted data offset maxlen fuel = some r → ExpandsInto dest maxlen labels size r := by
  intro h
  have htext := (h pointerToRoot 0 6 _ (fun _ => 0) 256 3 _ pointerToRoot_expands rfl).2.2
  exact absurd htext (by decide)

/-- `www` with the root behind it. -/
def rootBehind : Memory := fun i => if i = 0 then 3 else if i < 4 then 119 else 0

theorem rootBehind_expands : Expands rootBehind 0 [[119, 119, 119]] 5 :=
  @Expands.label rootBehind 0 3 1 [] rfl (by decide) (.root rfl)

theorem rootBehind_rendered : ExpandsInto (fun _ => 1) 256 [[119, 119, 119]] 5
    (some (5, [119, 119, 119, 0])) := by
  have hterminated : Terminated rootBehind 0 := .last rfl rfl
  refine ((decodeDotted_expands_iff rootBehind_expands (fun _ => 1) 256).2 2 _ rfl).mpr ?_
  exact ⟨by decide, .inr hterminated⟩

end EventLoop.Dns
