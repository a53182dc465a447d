import EventLoop.Dns.Reply

/-!
Names that are decoded and names that are skipped. `__decode_dotted` goes on behind the first
compression pointer, but counts nothing there; up to that pointer it counts what
`__length_dotted` goes over.
-/

namespace EventLoop.Dns

open Iteration

variable {data : Memory} {offset maxlen fuel total : Nat} {text : List UInt8} {s : Decoding}

/-- What one turn makes of `total` and `measure`. -/
theorem decodeItem_cases {next : Decoding ⊕ Option (Nat × List UInt8)}
    (h : decodeItem data maxlen s = next) :
    (itemAt data s.offset = .zero ∧
        next = .inr (some (if s.measure then s.total + 1 else s.total, s.dest))) ∨
      (∃ target, itemAt data s.offset = .pointer target ∧
        next = .inl ⟨target, false, if s.measure then s.total + 2 else s.total, s.dest⟩) ∨
      ∃ l, itemAt data s.offset = .label l ∧
        (next = .inr none ∨ ∃ dest, next = .inl ⟨s.offset + 1 + l, s.measure,
          if s.measure then s.total + 1 + l else s.total, dest⟩) := by
  subst h
  rw [decodeItem]
  cases hitem : itemAt data s.offset with
  | zero => exact .inl ⟨rfl, rfl⟩
  | pointer target => exact .inr (.inl ⟨target, rfl, rfl⟩)
  | label l =>
      refine .inr (.inr ⟨l, rfl, ?_⟩)
      dsimp only
      split
      · exact .inl rfl
      · exact .inr ⟨_, rfl⟩

/-- Behind a pointer the count stays as it is. -/
theorem total_of_not_measure (hmeasure : s.measure = false)
    (h : iterate (decodeItem data maxlen) fuel s = some (some (total, text))) :
    total = s.total := by
  induction fuel generalizing s with
  | zero => cases h
  | succ fuel ih =>
      rcases @decodeItem_cases data maxlen s _ rfl with ⟨-, hturn⟩ | ⟨target, -, hturn⟩ |
        ⟨l, -, hturn | ⟨dest, hturn⟩⟩
      · rw [iterate_of_inr hturn, hmeasure] at h
        obtain ⟨rfl, -⟩ := Prod.mk.inj (Option.some.inj (Option.some.inj h))
        rfl
      · rw [iterate_of_inl hturn, hmeasure] at h
        have hkept := ih rfl h
        exact hkept
      · rw [iterate_of_inr hturn] at h
        cases h
      · rw [iterate_of_inl hturn, hmeasure] at h
        have hkept := ih rfl h
        exact hkept

/-- Up to the first pointer the two loops are at the same offset; where it stands the one that
skips ends, and the other counts no more. -/
theorem length_of_measure (hmeasure : s.measure = true)
    (h : iterate (decodeItem data maxlen) fuel s = some (some (total, text))) :
    ∃ size, iterate (lengthItem data) fuel s.offset = some (s.offset + size) ∧
      total = s.total + size := by
  induction fuel generalizing s with
  | zero => cases h
  | succ fuel ih =>
      rcases @decodeItem_cases data maxlen s _ rfl with ⟨hitem, hturn⟩ | ⟨target, hitem, hturn⟩ |
        ⟨l, hitem, hturn | ⟨dest, hturn⟩⟩
      · rw [iterate_of_inr hturn, hmeasure] at h
        obtain ⟨rfl, -⟩ := Prod.mk.inj (Option.some.inj (Option.some.inj h))
        have hskip : lengthItem data s.offset = .inr (s.offset + 1) := by rw [lengthItem, hitem]
        exact ⟨1, iterate_of_inr hskip, rfl⟩
      · rw [iterate_of_inl hturn, hmeasure] at h
        have hskip : lengthItem data s.offset = .inr (s.offset + 2) := by rw [lengthItem, hitem]
        exact ⟨2, iterate_of_inr hskip, total_of_not_measure rfl h⟩
      · rw [iterate_of_inr hturn] at h
        cases h
      · rw [iterate_of_inl hturn, hmeasure] at h
        obtain ⟨size, hlength, htotal⟩ := ih rfl h
        have hskip : lengthItem data s.offset = .inl (s.offset + 1 + l) := by
          rw [lengthItem, hitem]
        refine ⟨1 + l + size, ?_, ?_⟩
        · rw [iterate_of_inl hskip, hlength]
          congr 1
          simp only [Nat.add_assoc]
        · rw [htotal]
          change s.total + 1 + l + size = _
          omega

theorem lengthDotted_of_decodeDotted
    (h : decodeDotted data offset maxlen fuel = some (some (total, text))) :
    lengthDotted data offset fuel = some total := by
  obtain ⟨size, hlength, htotal⟩ := length_of_measure rfl h
  have hsize : total = size := htotal.trans (Nat.zero_add size)
  change iterate (lengthItem data) fuel offset = some (offset + size) at hlength
  rw [lengthDotted, hlength, hsize]
  exact congrArg some (Nat.add_sub_cancel_left offset size)

/-- Wherever a name is decoded, at any offset and into any room, skipping it gives the same
length; so that the fields of an answer and the answer behind it are where they would be if its
name had been skipped, as those of the questions are. -/
theorem skipping_agrees_with_decoding (data : Memory) (offset fuel : Nat) :
    (∀ maxlen total text, decodeDotted data offset maxlen fuel = some (some (total, text)) →
      lengthDotted data offset fuel = some total) ∧
    ∀ ma i, decodeAnswer data offset fuel = some (some (ma, i)) →
      ∃ size, lengthDotted data offset fuel = some size ∧
        ma.rdoffset = offset + size + rrFixedSize ∧ i = size + rrFixedSize + ma.rdlength := by
  refine ⟨fun maxlen total text h => lengthDotted_of_decodeDotted h, ?_⟩
  intro ma i h
  obtain ⟨result, hname, hresult⟩ := Option.map_eq_some_iff.mp h
  obtain ⟨⟨size, text⟩, rfl, hanswer⟩ := Option.map_eq_some_iff.mp hresult
  obtain ⟨rfl, rfl⟩ := Prod.mk.inj hanswer
  exact ⟨size, lengthDotted_of_decodeDotted hname, rfl, rfl⟩

/-- Behind a header the name `a`, and an answer whose name is `b` and a pointer to it. -/
def compressedAnswer : Memory := fun i =>
  [0, 0, 0, 0, 0, 0, 0, 0, 0, 0, 0, 0, 1, 97, 0, 1, 98, 0xC0, 12, 0, 1, 0, 1, 0, 0, 0, 0, 0, 4, 10,
    0, 0, 7].getD i 0

theorem compressedAnswer_skipped :
    decodeDotted compressedAnswer 15 256 4 = some (some (4, [98, 46, 97, 0])) ∧
      lengthDotted compressedAnswer 15 4 = some 4 :=
  have hdecoded : decodeDotted compressedAnswer 15 256 4 = some (some (4, [98, 46, 97, 0])) := rfl
  ⟨hdecoded, (skipping_agrees_with_decoding compressedAnswer 15 4).1 256 4 _ hdecoded⟩

end EventLoop.Dns
