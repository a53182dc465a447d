import EventLoop.Dns.Name

/-!
What `__dns_lookup` and `__dns_lookup_async` make of a reply: the header, the questions they
skip and the answers they decode.
-/

namespace EventLoop.Dns

open Iteration Relation

/-- `T_A` -/
def typeA : Nat := 1

/-- `T_SIG` -/
def typeSig : Nat := 24

/-- `T_AAAA` -/
def typeAAAA : Nat := 28

/-- `RRFIXEDSZ` -/
def rrFixedSize : Nat := 10

/-- `HFIXEDSZ` -/
def headerSize : Nat := 12

/-- The room for a name in `__decode_answer`. -/
def tempSize : Nat := 256

/-- `(data[offset] << 8) | data[offset + 1]` -/
def shortAt (data : Memory) (offset : Nat) : Nat :=
  ((data offset).toNat <<< 8) ||| (data (offset + 1)).toNat

structure Header where
  id : Nat
  qr : Bool
  rcode : Nat
  qdcount : Nat
  ancount : Nat
deriving DecidableEq, Repr

/-- `__decode_header` -/
def decodeHeader (data : Memory) : Header where
  id := shortAt data 0
  qr := data 2 &&& 0x80 ≠ 0
  rcode := (data 3 &&& 0x0f).toNat
  qdcount := shortAt data 4
  ancount := shortAt data 6

/-- What `__decode_answer` stores. -/
structure Answer where
  dotted : List UInt8
  atype : Nat
  rdlength : Nat
  rdoffset : Nat
deriving DecidableEq, Repr

/-- `__decode_answer`; the result is -1 or the answer and its length. -/
def decodeAnswer (data : Memory) (offset fuel : Nat) : Option (Option (Answer × Nat)) :=
  (decodeDotted data offset tempSize fuel).map (fun result =>
    result.map (fun (i, dotted) =>
      let message := offset + i
      let rdlength := shortAt data (message + 8)
      (⟨dotted, shortAt data message, rdlength, message + rrFixedSize⟩,
        i + rrFixedSize + rdlength)))

/-- `__length_question` -/
def lengthQuestion (data : Memory) (offset fuel : Nat) : Option Nat :=
  (lengthDotted data offset fuel).map (· + 4)

/-- Where the answers start behind so many questions. -/
def skipQuestions (data : Memory) (fuel : Nat) : Nat → Nat → Option Nat
  | 0, pos => some pos
  | count + 1, pos =>
      (lengthQuestion data pos fuel).bind (fun i => skipQuestions data fuel count (pos + i))

/-- The caller's `resolv_answer`: the last answer stored there, whether its name has been
freed, and what has been copied to `buf`. -/
structure ResolvAnswer extends Answer where
  freed : Bool
  hasBuf : Bool
  buflen : Nat
  addCount : Nat
  copied : List UInt8
deriving DecidableEq, Repr

/-- `memcpy(a, &ma, sizeof(ma))`, with the buffer kept. -/
def ResolvAnswer.store (a : ResolvAnswer) (ma : Answer) : ResolvAnswer :=
  { a with toAnswer := ma, freed := false }

/-- The locals of the loop over the answers. -/
structure Answers where
  j : Nat
  pos : Nat
  firstAnswer : Bool
  a : ResolvAnswer
deriving DecidableEq, Repr

/-- `sizeof(struct in_addr)` -/
def inAddrSize : Nat := 4

/-- `sizeof(struct in_addr*)` -/
def pointerSize : Nat := 8

/-- An answer that is the first of its type so far. -/
def takeFirst (type ancount : Nat) (s : Answers) (ma : Answer) (next : Nat) :
    Answers ⊕ Bool × ResolvAnswer :=
  let a := s.a.store ma
  if a.atype ≠ typeSig ∧ (a.hasBuf = false ∨ (type ≠ typeA ∧ type ≠ typeAAAA)) then
    .inr (true, a)
  else if a.atype ≠ type then .inl ⟨s.j + 1, next, true, { a with freed := true }⟩
  else
    let a := { a with addCount := ancount - s.j - 1 }
    if a.buflen < (a.rdlength + pointerSize) * a.addCount then .inr (true, a)
    else .inl ⟨s.j + 1, next, false, { a with addCount := 0 }⟩

/-- An answer behind it. -/
def takeOther (data : Memory) (type : Nat) (s : Answers) (ma : Answer) (next : Nat) :
    Answers ⊕ Bool × ResolvAnswer :=
  if ma.atype ≠ type then .inl ⟨s.j + 1, next, false, s.a⟩
  else if s.a.rdlength ≠ ma.rdlength then .inr (false, { s.a with freed := true })
  else .inl ⟨s.j + 1, next, false, { s.a with
    addCount := s.a.addCount + 1
    copied := s.a.copied ++ bytesAt data ma.rdoffset ma.rdlength }⟩

/-- One turn of the loop over the answers, behind `__decode_answer`; `goto again` ends it
with `false`. -/
def takeAnswer (data : Memory) (type ancount : Nat) (s : Answers) :
    Option (Answer × Nat) → Answers ⊕ Bool × ResolvAnswer
  | none => .inr (false, s.a)
  | some (ma, i) =>
      if s.firstAnswer then takeFirst type ancount s ma (s.pos + i)
      else takeOther data type s ma (s.pos + i)

/-- One turn of it; `none` if the answer's name is not decoded yet. -/
def answerTurn (data : Memory) (type ancount fuel : Nat) (s : Answers) :
    Option (Answers ⊕ Bool × ResolvAnswer) :=
  if s.j < ancount then (decodeAnswer data s.pos fuel).map (takeAnswer data type ancount s)
  else some (.inr (true, s.a))

/-- The loop; it takes one turn more than there are answers. -/
def decodeAnswers (data : Memory) (type ancount fuel : Nat) :
    Nat → Answers → Option (Bool × ResolvAnswer)
  | 0, _ => none
  | turns + 1, s =>
      (answerTurn data type ancount fuel s).bind
        (Sum.elim (decodeAnswers data type ancount fuel turns) some)

/-- From `__decode_header` to the end of the loop; `false` where the code goes to `again`. -/
def decodeReply (data : Memory) (type localId fuel : Nat) (a : ResolvAnswer) :
    Option (Bool × ResolvAnswer) :=
  let h := decodeHeader data
  if h.id ≠ localId ∨ h.qr = false then some (false, a)
  else if h.rcode ≠ 0 ∨ h.ancount < 1 then some (false, a)
  else
    (skipQuestions data fuel h.qdcount headerSize).bind (fun pos =>
      decodeAnswers data type h.ancount fuel (h.ancount + 1) ⟨0, pos, true, a⟩)

/-- The loop over the answers comes from one to the next. -/
def NextAnswer (data : Memory) (type ancount : Nat) (s s' : Answers) : Prop :=
  ∃ fuel, answerTurn data type ancount fuel s = some (.inl s')

/-- The loop comes to this answer. -/
def AnswerReached (data : Memory) (type ancount : Nat) (s t : Answers) : Prop :=
  ReflTransGen (NextAnswer data type ancount) s t ∧ t.j < ancount

/-- None of the answers that the loop comes to has a name with a cycle of pointers. -/
def AnswersAcyclic (data : Memory) (type ancount : Nat) (s : Answers) : Prop :=
  ∀ t, AnswerReached data type ancount s t → NameAcyclic data tempSize t.pos

variable {data : Memory} {type ancount fuel more turns : Nat} {s s' t : Answers}
  {r : Bool × ResolvAnswer}

theorem decodeAnswer_ends_iff {offset : Nat} :
    (∃ fuel r, decodeAnswer data offset fuel = some r) ↔ NameAcyclic data tempSize offset := by
  rw [← decodeDotted_ends_iff]
  constructor
  · rintro ⟨fuel, r, hends⟩
    obtain ⟨result, hresult, -⟩ := Option.map_eq_some_iff.mp hends
    exact ⟨fuel, result, hresult⟩
  · rintro ⟨fuel, result, hresult⟩
    exact ⟨fuel, _, congrArg (Option.map _) hresult⟩

theorem decodeAnswer_mono {offset : Nat} {result : Option (Answer × Nat)}
    (h : decodeAnswer data offset fuel = some result) (hle : fuel ≤ more) :
    decodeAnswer data offset more = some result := by
  obtain ⟨name, hname, hresult⟩ := Option.map_eq_some_iff.mp h
  exact Option.map_eq_some_iff.mpr ⟨name, iterate_mono hname hle, hresult⟩

theorem answerTurn_of_lt (h : s.j < ancount) : answerTurn data type ancount fuel s =
    (decodeAnswer data s.pos fuel).map (takeAnswer data type ancount s) :=
  if_pos h

theorem answerTurn_of_not_lt (h : ¬ s.j < ancount) :
    answerTurn data type ancount fuel s = some (.inr (true, s.a)) :=
  if_neg h

theorem answerTurn_mono {next : Answers ⊕ Bool × ResolvAnswer}
    (h : answerTurn data type ancount fuel s = some next) (hle : fuel ≤ more) :
    answerTurn data type ancount more s = some next := by
  by_cases hj : s.j < ancount
  · rw [answerTurn_of_lt hj] at h ⊢
    obtain ⟨answer, hanswer, hnext⟩ := Option.map_eq_some_iff.mp h
    exact Option.map_eq_some_iff.mpr ⟨answer, decodeAnswer_mono hanswer hle, hnext⟩
  · rwa [answerTurn_of_not_lt hj] at h ⊢

theorem answerTurn_unique {next next' : Answers ⊕ Bool × ResolvAnswer}
    (h : answerTurn data type ancount fuel s = some next)
    (h' : answerTurn data type ancount more s = some next') : next = next' := by
  have hmax := answerTurn_mono h (Nat.le_max_left fuel more)
  rw [answerTurn_mono h' (Nat.le_max_right fuel more)] at hmax
  exact (Option.some.inj hmax).symm

theorem decodeAnswers_mono (h : decodeAnswers data type ancount fuel turns s = some r)
    (hle : fuel ≤ more) : decodeAnswers data type ancount more turns s = some r := by
  induction turns generalizing s with
  | zero => cases h
  | succ turns ih =>
      obtain ⟨next, hnext, hrest⟩ := Option.bind_eq_some_iff.mp h
      refine Option.bind_eq_some_iff.mpr ⟨next, answerTurn_mono hnext hle, ?_⟩
      cases next with
      | inl s' => exact ih hrest
      | inr r' => exact hrest

theorem takeFirst_inl {ma : Answer} {next : Nat} (h : takeFirst type ancount s ma next = .inl s') :
    s'.j = s.j + 1 ∧ s'.pos = next := by
  rw [takeFirst] at h
  split at h
  · cases h
  · split at h
    · obtain rfl := Sum.inl.inj h
      exact ⟨rfl, rfl⟩
    · dsimp only at h
      split at h
      · cases h
      · obtain rfl := Sum.inl.inj h
        exact ⟨rfl, rfl⟩

theorem takeOther_inl {ma : Answer} {next : Nat} (h : takeOther data type s ma next = .inl s') :
    s'.j = s.j + 1 ∧ s'.pos = next := by
  rw [takeOther] at h
  split at h
  · obtain rfl := Sum.inl.inj h
    exact ⟨rfl, rfl⟩
  · split at h
    · cases h
    · obtain rfl := Sum.inl.inj h
      exact ⟨rfl, rfl⟩

/-- A turn that goes on has taken an answer, and goes on behind it. -/
theorem takeAnswer_inl {result : Option (Answer × Nat)}
    (h : takeAnswer data type ancount s result = .inl s') :
    s'.j = s.j + 1 ∧ ∃ ma i, result = some (ma, i) ∧ s'.pos = s.pos + i := by
  cases result with
  | none => cases h
  | some answer =>
      rw [takeAnswer] at h
      split at h
      · obtain ⟨hj, hpos⟩ := takeFirst_inl h
        exact ⟨hj, _, _, rfl, hpos⟩
      · obtain ⟨hj, hpos⟩ := takeOther_inl h
        exact ⟨hj, _, _, rfl, hpos⟩

theorem nextAnswer_j (h : NextAnswer data type ancount s s') : s'.j = s.j + 1 := by
  obtain ⟨fuel, hturn⟩ := h
  by_cases hj : s.j < ancount
  · rw [answerTurn_of_lt hj] at hturn
    obtain ⟨result, -, hnext⟩ := Option.map_eq_some_iff.mp hturn
    exact (takeAnswer_inl hnext).1
  · rw [answerTurn_of_not_lt hj] at hturn
    cases hturn

theorem not_answerReached (hj : ¬ s.j < ancount) : ¬ AnswerReached data type ancount s t := by
  rintro ⟨hreach, ht⟩
  rcases ReflTransGen.cases_head hreach with rfl | ⟨s', ⟨fuel, hturn⟩, -⟩
  · exact hj ht
  · rw [answerTurn_of_not_lt hj] at hturn
    cases hturn

/-- What holds of all the answers holds of the first and of those behind it. -/
theorem forall_answerReached_iff {p : Answers → Prop} (hj : s.j < ancount) :
    (∀ t, AnswerReached data type ancount s t → p t) ↔
      p s ∧ ∀ s', NextAnswer data type ancount s s' →
        ∀ t, AnswerReached data type ancount s' t → p t := by
  constructor
  · intro h
    exact ⟨h s ⟨.refl, hj⟩, fun s' hstep t ht => h t ⟨.head hstep ht.1, ht.2⟩⟩
  · rintro ⟨hfirst, hrest⟩ t ⟨hreach, ht⟩
    rcases ReflTransGen.cases_head hreach with rfl | ⟨s', hstep, hreach'⟩
    · exact hfirst
    · exact hrest s' hstep t ⟨hreach', ht⟩

/-- The answers are decoded exactly if none of those the loop comes to has a name with a cycle
of pointers. -/
theorem decodeAnswers_ends_iff (hturns : ancount ≤ s.j + turns) :
    (∃ fuel r, decodeAnswers data type ancount fuel (turns + 1) s = some r) ↔
      AnswersAcyclic data type ancount s := by
  induction turns generalizing s with
  | zero =>
      have hj : ¬ s.j < ancount := Nat.not_lt.mpr hturns
      refine iff_of_true ⟨0, (true, s.a), ?_⟩ (fun t ht => absurd ht (not_answerReached hj))
      rw [decodeAnswers, answerTurn_of_not_lt hj]
      rfl
  | succ turns ih =>
      by_cases hj : s.j < ancount
      · rw [AnswersAcyclic, forall_answerReached_iff hj, ← decodeAnswer_ends_iff]
        constructor
        · rintro ⟨fuel, r, hends⟩
          obtain ⟨next, hnext, hrest⟩ := Option.bind_eq_some_iff.mp hends
          refine ⟨?_, ?_⟩
          · rw [answerTurn_of_lt hj] at hnext
            obtain ⟨result, hresult, -⟩ := Option.map_eq_some_iff.mp hnext
            exact ⟨fuel, result, hresult⟩
          · rintro s' ⟨fuel', hturn⟩
            have hsucc := nextAnswer_j ⟨fuel', hturn⟩
            obtain rfl := answerTurn_unique hnext hturn
            exact (ih (by omega)).mp ⟨fuel, r, hrest⟩
        · rintro ⟨⟨fuel, result, hresult⟩, hrest⟩
          have hturn : answerTurn data type ancount fuel s =
              some (takeAnswer data type ancount s result) := by
            rw [answerTurn_of_lt hj, hresult]
            rfl
          cases hnext : takeAnswer data type ancount s result with
          | inr r =>
              rw [hnext] at hturn
              exact ⟨fuel, r, Option.bind_eq_some_iff.mpr ⟨_, hturn, rfl⟩⟩
          | inl s' =>
              rw [hnext] at hturn
              have hsucc := nextAnswer_j ⟨fuel, hturn⟩
              obtain ⟨fuel', r, hends⟩ := (ih (by omega)).mpr (hrest s' ⟨fuel, hturn⟩)
              refine ⟨max fuel fuel', r, Option.bind_eq_some_iff.mpr ⟨_,
                answerTurn_mono hturn (Nat.le_max_left _ _), ?_⟩⟩
              exact decodeAnswers_mono hends (Nat.le_max_right _ _)
      · refine iff_of_true ⟨0, (true, s.a), ?_⟩ (fun t ht => absurd ht (not_answerReached hj))
        rw [decodeAnswers, answerTurn_of_not_lt hj]
        rfl

/-- For every content of the packet: `__decode_dotted` and `__decode_answer` return exactly if no
item of the name is on a cycle of compression pointers, and the loop over the answers exactly
if that holds of every answer it comes to. -/
theorem decoding_ends_iff (data : Memory) (offset maxlen type ancount pos : Nat) (a : ResolvAnswer) :
    ((∃ fuel r, decodeDotted data offset maxlen fuel = some r) ↔ NameAcyclic data maxlen offset) ∧
    ((∃ fuel r, decodeAnswer data offset fuel = some r) ↔ NameAcyclic data tempSize offset) ∧
    ((∃ fuel r, decodeAnswers data type ancount fuel (ancount + 1) ⟨0, pos, true, a⟩ = some r) ↔
      AnswersAcyclic data type ancount ⟨0, pos, true, a⟩) :=
  ⟨decodeDotted_ends_iff, decodeAnswer_ends_iff, decodeAnswers_ends_iff (by simp)⟩

/-- Behind the header a pointer to itself. -/
def selfPointer : Memory := fun i => if i = 12 then 0xc0 else if i = 13 then 12 else 0

theorem selfPointer_not_decoded :
    ¬ ∃ fuel r, decodeDotted selfPointer 12 tempSize fuel = some r := by
  rw [decodeDotted_ends_iff]
  intro hacyclic
  exact hacyclic 12 0 .first (.single rfl)

end EventLoop.Dns
