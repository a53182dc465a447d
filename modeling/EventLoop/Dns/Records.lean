import EventLoop.Dns.Expansion
import EventLoop.Dns.Reply

/-!
The records of a well-formed response, and what the loop over the answers makes of them. The
first record of the type asked for is kept in `a`; the rdata of the others is copied to `buf`.
-/

namespace EventLoop.Dns

open Iteration

structure Record where
  labels : List (List UInt8)
  atype : Nat
  rdata : List UInt8
deriving DecidableEq, Repr

/-- The records stand one behind the other from `pos` on. -/
inductive RecordsAt (data : Memory) : Nat → List Record → Prop
  | nil {pos : Nat} : RecordsAt data pos []
  | cons {pos size : Nat} {record : Record} {records : List Record}
      (hname : Expands data pos record.labels size)
      (htype : shortAt data (pos + size) = record.atype)
      (hrdlength : shortAt data (pos + size + 8) = record.rdata.length)
      (hrdata : bytesAt data (pos + size + rrFixedSize) record.rdata.length = record.rdata)
      (hrest : RecordsAt data (pos + size + rrFixedSize + record.rdata.length) records) :
      RecordsAt data pos (record :: records)

/-- So many questions stand from `pos` on, and end before `behind`. -/
inductive QuestionsAt (data : Memory) : Nat → Nat → Nat → Prop
  | nil {pos : Nat} : QuestionsAt data pos 0 pos
  | cons {pos size count behind : Nat} {labels : List (List UInt8)}
      (hname : Expands data pos labels size) (hrest : QuestionsAt data (pos + size + 4) count behind) :
      QuestionsAt data pos (count + 1) behind

/-- A well-formed response with these answers. -/
structure Response (data : Memory) (records : List Record) : Prop where
  ancount : (decodeHeader data).ancount = records.length
  answers : ∃ pos, QuestionsAt data headerSize (decodeHeader data).qdcount pos ∧
    RecordsAt data pos records

/-- The records of the type. -/
def matching (type : Nat) (records : List Record) : List Record :=
  records.filter (fun record => record.atype = type)

variable {data : Memory} {type ancount fuel turns pos size : Nat} {s : Answers}
  {record : Record} {records : List Record} {a : ResolvAnswer} {labels : List (List UInt8)}

/-- A name that is not refused takes up its size. -/
theorem Expands.decode_size (h : Expands data pos labels size) {maxlen : Nat}
    {result : Option (Nat × List UInt8)} (hrun : decodeDotted data pos maxlen fuel = some result) :
    result = none ∨ ∃ text, result = some (size, text) := by
  have htotal : (Decoding.start pos).totalWith size = size := Nat.zero_add size
  by_cases hlabels : labels = []
  · subst hlabels
    obtain rfl := (h.yields_root rfl).iterate_eq hrun
    exact .inr ⟨_, by rw [htotal]⟩
  · by_cases hroom : (Decoding.start pos).dest.length + (dotted labels).length + 1 < maxlen
    · obtain ⟨last, -, hyields⟩ := h.yields_text rfl hlabels hroom
      obtain rfl := hyields.iterate_eq hrun
      exact .inr ⟨_, by rw [htotal]⟩
    · obtain rfl := (h.yields_none rfl hlabels (Nat.le_of_not_lt hroom)).iterate_eq hrun
      exact .inl rfl

theorem Expands.decodeAnswer (h : Expands data pos labels size) {result : Option (Answer × Nat)}
    (hrun : decodeAnswer data pos fuel = some result) :
    result = none ∨ ∃ text, result = some
      (⟨text, shortAt data (pos + size), shortAt data (pos + size + 8), pos + size + rrFixedSize⟩,
        size + rrFixedSize + shortAt data (pos + size + 8)) := by
  obtain ⟨name, hname, rfl⟩ := Option.map_eq_some_iff.mp hrun
  rcases h.decode_size hname with rfl | ⟨text, rfl⟩
  · exact .inl rfl
  · exact .inr ⟨text, rfl⟩

/-- The turn at a record, in a loop that ends with success. -/
theorem decodeAnswers_cons (h : RecordsAt data s.pos (record :: records)) (hj : s.j < ancount)
    (hrun : decodeAnswers data type ancount fuel (turns + 1) s = some (true, a)) :
    ∃ ma next, ma.atype = record.atype ∧ ma.rdlength = record.rdata.length ∧
      bytesAt data ma.rdoffset ma.rdlength = record.rdata ∧ RecordsAt data next records ∧
      ∃ turn, takeAnswer data type ancount s (some (ma, next - s.pos)) = turn ∧ s.pos ≤ next ∧
        Sum.elim (decodeAnswers data type ancount fuel turns) some turn = some (true, a) := by
  cases h with
  | @cons pos size record records hname htype hrdlength hrdata hrest =>
      obtain ⟨turn, hturn, hbehind⟩ := Option.bind_eq_some_iff.mp hrun
      rw [answerTurn_of_lt hj] at hturn
      obtain ⟨result, hresult, rfl⟩ := Option.map_eq_some_iff.mp hturn
      rcases hname.decodeAnswer hresult with rfl | ⟨text, rfl⟩
      · cases hbehind
      · rw [htype, hrdlength] at hbehind
        refine ⟨⟨text, record.atype, record.rdata.length, s.pos + size + rrFixedSize⟩,
          s.pos + size + rrFixedSize + record.rdata.length, rfl, rfl, hrdata, hrest, _, rfl,
          by omega, ?_⟩
        have hnext : s.pos + size + rrFixedSize + record.rdata.length - s.pos =
            size + rrFixedSize + record.rdata.length := by omega
        rw [hnext]
        exact hbehind

theorem decodeAnswers_nil (hj : s.j = ancount)
    (hrun : decodeAnswers data type ancount fuel (turns + 1) s = some (true, a)) : s.a = a := by
  rw [decodeAnswers, answerTurn_of_not_lt (Nat.not_lt.mpr (Nat.le_of_eq hj.symm))] at hrun
  exact congrArg Prod.snd (Option.some.inj hrun)

@[simp] theorem matching_nil (type : Nat) : matching type [] = [] := rfl

theorem matching_cons_of_eq (h : record.atype = type) :
    matching type (record :: records) = record :: matching type records :=
  List.filter_cons_of_pos (decide_eq_true h)

theorem matching_cons_of_ne (h : record.atype ≠ type) :
    matching type (record :: records) = matching type records :=
  List.filter_cons_of_neg (by simpa using h)

/-- Behind the first record of the type: the rdata of every other is added to `buf`. -/
theorem decodeAnswers_others (h : RecordsAt data s.pos records)
    (hj : s.j + records.length = ancount) (hfirst : s.firstAnswer = false)
    (hrun : decodeAnswers data type ancount fuel (records.length + 1) s = some (true, a)) :
    a = { s.a with
      addCount := s.a.addCount + (matching type records).length
      copied := s.a.copied ++ (matching type records).flatMap Record.rdata } ∧
    ∀ other ∈ matching type records, other.rdata.length = s.a.rdlength := by
  induction records generalizing s with
  | nil =>
      obtain rfl := decodeAnswers_nil hj hrun
      simp
  | cons record records ih =>
      rw [List.length_cons] at hj hrun
      obtain ⟨ma, next, htype, hrdlength, hrdata, hrest, turn, hturn, hnext, hbehind⟩ :=
        decodeAnswers_cons h (by omega) hrun
      have hpos : s.pos + (next - s.pos) = next := by omega
      have hjnext : s.j + 1 + records.length = ancount := by omega
      rw [takeAnswer, hfirst, if_neg Bool.false_ne_true, hpos, takeOther] at hturn
      by_cases hmatch : record.atype = type
      · rw [if_neg (not_not.mpr (htype.trans hmatch))] at hturn
        by_cases hlength : s.a.rdlength = ma.rdlength
        · rw [if_neg (not_not.mpr hlength)] at hturn
          subst hturn
          obtain ⟨ha, hothers⟩ := ih hrest hjnext rfl hbehind
          rw [matching_cons_of_eq hmatch]
          constructor
          · rw [ha]
            simp [hrdata, Nat.add_assoc, Nat.add_comm 1]
          · intro other hother
            rcases List.mem_cons.mp hother with rfl | hmem
            · rw [← hrdlength, hlength]
            · exact hothers other hmem
        · rw [if_pos hlength] at hturn
          subst hturn
          cases hbehind
      · rw [if_pos (fun heq => hmatch (htype.symm.trans heq))] at hturn
        subst hturn
        rw [matching_cons_of_ne hmatch]
        exact @ih ⟨s.j + 1, next, false, s.a⟩ hrest hjnext rfl hbehind

/-- A reply is taken with no record of its type, or with the first of them in `a`; then the
others are in `buf`, or `a.buflen` has no room for as many as there might be. -/
inductive Taken (type : Nat) (data : Memory) (start : ResolvAnswer) (records : List Record)
    (a : ResolvAnswer) : Prop
  | missed (hnone : matching type records = []) (hfreed : a.freed = true)
      (htype : a.atype ≠ type)
  | found {first : Record} {rest : List Record} (hmatching : matching type records = first :: rest)
      (htype : a.atype = type) (hfreed : a.freed = false)
      (hrdlength : a.rdlength = first.rdata.length)
      (hrdata : bytesAt data a.rdoffset a.rdlength = first.rdata)
      (hrest : start.buflen < (a.rdlength + pointerSize) * a.addCount ∨
        a.addCount = rest.length ∧ a.copied = start.copied ++ rest.flatMap Record.rdata ∧
          ∀ other ∈ rest, other.rdata.length = a.rdlength)

/-- Before the first record of the type. -/
theorem decodeAnswers_taken (htype : type = typeA ∨ type = typeAAAA)
    (h : RecordsAt data s.pos records) (hj : s.j + records.length = ancount)
    (hfirst : s.firstAnswer = true) (hbuf : s.a.hasBuf = true)
    (hstart : records = [] → s.a.freed = true ∧ s.a.atype ≠ type)
    (hrun : decodeAnswers data type ancount fuel (records.length + 1) s = some (true, a)) :
    Taken type data s.a records a := by
  induction records generalizing s with
  | nil =>
      obtain rfl := decodeAnswers_nil hj hrun
      exact .missed rfl (hstart rfl).1 (hstart rfl).2
  | cons record records ih =>
      rw [List.length_cons] at hj hrun
      obtain ⟨ma, next, hatype, hrdlength, hrdata, hrest, turn, hturn, hnext, hbehind⟩ :=
        decodeAnswers_cons h (by omega) hrun
      have hpos : s.pos + (next - s.pos) = next := by omega
      have hjnext : s.j + 1 + records.length = ancount := by omega
      have hkept : ¬ ((s.a.store ma).atype ≠ typeSig ∧ ((s.a.store ma).hasBuf = false ∨
          (type ≠ typeA ∧ type ≠ typeAAAA))) := by
        rintro ⟨-, hnobuf | ⟨hnotA, hnotAAAA⟩⟩
        · exact absurd (hbuf.symm.trans hnobuf) (by decide)
        · exact htype.elim hnotA hnotAAAA
      rw [takeAnswer, if_pos hfirst, hpos, takeFirst, if_neg hkept] at hturn
      by_cases hmatch : record.atype = type
      · have hmine : (s.a.store ma).atype = type := hatype.trans hmatch
        rw [if_neg (not_not.mpr hmine)] at hturn
        dsimp only at hturn
        split at hturn
        · rename_i hfull
          subst hturn
          obtain rfl := congrArg Prod.snd (Option.some.inj hbehind)
          exact .found (matching_cons_of_eq hmatch) hmine rfl hrdlength hrdata (.inl hfull)
        · subst hturn
          obtain ⟨ha, hothers⟩ := decodeAnswers_others (s := ⟨s.j + 1, next, false,
            { s.a.store ma with addCount := 0 }⟩) hrest hjnext rfl hbehind
          subst ha
          refine .found (matching_cons_of_eq hmatch) hmine rfl hrdlength hrdata (.inr ⟨?_, rfl, ?_⟩)
          · exact Nat.zero_add _
          · exact hothers
      · have hother : (s.a.store ma).atype ≠ type := fun heq => hmatch (hatype.symm.trans heq)
        rw [if_pos hother] at hturn
        subst hturn
        have htaken := @ih ⟨s.j + 1, next, true, { s.a.store ma with freed := true }⟩ hrest hjnext
          rfl hbuf (fun _ => ⟨rfl, hother⟩) hbehind
        cases htaken with
        | missed hnone hfreed hne =>
            exact .missed ((matching_cons_of_ne hmatch).trans hnone) hfreed hne
        | found hmatching hatype hfreed hlength hbytes hcopied =>
            exact .found ((matching_cons_of_ne hmatch).trans hmatching) hatype hfreed hlength hbytes
              hcopied

/-- Where a copy goes is behind the copies before it, and there is room for one from each answer
that is left. -/
structure Copying (start : ResolvAnswer) (ancount : Nat) (s : Answers) : Prop where
  hasBuf : s.a.hasBuf = start.hasBuf
  buflen : s.a.buflen = start.buflen
  fresh : s.firstAnswer = true → s.a.copied = []
  place : s.firstAnswer = false → s.a.copied.length = s.a.addCount * s.a.rdlength
  room : s.firstAnswer = false →
    (s.a.rdlength + pointerSize) * (s.a.addCount + (ancount - s.j)) ≤ start.buflen

/-- The buffer is the caller's, and what has been copied fits into it. -/
structure Copied (start a : ResolvAnswer) : Prop where
  hasBuf : a.hasBuf = start.hasBuf
  buflen : a.buflen = start.buflen
  fits : a.copied.length ≤ start.buflen

variable {start : ResolvAnswer}

theorem Copying.copied (h : Copying start ancount s) : Copied start s.a := by
  refine ⟨h.hasBuf, h.buflen, ?_⟩
  cases hfirst : s.firstAnswer with
  | true =>
      rw [h.fresh hfirst]
      exact Nat.zero_le _
  | false =>
      rw [h.place hfirst]
      refine Nat.le_trans ?_ (h.room hfirst)
      rw [Nat.mul_comm]
      exact Nat.mul_le_mul (Nat.le_add_right _ _) (Nat.le_add_right _ _)

theorem takeFirst_copying (h : Copying start ancount s) (hfirst : s.firstAnswer = true)
    (ma : Answer) (next : Nat) :
    Sum.elim (Copying start ancount) (fun r => Copied start r.2)
      (takeFirst type ancount s ma next) := by
  have hcopied : (s.a.store ma).copied.length ≤ start.buflen := by
    change s.a.copied.length ≤ _
    rw [h.fresh hfirst]
    exact Nat.zero_le _
  rw [takeFirst]
  split
  · exact ⟨h.hasBuf, h.buflen, hcopied⟩
  · split
    · exact ⟨h.hasBuf, h.buflen, fun _ => h.fresh hfirst, fun h => Bool.noConfusion h,
        fun h => Bool.noConfusion h⟩
    · dsimp only
      split
      · exact ⟨h.hasBuf, h.buflen, hcopied⟩
      · rename_i hroom
        refine ⟨h.hasBuf, h.buflen, fun h => Bool.noConfusion h, fun _ => ?_, fun _ => ?_⟩
        · change s.a.copied.length = 0 * _
          rw [h.fresh hfirst, Nat.zero_mul]
          rfl
        · change (ma.rdlength + pointerSize) * (0 + (ancount - (s.j + 1))) ≤ start.buflen
          rw [Nat.zero_add, ← Nat.sub_sub, ← h.buflen]
          exact Nat.le_of_not_lt hroom

theorem takeOther_copying (h : Copying start ancount s) (hfirst : s.firstAnswer = false)
    (hj : s.j < ancount) (ma : Answer) (next : Nat) :
    Sum.elim (Copying start ancount) (fun r => Copied start r.2)
      (takeOther data type s ma next) := by
  have hroom := h.room hfirst
  have hleft : ancount - s.j = ancount - (s.j + 1) + 1 := by omega
  rw [takeOther]
  split
  · refine ⟨h.hasBuf, h.buflen, fun h => Bool.noConfusion h, fun _ => h.place hfirst, fun _ => ?_⟩
    refine Nat.le_trans (Nat.mul_le_mul_left _ ?_) hroom
    change s.a.addCount + (ancount - (s.j + 1)) ≤ _
    omega
  · split
    · exact ⟨h.hasBuf, h.buflen, h.copied.fits⟩
    · rename_i hlength
      refine ⟨h.hasBuf, h.buflen, fun h => Bool.noConfusion h, fun _ => ?_, fun _ => ?_⟩
      · change (s.a.copied ++ bytesAt data ma.rdoffset ma.rdlength).length =
          (s.a.addCount + 1) * s.a.rdlength
        rw [List.length_append, length_bytesAt, h.place hfirst, ← not_not.mp hlength,
          Nat.succ_mul]
      · change (s.a.rdlength + pointerSize) * (s.a.addCount + 1 + (ancount - (s.j + 1))) ≤ _
        rw [Nat.add_assoc, Nat.add_comm 1, ← hleft]
        exact hroom

/-- Whatever the packet is, the copies stay in the buffer. -/
theorem decodeAnswers_copied (h : Copying start ancount s) {r : Bool × ResolvAnswer}
    (hrun : decodeAnswers data type ancount fuel turns s = some r) : Copied start r.2 := by
  induction turns generalizing s with
  | zero => cases hrun
  | succ turns ih =>
      obtain ⟨turn, hturn, hrest⟩ := Option.bind_eq_some_iff.mp hrun
      have hkept : Sum.elim (Copying start ancount) (fun r => Copied start r.2) turn := by
        by_cases hj : s.j < ancount
        · rw [answerTurn_of_lt hj] at hturn
          obtain ⟨result, -, rfl⟩ := Option.map_eq_some_iff.mp hturn
          cases result with
          | none => exact h.copied
          | some answer =>
              obtain ⟨ma, i⟩ := answer
              rw [takeAnswer]
              cases hfirst : s.firstAnswer with
              | true => exact takeFirst_copying h hfirst ma _
              | false => exact takeOther_copying h hfirst hj ma _
        · rw [answerTurn_of_not_lt hj] at hturn
          obtain rfl := Option.some.inj hturn
          exact h.copied
      cases turn with
      | inl s' => exact ih hkept hrest
      | inr r' =>
          obtain rfl := Option.some.inj hrest
          exact hkept

theorem decodeReply_copied {localId : Nat} (hempty : start.copied = []) {r : Bool × ResolvAnswer}
    (hrun : decodeReply data type localId fuel start = some r) : Copied start r.2 := by
  have hunchanged : Copied start start := ⟨rfl, rfl, by simp [hempty]⟩
  rw [decodeReply] at hrun
  split at hrun
  · exact Option.some.inj hrun ▸ hunchanged
  · split at hrun
    · exact Option.some.inj hrun ▸ hunchanged
    · obtain ⟨pos, -, hanswers⟩ := Option.bind_eq_some_iff.mp hrun
      have hstart : Copying start (decodeHeader data).ancount ⟨0, pos, true, start⟩ :=
        ⟨rfl, rfl, fun _ => hempty, fun h => Bool.noConfusion h, fun h => Bool.noConfusion h⟩
      exact decodeAnswers_copied hstart hanswers

theorem Expands.lengthQuestion (h : Expands data pos labels size) {i : Nat}
    (hrun : lengthQuestion data pos fuel = some i) : i = size + 4 := by
  obtain ⟨length, hlength, rfl⟩ := Option.map_eq_some_iff.mp hrun
  obtain ⟨behind, hbehind, rfl⟩ := Option.map_eq_some_iff.mp hlength
  obtain rfl := h.length_yields.iterate_eq hbehind
  rw [Nat.add_sub_cancel_left]

theorem QuestionsAt.skipQuestions {count behind next : Nat} (h : QuestionsAt data pos count behind)
    (hrun : skipQuestions data fuel count pos = some next) : next = behind := by
  induction h with
  | nil => exact (Option.some.inj hrun).symm
  | cons hname _ ih =>
      obtain ⟨i, hi, hrest⟩ := Option.bind_eq_some_iff.mp hrun
      obtain rfl := hname.lengthQuestion hi
      rw [← Nat.add_assoc] at hrest
      exact ih hrest

/-- What a well-formed reply that is taken leaves in `a`. -/
theorem Response.taken {localId : Nat} (h : Response data records)
    (htype : type = typeA ∨ type = typeAAAA) (hbuf : start.hasBuf = true)
    (hrun : decodeReply data type localId fuel start = some (true, a)) :
    Taken type data start records a := by
  obtain ⟨pos, hquestions, hrecords⟩ := h.answers
  rw [decodeReply] at hrun
  split at hrun
  · cases hrun
  · split at hrun
    · cases hrun
    · rename_i hpresent
      obtain ⟨next, hnext, hanswers⟩ := Option.bind_eq_some_iff.mp hrun
      obtain rfl := hquestions.skipQuestions hnext
      rw [h.ancount] at hanswers hpresent
      refine @decodeAnswers_taken data type _ fuel ⟨0, next, true, start⟩ records a htype hrecords
        (Nat.zero_add _) rfl hbuf ?_ hanswers
      rintro rfl
      exact absurd (.inr Nat.zero_lt_one) hpresent

end EventLoop.Dns
