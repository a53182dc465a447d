import EventLoop.Dns.AddressList
import EventLoop.Dns.Datagram
import EventLoop.Dns.Query

/-!
A query and the reply of a server that has read it. The server repeats the header with its own
flags and counts, and the question; the owners of its records are the name asked for, by a
pointer to it, or names written in full. Such a reply is taken by the lookup that has asked, and
by no other.
-/

namespace EventLoop.Dns

open ByteMemory Iteration

/-- A record of a reply. -/
structure ServerRecord where
  /-- `none` for the name asked for. -/
  owner : Option AskedName
  atype : Nat
  ttl : Vector UInt8 4
  rdata : List UInt8
  atype_lt : atype < 65536
  rdata_lt : rdata.length < 65536

/-- The name, or a pointer to the question. -/
def ServerRecord.ownerBytes (r : ServerRecord) : List UInt8 :=
  match r.owner with
  | none => [0xc0, 12]
  | some name => wire name.labels

def ServerRecord.bytes (r : ServerRecord) : List UInt8 :=
  r.ownerBytes ++ (fieldBytes r.atype ++ (fieldBytes 1 ++ r.ttl.toList ++
    (fieldBytes r.rdata.length ++ r.rdata)))

/-- The reply of a server that has these answers to the query. -/
def serverReply (query : List UInt8) (answers : List ServerRecord) : List UInt8 :=
  let asked := decodeResolvHeader (packetOf query)
  (encodeHeader { asked with qr := true, ra := true, ancount := answers.length } packetSz).2 ++
    query.drop 12 ++ answers.flatMap ServerRecord.bytes

/-- The record as it is to be read, where `labels` is asked for. -/
def ServerRecord.record (labels : List (List UInt8)) (r : ServerRecord) : Record where
  labels := (r.owner.map AskedName.labels).getD labels
  atype := r.atype
  rdata := r.rdata

variable {data : Memory} {type ancount fuel pos size n : Nat} {s : Answers} {record : Record}
  {records : List Record} {start : ResolvAnswer} {labels : List (List UInt8)}

/-- The names of the records have room in `temp`. -/
def Legible (records : List Record) : Prop :=
  ∀ record ∈ records, (dotted record.labels).length + 1 < tempSize

theorem decodeAnswer_yields (h : Expands data pos labels size)
    (hroom : (dotted labels).length + 1 < tempSize) :
    ∃ fuel text, decodeAnswer data pos fuel = some (some
      (⟨text, shortAt data (pos + size), shortAt data (pos + size + 8), pos + size + rrFixedSize⟩,
        size + rrFixedSize + shortAt data (pos + size + 8))) := by
  have htotal : (Decoding.start pos).totalWith size = size := Nat.zero_add size
  have hdecode : ∃ text, Yields (decodeItem data tempSize) (.start pos) (some (size, text)) := by
    by_cases hlabels : labels = []
    · subst hlabels
      have hyields := @Expands.yields_root data tempSize pos size (.start pos) h rfl
      rw [htotal] at hyields
      exact ⟨_, hyields⟩
    · have hstart : (Decoding.start pos).dest.length + (dotted labels).length + 1 < tempSize := by
        change 0 + _ + 1 < _
        omega
      obtain ⟨last, -, hyields⟩ := h.yields_text rfl hlabels hstart
      rw [htotal] at hyields
      exact ⟨_, hyields⟩
  obtain ⟨text, fuel, hyields⟩ := hdecode
  refine ⟨fuel, text, ?_⟩
  rw [decodeAnswer, decodeDotted, hyields]
  rfl

/-- A loop that has a buffer; behind the first record of the type, with records of one length. -/
structure Counted (n : Nat) (s : Answers) : Prop where
  hasBuf : s.a.hasBuf = true
  rdlength : s.firstAnswer = false → s.a.rdlength = n
  addCount : s.firstAnswer = false → s.a.addCount ≤ s.j

/-- A turn ends the loop with success or goes on to the next record. -/
theorem takeAnswer_goes (htype : type = typeA ∨ type = typeAAAA) (h : Counted n s)
    (ma : Answer) (i : Nat) (hsame : ma.atype = type → ma.rdlength = n) :
    (∃ a, takeAnswer data type ancount s (some (ma, i)) = .inr (true, a) ∧ a.addCount ≤ ancount) ∨
      ∃ s', takeAnswer data type ancount s (some (ma, i)) = .inl s' ∧ s'.j = s.j + 1 ∧
        s'.pos = s.pos + i ∧ Counted n s' ∧
        (s.firstAnswer = false ∨ ma.atype = type → s'.firstAnswer = false) := by
  rw [takeAnswer]
  split
  · rename_i hfirst
    have hwanted : ¬ ((s.a.store ma).atype ≠ typeSig ∧ ((s.a.store ma).hasBuf = false ∨
        (type ≠ typeA ∧ type ≠ typeAAAA))) := by
      rintro ⟨-, hnone | ⟨hA, hAAAA⟩⟩
      · exact Bool.noConfusion (hnone.symm.trans h.hasBuf)
      · exact htype.elim hA hAAAA
    rw [takeFirst, if_neg hwanted]
    split
    · rename_i hother
      refine .inr ⟨_, rfl, rfl, rfl,
        ⟨h.hasBuf, fun hnot => Bool.noConfusion hnot, fun hnot => Bool.noConfusion hnot⟩, ?_⟩
      rintro (hnot | hmatch)
      · exact Bool.noConfusion (hfirst.symm.trans hnot)
      · exact absurd hmatch hother
    · rename_i hmatch
      dsimp only
      split
      · refine .inl ⟨_, rfl, ?_⟩
        change ancount - s.j - 1 ≤ ancount
        omega
      · exact .inr ⟨_, rfl, rfl, rfl,
          ⟨h.hasBuf, fun _ => hsame (not_not.mp hmatch), fun _ => Nat.zero_le _⟩, fun _ => rfl⟩
  · rename_i hfirst
    have hbehind : s.firstAnswer = false := by simpa using hfirst
    have hlength := h.rdlength hbehind
    have hcount := h.addCount hbehind
    rw [takeOther]
    split
    · exact .inr ⟨_, rfl, rfl, rfl, ⟨h.hasBuf, fun _ => hlength, fun _ => Nat.le_succ_of_le hcount⟩,
        fun _ => rfl⟩
    · rename_i hmatch
      rw [if_neg (not_not.mpr (hlength.trans (hsame (not_not.mp hmatch)).symm))]
      exact .inr ⟨_, rfl, rfl, rfl, ⟨h.hasBuf, fun _ => hlength, fun _ => Nat.succ_le_succ hcount⟩,
        fun _ => rfl⟩

theorem answerTurn_goes (htype : type = typeA ∨ type = typeAAAA) (hcounted : Counted n s)
    (h : RecordsAt data s.pos (record :: records)) (hj : s.j < ancount)
    (hroom : (dotted record.labels).length + 1 < tempSize)
    (hsame : record.atype = type → record.rdata.length = n) :
    ∃ fuel turn, answerTurn data type ancount fuel s = some turn ∧
      ((∃ a, turn = .inr (true, a) ∧ a.addCount ≤ ancount) ∨
        ∃ s', turn = .inl s' ∧ s'.j = s.j + 1 ∧ RecordsAt data s'.pos records ∧ Counted n s' ∧
          (s.firstAnswer = false ∨ record.atype = type → s'.firstAnswer = false)) := by
  cases h with
  | @cons pos size _ _ hname hatype hrdlength hrdata hrest =>
      obtain ⟨fuel, text, hdecode⟩ := decodeAnswer_yields hname hroom
      rw [hatype, hrdlength] at hdecode
      have hturn : answerTurn data type ancount fuel s = some (takeAnswer data type ancount s (some
          (⟨text, record.atype, record.rdata.length, s.pos + size + rrFixedSize⟩,
            size + rrFixedSize + record.rdata.length))) := by
        rw [answerTurn_of_lt hj, hdecode]
        rfl
      refine ⟨fuel, _, hturn, ?_⟩
      rcases takeAnswer_goes htype hcounted
        ⟨text, record.atype, record.rdata.length, s.pos + size + rrFixedSize⟩
        (size + rrFixedSize + record.rdata.length) hsame with
        hends | ⟨s', hs', hj', hpos', hcounted', hfirst'⟩
      · exact .inl hends
      · refine .inr ⟨s', hs', hj', ?_, hcounted', hfirst'⟩
        rw [hpos', ← Nat.add_assoc, ← Nat.add_assoc]
        exact hrest

theorem decodeAnswers_yields (htype : type = typeA ∨ type = typeAAAA) (hcounted : Counted n s)
    (h : RecordsAt data s.pos records) (hj : s.j + records.length = ancount)
    (hlegible : Legible records)
    (hsame : ∀ record ∈ records, record.atype = type → record.rdata.length = n) :
    ∃ fuel a, decodeAnswers data type ancount fuel (records.length + 1) s = some (true, a) ∧
      (s.firstAnswer = false ∨ (∃ record ∈ records, record.atype = type) →
        a.addCount ≤ ancount) := by
  induction records generalizing s with
  | nil =>
      refine ⟨0, s.a, ?_, ?_⟩
      · rw [decodeAnswers, answerTurn_of_not_lt (Nat.not_lt.mpr hj.symm.le)]
        rfl
      · rintro (hfirst | ⟨record, hrecord, -⟩)
        · exact (hcounted.addCount hfirst).trans (Nat.le_of_eq hj)
        · cases hrecord
  | cons record records ih =>
      rw [List.length_cons] at hj
      have hjless : s.j < ancount := by omega
      obtain ⟨fuel, turn, hturn, ⟨a, rfl, hcount⟩ | ⟨s', rfl, hj', hrest, hcounted', hfirst'⟩⟩ :=
        answerTurn_goes htype hcounted h hjless (hlegible record (List.mem_cons_self ..))
          (hsame record (List.mem_cons_self ..))
      · refine ⟨fuel, a, ?_, fun _ => hcount⟩
        rw [decodeAnswers, hturn]
        rfl
      · obtain ⟨fuel', a, ha, hcount⟩ := ih hcounted' hrest (by omega)
          (fun other hother => hlegible other (List.mem_cons_of_mem _ hother))
          (fun other hother => hsame other (List.mem_cons_of_mem _ hother))
        refine ⟨max fuel fuel', a, ?_, ?_⟩
        · rw [decodeAnswers, answerTurn_mono hturn (Nat.le_max_left ..)]
          exact decodeAnswers_mono ha (Nat.le_max_right ..)
        · rintro (hfirst | ⟨other, hother, hmatch⟩)
          · exact hcount (.inl (hfirst' (.inl hfirst)))
          · rcases List.mem_cons.mp hother with rfl | hother
            · exact hcount (.inl (hfirst' (.inr hmatch)))
            · exact hcount (.inr ⟨other, hother, hmatch⟩)

theorem skipQuestions_yields {count behind : Nat} (h : QuestionsAt data pos count behind) :
    ∃ fuel, skipQuestions data fuel count pos = some behind := by
  induction h with
  | nil => exact ⟨0, rfl⟩
  | @cons pos size count behind labels hname _ ih =>
      obtain ⟨fuel, hlength⟩ := hname.length_yields
      obtain ⟨fuel', hrest⟩ := ih
      have hquestion : lengthQuestion data pos (max fuel fuel') = some (size + 4) := by
        rw [lengthQuestion, lengthDotted, iterate_mono hlength (Nat.le_max_left ..)]
        simp
      refine ⟨max fuel fuel', Option.bind_eq_some_iff.mpr ⟨size + 4, hquestion, ?_⟩⟩
      rw [← Nat.add_assoc]
      exact skipQuestions_mono hrest (Nat.le_max_right ..)

theorem decodeReply_mono {localId more : Nat} {r : Bool × ResolvAnswer}
    (h : decodeReply data type localId fuel start = some r) (hle : fuel ≤ more) :
    decodeReply data type localId more start = some r := by
  rw [decodeReply] at h ⊢
  split at h
  · rename_i hother
    rwa [if_pos hother]
  · rename_i hown
    rw [if_neg hown]
    split at h
    · rename_i hnegative
      rwa [if_pos hnegative]
    · rename_i hpositive
      rw [if_neg hpositive]
      obtain ⟨pos, hpos, hanswers⟩ := Option.bind_eq_some_iff.mp h
      exact Option.bind_eq_some_iff.mpr
        ⟨pos, skipQuestions_mono hpos hle, decodeAnswers_mono hanswers hle⟩

/-- A well-formed response, whose records of the type are of one length, is taken by the lookup
whose number it has. -/
theorem Response.decodeReply_yields {localId : Nat} (htype : type = typeA ∨ type = typeAAAA)
    (hbuf : start.hasBuf = true) (h : Response data records)
    (hsome : ∃ record ∈ records, record.atype = type) (hlegible : Legible records)
    (hsame : ∀ record ∈ records, record.atype = type → record.rdata.length = n)
    (hqr : (decodeHeader data).qr = true) (hrcode : (decodeHeader data).rcode = 0) :
    ∃ fuel taken a, decodeReply data type localId fuel start = some (taken, a) ∧
      (taken = true ↔ (decodeHeader data).id = localId) ∧
      (taken = true → a.addCount ≤ records.length) := by
  by_cases hid : (decodeHeader data).id = localId
  · obtain ⟨pos, hquestions, hrecords⟩ := h.answers
    obtain ⟨fuel, hskip⟩ := skipQuestions_yields hquestions
    have hcounted : Counted n ⟨0, pos, true, start⟩ :=
      ⟨hbuf, fun hnot => Bool.noConfusion hnot, fun hnot => Bool.noConfusion hnot⟩
    obtain ⟨fuel', a, ha, hcount⟩ := decodeAnswers_yields htype hcounted hrecords
      (Nat.zero_add _) hlegible hsame
    obtain ⟨record, hrecord, hmatch⟩ := hsome
    have hpositive := List.length_pos_of_mem hrecord
    have hancount := h.ancount
    refine ⟨max fuel fuel', true, a, ?_, by simp [hid],
      fun _ => hcount (.inr ⟨record, hrecord, hmatch⟩)⟩
    rw [decodeReply, if_neg (by simp [hid, hqr]), if_neg (by omega),
      skipQuestions_mono hskip (Nat.le_max_left ..), Option.bind_some, h.ancount]
    exact decodeAnswers_mono ha (Nat.le_max_right ..)
  · refine ⟨0, false, start, ?_, by simp [hid], fun hnot => Bool.noConfusion hnot⟩
    rw [decodeReply, if_pos (.inl hid)]

variable {query : List UInt8} {answers : List ServerRecord} {asked : AskedName} {localId : Nat}

/-- Parts of what is read, one behind the other. -/
theorem bytesAt_append {front back : List UInt8}
    (h : bytesAt data pos (front ++ back).length = front ++ back) :
    bytesAt data pos front.length = front ∧
      bytesAt data (pos + front.length) back.length = back := by
  rw [List.length_append] at h
  exact read_append_iff.mp h

/-- The owner's name, behind the question for the name asked for. -/
theorem ServerRecord.expands (r : ServerRecord) (hasked : Expands data headerSize labels size)
    (hread : bytesAt data pos r.ownerBytes.length = r.ownerBytes) :
    Expands data pos (r.record labels).labels r.ownerBytes.length := by
  cases howner : r.owner with
  | none =>
      simp only [ownerBytes, howner] at hread
      simp only [record, ownerBytes, howner]
      have hfirst : data pos = 0xc0 := List.head_eq_of_cons_eq hread
      have hsecond : data (pos + 1) = 12 := List.head_eq_of_cons_eq (List.tail_eq_of_cons_eq hread)
      have hitem : itemAt data pos = .pointer 12 := by
        rw [itemAt, hfirst, hsecond]
        rfl
      exact .pointer hitem hasked
  | some name =>
      simp only [ownerBytes, howner] at hread
      simp only [record, ownerBytes, howner]
      exact (expands_wire name.short hread).1

theorem recordsAt_of_read (hasked : Expands data headerSize labels size)
    (hread : bytesAt data pos (answers.flatMap ServerRecord.bytes).length =
      answers.flatMap ServerRecord.bytes) :
    RecordsAt data pos (answers.map (ServerRecord.record labels)) := by
  induction answers generalizing pos with
  | nil => exact .nil
  | cons r answers ih =>
      rw [List.flatMap_cons] at hread
      obtain ⟨hrecord, hrest⟩ := bytesAt_append hread
      obtain ⟨howner, hfixed⟩ := bytesAt_append hrecord
      obtain ⟨htype, hfixed⟩ := bytesAt_append hfixed
      obtain ⟨-, hfixed⟩ := bytesAt_append hfixed
      obtain ⟨hrdlength, hrdata⟩ := bytesAt_append hfixed
      have hsize : r.bytes.length = r.ownerBytes.length + rrFixedSize + r.rdata.length := by
        simp [ServerRecord.bytes, fieldBytes, rrFixedSize]
        omega
      have htypeRead := shortAt_of_fieldBytes htype
      have hlengthRead := shortAt_of_fieldBytes hrdlength
      rw [Nat.mod_eq_of_lt r.atype_lt] at htypeRead
      rw [Nat.mod_eq_of_lt r.rdata_lt] at hlengthRead
      rw [hsize, ← Nat.add_assoc, ← Nat.add_assoc] at hrest
      simp only [fieldBytes, List.length_append, List.length_cons, List.length_nil,
        Vector.length_toList, Nat.add_assoc] at hlengthRead hrdata
      refine .cons (r.expands hasked howner) htypeRead ?_ ?_ (ih hrest)
      · rw [Nat.add_assoc]
        exact hlengthRead
      · rw [Nat.add_assoc]
        exact hrdata

/-- The server reads the header that the lookup has written. -/
theorem query_header (question : List UInt8) :
    decodeResolvHeader (packetOf ((encodeHeader (queryHeader localId) packetSz).2 ++ question)) =
      (queryHeader localId).stored :=
  decodeResolvHeader_encodeHeader
    (bytesAt_packetOf [] (encodeHeader (queryHeader localId) packetSz).2 question)

/-- The header of the reply. -/
def replyHeader (localId : Nat) (answers : List ServerRecord) : ResolvHeader :=
  { (queryHeader localId).stored with qr := true, ra := true, ancount := answers.length }

theorem serverReply_eq (localId : Nat) (question : List UInt8) (answers : List ServerRecord) :
    serverReply ((encodeHeader (queryHeader localId) packetSz).2 ++ question) answers =
      (encodeHeader (replyHeader localId answers) packetSz).2 ++ question ++
        answers.flatMap ServerRecord.bytes := by
  rw [serverReply, query_header, List.drop_left' (length_encodeHeader _)]
  rfl

/-- The reply is a well-formed response to the query. -/
theorem serverReply_response (localId : Nat) (asked : AskedName) (type : BitVec 32)
    (hmany : answers.length < 65536) :
    let data := packetOf (serverReply ((encodeHeader (queryHeader localId) packetSz).2 ++
      questionBytes asked.labels type) answers)
    Response data (answers.map (ServerRecord.record asked.labels)) ∧
      (decodeHeader data).qr = true ∧ (decodeHeader data).rcode = 0 ∧
      (decodeHeader data).id = localId % 65536 := by
  rw [serverReply_eq]
  intro data
  have hheader : decodeResolvHeader data = (replyHeader localId answers).stored := by
    apply decodeResolvHeader_encodeHeader
    have hread := bytesAt_packetOf [] (encodeHeader (replyHeader localId answers) packetSz).2
      (questionBytes asked.labels type ++ answers.flatMap ServerRecord.bytes)
    rwa [List.nil_append, ← List.append_assoc] at hread
  have hfields : decodeHeader data = (replyHeader localId answers).stored.toHeader :=
    congrArg ResolvHeader.toHeader hheader
  have hquestion : bytesAt data headerSize (questionBytes asked.labels type).length =
      questionBytes asked.labels type :=
    bytesAt_packetOf (encodeHeader (replyHeader localId answers) packetSz).2 _ _
  have hasked := (expands_wire asked.short (bytesAt_append hquestion).1).1
  have hrecords : bytesAt data (headerSize + ((wire asked.labels).length + 4))
      (answers.flatMap ServerRecord.bytes).length = answers.flatMap ServerRecord.bytes := by
    have hread := bytesAt_packetOf ((encodeHeader (replyHeader localId answers) packetSz).2 ++
      questionBytes asked.labels type) (answers.flatMap ServerRecord.bytes) []
    rwa [List.append_nil, List.length_append, length_questionBytes] at hread
  refine ⟨⟨?_, _, ?_, recordsAt_of_read hasked hrecords⟩, ?_, ?_, ?_⟩
  · rw [hfields, List.length_map]
    exact Nat.mod_eq_of_lt hmany
  · rw [hfields, ← Nat.add_assoc]
    exact .cons hasked .nil
  · rw [hfields]
    rfl
  · rw [hfields]
    rfl
  · rw [hfields]
    exact Nat.mod_mod _ _

theorem length_dotted_lt (name : AskedName) : (dotted name.labels).length + 1 < tempSize := by
  have hlength := length_wire name.nonempty
  have hle := name.wire_le
  change _ < 256
  omega

theorem ServerRecord.legible (answers : List ServerRecord) (asked : AskedName) :
    Legible (answers.map (ServerRecord.record asked.labels)) := by
  intro record hrecord
  obtain ⟨r, -, rfl⟩ := List.mem_map.mp hrecord
  cases howner : r.owner with
  | none => simpa [ServerRecord.record, howner] using length_dotted_lt asked
  | some name => simpa [ServerRecord.record, howner] using length_dotted_lt name

theorem length_le_serverReply (question : List UInt8) (answers : List ServerRecord) :
    answers.length ≤ (serverReply question answers).length := by
  have hrecords : answers.length ≤ (answers.flatMap ServerRecord.bytes).length := by
    induction answers with
    | nil => exact Nat.le_refl 0
    | cons r answers ih =>
        simp only [List.flatMap_cons, List.length_cons, List.length_append, ServerRecord.bytes,
          fieldBytes]
        omega
  simp only [serverReply, List.length_append]
  omega

/-- The records that are addresses. -/
def addressesOf (answers : List ServerRecord) : List (List UInt8) :=
  (answers.filter (fun r => r.atype = typeA)).map ServerRecord.rdata

theorem matching_records (labels : List (List UInt8)) (answers : List ServerRecord) :
    (matching typeA (answers.map (ServerRecord.record labels))).map Record.rdata =
      addressesOf answers := by
  rw [matching, List.filter_map, List.map_map]
  rfl

/-- A server that has addresses of four bytes, and perhaps records of other types. -/
structure Answering (answers : List ServerRecord) : Prop where
  some_address : ∃ r ∈ answers, r.atype = typeA
  four : ∀ r ∈ answers, r.atype = typeA → r.rdata.length = 4

variable {s now : Asking} {more sdomains : Nat} {before rest : List (Arrival × Nat)}

/-- The reply to a query is taken by the lookups that wait for its number, and by no others. -/
theorem reply_taken_iff (h : Answering answers) {lookupId : Nat} (hbuf : start.hasBuf = true)
    (hquery : encodeQuery localId (dotted asked.labels) (.ofNat 32 typeA) fuel = some (some query))
    (hsize : (serverReply query answers).length ≤ 512) :
    Response (packetOf (serverReply query answers))
        (answers.map (ServerRecord.record asked.labels)) ∧
      ∃ fuel taken a,
        decodeReply (packetOf (serverReply query answers)) typeA lookupId fuel start =
          some (taken, a) ∧ (taken = true ↔ localId % 65536 = lookupId) ∧
        (taken = true → a.addCount ≤ answers.length) := by
  obtain rfl := encodeQuery_bytes hquery
  have hmany := length_le_serverReply ((encodeHeader (queryHeader localId) packetSz).2 ++
    questionBytes asked.labels (.ofNat 32 typeA)) answers
  obtain ⟨hresponse, hqr, hrcode, hid⟩ :=
    serverReply_response localId asked (.ofNat 32 typeA) (show answers.length < 65536 by omega)
  obtain ⟨r, hr, haddress⟩ := h.some_address
  have hfour : ∀ record ∈ answers.map (ServerRecord.record asked.labels), record.atype = typeA →
      record.rdata.length = 4 := by
    intro record hrecord htype
    obtain ⟨r, hr, rfl⟩ := List.mem_map.mp hrecord
    exact h.four r hr htype
  have hyields := @Response.decodeReply_yields _ typeA 4 _ start lookupId (.inl rfl) hbuf hresponse
    ⟨_, List.mem_map_of_mem hr, haddress⟩ (ServerRecord.legible answers asked) hfour hqr hrcode
  rw [hid, List.length_map] at hyields
  exact ⟨hresponse, hyields⟩

/-- A lookup behind these attempts, none of which has ended it. -/
def Asking.attempts (fuel : Nat) : Asking → List (Arrival × Nat) → Option Asking
  | s, [] => some s
  | s, (arrival, sdomains) :: rest =>
      if s.lookup.loops then
        (s.arrive sdomains fuel arrival).bind (fun s' => Asking.attempts fuel s' rest)
      else none

/-- The lookup that a call begins. -/
def lookupBegun (g : Globals) (serverchoice nRetries : Int) (chars : List UInt8)
    (buf buflen : Nat) (s : Store) : Asking :=
  let (nscount, g) := chooseServer g serverchoice
  .begin nscount g.ns g.id nRetries (framed buf buflen).answer (framed buf buflen).buf
    (laidOut chars buf buflen s)

/-- Whatever has arrived so far: the reply of a server to the query that is out ends the call, and
`h_addr_list` is the addresses of the server. -/
def AnsweredByServer (begun : Asking) (call : List (Arrival × Nat) → Nat → Option HostCall)
    (asked : AskedName) (answers : List ServerRecord) : Prop :=
  ∀ (before : List (Arrival × Nat)) (now : Asking) (query : List UInt8) (sdomains fuel : Nat),
    begun.attempts fuel before = some now → now.lookup.loops = true →
    encodeQuery ((now.lookup.localId + 1) % 65536) (dotted asked.labels) (.ofNat 32 typeA) fuel =
      some (some query) →
    (serverReply query answers).length ≤ 512 →
    ∃ fuel r hostent,
      call (before ++ [(.reply (packetOf (serverReply query answers))
        (serverReply query answers).length, sdomains)]) fuel = some r ∧
      r.ret = .netdbSuccess ∧ r.result = some hostent ∧
      AddressList r.store.bytes hostent.hAddrList (addressesOf answers)

theorem Asking.arrive_mono {arrival : Arrival} {s' : Asking}
    (h : s.arrive sdomains fuel arrival = some s') (hle : fuel ≤ more) :
    s.arrive sdomains more arrival = some s' := by
  cases arrival with
  | reply packet len =>
      rw [arrive, receive] at h ⊢
      split at h
      · rename_i hshort
        rwa [if_pos hshort]
      · rename_i hlong
        rw [if_neg hlong]
        obtain ⟨r, hr, hs'⟩ := Option.map_eq_some_iff.mp h
        exact Option.map_eq_some_iff.mpr ⟨r, decodeReply_mono hr hle, hs'⟩
  | _ => exact h

theorem Asking.attempts_mono (h : s.attempts fuel before = some now) (hle : fuel ≤ more) :
    s.attempts more before = some now := by
  induction before generalizing s with
  | nil => exact h
  | cons first before ih =>
      rw [attempts] at h ⊢
      split at h
      · rename_i hloops
        rw [if_pos hloops]
        obtain ⟨s', hs', hrest⟩ := Option.bind_eq_some_iff.mp h
        exact Option.bind_eq_some_iff.mpr ⟨s', arrive_mono hs' hle, ih hrest⟩
      · cases h

theorem Asking.ask_append (h : s.attempts fuel before = some now) :
    Asking.ask fuel s (before ++ rest) = Asking.ask fuel now rest := by
  induction before generalizing s with
  | nil =>
      obtain rfl := Option.some.inj h
      rfl
  | cons first before ih =>
      rw [attempts] at h
      split at h
      · rename_i hloops
        obtain ⟨s', hs', hrest⟩ := Option.bind_eq_some_iff.mp h
        rw [List.cons_append, ask, if_pos hloops, hs', Option.bind_some]
        exact ih hrest
      · cases h

theorem Asking.attempts_hasBuf (h : s.attempts fuel before = some now) :
    now.a.hasBuf = s.a.hasBuf ∧ now.a.buflen = s.a.buflen := by
  induction before generalizing s with
  | nil =>
      obtain rfl := Option.some.inj h
      exact ⟨rfl, rfl⟩
  | cons first before ih =>
      rw [attempts] at h
      split at h
      · obtain ⟨s', hs', hrest⟩ := Option.bind_eq_some_iff.mp h
        obtain ⟨hhasBuf, hbuflen⟩ := ih hrest
        rcases arrive_cases hs' with ⟨hsame, -⟩ | ⟨localId, taken, hdecode, -⟩
        · rw [hsame] at hhasBuf hbuflen
          exact ⟨hhasBuf, hbuflen⟩
        · have hcopied := decodeReply_copied rfl hdecode
          exact ⟨hhasBuf.trans hcopied.hasBuf, hbuflen.trans hcopied.buflen⟩
      · cases h

theorem headerSize_le_serverReply (query : List UInt8) (answers : List ServerRecord) :
    headerSize ≤ (serverReply query answers).length := by
  rw [serverReply, List.append_assoc, List.length_append, length_encodeHeader]
  exact Nat.le_add_right 12 _

theorem Asking.arrive_reply {packet : Memory} {len : Nat} (s : Asking) (hlen : headerSize ≤ len)
    {taken : Bool} {a : ResolvAnswer} (hdecode : decodeReply packet typeA
      ((s.lookup.localId + 1) % 65536) fuel { s.a with copied := [] } = some (taken, a)) :
    s.arrive sdomains fuel (.reply packet len) = some { s with
      packet := packet
      lookup := s.lookup.turn sdomains (if taken then .answered else .refused)
      a := a
      store := s.store.write s.buf a.copied } := by
  have hlong : ¬ (len : Int) < headerSize := by omega
  rw [arrive, receive, if_neg hlong, hdecode]
  rfl

/-- With the reply to its query a lookup ends. -/
theorem Asking.answered (h : Answering answers) (hbuf : s.a.hasBuf = true)
    (hloops : s.lookup.loops = true)
    (hquery : encodeQuery ((s.lookup.localId + 1) % 65536) (dotted asked.labels) (.ofNat 32 typeA)
      fuel = some (some query)) (hsize : (serverReply query answers).length ≤ 512) :
    ∃ fuel final, (∀ more ≥ fuel, Asking.ask more s [(.reply (packetOf (serverReply query answers))
        (serverReply query answers).length, sdomains)] = some final) ∧ final.Answered ∧
      final.packet = packetOf (serverReply query answers) ∧
      final.a.addCount ≤ answers.length := by
  obtain ⟨-, fuel', taken, a, hdecode, htaken, hcount⟩ :=
    @reply_taken_iff fuel { s.a with copied := [] } query answers asked _ h
      ((s.lookup.localId + 1) % 65536) hbuf hquery hsize
  obtain rfl : taken = true := htaken.mpr (Nat.mod_mod _ _)
  let final : Asking := { s with
    packet := packetOf (serverReply query answers)
    lookup := s.lookup.turn sdomains .answered
    a := a
    store := s.store.write s.buf a.copied }
  have harrive : s.arrive sdomains fuel' (.reply (packetOf (serverReply query answers))
      (serverReply query answers).length) = some final :=
    s.arrive_reply (headerSize_le_serverReply query answers) hdecode
  refine ⟨fuel', final, fun more hmore => ?_, rfl, rfl, hcount rfl⟩
  rw [ask, if_pos hloops, arrive_mono harrive hmore]
  rfl

/-- Whichever lookup the reply to a query reaches, it ends that lookup exactly if the query that the
lookup has out bears the same number. -/
theorem reply_ends_lookup_iff (h : Answering answers)
    (hquery : encodeQuery localId (dotted asked.labels) (.ofNat 32 typeA) fuel = some (some query))
    (hsize : (serverReply query answers).length ≤ 512) (hbuf : s.a.hasBuf = true)
    (hloops : s.lookup.loops = true) (sdomains : Nat) :
    ∃ fuel s', s.arrive sdomains fuel (.reply (packetOf (serverReply query answers))
        (serverReply query answers).length) = some s' ∧
      (s'.Answered ↔ (s.lookup.localId + 1) % 65536 = localId % 65536) := by
  obtain ⟨-, fuel', taken, a, hdecode, htaken, -⟩ :=
    @reply_taken_iff fuel { s.a with copied := [] } query answers asked _ h
      ((s.lookup.localId + 1) % 65536) hbuf hquery hsize
  refine ⟨fuel', _, s.arrive_reply (headerSize_le_serverReply query answers) hdecode, ?_⟩
  refine Iff.trans ?_ (htaken.trans eq_comm)
  constructor
  · intro hanswered
    have houtcome := turn_answered hloops hanswered
    cases taken with
    | true => rfl
    | false => cases houtcome
  · rintro rfl
    rfl

variable {g : Globals} {buf buflen : Nat} {serverchoice nRetries : Int} {chars : List UInt8}
  {store : Store}

theorem answerCall_ret {f : Frame} {final : Asking} (hanswered : final.Answered)
    (hfits : Fits f final.a) (htype : final.a.atype = typeA) :
    (answerCall f g final).ret = .netdbSuccess := by
  have hsuccess : ¬ final.lookup.phase ≠ .returned true := not_not.mpr hanswered
  rw [answerCall, if_neg hsuccess, if_neg (Nat.not_lt.mpr hfits)]
  change (ite _ _ _ : HostCall).ret = _
  rw [if_pos htype]

/-- What a call makes of a lookup that has its reply. -/
theorem lookupBegun_answered (h : Answering answers) (hbuf : 0 < buf)
    (hend : buf + buflen ≤ 256 ^ pointerSize) (hroom : 340 + 12 * answers.length ≤ buflen)
    (hs : store.Within buf buflen)
    (hbefore : (lookupBegun g serverchoice nRetries chars buf buflen store).attempts fuel before =
      some now) (hloops : now.lookup.loops = true)
    (hquery : encodeQuery ((now.lookup.localId + 1) % 65536) (dotted asked.labels)
      (.ofNat 32 typeA) fuel = some (some query))
    (hsize : (serverReply query answers).length ≤ 512) :
    ∃ fuel final, Asking.ask fuel (lookupBegun g serverchoice nRetries chars buf buflen store)
        (before ++ [(.reply (packetOf (serverReply query answers))
          (serverReply query answers).length, sdomains)]) = some final ∧ ∀ g',
      (answerCall (framed buf buflen) g' final).ret = .netdbSuccess ∧ ∃ hostent,
        (answerCall (framed buf buflen) g' final).result = some hostent ∧
        AddressList (answerCall (framed buf buflen) g' final).store.bytes hostent.hAddrList
          (addressesOf answers) := by
  obtain ⟨hhasBuf, -⟩ := Asking.attempts_hasBuf hbefore
  obtain ⟨fuel', final, hask, hanswered, hpacket, hcount⟩ :=
    @Asking.answered fuel query answers asked now sdomains h hhasBuf hloops hquery hsize
  have hresponse : Response final.packet (answers.map (ServerRecord.record asked.labels)) := by
    rw [hpacket]
    exact (@reply_taken_iff fuel now.a query answers asked _ h 0 hhasBuf hquery hsize).1
  have hall : Asking.ask (max fuel fuel')
      (lookupBegun g serverchoice nRetries chars buf buflen store)
      (before ++ [(.reply (packetOf (serverReply query answers))
        (serverReply query answers).length, sdomains)]) = some final := by
    rw [Asking.ask_append (Asking.attempts_mono hbefore (Nat.le_max_left ..))]
    exact hask _ (Nat.le_max_right ..)
  have hsome : ∃ record ∈ answers.map (ServerRecord.record asked.labels),
      record.atype = typeA := by
    obtain ⟨r, hr, htype⟩ := h.some_address
    exact ⟨_, List.mem_map_of_mem hr, htype⟩
  have hfour : ∀ record ∈ answers.map (ServerRecord.record asked.labels), record.atype = typeA →
      record.rdata.length = 4 := by
    intro record hrecord htype
    obtain ⟨r, hr, rfl⟩ := List.mem_map.mp hrecord
    exact h.four r hr htype
  obtain ⟨start, -, -, htaken⟩ :=
    (Asking.ask_takenFrom begin_not_answered hall hanswered).taken rfl hresponse
  have htype := (htaken.usable_iff.mpr hsome).1
  have hrdlength : final.a.rdlength = 4 := by
    cases htaken with
    | missed _ _ hother => exact absurd htype hother
    | @found first rest hmatching _ _ hrdlength =>
        have hfirst : first ∈ matching typeA (answers.map (ServerRecord.record asked.labels)) :=
          hmatching ▸ List.mem_cons_self ..
        obtain ⟨hmem, hmatch⟩ := List.mem_filter.mp hfirst
        exact hrdlength.trans (hfour first hmem (of_decide_eq_true hmatch))
  have hfits : Fits (framed buf buflen) final.a := by
    rw [Fits, hrdlength]
    change (4 + 8) * _ + 256 ≤ buflen - 84
    omega
  refine ⟨max fuel fuel', final, hall, fun g' => ?_⟩
  have hret : (answerCall (framed buf buflen) g' final).ret = .netdbSuccess :=
    answerCall_ret hanswered hfits htype
  rw [← matching_records asked.labels answers]
  exact ⟨hret, asked_addresses hbuf hend (by omega) hs hall hret hresponse hsome hfour⟩

/-- Both calls, at any time of their lookups: a reply that a server has made of the query that is
out brings the server's addresses. -/
theorem query_answered {inetAton : List UInt8 → Option (Vector UInt8 4)}
    (beforeTable : Option String) (conf : Option ResolvConf) (g : Globals) (serverchoice nRetries : Int)
    {chars : List UInt8} {buf buflen : Nat} {store : Store} (asked : AskedName)
    {answers : List ServerRecord} (h : Answering answers) (hname : inetAton chars = none)
    (hbuf : 0 < buf) (hend : buf + buflen ≤ 256 ^ pointerSize)
    (hroom : 340 + 12 * answers.length ≤ buflen) (hwrites : store.writes = []) :
    AnsweredByServer (lookupBegun (firstInit conf g) serverchoice nRetries chars buf buflen store)
        (fun arrivals fuel => gethostbynameR2Async inetAton conf g (some chars) buf buflen
          serverchoice nRetries arrivals fuel store) asked answers ∧
      (lastServer beforeTable (chooseServer (openNameservers conf g) serverchoice).1
          (chooseServer (openNameservers conf g) serverchoice).2 ≠ none →
        AnsweredByServer
          (lookupBegun (openNameservers conf g) serverchoice maxRetries chars buf buflen store)
          (fun arrivals fuel => gethostbynameR2 inetAton beforeTable conf g (some chars) buf buflen
            serverchoice arrivals fuel store) asked answers) := by
  have hs : store.Within buf buflen := by
    intro place hplace
    rw [hwrites] at hplace
    cases hplace
  constructor
  · intro before now query sdomains fuel hbefore hloops hquery hsize
    obtain ⟨fuel', final, hask, hcall⟩ :=
      @lookupBegun_answered fuel query answers asked now sdomains before (firstInit conf g) buf
        buflen serverchoice nRetries chars store h hbuf hend hroom hs hbefore hloops hquery hsize
    obtain ⟨hret, hostent, hresult, haddresses⟩ := hcall (restoreServer
      (chooseServer (firstInit conf g) serverchoice).2 ((firstInit conf g).nameserver.get 0)
        final.lookup)
    refine ⟨fuel', _, hostent, ?_, hret, hresult, haddresses⟩
    simp only [gethostbynameR2Async, withBuffer, layOut_inr (show 340 ≤ buflen by omega), hname]
    exact congrArg (Option.map _) hask
  · intro hserver before now query sdomains fuel hbefore hloops hquery hsize
    obtain ⟨fuel', final, hask, hcall⟩ :=
      @lookupBegun_answered fuel query answers asked now sdomains before (openNameservers conf g)
        buf buflen serverchoice maxRetries chars store h hbuf hend hroom hs hbefore hloops hquery
        hsize
    obtain ⟨hret, hostent, hresult, haddresses⟩ := hcall (restoreServer
      (chooseServer (openNameservers conf g) serverchoice).2
        ((openNameservers conf g).nameserver.get 0) final.lookup)
    refine ⟨fuel', _, hostent, ?_, hret, hresult, haddresses⟩
    simp only [gethostbynameR2, withBuffer, layOut_inr (show 340 ≤ buflen by omega), hname]
    rw [if_neg hserver]
    exact congrArg (Option.map _) hask

/-- An alias of the name asked for, and the two addresses of the alias. -/
def aliasAnswers : List ServerRecord :=
  let aliasName : AskedName := ⟨[[98]], by decide, by decide, by decide, by decide⟩
  let ttl : Vector UInt8 4 := ⟨#[0, 0, 0, 60], rfl⟩
  [⟨none, 5, ttl, [1, 98, 0], by decide, by decide⟩,
    ⟨some aliasName, typeA, ttl, [10, 0, 0, 7], by decide, by decide⟩,
    ⟨some aliasName, typeA, ttl, [10, 0, 0, 8], by decide, by decide⟩]

theorem aliasAnswers_answering : Answering aliasAnswers := ⟨by decide, by decide⟩

/-- The query for `www.a` with the number 2. -/
def wwwQuery : List UInt8 :=
  [0, 2, 1, 0, 0, 1, 0, 0, 0, 0, 0, 0, 3, 119, 119, 119, 1, 97, 0, 0, 1, 0, 1]

theorem encodeQuery_www :
    encodeQuery 2 (dotted askedExample.labels) (.ofNat 32 typeA) 8 = some (some wwwQuery) := by
  decide

theorem query_answered_alias :
    ∃ fuel r hostent,
      gethostbynameR2Async (fun _ => none) firstServerOnly .init (some [119, 119, 119, 46, 97]) 4096
        400 1 1 [(.reply (packetOf (serverReply wwwQuery aliasAnswers))
          (serverReply wwwQuery aliasAnswers).length, 0)] fuel ⟨fun _ => 0, []⟩ = some r ∧
      r.ret = .netdbSuccess ∧ r.result = some hostent ∧
      AddressList r.store.bytes hostent.hAddrList [[10, 0, 0, 7], [10, 0, 0, 8]] := by
  have hanswered := (@query_answered (fun _ => none) none firstServerOnly .init 1 1
    [119, 119, 119, 46, 97] 4096 400 ⟨fun _ => 0, []⟩ askedExample aliasAnswers
    aliasAnswers_answering rfl (by decide) (by decide) (by decide) rfl).1
  exact hanswered [] _ wwwQuery 0 8 rfl rfl encodeQuery_www (by decide)

theorem reply_ends_lookup_iff_other : ∃ fuel s',
    (Asking.begin 1 0 6 1 (emptyAnswer 300) 84 ⟨fun _ => 0, []⟩).arrive 0 fuel
        (.reply (packetOf (serverReply wwwQuery aliasAnswers))
          (serverReply wwwQuery aliasAnswers).length) = some s' ∧ (s'.Answered ↔ 7 = 2) :=
  @reply_ends_lookup_iff 8 wwwQuery aliasAnswers askedExample 2 _ aliasAnswers_answering
    encodeQuery_www (by decide) rfl rfl 0

end EventLoop.Dns
