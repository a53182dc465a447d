import EventLoop.Lib.ThroughStop
import Mathlib.Data.List.Forall2

/-!
Byte-at-a-time receivers. A decoder is asked after every byte whether the
buffer holds a whole frame; on success the frame's message is delivered and the
buffer is emptied. When the decoder accepts a frame and none of its proper
nonempty prefixes, a receiver that is fed concatenated frames delivers the
messages in order, up to the first one that makes it stop.
-/

namespace EventLoop.Framing

variable {β μ : Type*} (decode : List β → Option μ) (stop : μ → Bool) (capacity : Nat)

/-- Deliver the messages of `input`; `none` if a byte is put behind the end of
the buffer. -/
def receive : List β → List β → Option (List μ)
  | _, [] => some []
  | buffer, byte :: rest =>
      if capacity ≤ buffer.length then none
      else match decode (buffer ++ [byte]) with
        | none => receive (buffer ++ [byte]) rest
        | some message =>
            if stop message then some [message]
            else (receive [] rest).map (message :: ·)

/-- `frame` decodes to `message` and no proper nonempty prefix of it decodes. -/
structure IsFrame (message : μ) (frame : List β) : Prop where
  nonempty : frame ≠ []
  complete : decode frame = some message
  partials : ∀ front back, frame = front ++ back → front ≠ [] → back ≠ [] → decode front = none

variable {decode stop capacity}

/-- The receiver in the middle of a frame: `front` is already buffered. -/
theorem receive_frame {message : μ} {frame : List β} (h : IsFrame decode message frame)
    (hfits : frame.length ≤ capacity) (rest front back : List β)
    (hsplit : frame = front ++ back) (hback : back ≠ []) :
    receive decode stop capacity front (back ++ rest) =
      if stop message then some [message]
      else (receive decode stop capacity [] rest).map (message :: ·) := by
  induction back generalizing front with
  | nil => exact absurd rfl hback
  | cons byte back ih =>
      have hroom : ¬ capacity ≤ front.length := by
        rw [hsplit, List.length_append, List.length_cons] at hfits
        omega
      have hsplit' : frame = (front ++ [byte]) ++ back := by simp [hsplit]
      rw [List.cons_append, receive, if_neg hroom]
      cases back with
      | nil =>
          rw [List.append_nil] at hsplit'
          rw [← hsplit', h.complete]
          rfl
      | cons next back =>
          rw [h.partials _ _ hsplit' (by simp) (by simp)]
          exact ih (front ++ [byte]) hsplit' (by simp)

/-- Concatenated frames come out as their messages, none lost, merged or split. -/
theorem receive_frames {messages : List μ} {frames : List (List β)}
    (h : List.Forall₂ (IsFrame decode) messages frames)
    (hfits : ∀ frame ∈ frames, frame.length ≤ capacity) :
    receive decode stop capacity [] frames.flatten = some (throughStop stop messages) := by
  induction h with
  | nil => rfl
  | @cons message frame messages frames hframe hrest ih =>
      rw [List.flatten_cons,
        receive_frame hframe (hfits frame (List.mem_cons_self ..)) frames.flatten [] frame rfl
          hframe.nonempty,
        ih (fun f hf => hfits f (List.mem_cons_of_mem _ hf)), throughStop]
      split <;> rfl

section

/-- Every content of the buffer behind a byte that is put into it. A complete content is taken
out, and may stop the receiver; at `none` whatever is there is taken out. -/
def buffers (complete stops : List β → Bool) : List β → List (Option β) → List (List β)
  | _, [] => []
  | _, none :: rest => buffers complete stops [] rest
  | buffer, some byte :: rest =>
      (buffer ++ [byte]) ::
        if complete (buffer ++ [byte]) then
          if stops (buffer ++ [byte]) then [] else buffers complete stops [] rest
        else buffers complete stops (buffer ++ [byte]) rest

/-- No nonempty front is complete. -/
def Part (complete : List β → Bool) (part : List β) : Prop :=
  ∀ front back, part = front ++ back → front ≠ [] → complete front = false

/-- Complete with the last byte. -/
def Whole (complete : List β → Bool) (unit : List β) : Prop :=
  ∃ front byte, unit = front ++ [byte] ∧ Part complete front ∧ complete unit = true

/-- The units of the input and what is left of it, before `none` or at the end, fit the buffer,
and the units are good, up to one that stops the receiver. -/
inductive UnitsFit (whole part good : List β → Prop) (stops : List β → Bool) (capacity : Nat) :
    List (Option β) → Prop where
  | rest {front : List β} (hpart : part front) (hfits : front.length ≤ capacity) :
      UnitsFit whole part good stops capacity (front.map some)
  | flush {front : List β} {rest : List (Option β)} (hpart : part front)
      (hfits : front.length ≤ capacity) (hrest : UnitsFit whole part good stops capacity rest) :
      UnitsFit whole part good stops capacity (front.map some ++ none :: rest)
  | unit {unit : List β} {rest : List (Option β)} (hwhole : whole unit)
      (hfits : unit.length ≤ capacity) (hgood : good unit)
      (hrest : stops unit = false → UnitsFit whole part good stops capacity rest) :
      UnitsFit whole part good stops capacity (unit.map some ++ rest)

variable {complete stops : List β → Bool} {whole part good whole' part' good' : List β → Prop}
  {buffer front : List β} {inputs rest : List (Option β)}

/-- The buffer never holds more than it can, and what is taken out as complete is good. -/
def BuffersFit (complete stops : List β → Bool) (good : List β → Prop) (capacity : Nat)
    (buffer : List β) (inputs : List (Option β)) : Prop :=
  ∀ content ∈ buffers complete stops buffer inputs,
    content.length ≤ capacity ∧ (complete content = true → good content)

theorem part_concat {byte : β} (h : Part complete front)
    (hcomplete : complete (front ++ [byte]) = false) : Part complete (front ++ [byte]) := by
  intro first back hsplit hnonempty
  rcases List.eq_nil_or_concat back with rfl | ⟨back, last, rfl⟩
  · rw [List.append_nil] at hsplit
    rw [← hsplit]
    exact hcomplete
  · rw [List.concat_eq_append, ← List.append_assoc] at hsplit
    exact h first back (List.append_inj_left' hsplit rfl) hnonempty

theorem buffersFit_nil (buffer : List β) :
    BuffersFit complete stops good capacity buffer [] :=
  fun _ hcontent => absurd hcontent List.not_mem_nil

theorem buffersFit_wait {byte : β} (h : complete (buffer ++ [byte]) = false) :
    BuffersFit complete stops good capacity buffer (some byte :: rest) ↔
      (buffer ++ [byte]).length ≤ capacity ∧
        BuffersFit complete stops good capacity (buffer ++ [byte]) rest := by
  rw [BuffersFit, buffers, h, List.forall_mem_cons]
  simp [BuffersFit, h]

theorem buffersFit_complete {byte : β} (h : complete (buffer ++ [byte]) = true) :
    BuffersFit complete stops good capacity buffer (some byte :: rest) ↔
      (buffer ++ [byte]).length ≤ capacity ∧ good (buffer ++ [byte]) ∧
        (stops (buffer ++ [byte]) = false → BuffersFit complete stops good capacity [] rest) := by
  rw [BuffersFit, buffers, h, List.forall_mem_cons]
  cases hstops : stops (buffer ++ [byte]) with
  | true => simp [h]
  | false => simp [h, BuffersFit, and_assoc]

/-- Bytes with which nothing becomes complete only fill the buffer. -/
theorem buffersFit_part
    (hpart : ∀ first back, front = first ++ back → first ≠ [] → complete (buffer ++ first) = false)
    (hbuffer : buffer.length ≤ capacity) :
    BuffersFit complete stops good capacity buffer (front.map some ++ rest) ↔
      (buffer ++ front).length ≤ capacity ∧
        BuffersFit complete stops good capacity (buffer ++ front) rest := by
  induction front generalizing buffer with
  | nil =>
      rw [List.append_nil]
      exact ⟨fun h => ⟨hbuffer, h⟩, fun h => h.2⟩
  | cons byte front ih =>
      have hbyte : complete (buffer ++ [byte]) = false := hpart [byte] front rfl (by simp)
      have hsplit : buffer ++ byte :: front = (buffer ++ [byte]) ++ front := by simp
      have hfront : ∀ first back, front = first ++ back → first ≠ [] →
          complete (buffer ++ [byte] ++ first) = false := by
        rintro first back rfl -
        rw [List.append_assoc]
        exact hpart (byte :: first) back rfl (List.cons_ne_nil byte first)
      rw [List.map_cons, List.cons_append, buffersFit_wait hbyte, hsplit]
      constructor
      · rintro ⟨hfits, hrest⟩
        exact (ih hfront hfits).mp hrest
      · intro h
        have hfits : (buffer ++ [byte]).length ≤ capacity := by
          have hall := h.1
          rw [List.length_append] at hall
          omega
        exact ⟨hfits, (ih hfront hfits).mpr h⟩

theorem buffersFit_whole {unit : List β} (h : Whole complete unit) :
    BuffersFit complete stops good capacity [] (unit.map some ++ rest) ↔
      unit.length ≤ capacity ∧ good unit ∧
        (stops unit = false → BuffersFit complete stops good capacity [] rest) := by
  obtain ⟨front, byte, rfl, hpart, hcomplete⟩ := h
  rw [List.map_append, List.append_assoc, @buffersFit_part _ _ _ _ _ [] _ _ hpart (Nat.zero_le _),
    List.nil_append]
  change _ ∧ BuffersFit complete stops good capacity front (some byte :: rest) ↔ _
  rw [buffersFit_complete hcomplete]
  refine ⟨fun h => h.2, fun h => ⟨?_, h⟩⟩
  have hfits := h.1
  rw [List.length_append] at hfits
  omega

theorem part_nil (complete : List β → Bool) : Part complete [] := by
  rintro (_ | ⟨byte, front⟩) back hsplit hnonempty
  · exact absurd rfl hnonempty
  · cases hsplit

/-- Input starts with a part that is left, one that is taken out, or a whole unit. -/
theorem exists_first (complete : List β → Bool) (inputs : List (Option β)) :
    (∃ front, inputs = front.map some ∧ Part complete front) ∨
    (∃ front rest, inputs = front.map some ++ none :: rest ∧ Part complete front) ∨
    ∃ unit rest, inputs = unit.map some ++ rest ∧ Whole complete unit := by
  suffices hfrom : ∀ buffer : List β, Part complete buffer →
      (∃ front, buffer.map some ++ inputs = front.map some ∧ Part complete front) ∨
      (∃ front rest, buffer.map some ++ inputs = front.map some ++ none :: rest ∧
        Part complete front) ∨
      ∃ unit rest, buffer.map some ++ inputs = unit.map some ++ rest ∧ Whole complete unit by
    exact hfrom [] (part_nil complete)
  induction inputs with
  | nil => exact fun buffer hbuffer => .inl ⟨buffer, List.append_nil _, hbuffer⟩
  | cons input rest ih =>
      intro buffer hbuffer
      cases input with
      | none => exact .inr (.inl ⟨buffer, rest, rfl, hbuffer⟩)
      | some byte =>
          have hmove : buffer.map some ++ some byte :: rest =
              (buffer ++ [byte]).map some ++ rest := by
            rw [List.map_append, List.append_assoc]
            rfl
          cases hcomplete : complete (buffer ++ [byte]) with
          | true => exact .inr (.inr ⟨_, rest, hmove, buffer, byte, rfl, hbuffer, hcomplete⟩)
          | false =>
              rw [hmove]
              exact ih (buffer ++ [byte]) (part_concat hbuffer hcomplete)

theorem buffersFit_rest (h : Part complete front) :
    BuffersFit complete stops good capacity [] (front.map some) ↔ front.length ≤ capacity := by
  have hpart := @buffersFit_part _ capacity complete stops good [] front [] h (Nat.zero_le _)
  rw [List.append_nil, List.nil_append] at hpart
  rw [hpart]
  exact and_iff_left (buffersFit_nil front)

theorem buffersFit_flush (h : Part complete front) :
    BuffersFit complete stops good capacity [] (front.map some ++ none :: rest) ↔
      front.length ≤ capacity ∧ BuffersFit complete stops good capacity [] rest := by
  have hpart := @buffersFit_part _ capacity complete stops good [] front (none :: rest) h
    (Nat.zero_le _)
  rwa [List.nil_append] at hpart

theorem buffersFit_iff : BuffersFit complete stops good capacity [] inputs ↔
    UnitsFit (Whole complete) (Part complete) good stops capacity inputs := by
  constructor
  · intro h
    induction hlength : inputs.length using Nat.strongRecOn generalizing inputs with
    | _ n ih =>
        rcases exists_first complete inputs with ⟨front, rfl, hpart⟩ | ⟨front, rest, rfl, hpart⟩ |
          ⟨unit, rest, rfl, hwhole⟩
        · exact .rest hpart ((buffersFit_rest hpart).mp h)
        · obtain ⟨hfits, hrest⟩ := (buffersFit_flush hpart).mp h
          refine .flush hpart hfits (ih rest.length ?_ hrest rfl)
          rw [← hlength, List.length_append, List.length_cons]
          omega
        · obtain ⟨hfits, hgood, hrest⟩ := (buffersFit_whole hwhole).mp h
          refine .unit hwhole hfits hgood (fun hgoes => ih rest.length ?_ (hrest hgoes) rfl)
          obtain ⟨front, byte, rfl, -⟩ := hwhole
          rw [← hlength]
          simp
          omega
  · intro h
    induction h with
    | rest hpart hfits => exact (buffersFit_rest hpart).mpr hfits
    | flush hpart hfits _ ih => exact (buffersFit_flush hpart).mpr ⟨hfits, ih⟩
    | unit hwhole hfits hgood _ ih => exact (buffersFit_whole hwhole).mpr ⟨hfits, hgood, ih⟩

/-- Other descriptions of the units and parts will do if they agree on what fits. -/
theorem UnitsFit.congr {stops' : List β → Bool}
    (hwhole : ∀ unit, unit.length ≤ capacity → whole unit →
      whole' unit ∧ (good unit → good' unit) ∧ (stops' unit = false → stops unit = false))
    (hpart : ∀ front, front.length ≤ capacity → part front → part' front)
    (h : UnitsFit whole part good stops capacity inputs) :
    UnitsFit whole' part' good' stops' capacity inputs := by
  induction h with
  | rest hfront hfits => exact .rest (hpart _ hfits hfront) hfits
  | flush hfront hfits _ ih => exact .flush (hpart _ hfits hfront) hfits ih
  | unit hunit hfits hgood _ ih =>
      obtain ⟨hunit', hgood', hstops⟩ := hwhole _ hfits hunit
      exact .unit hunit' hfits (hgood' hgood) (fun hgoes => ih (hstops hgoes))

/-- What becomes complete, in order, and what is left in the buffer. -/
def cut (complete : List β → Bool) : List β → List β → List (List β) × List β
  | buffer, [] => ([], buffer)
  | buffer, byte :: rest =>
      if complete (buffer ++ [byte]) then
        ((buffer ++ [byte]) :: (cut complete [] rest).1, (cut complete [] rest).2)
      else cut complete (buffer ++ [byte]) rest

variable {input part : List β} {units : List (List β)}

theorem cut_complete {byte : β} (h : complete (buffer ++ [byte]) = true) :
    cut complete buffer (byte :: input) =
      ((buffer ++ [byte]) :: (cut complete [] input).1, (cut complete [] input).2) := by
  rw [cut, if_pos h]

theorem cut_wait {byte : β} (h : complete (buffer ++ [byte]) = false) :
    cut complete buffer (byte :: input) = cut complete (buffer ++ [byte]) input := by
  rw [cut, h]
  simp

/-- Nothing is lost. -/
theorem flatten_cut (complete : List β → Bool) (buffer input : List β) :
    (cut complete buffer input).1.flatten ++ (cut complete buffer input).2 = buffer ++ input := by
  induction input generalizing buffer with
  | nil => simp [cut]
  | cons byte input ih =>
      cases hcomplete : complete (buffer ++ [byte]) with
      | true => simp [cut_complete hcomplete, ih]
      | false => simp [cut_wait hcomplete, ih]

theorem cut_units (h : Part complete buffer) :
    (∀ unit ∈ (cut complete buffer input).1, Whole complete unit) ∧
      Part complete (cut complete buffer input).2 := by
  induction input generalizing buffer with
  | nil => simpa [cut] using h
  | cons byte input ih =>
      cases hcomplete : complete (buffer ++ [byte]) with
      | true =>
          obtain ⟨hunits, hpart⟩ := ih (part_nil complete)
          rw [cut_complete hcomplete]
          exact ⟨List.forall_mem_cons.mpr ⟨⟨buffer, byte, rfl, h, hcomplete⟩, hunits⟩, hpart⟩
      | false =>
          rw [cut_wait hcomplete]
          exact ih (part_concat h hcomplete)

theorem cut_part
    (hpart : ∀ first back, front = first ++ back → first ≠ [] → complete (buffer ++ first) = false) :
    cut complete buffer (front ++ input) = cut complete (buffer ++ front) input := by
  induction front generalizing buffer with
  | nil => simp
  | cons byte front ih =>
      rw [List.cons_append, cut_wait (hpart [byte] front rfl (by simp)), ih]
      · simp
      · rintro first back rfl -
        rw [List.append_assoc]
        exact hpart (byte :: first) back rfl (List.cons_ne_nil byte first)

theorem cut_whole {unit : List β} (h : Whole complete unit) :
    cut complete [] (unit ++ input) = (unit :: (cut complete [] input).1, (cut complete [] input).2) := by
  obtain ⟨front, byte, rfl, hpart, hcomplete⟩ := h
  rw [List.append_assoc, List.singleton_append]
  rw [@cut_part _ complete [] front (byte :: input) hpart, List.nil_append, cut_complete hcomplete]

/-- Units that are written one behind the other come out again. -/
theorem cut_flatten (hunits : ∀ unit ∈ units, Whole complete unit) (hpart : Part complete part) :
    cut complete [] (units.flatten ++ part) = (units, part) := by
  induction units with
  | nil =>
      have hrest := @cut_part _ complete [] part [] hpart
      simpa [cut] using hrest
  | cons unit units ih =>
      obtain ⟨hunit, hunits⟩ := List.forall_mem_cons.mp hunits
      rw [List.flatten_cons, List.append_assoc, cut_whole hunit, ih hunits]

/-- What is in the buffer goes out with a unit, or is left. -/
theorem length_le_cut (complete : List β → Bool) (buffer input : List β) :
    (∃ unit ∈ (cut complete buffer input).1, buffer.length ≤ unit.length) ∨
      buffer.length ≤ (cut complete buffer input).2.length := by
  induction input generalizing buffer with
  | nil => exact .inr (Nat.le_refl _)
  | cons byte input ih =>
      cases hcomplete : complete (buffer ++ [byte]) with
      | true =>
          rw [cut_complete hcomplete]
          exact .inl ⟨_, List.mem_cons_self .., by simp⟩
      | false =>
          rw [cut_wait hcomplete]
          have hlonger : buffer.length ≤ (buffer ++ [byte]).length := by simp
          apply (ih (buffer ++ [byte])).imp
          · rintro ⟨unit, hunit, hle⟩
            exact ⟨unit, hunit, Nat.le_trans hlonger hle⟩
          · exact Nat.le_trans hlonger

/-- The buffer is large enough exactly if it is for each unit and for what is left. -/
theorem buffersFit_cut_iff (hbuffer : buffer.length ≤ capacity) :
    BuffersFit complete (fun _ => false) (fun _ => True) capacity buffer (input.map some) ↔
      (∀ unit ∈ (cut complete buffer input).1, unit.length ≤ capacity) ∧
        (cut complete buffer input).2.length ≤ capacity := by
  induction input generalizing buffer with
  | nil => exact iff_of_true (buffersFit_nil buffer) ⟨by simp [cut], hbuffer⟩
  | cons byte input ih =>
      rw [List.map_cons]
      cases hcomplete : complete (buffer ++ [byte]) with
      | true =>
          rw [buffersFit_complete hcomplete, cut_complete hcomplete, List.forall_mem_cons,
            @ih [] (Nat.zero_le _)]
          simp [and_assoc]
      | false =>
          rw [buffersFit_wait hcomplete, cut_wait hcomplete]
          constructor
          · rintro ⟨hfits, hrest⟩
            exact (ih hfits).mp hrest
          · intro h
            have hfits : (buffer ++ [byte]).length ≤ capacity := by
              rcases length_le_cut complete (buffer ++ [byte]) input with ⟨unit, hunit, hle⟩ | hle
              · exact Nat.le_trans hle (h.1 unit hunit)
              · exact Nat.le_trans hle h.2
            exact ⟨hfits, (ih hfits).mpr h⟩

end

end EventLoop.Framing
