import EventLoop.Lib.Machine

/-!
Coroutines on one machine. Each saves what it is at in a record of its own and is resumed from
it, by a pair of routines of which only this is known: the first writes to the record alone, and
the second, as long as the record is as it was left, goes on behind the call of the first.
-/

namespace EventLoop.Coroutines

open EventLoop.Machine

variable {ρ : Type*} {size : Nat} [DecidableEq ρ]

/-- So many bytes from `p` and from `q` have none in common. -/
def Apart (p m q n : Nat) : Prop := p + m ≤ q ∨ q + n ≤ p

instance (p m q n : Nat) : Decidable (Apart p m q n) := inferInstanceAs (Decidable (_ ∨ _))

/-- `restore` writes to the stack as well: to the slot that the call of `save` left its return
address in. -/
structure Switch (ρ : Type*) (size : Nat) [DecidableEq ρ] where
  save : Routine ρ size
  restore : Routine ρ size
  /-- The register that has the record's place. -/
  arg : ρ
  extent : Nat
  slot : State ρ size → Nat
  slotSize : Nat
  /-- Behind the call of `save` in the first state, if `restore` is called in the second one. -/
  resumed : State ρ size → State ρ size → State ρ size
  save_outside : ∀ s a, (s.regs arg).toNat + extent ≤ 2 ^ (8 * size) →
    Apart (slot s) slotSize (s.regs arg).toNat extent → (a < (s.regs arg).toNat ∨ (s.regs arg).toNat + extent ≤ a) → (save.run s).mem a = s.mem a
  restore_run : ∀ s t, (s.regs arg).toNat + extent ≤ 2 ^ (8 * size) →
    Apart (slot s) slotSize (s.regs arg).toNat extent → t.regs arg = s.regs arg →
    (∀ i < extent, t.mem ((s.regs arg).toNat + i) = (save.run s).mem ((s.regs arg).toNat + i)) →
    restore.run t = resumed s t
  resumed_outside : ∀ s t a, (a < slot s ∨ slot s + slotSize ≤ a) →
    (resumed s t).mem a = t.mem a

/-- The machine, and where each coroutine that has saved itself was when it last did. -/
structure Config (ι : Type*) (ρ : Type*) (size : Nat) where
  state : State ρ size
  saved : ι → Option (State ρ size)

variable {ι : Type*} {switch : Switch ρ size} {place : ι → Nat}
  {c c' : Config ι ρ size} {i j : ι} {snap : State ρ size}

/-- The records are in memory, no two of them at one place. -/
structure Placed (switch : Switch ρ size) (place : ι → Nat) : Prop where
  fits : ∀ i, place i + switch.extent ≤ 2 ^ (8 * size)
  apart : ∀ i j, i ≠ j → Apart (place i) switch.extent (place j) switch.extent

/-- Each record is as the last call of `save` on it has left it. -/
structure Kept (switch : Switch ρ size) (place : ι → Nat) (c : Config ι ρ size) : Prop where
  at_place : ∀ i snap, c.saved i = some snap → (snap.regs switch.arg).toNat = place i
  slot : ∀ i snap, c.saved i = some snap → ∀ j,
    Apart (switch.slot snap) switch.slotSize (place j) switch.extent
  record : ∀ i snap, c.saved i = some snap → ∀ k < switch.extent,
    c.state.mem (place i + k) = (switch.save.run snap).mem (place i + k)

/-- What `restore` does to a record that is as it was left. -/
theorem Kept.restore_run (h : Kept switch place c) (hplaced : Placed switch place)
    (hsaved : c.saved i = some snap) (harg : (c.state.regs switch.arg).toNat = place i) :
    switch.restore.run c.state = switch.resumed snap c.state := by
  have hplace := h.at_place i snap hsaved
  apply switch.restore_run
  · rw [hplace]
    exact hplaced.fits i
  · rw [hplace]
    exact h.slot i snap hsaved i
  · exact BitVec.eq_of_toNat_eq (harg.trans hplace.symm)
  · rw [hplace]
    exact h.record i snap hsaved

variable [DecidableEq ι]

/-- Between the calls the machine does what it likes but write to a record that is in use. A
coroutine calls `save` on a stack that is apart from all records. -/
inductive Step (switch : Switch ρ size) (place : ι → Nat) :
    Config ι ρ size → Config ι ρ size → Prop where
  | compute {c : Config ι ρ size} (s' : State ρ size)
      (hkept : ∀ i snap, c.saved i = some snap → ∀ k < switch.extent,
        s'.mem (place i + k) = c.state.mem (place i + k)) :
      Step switch place c { c with state := s' }
  | save {c : Config ι ρ size} (i : ι) (harg : (c.state.regs switch.arg).toNat = place i)
      (hslot : ∀ j, Apart (switch.slot c.state) switch.slotSize (place j) switch.extent) :
      Step switch place c
        ⟨switch.save.run c.state, Function.update c.saved i (some c.state)⟩
  | restore {c : Config ι ρ size} (i : ι) (snap : State ρ size)
      (harg : (c.state.regs switch.arg).toNat = place i) (hsaved : c.saved i = some snap) :
      Step switch place c { c with state := switch.restore.run c.state }

inductive Reachable (switch : Switch ρ size) (place : ι → Nat) : Config ι ρ size → Prop where
  | init (s : State ρ size) : Reachable switch place ⟨s, fun _ => none⟩
  | step {c c' : Config ι ρ size} (h : Reachable switch place c) (hstep : Step switch place c c') :
      Reachable switch place c'

theorem Kept.step (h : Kept switch place c) (hplaced : Placed switch place)
    (hstep : Step switch place c c') : Kept switch place c' := by
  cases hstep with
  | compute s' hkept =>
      exact ⟨h.at_place, h.slot,
        fun i snap hsaved k hk => (hkept i snap hsaved k hk).trans (h.record i snap hsaved k hk)⟩
  | save i harg hslot =>
      have hsaved {j snap} (hj : Function.update c.saved i (some c.state) j = some snap) :
          j = i ∧ snap = c.state ∨ j ≠ i ∧ c.saved j = some snap := by
        by_cases hji : j = i
        · subst hji
          rw [Function.update_self] at hj
          exact .inl ⟨rfl, (Option.some.inj hj).symm⟩
        · rw [Function.update_of_ne hji] at hj
          exact .inr ⟨hji, hj⟩
      constructor
      · intro j snap hj
        rcases hsaved hj with ⟨rfl, rfl⟩ | ⟨-, hj⟩
        · exact harg
        · exact h.at_place j snap hj
      · intro j snap hj
        rcases hsaved hj with ⟨rfl, rfl⟩ | ⟨-, hj⟩
        · exact hslot
        · exact h.slot j snap hj
      · intro j snap hj k hk
        rcases hsaved hj with ⟨rfl, rfl⟩ | ⟨hji, hj⟩
        · rfl
        · rw [← h.record j snap hj k hk]
          apply switch.save_outside
          · rw [harg]
            exact hplaced.fits i
          · rw [harg]
            exact hslot i
          · rw [harg]
            have hapart := hplaced.apart i j (Ne.symm hji)
            rw [Apart] at hapart
            omega
  | restore i snap harg hsaved =>
      refine ⟨h.at_place, h.slot, ?_⟩
      intro j other hj k hk
      rw [h.restore_run hplaced hsaved harg, ← h.record j other hj k hk]
      apply switch.resumed_outside
      have hapart := h.slot i snap hsaved j
      rw [Apart] at hapart
      omega

theorem Reachable.kept (h : Reachable switch place c) (hplaced : Placed switch place) :
    Kept switch place c := by
  induction h with
  | init => constructor <;> intro i snap hsaved <;> cases hsaved
  | step _ hstep ih => exact ih.step hplaced hstep

end EventLoop.Coroutines
