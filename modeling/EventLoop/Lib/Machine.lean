import EventLoop.Lib.ByteMemory
import Mathlib.Logic.Function.Basic

/-!
Straight pieces of machine code: registers, a memory of bytes, and instructions that move words
between them. The fields of a record are stored one by one and loaded again.
-/

namespace EventLoop.Machine

open EventLoop.ByteMemory

variable {ρ : Type*} {size : Nat}

/-- What a register holds, in bytes the width of the machine. -/
abbrev Word (size : Nat) : Type := BitVec (8 * size)

structure State (ρ : Type*) (size : Nat) where
  regs : ρ → Word size
  mem : Nat → UInt8
  pc : Word size

def loadWord (size : Nat) (m : Nat → UInt8) (a : Nat) : Word size := .ofNat _ (readWord size m a)

def storeWord (m : Nat → UInt8) (a : Nat) (value : Word size) : Nat → UInt8 :=
  write m a (wordBytes size value.toNat)

/-- The destination stands last. -/
inductive Instr (ρ : Type*) (size : Nat) where
  | store (src : ρ) (off : Nat) (base : ρ)
  | storeImm (value : Word size) (off : Nat) (base : ρ)
  | load (off : Nat) (base dst : ρ)
  | lea (off : Nat) (base dst : ρ)
  | imm (value : Word size) (dst : ρ)
  | move (src dst : ρ)
  | xor (src src' dst : ρ)
  /-- Push the word at `off(base)`. -/
  | push (off : Nat) (base sp : ρ)

/-- How a routine is left. -/
inductive Exit (ρ : Type*) where
  | ret (sp : ρ)
  | jump (target : ρ)

structure Routine (ρ : Type*) (size : Nat) where
  code : List (Instr ρ size)
  exit : Exit ρ

def State.address (s : State ρ size) (off : Nat) (base : ρ) : Nat :=
  (s.regs base + .ofNat _ off).toNat

section

variable [DecidableEq ρ]

def State.set (s : State ρ size) (dst : ρ) (value : Word size) : State ρ size :=
  { s with regs := Function.update s.regs dst value }

def Instr.exec (s : State ρ size) : Instr ρ size → State ρ size
  | .store src off base => { s with mem := storeWord s.mem (s.address off base) (s.regs src) }
  | .storeImm value off base => { s with mem := storeWord s.mem (s.address off base) value }
  | .load off base dst => s.set dst (loadWord size s.mem (s.address off base))
  | .lea off base dst => s.set dst (s.regs base + .ofNat _ off)
  | .imm value dst => s.set dst value
  | .move src dst => s.set dst (s.regs src)
  | .xor src src' dst => s.set dst (s.regs src ^^^ s.regs src')
  | .push off base sp =>
      let word := loadWord size s.mem (s.address off base)
      let s := s.set sp (s.regs sp - .ofNat _ size)
      { s with mem := storeWord s.mem (s.regs sp).toNat word }

def Exit.exec (s : State ρ size) : Exit ρ → State ρ size
  | .ret sp =>
      { s.set sp (s.regs sp + .ofNat _ size) with pc := loadWord size s.mem (s.regs sp).toNat }
  | .jump target => { s with pc := s.regs target }

def Routine.run (r : Routine ρ size) (s : State ρ size) : State ρ size :=
  r.exit.exec (r.code.foldl Instr.exec s)

end

variable {m : Nat → UInt8} {a b n off base : Nat} {value : Word size}

theorem loadWord_storeWord (m : Nat → UInt8) (a : Nat) (value : Word size) :
    loadWord size (storeWord m a value) a = value := by
  have hlt : value.toNat < 256 ^ size := by
    rw [show 256 = 2 ^ 8 from rfl, ← Nat.pow_mul]
    exact value.isLt
  rw [loadWord, storeWord, readWord_write_self hlt, BitVec.ofNat_toNat, BitVec.setWidth_eq]

theorem storeWord_of_outside (h : a < b ∨ b + size ≤ a) : storeWord m b value a = m a := by
  rcases h with hlt | hge
  · exact write_of_lt hlt
  · apply write_of_ge
    simpa using hge

theorem loadWord_congr {m' : Nat → UInt8} (h : ∀ i < size, m (a + i) = m' (a + i)) :
    loadWord size m a = loadWord size m' a := by
  rw [loadWord, loadWord, readWord_congr (read_congr h)]

theorem loadWord_storeWord_of_apart (h : a + size ≤ b ∨ b + size ≤ a) :
    loadWord size (storeWord m b value) a = loadWord size m a := by
  apply loadWord_congr
  intro i hi
  apply storeWord_of_outside
  omega

/-- A word of a piece of memory that is all zero. -/
theorem loadWord_zeros (h : a ≤ b ∧ b + size ≤ a + n) :
    loadWord size (write m a (List.replicate n 0)) b = 0 := by
  obtain ⟨k, rfl⟩ := Nat.exists_eq_add_of_le h.1
  have hread : read (write m a (List.replicate n 0)) (a + k) size = List.replicate size 0 := by
    rw [read_write_part (by simp; omega), List.drop_replicate, List.take_replicate]
    congr 1
    omega
  have hword : wordOf (List.replicate size 0) = 0 := by
    clear h hread
    induction size with
    | zero => rfl
    | succ size ih => simp [List.replicate_succ, wordOf, ih]
  rw [loadWord, readWord, hread, hword]
  rfl

/-- Store the fields of the record at `base`, each at its offset. -/
def storeFields (base : Nat) : List (Nat × Word size) → (Nat → UInt8) → Nat → UInt8
  | [], m => m
  | (off, value) :: fields, m => storeFields base fields (storeWord m (base + off) value)

variable {fields : List (Nat × Word size)}

theorem storeFields_of_apart
    (h : ∀ field ∈ fields, a < base + field.1 ∨ base + field.1 + size ≤ a) :
    storeFields base fields m a = m a := by
  induction fields generalizing m with
  | nil => rfl
  | cons field fields ih =>
      obtain ⟨hfield, hfields⟩ := List.forall_mem_cons.mp h
      exact (ih hfields).trans (storeWord_of_outside hfield)

/-- Of fields that stand apart each holds what has been stored in it. -/
theorem loadWord_storeFields
    (hapart : (fields.map Prod.fst).Pairwise (fun f g => f + size ≤ g ∨ g + size ≤ f))
    (hfield : (off, value) ∈ fields) :
    loadWord size (storeFields base fields m) (base + off) = value := by
  induction fields generalizing m with
  | nil => cases hfield
  | cons field fields ih =>
      obtain ⟨hfirst, hrest⟩ := List.pairwise_cons.mp hapart
      rcases List.mem_cons.mp hfield with rfl | hlater
      · have hkept : ∀ i < size, storeFields base fields (storeWord m (base + off) value)
            (base + off + i) = storeWord m (base + off) value (base + off + i) := by
          intro i hi
          apply storeFields_of_apart
          intro field hfield
          have hdisjoint := hfirst field.1 (List.mem_map_of_mem hfield)
          omega
        exact (loadWord_congr hkept).trans (loadWord_storeWord ..)
      · exact ih hrest hlater

/-- The field at an offset. -/
def fieldAt : List (Nat × Word size) → Nat → Word size
  | [], _ => 0
  | (first, value) :: fields, off => if off = first then value else fieldAt fields off

/-- The fields stand apart in so many bytes. -/
def LaidOut (size n : Nat) (offs : List Nat) : Prop :=
  offs.Pairwise (fun f g => f + size ≤ g ∨ g + size ≤ f) ∧ ∀ off ∈ offs, off + size ≤ n

instance (size n : Nat) (offs : List Nat) : Decidable (LaidOut size n offs) :=
  inferInstanceAs (Decidable (_ ∧ _))

/-- Nothing changes outside the record. -/
theorem storeFields_of_outside (hlayout : LaidOut size n (fields.map Prod.fst))
    (ha : a < base ∨ base + n ≤ a) : storeFields base fields m a = m a := by
  apply storeFields_of_apart
  intro field hfield
  have hle := hlayout.2 field.1 (List.mem_map_of_mem hfield)
  omega

theorem LaidOut.sublist {offs offs' : List Nat} (h : LaidOut size n offs)
    (hsub : offs'.Sublist offs) : LaidOut size n offs' :=
  ⟨h.1.sublist hsub, fun off hoff => h.2 off (hsub.subset hoff)⟩

theorem mem_of_mem_map (h : off ∈ fields.map Prod.fst) : (off, fieldAt fields off) ∈ fields := by
  induction fields with
  | nil => cases h
  | cons field fields ih =>
      obtain ⟨first, value⟩ := field
      by_cases heq : off = first
      · simp [fieldAt, heq]
      · have hlater : off ∈ fields.map Prod.fst := by simpa [heq] using h
        simpa [fieldAt, heq] using ih hlater

/-- A record that is as its fields have left it holds them. -/
theorem loadWord_record {m' : Nat → UInt8} (hlayout : LaidOut size n (fields.map Prod.fst))
    (hrecord : ∀ i < n, m' (base + i) = storeFields base fields m (base + i))
    (hoff : off ∈ fields.map Prod.fst) :
    loadWord size m' (base + off) = fieldAt fields off := by
  have hread : ∀ i < size, m' (base + off + i) = storeFields base fields m (base + off + i) := by
    intro i hi
    have hle := hlayout.2 off hoff
    rw [Nat.add_assoc]
    exact hrecord (off + i) (by omega)
  rw [loadWord_congr hread]
  exact loadWord_storeFields hlayout.1 (mem_of_mem_map hoff)

/-- A record of which some of the fields have been stored again. -/
theorem loadWord_restored {m' : Nat → UInt8} {offs stored : List Nat} {before : Nat → Word size}
    (hfields : fields.map Prod.fst = stored) (hlayout : LaidOut size n stored)
    (hoffs : ∀ off ∈ offs, off + size ≤ n)
    (hapart : ∀ off ∈ offs, off ∉ stored → ∀ f ∈ stored, off + size ≤ f ∨ f + size ≤ off)
    (hbefore : ∀ off ∈ offs, loadWord size m (base + off) = before off)
    (hrecord : ∀ i < n, m' (base + i) = storeFields base fields m (base + i))
    (hoff : off ∈ offs) :
    loadWord size m' (base + off) = if off ∈ stored then fieldAt fields off else before off := by
  subst hfields
  split
  case isTrue hmem => exact loadWord_record hlayout hrecord hmem
  case isFalse hmem =>
      rw [← hbefore off hoff]
      apply loadWord_congr
      intro i hi
      have hle := hoffs off hoff
      rw [Nat.add_assoc, hrecord (off + i) (by omega)]
      apply storeFields_of_apart
      intro field hfield
      have hdisjoint := hapart off hoff hmem field.1 (List.mem_map_of_mem hfield)
      omega

end EventLoop.Machine
