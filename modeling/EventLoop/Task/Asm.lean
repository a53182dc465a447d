import EventLoop.Lib.Coroutines
import Mathlib.Data.Fintype.Basic
import Mathlib.Tactic.FinCases

/-!
The routines `GET` and `SET` of `asm.S`, for the ports whose code saves nothing but whole
registers, and what a context that one has left makes of the machine when the other loads it.
-/

namespace EventLoop.Task

open EventLoop.Coroutines EventLoop.Machine

namespace Amd64

inductive Reg where
  | rax | rbx | rcx | rdx | rsi | rdi | rbp | rsp | r8 | r9 | r10 | r11 | r12 | r13 | r14 | r15
deriving DecidableEq, Repr

def setmcontext : Routine Reg 8 where
  code :=
    [.load 16 .rdi .rsi, .load 24 .rdi .rdx, .load 32 .rdi .rcx, .load 40 .rdi .r8,
      .load 48 .rdi .r9, .load 56 .rdi .rax, .load 64 .rdi .rbx, .load 72 .rdi .rbp,
      .load 80 .rdi .r10, .load 88 .rdi .r11, .load 96 .rdi .r12, .load 104 .rdi .r13,
      .load 112 .rdi .r14, .load 120 .rdi .r15, .load 184 .rdi .rsp, .push 160 .rdi .rsp,
      .load 8 .rdi .rdi]
  exit := .ret .rsp

def getmcontext : Routine Reg 8 where
  code :=
    [.store .rdi 8 .rdi, .store .rsi 16 .rdi, .store .rdx 24 .rdi, .store .rcx 32 .rdi,
      .store .r8 40 .rdi, .store .r9 48 .rdi, .storeImm 1 56 .rdi, .store .rbx 64 .rdi,
      .store .rbp 72 .rdi, .store .r10 80 .rdi, .store .r11 88 .rdi, .store .r12 96 .rdi,
      .store .r13 104 .rdi, .store .r14 112 .rdi, .store .r15 120 .rdi,
      .load 0 .rsp .rcx, .store .rcx 160 .rdi, .lea 8 .rsp .rcx, .store .rcx 184 .rdi,
      .load 32 .rdi .rcx, .imm 0 .rax]
  exit := .ret .rsp

/-- What the routines use of a `struct mcontext`, up to `mc_rsp`. -/
def extent : Nat := 192

/-- The offsets of the fields that they use. -/
def offsets : List Nat :=
  [8, 16, 24, 32, 40, 48, 56, 64, 72, 80, 88, 96, 104, 112, 120, 160, 184]

/-- The return address that the call has pushed. -/
def returnAddress (s : State Reg 8) : Word 8 := loadWord 8 s.mem (s.regs .rsp).toNat

/-- What `getmcontext` stores. -/
def fields (s : State Reg 8) : List (Nat × Word 8) :=
  [(8, s.regs .rdi), (16, s.regs .rsi), (24, s.regs .rdx), (32, s.regs .rcx), (40, s.regs .r8),
    (48, s.regs .r9), (56, 1), (64, s.regs .rbx), (72, s.regs .rbp), (80, s.regs .r10),
    (88, s.regs .r11), (96, s.regs .r12), (104, s.regs .r13), (112, s.regs .r14),
    (120, s.regs .r15), (160, returnAddress s), (184, s.regs .rsp + 8#64)]

/-- Behind the call of `getmcontext`. -/
def returned (s : State Reg 8) : State Reg 8 where
  regs
    | .rax => 0
    | .rsp => s.regs .rsp + 8#64
    | r => s.regs r
  mem := storeFields (s.regs .rdi).toNat (fields s) s.mem
  pc := returnAddress s

/-- What `setmcontext` makes of the fields of its context. -/
def restored (field : Nat → Word 8) (t : State Reg 8) : State Reg 8 where
  regs
    | .rdi => field 8
    | .rsi => field 16
    | .rdx => field 24
    | .rcx => field 32
    | .r8 => field 40
    | .r9 => field 48
    | .rax => field 56
    | .rbx => field 64
    | .rbp => field 72
    | .r10 => field 80
    | .r11 => field 88
    | .r12 => field 96
    | .r13 => field 104
    | .r14 => field 112
    | .r15 => field 120
    | .rsp => field 184
  mem := storeWord t.mem (field 184 - 8#64).toNat (field 160)
  pc := field 160

theorem laidOut : LaidOut 8 extent offsets := by decide

theorem address_mod {p : Nat} (hfits : p + extent ≤ 2 ^ (8 * 8)) :
    ∀ off < 192, (p + off) % 18446744073709551616 = p + off := by
  intro off hoff
  rw [extent] at hfits
  omega

/-- The return address is not where fields are stored. -/
theorem loadWord_returnAddress {s : State Reg 8}
    (hslot : Apart (s.regs .rsp).toNat 8 (s.regs .rdi).toNat extent) (n : Nat) :
    loadWord 8 (storeFields (s.regs .rdi).toNat ((fields s).take n) s.mem) (s.regs .rsp).toNat =
      returnAddress s := by
  have hstored : LaidOut 8 extent (((fields s).take n).map Prod.fst) :=
    laidOut.sublist ((List.take_sublist n (fields s)).map Prod.fst)
  apply loadWord_congr
  intro i hi
  apply storeFields_of_outside hstored
  rw [Apart] at hslot
  omega

theorem getmcontext_run {s : State Reg 8} (hfits : (s.regs .rdi).toNat + extent ≤ 2 ^ (8 * 8))
    (hslot : Apart (s.regs .rsp).toNat 8 (s.regs .rdi).toNat extent) :
    getmcontext.run s = returned s := by
  have haddress := address_mod hfits
  -- `%rcx` is used for both `%rip` and `%rsp`, and then loaded again
  have hrip := loadWord_returnAddress hslot 15
  have hreturn := loadWord_returnAddress hslot 17
  have hrcx : loadWord 8 (storeFields (s.regs .rdi).toNat (fields s) s.mem)
      ((s.regs .rdi).toNat + 32) = s.regs .rcx :=
    loadWord_storeFields laidOut.1 (by simp [fields])
  simp [fields, storeFields] at hrip hreturn hrcx
  simp [Routine.run, getmcontext, List.foldl, Instr.exec, Exit.exec, State.set, State.address,
    fields, storeFields, haddress, hrip, hreturn, hrcx, returned]
  funext r
  cases r <;> rfl

theorem setmcontext_run {t : State Reg 8} {field : Nat → Word 8}
    (hfits : (t.regs .rdi).toNat + extent ≤ 2 ^ (8 * 8))
    (hslot : Apart (field 184 - 8#64).toNat 8 (t.regs .rdi).toNat extent)
    (hrecord : ∀ off ∈ offsets, loadWord 8 t.mem ((t.regs .rdi).toNat + off) = field off) :
    setmcontext.run t = restored field t := by
  have haddress := address_mod hfits
  -- the push goes below the new stack, which is not in the context
  have hpushed : loadWord 8 (storeWord t.mem (field 184 - 8#64).toNat (field 160))
      ((t.regs .rdi).toNat + 8) = field 8 := by
    rw [← hrecord 8 (by decide)]
    apply loadWord_congr
    intro i hi
    apply storeWord_of_outside
    rw [Apart, extent] at hslot
    omega
  rw [offsets] at hrecord
  have hrsp : field 184 - 8#64 + 8#64 = field 184 := BitVec.sub_add_cancel _ _
  simp [-BitVec.toNat_sub, Routine.run, setmcontext, List.foldl, Instr.exec, Exit.exec, State.set,
    State.address, haddress, hrecord, hpushed, hrsp, restored, loadWord_storeWord]
  funext r
  cases r <;> rfl

/-- A context that `getmcontext` has left, given to `setmcontext`. -/
def switch : Switch Reg 8 where
  save := getmcontext
  restore := setmcontext
  arg := .rdi
  extent := extent
  slot s := (s.regs .rsp).toNat
  slotSize := 8
  resumed s := restored (fieldAt (fields s))
  save_outside s a hfits hslot ha := by
    rw [getmcontext_run hfits hslot]
    exact storeFields_of_outside laidOut ha
  restore_run s t hfits hslot harg hrecord := by
    have hload : ∀ off ∈ offsets,
        loadWord 8 t.mem ((s.regs .rdi).toNat + off) = fieldAt (fields s) off := by
      rw [getmcontext_run hfits hslot] at hrecord
      exact fun off hoff => loadWord_record laidOut hrecord hoff
    rw [← harg] at hfits hslot hload
    have hrsp : fieldAt (fields s) 184 - 8#64 = s.regs .rsp := BitVec.add_sub_cancel _ _
    exact setmcontext_run hfits (by rwa [hrsp]) hload
  resumed_outside s t a ha := by
    have hrsp : fieldAt (fields s) 184 - 8#64 = s.regs .rsp := BitVec.add_sub_cancel _ _
    rw [restored, hrsp]
    exact storeWord_of_outside ha

end Amd64

namespace Arm

/-- `r13` is the stack pointer, `r14` the link register. -/
inductive Reg where
  | r0 | r1 | r2 | r3 | r4 | r5 | r6 | r7 | r8 | r9 | r10 | r11 | r12 | r13 | r14
deriving DecidableEq, Repr

def getmcontext : Routine Reg 4 where
  code :=
    [.lea 12 .r0 .r0,
      .store .r1 4 .r0, .store .r2 8 .r0, .store .r3 12 .r0, .store .r4 16 .r0, .store .r5 20 .r0,
      .store .r6 24 .r0, .store .r7 28 .r0, .store .r8 32 .r0, .store .r9 36 .r0,
      .store .r10 40 .r0, .store .r11 44 .r0, .store .r12 48 .r0, .store .r13 52 .r0,
      .store .r14 56 .r0,
      .imm 1 .r1, .store .r1 0 .r0, .imm 0 .r0]
  exit := .jump .r14

def setmcontext : Routine Reg 4 where
  code :=
    [.lea 12 .r0 .r0,
      .load 4 .r0 .r1, .load 8 .r0 .r2, .load 12 .r0 .r3, .load 16 .r0 .r4, .load 20 .r0 .r5,
      .load 24 .r0 .r6, .load 28 .r0 .r7, .load 32 .r0 .r8, .load 36 .r0 .r9,
      .load 40 .r0 .r10, .load 44 .r0 .r11, .load 48 .r0 .r12, .load 52 .r0 .r13,
      .load 56 .r0 .r14,
      .load 0 .r0 .r0]
  exit := .jump .r14

/-- What the routines use of a `struct sigcontext`, up to `arm_lr`. -/
def extent : Nat := 72

def offsets : List Nat := [16, 20, 24, 28, 32, 36, 40, 44, 48, 52, 56, 60, 64, 68, 12]

def fields (s : State Reg 4) : List (Nat × Word 4) :=
  [(16, s.regs .r1), (20, s.regs .r2), (24, s.regs .r3), (28, s.regs .r4), (32, s.regs .r5),
    (36, s.regs .r6), (40, s.regs .r7), (44, s.regs .r8), (48, s.regs .r9), (52, s.regs .r10),
    (56, s.regs .r11), (60, s.regs .r12), (64, s.regs .r13), (68, s.regs .r14), (12, 1)]

def returned (s : State Reg 4) : State Reg 4 where
  regs
    | .r0 => 0
    | .r1 => 1
    | r => s.regs r
  mem := storeFields (s.regs .r0).toNat (fields s) s.mem
  pc := s.regs .r14

def restored (field : Nat → Word 4) (t : State Reg 4) : State Reg 4 where
  regs
    | .r0 => field 12
    | .r1 => field 16
    | .r2 => field 20
    | .r3 => field 24
    | .r4 => field 28
    | .r5 => field 32
    | .r6 => field 36
    | .r7 => field 40
    | .r8 => field 44
    | .r9 => field 48
    | .r10 => field 52
    | .r11 => field 56
    | .r12 => field 60
    | .r13 => field 64
    | .r14 => field 68
  mem := t.mem
  pc := field 68

theorem laidOut : LaidOut 4 extent offsets := by decide

theorem address_mod {p : Nat} (hfits : p + extent ≤ 2 ^ (8 * 4)) :
    ∀ off < 72, (p + off) % 4294967296 = p + off := by
  intro off hoff
  rw [extent] at hfits
  omega

theorem getmcontext_run {s : State Reg 4} (hfits : (s.regs .r0).toNat + extent ≤ 2 ^ (8 * 4)) :
    getmcontext.run s = returned s := by
  have haddress := address_mod hfits
  simp [Routine.run, getmcontext, List.foldl, Instr.exec, Exit.exec, State.set, State.address,
    fields, storeFields, haddress, Nat.add_assoc, returned]
  funext r
  cases r <;> rfl

theorem setmcontext_run {t : State Reg 4} {field : Nat → Word 4}
    (hfits : (t.regs .r0).toNat + extent ≤ 2 ^ (8 * 4))
    (hrecord : ∀ off ∈ offsets, loadWord 4 t.mem ((t.regs .r0).toNat + off) = field off) :
    setmcontext.run t = restored field t := by
  have haddress := address_mod hfits
  rw [offsets] at hrecord
  simp [Routine.run, setmcontext, List.foldl, Instr.exec, Exit.exec, State.set, State.address,
    haddress, hrecord, restored, Nat.add_assoc]
  funext r
  cases r <;> rfl

def switch : Switch Reg 4 where
  save := getmcontext
  restore := setmcontext
  arg := .r0
  extent := extent
  slot _ := 0
  slotSize := 0
  resumed s := restored (fieldAt (fields s))
  save_outside s a hfits _ ha := by
    rw [getmcontext_run hfits]
    exact storeFields_of_outside laidOut ha
  restore_run s t hfits _ harg hrecord := by
    have hload : ∀ off ∈ offsets,
        loadWord 4 t.mem ((s.regs .r0).toNat + off) = fieldAt (fields s) off := by
      rw [getmcontext_run hfits] at hrecord
      exact fun off hoff => loadWord_record laidOut hrecord hoff
    rw [← harg] at hfits hload
    exact setmcontext_run hfits hload
  resumed_outside _ _ _ _ := rfl

end Arm

namespace Mips

/-- `$0` to `$31`. -/
abbrev Reg : Type := Fin 32

def getmcontext : Routine Reg 4 where
  code :=
    [.store 4 24 4, .store 5 28 4, .store 6 32 4, .store 7 36 4,
      .store 16 72 4, .store 17 76 4, .store 18 80 4, .store 19 84 4, .store 20 88 4,
      .store 21 92 4, .store 22 96 4, .store 23 100 4,
      .store 28 120 4, .store 29 124 4, .store 30 128 4, .store 31 132 4,
      .xor 2 2 2]
  exit := .jump 31

def setmcontext : Routine Reg 4 where
  code :=
    [.load 72 4 16, .load 76 4 17, .load 80 4 18, .load 84 4 19, .load 88 4 20, .load 92 4 21,
      .load 96 4 22, .load 100 4 23,
      .load 120 4 28, .load 124 4 29, .load 128 4 30,
      .load 132 4 8, .load 132 4 25,
      .load 28 4 5, .load 32 4 6, .load 36 4 7, .load 24 4 4]
  exit := .jump 8

/-- What the routines use of a `struct mcontext`, up to `mc_regs[31]`. -/
def extent : Nat := 136

def offsets : List Nat :=
  [24, 28, 32, 36, 72, 76, 80, 84, 88, 92, 96, 100, 120, 124, 128, 132]

def fields (s : State Reg 4) : List (Nat × Word 4) :=
  [(24, s.regs 4), (28, s.regs 5), (32, s.regs 6), (36, s.regs 7), (72, s.regs 16),
    (76, s.regs 17), (80, s.regs 18), (84, s.regs 19), (88, s.regs 20), (92, s.regs 21),
    (96, s.regs 22), (100, s.regs 23), (120, s.regs 28), (124, s.regs 29), (128, s.regs 30),
    (132, s.regs 31)]

def returned (s : State Reg 4) : State Reg 4 where
  regs := Function.update s.regs 2 0
  mem := storeFields (s.regs 4).toNat (fields s) s.mem
  pc := s.regs 31

/-- `$2`, that has what a function returns. -/
abbrev v0 : Reg := 2

/-- The registers that both routines know, but for the return address. -/
def kept : List Reg := [4, 5, 6, 7, 16, 17, 18, 19, 20, 21, 22, 23, 28, 29, 30]

/-- `$2`, which holds what `getmcontext` returns, is not loaded. -/
def restored (field : Nat → Word 4) (t : State Reg 4) : State Reg 4 where
  regs r :=
    if r = 8 ∨ r = 25 then field 132
    else if r ∈ kept then field (8 + 4 * r.val)
    else t.regs r
  mem := t.mem
  pc := field 132

theorem laidOut : LaidOut 4 extent offsets := by decide

theorem address_mod {p : Nat} (hfits : p + extent ≤ 2 ^ (8 * 4)) :
    ∀ off < 136, (p + off) % 4294967296 = p + off := by
  intro off hoff
  rw [extent] at hfits
  omega

theorem getmcontext_run {s : State Reg 4} (hfits : (s.regs 4).toNat + extent ≤ 2 ^ (8 * 4)) :
    getmcontext.run s = returned s := by
  have haddress := address_mod hfits
  simp [Routine.run, getmcontext, List.foldl, Instr.exec, Exit.exec, State.set, State.address,
    fields, storeFields, haddress, returned]

theorem setmcontext_run {t : State Reg 4} {field : Nat → Word 4}
    (hfits : (t.regs 4).toNat + extent ≤ 2 ^ (8 * 4))
    (hrecord : ∀ off ∈ offsets, loadWord 4 t.mem ((t.regs 4).toNat + off) = field off) :
    setmcontext.run t = restored field t := by
  have haddress := address_mod hfits
  rw [offsets] at hrecord
  simp [Routine.run, setmcontext, List.foldl, Instr.exec, Exit.exec, State.set, State.address,
    haddress, hrecord, restored, kept]
  funext r
  fin_cases r <;> rfl

def switch : Switch Reg 4 where
  save := getmcontext
  restore := setmcontext
  arg := 4
  extent := extent
  slot _ := 0
  slotSize := 0
  resumed s := restored (fieldAt (fields s))
  save_outside s a hfits _ ha := by
    rw [getmcontext_run hfits]
    exact storeFields_of_outside laidOut ha
  restore_run s t hfits _ harg hrecord := by
    have hload : ∀ off ∈ offsets,
        loadWord 4 t.mem ((s.regs 4).toNat + off) = fieldAt (fields s) off := by
      rw [getmcontext_run hfits] at hrecord
      exact fun off hoff => loadWord_record laidOut hrecord hoff
    rw [← harg] at hfits hload
    exact setmcontext_run hfits hload
  resumed_outside _ _ _ _ := rfl

end Mips

namespace Power

inductive Reg where
  | r (i : Fin 32)
  | lr | cr | ctr | xer
deriving DecidableEq, Repr

/-- The register that has what a function returns. -/
abbrev r3 : Reg := .r 3

def getmcontext : Routine Reg 4 where
  code :=
    [.move .lr (.r 0), .move .cr (.r 5), .move .ctr (.r 6), .move .xer (.r 7),
      .store (.r 0) 0 (.r 3), .store (.r 5) 4 (.r 3), .store (.r 6) 8 (.r 3),
      .store (.r 7) 12 (.r 3),
      .store (.r 1) 16 (.r 3), .store (.r 2) 20 (.r 3),
      .imm 1 (.r 5), .store (.r 5) 24 (.r 3),
      .store (.r 13) 28 (.r 3), .store (.r 14) 32 (.r 3), .store (.r 15) 36 (.r 3),
      .store (.r 16) 40 (.r 3), .store (.r 17) 44 (.r 3), .store (.r 18) 48 (.r 3),
      .store (.r 19) 52 (.r 3), .store (.r 20) 56 (.r 3), .store (.r 21) 60 (.r 3),
      .store (.r 22) 64 (.r 3), .store (.r 23) 68 (.r 3), .store (.r 24) 72 (.r 3),
      .store (.r 25) 76 (.r 3), .store (.r 26) 80 (.r 3), .store (.r 27) 84 (.r 3),
      .store (.r 28) 88 (.r 3), .store (.r 29) 92 (.r 3), .store (.r 30) 96 (.r 3),
      .store (.r 31) 100 (.r 3),
      .imm 0 (.r 3)]
  exit := .jump .lr

def setmcontext : Routine Reg 4 where
  code :=
    [.load 28 (.r 3) (.r 13), .load 32 (.r 3) (.r 14), .load 36 (.r 3) (.r 15),
      .load 40 (.r 3) (.r 16), .load 44 (.r 3) (.r 17), .load 48 (.r 3) (.r 18),
      .load 52 (.r 3) (.r 19), .load 56 (.r 3) (.r 20), .load 60 (.r 3) (.r 21),
      .load 64 (.r 3) (.r 22), .load 68 (.r 3) (.r 23), .load 72 (.r 3) (.r 24),
      .load 76 (.r 3) (.r 25), .load 80 (.r 3) (.r 26), .load 84 (.r 3) (.r 27),
      .load 88 (.r 3) (.r 28), .load 92 (.r 3) (.r 29), .load 96 (.r 3) (.r 30),
      .load 100 (.r 3) (.r 31),
      .load 16 (.r 3) (.r 1), .load 20 (.r 3) (.r 2),
      .load 0 (.r 3) (.r 0), .move (.r 0) .lr, .load 4 (.r 3) (.r 0), .move (.r 0) .cr,
      .load 8 (.r 3) (.r 0), .move (.r 0) .ctr, .load 12 (.r 3) (.r 0), .move (.r 0) .xer,
      .load 24 (.r 3) (.r 3)]
  exit := .jump .lr

/-- `sizeof(struct mcontext)` -/
def extent : Nat := 104

def offsets : List Nat :=
  [0, 4, 8, 12, 16, 20, 24, 28, 32, 36, 40, 44, 48, 52, 56, 60, 64, 68, 72, 76, 80, 84, 88, 92, 96,
    100]

def fields (s : State Reg 4) : List (Nat × Word 4) :=
  [(0, s.regs .lr), (4, s.regs .cr), (8, s.regs .ctr), (12, s.regs .xer), (16, s.regs (.r 1)),
    (20, s.regs (.r 2)), (24, 1), (28, s.regs (.r 13)), (32, s.regs (.r 14)),
    (36, s.regs (.r 15)), (40, s.regs (.r 16)), (44, s.regs (.r 17)), (48, s.regs (.r 18)),
    (52, s.regs (.r 19)), (56, s.regs (.r 20)), (60, s.regs (.r 21)), (64, s.regs (.r 22)),
    (68, s.regs (.r 23)), (72, s.regs (.r 24)), (76, s.regs (.r 25)), (80, s.regs (.r 26)),
    (84, s.regs (.r 27)), (88, s.regs (.r 28)), (92, s.regs (.r 29)), (96, s.regs (.r 30)),
    (100, s.regs (.r 31))]

def returned (s : State Reg 4) : State Reg 4 where
  regs r :=
    if r = .r 0 then s.regs .lr
    else if r = .r 3 then 0
    else if r = .r 5 then 1
    else if r = .r 6 then s.regs .ctr
    else if r = .r 7 then s.regs .xer
    else s.regs r
  mem := storeFields (s.regs (.r 3)).toNat (fields s) s.mem
  pc := s.regs .lr

/-- `r4` to `r12`, which a function may change, are not loaded. -/
def restored (field : Nat → Word 4) (t : State Reg 4) : State Reg 4 where
  regs
    | .r i =>
        if i = 0 then field 12
        else if i = 1 then field 16
        else if i = 2 then field 20
        else if i = 3 then field 24
        else if i < 13 then t.regs (.r i)
        else field (4 * i.val - 24)
    | .lr => field 0
    | .cr => field 4
    | .ctr => field 8
    | .xer => field 12
  mem := t.mem
  pc := field 0

theorem laidOut : LaidOut 4 extent offsets := by decide

theorem address_mod {p : Nat} (hfits : p + extent ≤ 2 ^ (8 * 4)) :
    ∀ off < 104, (p + off) % 4294967296 = p + off := by
  intro off hoff
  rw [extent] at hfits
  omega

theorem getmcontext_run {s : State Reg 4}
    (hfits : (s.regs (.r 3)).toNat + extent ≤ 2 ^ (8 * 4)) :
    getmcontext.run s = returned s := by
  have haddress := address_mod hfits
  simp [Routine.run, getmcontext, List.foldl, Instr.exec, Exit.exec, State.set, State.address,
    fields, storeFields, haddress, returned]
  funext r
  cases r with
  | r i => fin_cases i <;> rfl
  | lr | cr | ctr | xer => rfl

theorem setmcontext_run {t : State Reg 4} {field : Nat → Word 4}
    (hfits : (t.regs (.r 3)).toNat + extent ≤ 2 ^ (8 * 4))
    (hrecord : ∀ off ∈ offsets, loadWord 4 t.mem ((t.regs (.r 3)).toNat + off) = field off) :
    setmcontext.run t = restored field t := by
  have haddress := address_mod hfits
  rw [offsets] at hrecord
  have hfirst := hrecord 0 (by simp)
  rw [Nat.add_zero] at hfirst
  simp [Routine.run, setmcontext, List.foldl, Instr.exec, Exit.exec, State.set, State.address,
    haddress, hrecord, hfirst, restored]
  funext r
  cases r with
  | r i => fin_cases i <;> rfl
  | lr | cr | ctr | xer => rfl

def switch : Switch Reg 4 where
  save := getmcontext
  restore := setmcontext
  arg := (.r 3)
  extent := extent
  slot _ := 0
  slotSize := 0
  resumed s := restored (fieldAt (fields s))
  save_outside s a hfits _ ha := by
    rw [getmcontext_run hfits]
    exact storeFields_of_outside laidOut ha
  restore_run s t hfits _ harg hrecord := by
    have hload : ∀ off ∈ offsets,
        loadWord 4 t.mem ((s.regs (.r 3)).toNat + off) = fieldAt (fields s) off := by
      rw [getmcontext_run hfits] at hrecord
      exact fun off hoff => loadWord_record laidOut hrecord hoff
    rw [← harg] at hfits hload
    exact setmcontext_run hfits hload
  resumed_outside _ _ _ _ := rfl

end Power

end EventLoop.Task
