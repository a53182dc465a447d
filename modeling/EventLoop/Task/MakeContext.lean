import EventLoop.Task.Asm

/-!
`makecontext` of `context.c`, and where a context that it has made begins when it is given to
`setcontext`.
-/

namespace EventLoop.Task

open EventLoop.ByteMemory EventLoop.Coroutines EventLoop.Machine

namespace Amd64

def sizeofMcontext : Nat := 800

/-- `va_arg(va, int)`, assigned to a `long`. -/
def vaArgInt (arg : Word 8) : Word 8 := (arg.setWidth 32).signExtend 64

/-- Where the return address of the entry is put. -/
def initialSp (ssSp ssSize argc : Nat) : Nat :=
  let sp := ssSp + ssSize / 8 * 8
  let sp := sp - 8 * argc
  let sp := sp - sp % 16
  sp - 8

/-- For the context at `mc`; `none` where it writes through a null pointer. -/
def makecontext (m : Nat → UInt8) (mc ssSp ssSize : Nat) (func : Word 8) (args : List (Word 8)) :
    Option (Nat → UInt8) :=
  let m := write m mc (List.replicate sizeofMcontext 0)
  match args with
  | [arg₁, arg₂] =>
      let m := storeWord m (mc + 8) (vaArgInt arg₁)
      let m := storeWord m (mc + 16) (vaArgInt arg₂)
      let sp := initialSp ssSp ssSize args.length
      let m := storeWord m sp (0 : Word 8)
      let m := storeWord m (mc + 160) func
      let rsp : Word 8 := .ofNat 64 sp
      some (storeWord m (mc + 184) rsp)
  | _ => none

/-- An `int` keeps the words that are the sign extension of their lower half. -/
theorem vaArgInt_eq_iff (arg : Word 8) :
    vaArgInt arg = arg ↔ arg.toNat < 2 ^ 31 ∨ 2 ^ 64 - 2 ^ 31 ≤ arg.toNat := by
  have hlt : arg.toNat < 2 ^ 64 := arg.isLt
  have hmod : arg.toNat % 2 ^ 32 < 2 ^ 32 := Nat.mod_lt _ (by decide)
  rw [vaArgInt, BitVec.signExtend, ← BitVec.toInt_inj, BitVec.toInt_ofInt]
  simp only [BitVec.toInt_eq_toNat_bmod, BitVec.toNat_setWidth]
  simp only [Int.bmod]
  omega

theorem initialSp_bounds (ssSp : Nat) {ssSize : Nat} (hsize : 48 ≤ ssSize) :
    ssSp + 8 ≤ initialSp ssSp ssSize 2 ∧ initialSp ssSp ssSize 2 + 8 ≤ ssSp + ssSize ∧
      initialSp ssSp ssSize 2 % 16 = 8 := by
  simp only [initialSp]
  omega

/-- What it puts into the context, behind the zeros. -/
def madeFields (ssSp ssSize : Nat) (func arg₁ arg₂ : Word 8) : List (Nat × Word 8) :=
  [(8, vaArgInt arg₁), (16, vaArgInt arg₂), (160, func),
    (184, .ofNat 64 (initialSp ssSp ssSize 2))]

/-- A context that has been made, as `setmcontext` reads it. -/
theorem makecontext_record {m m' : Nat → UInt8} {mc ssSp ssSize : Nat} {func arg₁ arg₂ : Word 8}
    (hsize : 48 ≤ ssSize) (hapart : Apart ssSp ssSize mc sizeofMcontext)
    (hmake : makecontext m mc ssSp ssSize func [arg₁, arg₂] = some m') :
    (∀ off ∈ offsets, loadWord 8 m' (mc + off) =
      fieldAt (madeFields ssSp ssSize func arg₁ arg₂) off) ∧
      loadWord 8 m' (initialSp ssSp ssSize 2) = 0 := by
  obtain ⟨hlow, hhigh, -⟩ := initialSp_bounds ssSp hsize
  have hsizeof : sizeofMcontext = 800 := rfl
  rw [Apart] at hapart
  obtain rfl := Option.some.inj hmake
  simp only [List.length_cons, List.length_nil]
  constructor
  · intro off hoff
    simp only [offsets, List.mem_cons, List.not_mem_nil, or_false] at hoff
    rcases hoff with rfl | rfl | rfl | rfl | rfl | rfl | rfl | rfl | rfl | rfl | rfl | rfl | rfl |
      rfl | rfl | rfl | rfl <;>
    simp (disch := omega) [madeFields, fieldAt, loadWord_storeWord, loadWord_storeWord_of_apart,
      loadWord_zeros]
  · simp (disch := omega) [loadWord_storeWord, loadWord_storeWord_of_apart]

/-- Where a task begins that `make_task` has made a context for, with its own place and an `int`
as the arguments of the entry, as long as context and stack are as they were made: at the entry,
with the registers clear and on a stack in the task's block, aligned as behind a call, with 0 as
the place to return to. The entry gets the place of the task if and only if that place is an
`int`. -/
theorem makecontext_starts_entry {m m' : Nat → UInt8} {mc ssSp ssSize : Nat} {func ctx arg₁ : Word 8}
    {t : State Reg 8} (hmc : mc + sizeofMcontext ≤ 2 ^ 64) (hstack : ssSp + ssSize ≤ 2 ^ 64)
    (hsize : 48 ≤ ssSize) (hapart : Apart ssSp ssSize mc sizeofMcontext)
    (hmake : makecontext m mc ssSp ssSize func [ctx, arg₁] = some m')
    (harg : (t.regs .rdi).toNat = mc)
    (hkept : ∀ a, mc ≤ a ∧ a < mc + sizeofMcontext ∨ ssSp ≤ a ∧ a < ssSp + ssSize →
      t.mem a = m' a) :
    let s := setmcontext.run t
    s.pc = func ∧ (s.regs .rdi = ctx ↔ ctx.toNat < 2 ^ 31 ∨ 2 ^ 64 - 2 ^ 31 ≤ ctx.toNat) ∧
      s.regs .rsi = vaArgInt arg₁ ∧ (∀ r, r ≠ .rdi → r ≠ .rsi → r ≠ .rsp → s.regs r = 0) ∧
      (s.regs .rsp).toNat % 16 = 8 ∧ ssSp ≤ (s.regs .rsp).toNat ∧
      (s.regs .rsp).toNat + 8 ≤ ssSp + ssSize ∧ loadWord 8 s.mem (s.regs .rsp).toNat = 0 ∧
      ∀ a, ¬ (ssSp ≤ a ∧ a < ssSp + ssSize) → s.mem a = t.mem a := by
  obtain ⟨hrecord, hzero⟩ := makecontext_record hsize hapart hmake
  obtain ⟨hlow, hhigh, haligned⟩ := initialSp_bounds ssSp hsize
  have hsizeof : sizeofMcontext = 800 := rfl
  have hextent : extent = 192 := rfl
  generalize hsp : initialSp ssSp ssSize 2 = sp at hzero hlow hhigh haligned
  have hrsp : (fieldAt (madeFields ssSp ssSize func ctx arg₁) 184).toNat = sp := by
    simp only [madeFields, fieldAt, hsp]
    exact Nat.mod_eq_of_lt (by omega)
  have hslot : (fieldAt (madeFields ssSp ssSize func ctx arg₁) 184 - 8#64).toNat = sp - 8 := by
    rw [BitVec.toNat_sub_of_le (by simp [BitVec.le_def, hrsp]; omega), hrsp]
    rfl
  rw [Apart] at hapart
  have hrun : setmcontext.run t =
      restored (fieldAt (madeFields ssSp ssSize func ctx arg₁)) t := by
    apply setmcontext_run
    · rw [harg]
      omega
    · rw [hslot, harg, Apart]
      omega
    · intro off hoff
      rw [harg, ← hrecord off hoff]
      apply loadWord_congr
      intro i hi
      apply hkept
      have hle := laidOut.2 off hoff
      omega
  rw [hrun]
  refine ⟨rfl, ?_, rfl, ?_, ?_, ?_, ?_, ?_, ?_⟩
  · exact vaArgInt_eq_iff ctx
  · intro r hrdi hrsi hrsp
    cases r with
    | rdi => exact absurd rfl hrdi
    | rsi => exact absurd rfl hrsi
    | rsp => exact absurd rfl hrsp
    | _ => rfl
  · change (fieldAt (madeFields ssSp ssSize func ctx arg₁) 184).toNat % 16 = 8
    rw [hrsp, haligned]
  · change ssSp ≤ (fieldAt (madeFields ssSp ssSize func ctx arg₁) 184).toNat
    omega
  · change (fieldAt (madeFields ssSp ssSize func ctx arg₁) 184).toNat + 8 ≤ _
    omega
  · change loadWord 8 (storeWord t.mem _ _)
      (fieldAt (madeFields ssSp ssSize func ctx arg₁) 184).toNat = 0
    rw [hslot, hrsp, loadWord_storeWord_of_apart (by omega), ← hzero]
    apply loadWord_congr
    intro i hi
    apply hkept
    omega
  · intro a ha
    change storeWord t.mem _ _ a = t.mem a
    rw [hslot]
    apply storeWord_of_outside
    omega

/-- A task above 4 GB: the entry does not get its place. -/
theorem makecontext_starts_entry_above : ∃ m' t,
    makecontext (fun _ => 0) 4096 8192 1024 0x401000#64 [0x7f0000001000#64, 5#64] = some m' ∧
      (setmcontext.run t).pc = 0x401000#64 ∧ (setmcontext.run t).regs .rdi ≠ 0x7f0000001000#64 ∧
      loadWord 8 (setmcontext.run t).mem ((setmcontext.run t).regs .rsp).toNat = 0 := by
  obtain ⟨m', hmake⟩ : ∃ m', makecontext (fun _ => 0) 4096 8192 1024 0x401000#64
      [0x7f0000001000#64, 5#64] = some m' := ⟨_, rfl⟩
  let t : State Reg 8 := ⟨fun _ => 4096#64, m', 0#64⟩
  obtain ⟨hpc, hrdi, -, -, -, -, -, hzero, -⟩ :=
    makecontext_starts_entry (t := t) (by decide) (by decide) (by decide) (by decide) hmake rfl
      (fun _ _ => rfl)
  exact ⟨m', t, hmake, hpc, fun h => absurd (hrdi.mp h) (by decide), hzero⟩

end Amd64

/-- `for(i=0; i<4 && i<argc; i++)`, from the field of the first argument on. -/
def storeArgs (m : Nat → UInt8) (p : Nat) : List (Word 4) → Nat → UInt8
  | [] => m
  | arg :: args => storeArgs (storeWord m p arg) (p + 4) args

namespace Arm

/-- `arm_r0` and the registers behind it. -/
def pGregs (mc : Nat) : Nat := mc + 12

def makecontext (m : Nat → UInt8) (mc ssSp ssSize : Nat) (fn : Word 4) (args : List (Word 4)) :
    Nat → UInt8 :=
  let sp : Word 4 := .ofNat 32 (ssSp + ssSize / 4 * 4)
  let m := storeArgs m (pGregs mc) (args.take 4)
  let m := storeWord m (pGregs mc + 4 * 13) sp
  storeWord m (pGregs mc + 4 * 14) fn

/-- The entry of a task has both arguments, the whole stack, and itself as the place to return to;
all else is as it would be with the context that `getcontext` has left. -/
theorem makecontext_entry {m : Nat → UInt8} {mc ssSp ssSize : Nat} {fn ctx arg₁ : Word 4}
    {t : State Reg 4} {before : Nat → Word 4} (hmc : mc + extent ≤ 2 ^ 32)
    (hbefore : ∀ off ∈ offsets, loadWord 4 m (mc + off) = before off)
    (harg : (t.regs .r0).toNat = mc)
    (hkept : ∀ i < extent, t.mem (mc + i) = makecontext m mc ssSp ssSize fn [ctx, arg₁] (mc + i)) :
    let s := setmcontext.run t
    s.pc = fn ∧ s.regs .r0 = ctx ∧ s.regs .r1 = arg₁ ∧
      s.regs .r13 = .ofNat 32 (ssSp + ssSize / 4 * 4) ∧ s.regs .r14 = fn ∧ s.mem = t.mem ∧
      ∀ r, r ≠ .r0 → r ≠ .r1 → r ≠ .r13 → r ≠ .r14 → s.regs r = (restored before t).regs r := by
  let fields : List (Nat × Word 4) :=
    [(12, ctx), (16, arg₁), (64, .ofNat 32 (ssSp + ssSize / 4 * 4)), (68, fn)]
  have hstored : makecontext m mc ssSp ssSize fn [ctx, arg₁] = storeFields mc fields m := rfl
  have hrecord : ∀ off ∈ offsets, loadWord 4 t.mem (mc + off) =
      if off ∈ ([12, 16, 64, 68] : List Nat) then fieldAt fields off else before off := by
    intro off hoff
    rw [hstored] at hkept
    exact loadWord_restored rfl (by decide) laidOut.2 (by decide) hbefore hkept hoff
  have hrun := setmcontext_run (by rw [harg]; exact hmc) (by rw [harg]; exact hrecord)
  intro s
  rw [show s = _ from hrun]
  refine ⟨rfl, rfl, rfl, rfl, rfl, rfl, ?_⟩
  intro r h0 h1 h13 h14
  cases r with
  | r0 => exact absurd rfl h0
  | r1 => exact absurd rfl h1
  | r13 => exact absurd rfl h13
  | r14 => exact absurd rfl h14
  | _ => rfl

end Arm

namespace Mips

def makecontext (m : Nat → UInt8) (mc ssSp ssSize : Nat) (fn : Word 4) (args : List (Word 4)) :
    Nat → UInt8 :=
  let mcRegs := mc + 8
  let sp : Word 4 := .ofNat 32 (ssSp + ssSize / 4 * 4)
  let m := storeArgs m (mcRegs + 4 * 4) (args.take 4)
  let m := storeWord m (mcRegs + 4 * 29) sp
  storeWord m (mcRegs + 4 * 31) fn

/-- The entry of a task has both arguments and the whole stack. The place to return to is the one
that `setcontext` had. -/
theorem makecontext_entry {m : Nat → UInt8} {mc ssSp ssSize : Nat} {fn ctx arg₁ : Word 4}
    {t : State Reg 4} {before : Nat → Word 4} (hmc : mc + extent ≤ 2 ^ 32)
    (hbefore : ∀ off ∈ offsets, loadWord 4 m (mc + off) = before off)
    (harg : (t.regs 4).toNat = mc)
    (hkept : ∀ i < extent, t.mem (mc + i) = makecontext m mc ssSp ssSize fn [ctx, arg₁] (mc + i)) :
    let s := setmcontext.run t
    s.pc = fn ∧ s.regs 4 = ctx ∧ s.regs 5 = arg₁ ∧
      s.regs 29 = .ofNat 32 (ssSp + ssSize / 4 * 4) ∧ s.regs 31 = t.regs 31 ∧ s.mem = t.mem ∧
      ∀ r ∈ kept, r ≠ 4 → r ≠ 5 → r ≠ 29 → s.regs r = (restored before t).regs r := by
  let fields : List (Nat × Word 4) :=
    [(24, ctx), (28, arg₁), (124, .ofNat 32 (ssSp + ssSize / 4 * 4)), (132, fn)]
  have hstored : makecontext m mc ssSp ssSize fn [ctx, arg₁] = storeFields mc fields m := rfl
  have hrecord : ∀ off ∈ offsets, loadWord 4 t.mem (mc + off) =
      if off ∈ ([24, 28, 124, 132] : List Nat) then fieldAt fields off else before off := by
    intro off hoff
    rw [hstored] at hkept
    exact loadWord_restored rfl (by decide) laidOut.2 (by decide) hbefore hkept hoff
  have hrun := setmcontext_run (by rw [harg]; exact hmc) (by rw [harg]; exact hrecord)
  intro s
  rw [show s = _ from hrun]
  refine ⟨rfl, rfl, rfl, rfl, rfl, rfl, ?_⟩
  intro r hr h4 h5 h29
  fin_cases hr <;> first | rfl | contradiction

end Mips

namespace Power

def makecontext (m : Nat → UInt8) (mc ssSp ssSize : Nat) (func : Word 4) (args : List (Word 4)) :
    Nat → UInt8 :=
  let tos := ssSp + ssSize / 4 * 4
  let sp : Word 4 := .ofNat 32 (tos - 16 * 4)
  let m := storeWord m mc func
  let m := storeWord m (mc + 16) sp
  storeWord m (mc + 24) (args.headD 0)

/-- The entry of a task has its place, and not the second argument: what is in `r4` is the
caller's of `setcontext`. -/
theorem makecontext_entry {m : Nat → UInt8} {mc ssSp ssSize : Nat} {func ctx arg₁ : Word 4}
    {t : State Reg 4} {before : Nat → Word 4} (hmc : mc + extent ≤ 2 ^ 32)
    (hbefore : ∀ off ∈ offsets, loadWord 4 m (mc + off) = before off)
    (harg : (t.regs (.r 3)).toNat = mc)
    (hkept : ∀ i < extent, t.mem (mc + i) = makecontext m mc ssSp ssSize func [ctx, arg₁] (mc + i)) :
    let s := setmcontext.run t
    s.pc = func ∧ s.regs (.r 3) = ctx ∧ s.regs (.r 4) = t.regs (.r 4) ∧
      s.regs (.r 1) = .ofNat 32 (ssSp + ssSize / 4 * 4 - 64) ∧ s.regs .lr = func ∧
      s.mem = t.mem ∧
      ∀ i, 13 ≤ i → s.regs (.r i) = (restored before t).regs (.r i) := by
  let fields : List (Nat × Word 4) :=
    [(0, func), (16, .ofNat 32 (ssSp + ssSize / 4 * 4 - 64)), (24, ctx)]
  have hstored : makecontext m mc ssSp ssSize func [ctx, arg₁] = storeFields mc fields m := rfl
  have hrecord : ∀ off ∈ offsets, loadWord 4 t.mem (mc + off) =
      if off ∈ ([0, 16, 24] : List Nat) then fieldAt fields off else before off := by
    intro off hoff
    rw [hstored] at hkept
    exact loadWord_restored rfl (by decide) laidOut.2 (by decide) hbefore hkept hoff
  have hrun := setmcontext_run (by rw [harg]; exact hmc) (by rw [harg]; exact hrecord)
  intro s
  rw [show s = _ from hrun]
  refine ⟨rfl, rfl, rfl, rfl, rfl, rfl, ?_⟩
  intro i hi
  fin_cases i <;> first | rfl | contradiction

end Power

end EventLoop.Task
