import Mathlib.Algebra.Ring.Int.Defs
import Mathlib.Tactic.Common

/-!
Where `make_task` of `context.c` puts the stack of a task. One block holds the context and the
stack behind it. The base is moved up to a multiple of 8; the size is then made smaller by what
is missing to the next multiple of 8, which is a multiple of 8 again only if it was one of 4.
-/

namespace EventLoop.Task

/-- `uc_stack` -/
structure UcStack where
  ssSp : Nat
  ssSize : Nat
deriving DecidableEq, Repr

def defaultTaskStackSize : Int := 16384

/-- `sizeof(unsigned int)`, what a step of `func_stack` is. -/
def stackWord : Nat := 4

/-- The alignment of `ss_sp` for STACKBASE, with what is left of `stkSize`. -/
def alignStackBase (ssSp : Nat) (stkSize : Int) : Nat × Int :=
  if ssSp % 8 ≠ 0 then (ssSp + (8 - ssSp % 8), stkSize - (8 - ssSp % 8 : Nat))
  else (ssSp, stkSize)

/-- The alignment of `stkSize` for STACKTOP. -/
def alignStackTop (stkSize : Int) : Int :=
  if stkSize % 8 ≠ 0 then stkSize - (8 - stkSize % 8) else stkSize

/-- The conversion to `size_t`. -/
def toSizeT (n : Int) : Nat := (n % 2 ^ 64).toNat

/-- The stack that `make_task` configures in the block at `taskCtx`; `none` for a context
without one. -/
def makeTaskStack (sizeofBaseTaskCtx : Nat) (startRoutine : Bool) (ctxSize stkSize : Int32)
    (taskCtx : Nat) : Option UcStack :=
  let ctxSize := if ctxSize = 0 then (sizeofBaseTaskCtx : Int) else ctxSize.toInt
  let stkSize := if startRoutine ∧ stkSize = 0 then defaultTaskStackSize else stkSize.toInt
  let funcStack := taskCtx + ctxSize.toNat
  if 0 < stkSize ∧ startRoutine then
    let (ssSp, stkSize) := alignStackBase (funcStack + 8 * stackWord) stkSize
    let stkSize := alignStackTop stkSize
    some ⟨ssSp, toSizeT (stkSize - 64)⟩
  else none

/-- The stack is in the block of so many bytes behind the context, is not empty, and begins and
ends at multiples of 8. -/
structure StackPlaced (taskCtx ctxSize stkSize : Nat) (uc : UcStack) : Prop where
  beyondContext : taskCtx + ctxSize ≤ uc.ssSp
  inBlock : uc.ssSp + uc.ssSize ≤ taskCtx + (ctxSize + stkSize)
  nonempty : 0 < uc.ssSize
  base : uc.ssSp % 8 = 0
  top : (uc.ssSp + uc.ssSize) % 8 = 0

variable {sizeofBaseTaskCtx : Nat} {ctxSize stkSize : Int32}

theorem alignStackBase_eq (ssSp : Nat) (stkSize : Int) :
    ∃ shift < 8, (ssSp + shift) % 8 = 0 ∧
      alignStackBase ssSp stkSize = (ssSp + shift, stkSize - (shift : Nat)) := by
  rw [alignStackBase]
  split
  · refine ⟨8 - ssSp % 8, by omega, by omega, rfl⟩
  · refine ⟨0, by omega, by omega, ?_⟩
    rw [Nat.add_zero, Int.natCast_zero, Int.sub_zero]

/-- The size becomes smaller by less than 8. -/
theorem alignStackTop_bounds (stkSize : Int) :
    stkSize - 8 < alignStackTop stkSize ∧ alignStackTop stkSize ≤ stkSize := by
  rw [alignStackTop]
  split <;> omega

theorem alignStackTop_mod_iff (stkSize : Int) :
    alignStackTop stkSize % 8 = 0 ↔ stkSize % 4 = 0 := by
  rw [alignStackTop]
  split <;> omega

theorem toSizeT_of_lt {n : Int} (hnonneg : 0 ≤ n) (hlt : n < 2 ^ 64) : toSizeT n = n.toNat := by
  rw [toSizeT, Int.emod_eq_of_lt hnonneg hlt]

/-- For a task with a start routine the stack begins up to 7 bytes above the eighth word. -/
theorem makeTaskStack_eq (hctxSize : (sizeofBaseTaskCtx : Int) ≤ ctxSize.toInt)
    (hstkSize : 0 < stkSize.toInt) (taskCtx : Nat) :
    ∃ shift < 8, (taskCtx + ctxSize.toInt.toNat + 32 + shift) % 8 = 0 ∧
      makeTaskStack sizeofBaseTaskCtx true ctxSize stkSize taskCtx =
        some ⟨taskCtx + ctxSize.toInt.toNat + 32 + shift,
          toSizeT (alignStackTop (stkSize.toInt - (shift : Nat)) - 64)⟩ := by
  have hstk : ¬ (stkSize = 0) := by
    rintro rfl
    exact absurd hstkSize (by decide)
  have hctx : (if ctxSize = 0 then (sizeofBaseTaskCtx : Int) else ctxSize.toInt) =
      ctxSize.toInt := by
    split
    · rename_i hzero
      subst hzero
      exact Int.le_antisymm hctxSize (Int.natCast_nonneg _)
    · rfl
  obtain ⟨shift, hshift, hbase, hadjusted⟩ :=
    alignStackBase_eq (taskCtx + ctxSize.toInt.toNat + 32) stkSize.toInt
  have hword : 8 * stackWord = 32 := rfl
  refine ⟨shift, hshift, hbase, ?_⟩
  rw [makeTaskStack]
  simp only [hctx, hstk, and_false, if_false, hword, hadjusted]
  exact if_pos ⟨hstkSize, trivial⟩

/-- With a size of at least 128 the stack is in its place, and its base at a multiple of 8; its
top is at one exactly if the block ends at a multiple of 4. -/
theorem makeTaskStack_placed_iff (sizeofBaseTaskCtx taskCtx : Nat) {ctxSize stkSize : Int32}
    (hctxSize : (sizeofBaseTaskCtx : Int) ≤ ctxSize.toInt) (hstkSize : 128 ≤ stkSize.toInt) :
    ∃ uc, makeTaskStack sizeofBaseTaskCtx true ctxSize stkSize taskCtx = some uc ∧
      (StackPlaced taskCtx ctxSize.toInt.toNat stkSize.toInt.toNat uc ↔
        (taskCtx + ctxSize.toInt + stkSize.toInt) % 4 = 0) := by
  have hpos : 0 < stkSize.toInt := Int.lt_of_lt_of_le (by decide) hstkSize
  obtain ⟨shift, hshift, hbase, huc⟩ := makeTaskStack_eq hctxSize hpos taskCtx
  have hbounds := alignStackTop_bounds (stkSize.toInt - (shift : Nat))
  have hmod := alignStackTop_mod_iff (stkSize.toInt - (shift : Nat))
  have hint := stkSize.toInt_lt
  have hsize := @toSizeT_of_lt (alignStackTop (stkSize.toInt - (shift : Nat)) - 64)
    (by omega) (by omega)
  refine ⟨_, huc, ?_⟩
  rw [hsize]
  constructor
  · intro hplaced
    have htop := hplaced.top
    dsimp only at htop
    omega
  · intro hend
    constructor
    · exact Nat.le_trans (Nat.le_add_right _ 32) (Nat.le_add_right _ shift)
    all_goals
      dsimp only
      omega

/-- `sizeof(baseTaskCtx)` on x86-64, where a `ucontext_t` has 968 bytes. -/
def sizeofBaseTaskCtxAmd64 : Nat := 1112

/-- A block at 4096 with a context of that size, and a stack of 128: all is in its place. -/
theorem evenStack_placed :
    ∃ uc, makeTaskStack sizeofBaseTaskCtxAmd64 true 1112 128 4096 = some uc ∧
      StackPlaced 4096 1112 128 uc := by
  obtain ⟨uc, huc, hplaced⟩ := makeTaskStack_placed_iff sizeofBaseTaskCtxAmd64 4096
    (show (sizeofBaseTaskCtxAmd64 : Int) ≤ (1112 : Int32).toInt by decide)
    (show 128 ≤ (128 : Int32).toInt by decide)
  exact ⟨uc, huc, hplaced.mpr (by decide)⟩

/-- With a size of 129 the top is 2 bytes above a multiple of 8. -/
theorem oddStack_not_placed :
    ∃ uc, makeTaskStack sizeofBaseTaskCtxAmd64 true 1112 129 4096 = some uc ∧
      ¬ StackPlaced 4096 1112 129 uc :=
  ⟨⟨5240, 58⟩, by decide, fun h => absurd h.top (by decide)⟩

end EventLoop.Task
