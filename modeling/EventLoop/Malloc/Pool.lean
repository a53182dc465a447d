import EventLoop.Lib.ByteMemory
import EventLoop.Lib.Occupancy
import EventLoop.Lib.Runs
import Mathlib.Data.List.FinRange
import Mathlib.Data.List.ProdSigma
import Mathlib.Data.Fintype.Prod

/-!
The allocator of `tdxagwDbgMalloc.cpp`, which serves requests of three sizes from pools of
blocks that it keeps and all others from the heap.
-/

namespace EventLoop.Malloc

open EventLoop.ByteMemory EventLoop.Occupancy

/-- Bytes that `malloc` gave and `free` has not taken back. -/
structure Block where
  base : Nat
  size : Nat
deriving Repr, DecidableEq

def Block.Apart (b c : Block) : Prop := b.base + b.size ≤ c.base ∨ c.base + c.size ≤ b.base

/-- `malloc`: what it returns, 0 for `NULL`, where it has been called so many times before and
these blocks are allocated. -/
abbrev Heap := Nat → List Block → Nat → Nat

/-- A block that `malloc` returns is no part of one that is allocated. -/
def Heap.Fresh (malloc : Heap) : Prop :=
  ∀ calls blocks size, malloc calls blocks size ≠ 0 →
    ∀ b ∈ blocks, Block.Apart ⟨malloc calls blocks size, size⟩ b

def poolSlots : Nat := 1024

/-- The first index of the tables, by the requests that the pool serves. -/
inductive PoolId where
  | of92
  | of12
  | of26
deriving Repr, DecidableEq

def poolIds : List PoolId := [.of92, .of12, .of26]

theorem mem_poolIds (poolId : PoolId) : poolId ∈ poolIds := by
  cases poolId <;> decide

theorem nodup_poolIds : poolIds.Nodup := by decide

instance : Fintype PoolId := ⟨⟨poolIds, nodup_poolIds⟩, mem_poolIds⟩

/-- `[i][j]` of the tables. -/
abbrev Slot := PoolId × Fin poolSlots

/-- The allocator's variables, with the memory and what the heap has given. -/
structure Allocator where
  memory : Nat → UInt8
  blocks : List Block
  calls : Nat
  initOneAlloc : Bool
  poolBufs : Slot → Nat
  poolUses : Slot → Nat
  poolIdxs : PoolId → Nat

def Allocator.start (memory : Nat → UInt8) : Allocator :=
  ⟨memory, [], 0, true, fun _ => 0, fun _ => 0, fun _ => 0⟩

/-- `TALLOC_GET_ADJUSTEDSIZE` -/
def adjustedSize (size : UInt64) : UInt64 := (size + 1023) / 1024 * 1024

/-- `TALLOC_GET_REALSIZE` -/
def realSize (size : UInt64) : UInt64 := adjustedSize size + 12

/-- `TALLOC_GET_REALBASE` -/
def realBase (ptr : Nat) : Nat := ptr - 12

/-- `TALLOC_SET_SIZE` -/
def setSize (memory : Nat → UInt8) (ptr0 : Nat) (size : UInt64) : Nat → UInt8 :=
  write memory ptr0 (wordBytes 4 size.toUInt32.toNat ++
    wordBytes 4 (adjustedSize size).toUInt32.toNat)

/-- `TALLOC_GET_SIZE_DIRECT` -/
def recordedSize (a : Allocator) (ptr : Nat) : Nat := readWord 4 a.memory (realBase ptr)

section

variable (malloc : Heap)

def tmalloc (a : Allocator) (size : UInt64) : Allocator × Nat :=
  let ptr0 := malloc a.calls a.blocks (realSize size).toNat
  let a := { a with calls := a.calls + 1 }
  if ptr0 = 0 then (a, 0)
  else
    ({ a with
        memory := setSize a.memory ptr0 size
        blocks := ⟨ptr0, (realSize size).toNat⟩ :: a.blocks }, ptr0 + 12)

def tfree (a : Allocator) (ptr : Nat) : Allocator :=
  if ptr = 0 then a else { a with blocks := a.blocks.filter (·.base ≠ realBase ptr) }

/-- `get_pool_num` -/
def getPoolNum (size : UInt64) : Option (PoolId) :=
  if size.toNat = 92 then some .of92
  else if size.toNat = 12 then some .of12
  else if size.toNat = 26 then some .of26
  else none

/-- `(poolIdx+j)%1024` -/
def probe (poolIdx j : Nat) : Fin poolSlots := ⟨(poolIdx + j) % poolSlots, Nat.mod_lt _ (by decide)⟩

def Allocator.setIdx (a : Allocator) (poolId : PoolId) (poolIdx : Nat) : Allocator :=
  { a with poolIdxs := Function.update a.poolIdxs poolId poolIdx }

def Allocator.setUse (a : Allocator) (slot : Slot) (use : Nat) : Allocator :=
  { a with poolUses := Function.update a.poolUses slot use }

def tpoolAlloc (a : Allocator) (size : UInt64) : Allocator × Nat :=
  match getPoolNum size with
  | none => tmalloc malloc a size
  | some poolId =>
      if a.initOneAlloc then tmalloc malloc a size
      else
        let poolIdx := a.poolIdxs poolId
        let a := a.setIdx poolId ((poolIdx + 1) % poolSlots)
        match (List.range poolSlots).find? (fun j => a.poolUses (poolId, probe poolIdx j) = 0) with
        | some j =>
            ((a.setUse (poolId, probe poolIdx j) 1).setIdx poolId ((poolIdx + j + 1) % poolSlots),
              a.poolBufs (poolId, probe poolIdx j))
        | none => tmalloc malloc a size

/-- The slots in the order in which the loops over the tables go through them. -/
def slots : List Slot := poolIds ×ˢ List.finRange poolSlots

def tpoolFree (a : Allocator) (ptr : Nat) : Allocator :=
  if a.initOneAlloc then tfree a ptr
  else
    match slots.find? (fun slot => ptr = a.poolBufs slot) with
    | some slot => a.setUse slot 0
    | none => tfree a ptr

def tpoolCalloc (a : Allocator) (size : UInt64) : Allocator × Nat :=
  let (a, ptr) := tpoolAlloc malloc a size
  if ptr = 0 then (a, 0)
  else ({ a with memory := write a.memory ptr (List.replicate size.toNat 0) }, ptr)

def tpoolRealloc (a : Allocator) (oldPtr : Nat) (newSize : UInt64) : Allocator × Nat :=
  if oldPtr = 0 then tpoolAlloc malloc a newSize
  else
    let oldSize := recordedSize a oldPtr
    let (a, newPtr) := tpoolAlloc malloc a newSize
    if newPtr = 0 then (tpoolFree a oldPtr, 0)
    else
      let a := { a with memory := write a.memory newPtr (read a.memory oldPtr oldSize) }
      (tpoolFree a oldPtr, newPtr)

/-- What `tinit_pool` asks the heap for, for each slot of a pool. -/
def slotSize (poolId : PoolId) : UInt64 :=
  match poolId with
  | .of92 => 92
  | .of12 => 12
  | .of26 => 25

def initSlot (a : Allocator) (slot : Slot) : Allocator :=
  let (a, ptr) := tmalloc malloc a (slotSize slot.1)
  { a with
      poolBufs := Function.update a.poolBufs slot ptr
      poolUses := Function.update a.poolUses slot 0 }

def tinitPool (a : Allocator) : Allocator := slots.foldl (initSlot malloc) a

/-- What each of the four functions begins with. -/
def initialised (a : Allocator) : Allocator :=
  if a.initOneAlloc then { tinitPool malloc a with initOneAlloc := false } else a

def myMalloc (a : Allocator) (size : UInt64) : Allocator × Nat :=
  tpoolAlloc malloc (initialised malloc a) size

def myFree (a : Allocator) (ptr : Nat) : Allocator := tpoolFree (initialised malloc a) ptr

def myRealloc (a : Allocator) (oldPtr : Nat) (newSize : UInt64) : Allocator × Nat :=
  tpoolRealloc malloc (initialised malloc a) oldPtr newSize

def myCalloc (a : Allocator) (nmemb size : UInt64) : Allocator × Nat :=
  tpoolCalloc malloc (initialised malloc a) (nmemb * size)

end

/-- A block that was handed out for a request of so many bytes and not freed since. -/
structure LiveBlock where
  ptr : Nat
  requested : Nat
deriving Repr, DecidableEq

/-- The allocator in a program that uses it. -/
structure Program where
  allocator : Allocator
  live : List LiveBlock

def Program.start (memory : Nat → UInt8) : Program := ⟨.start memory, []⟩

/-- The pointers to the live blocks. -/
def Program.ptrs (p : Program) : List Nat := p.live.map LiveBlock.ptr

def Program.without (p : Program) (ptr : Nat) : List LiveBlock := p.live.filter (·.ptr ≠ ptr)

/-- The program with the result of a request, a live block unless it is `NULL`. -/
def handOut (result : Allocator × Nat) (live : List LiveBlock) (requested : Nat) : Program :=
  ⟨result.1, if result.2 = 0 then live else ⟨result.2, requested⟩ :: live⟩

/-- The calls of a program, and its stores into the blocks that it has. -/
inductive Call where
  | malloc (size : UInt64)
  | calloc (nmemb size : UInt64)
  | realloc (oldPtr : Nat) (newSize : UInt64)
  | free (ptr : Nat)
  | store (ptr offset : Nat) (byte : UInt8)
deriving Repr, DecidableEq

/-- Only live blocks and `NULL` are reallocated and freed. A reallocation frees the old block
whether it succeeds or not. -/
def step (malloc : Heap) (p : Program) : Call → Option Program
  | .malloc size => some (handOut (myMalloc malloc p.allocator size) p.live size.toNat)
  | .calloc nmemb size =>
      some (handOut (myCalloc malloc p.allocator nmemb size) p.live (nmemb.toNat * size.toNat))
  | .realloc oldPtr newSize =>
      if oldPtr = 0 ∨ oldPtr ∈ p.ptrs then
        some (handOut (myRealloc malloc p.allocator oldPtr newSize) (p.without oldPtr)
          newSize.toNat)
      else none
  | .free ptr =>
      if ptr = 0 ∨ ptr ∈ p.ptrs then some ⟨myFree malloc p.allocator ptr, p.without ptr⟩ else none
  | .store ptr offset byte =>
      if ∃ block ∈ p.live, block.ptr = ptr ∧ offset < block.requested then
        some { p with allocator.memory := write p.allocator.memory (ptr + offset) [byte] }
      else none

/-- `ptr` points behind the header of an allocated block, to so many bytes. -/
def Allocated (blocks : List Block) (ptr size : Nat) : Prop :=
  ∃ base, ptr = base + 12 ∧ ⟨base, size + 12⟩ ∈ blocks

theorem toNat_adjustedSize (size : UInt64) :
    (adjustedSize size).toNat = (size.toNat + 1023) % 2 ^ 64 / 1024 * 1024 := by
  rw [adjustedSize, UInt64.toNat_mul, UInt64.toNat_div, UInt64.toNat_add]
  simp only [UInt64.reduceToNat]
  omega

theorem toNat_realSize (size : UInt64) :
    (realSize size).toNat = (adjustedSize size).toNat + 12 := by
  rw [realSize, UInt64.toNat_add, toNat_adjustedSize]
  simp only [UInt64.reduceToNat]
  omega

theorem Allocated.ne_zero {blocks : List Block} {ptr size : Nat} (h : Allocated blocks ptr size) :
    ptr ≠ 0 := by
  obtain ⟨base, rfl, -⟩ := h
  exact Nat.succ_ne_zero _

theorem Allocated.mono {blocks : List Block} {ptr size : Nat} (h : Allocated blocks ptr size)
    {more : List Block} (hsub : ∀ b ∈ blocks, b ∈ more) : Allocated more ptr size := by
  obtain ⟨base, hptr, hmem⟩ := h
  exact ⟨base, hptr, hsub _ hmem⟩

/-- A block that is no part of an allocated one has another pointer. -/
theorem Allocated.ne_fresh {blocks : List Block} {ptr size base real : Nat}
    (h : Allocated blocks ptr size) (hfresh : ∀ b ∈ blocks, Block.Apart ⟨base, real⟩ b)
    (hreal : 12 ≤ real) : ptr ≠ base + 12 := by
  obtain ⟨other, rfl, hmem⟩ := h
  have hapart := hfresh _ hmem
  dsimp only [Block.Apart] at hapart
  omega

/-- Freeing a block leaves the others. -/
theorem Allocated.free {blocks : List Block} {ptr size freed : Nat}
    (h : Allocated blocks ptr size) (hne : ptr ≠ freed) (hfreed : 12 ≤ freed) :
    Allocated (blocks.filter (·.base ≠ realBase freed)) ptr size := by
  obtain ⟨base, rfl, hmem⟩ := h
  refine ⟨base, rfl, List.mem_filter.mpr ⟨hmem, decide_eq_true ?_⟩⟩
  dsimp only [realBase]
  omega

/-- What `tmalloc` does: nothing is allocated, or a block and its header. -/
theorem tmalloc_cases (malloc : Heap) (a : Allocator) (size : UInt64) :
    (malloc a.calls a.blocks (realSize size).toNat = 0 ∧
      tmalloc malloc a size = ({ a with calls := a.calls + 1 }, 0)) ∨
    ∃ base, base ≠ 0 ∧ malloc a.calls a.blocks (realSize size).toNat = base ∧
      tmalloc malloc a size =
        ({ a with
            calls := a.calls + 1
            memory := setSize a.memory base size
            blocks := ⟨base, (adjustedSize size).toNat + 12⟩ :: a.blocks }, base + 12) := by
  rcases eq_or_ne (malloc a.calls a.blocks (realSize size).toNat) 0 with hnull | hbase
  · refine .inl ⟨hnull, ?_⟩
    rw [tmalloc]
    dsimp only
    rw [if_pos hnull]
  · refine .inr ⟨_, hbase, rfl, ?_⟩
    rw [tmalloc]
    dsimp only
    rw [if_neg hbase, toNat_realSize]

theorem mem_slots (slot : Slot) : slot ∈ slots :=
  List.mem_product.mpr ⟨mem_poolIds _, List.mem_finRange _⟩

theorem nodup_slots : slots.Nodup :=
  nodup_poolIds.product (List.nodup_finRange poolSlots)

attribute [irreducible] slots

/-- `malloc` returns a block for each slot. -/
def Heap.ServesPools (malloc : Heap) : Prop :=
  ∀ memory slot, (tinitPool malloc (.start memory)).poolBufs slot ≠ 0

/-- The slots that `tinit_pool` has filled so far. -/
structure Filled (done : List Slot) (a : Allocator) : Prop where
  uses : a.poolUses = fun _ => 0
  idxs : a.poolIdxs = fun _ => 0
  apart : a.blocks.Pairwise Block.Apart
  allocated : ∀ slot ∈ done, Allocated a.blocks (a.poolBufs slot) 1024
  injective : ∀ s ∈ done, ∀ t ∈ done, a.poolBufs s = a.poolBufs t → s = t
  recorded : ∀ slot ∈ done, recordedSize a (a.poolBufs slot) = (slotSize slot.1).toNat

theorem adjustedSize_slotSize (poolId : PoolId) : adjustedSize (slotSize poolId) = 1024 :=
  match poolId with
  | .of92 => rfl
  | .of12 => rfl
  | .of26 => rfl

theorem slotSize_lt (poolId : PoolId) : (slotSize poolId).toNat < 2 ^ 32 :=
  match poolId with
  | .of92 => by decide
  | .of12 => by decide
  | .of26 => by decide

/-- A new block's header is what the allocator recorded in it. -/
theorem recordedSize_setSize (a : Allocator) (base : Nat) (size : UInt64) :
    recordedSize { a with memory := setSize a.memory base size } (base + 12) =
      size.toNat % 2 ^ 32 := by
  have hword := @read_write_part a.memory base 4
    (wordBytes 4 size.toUInt32.toNat ++ wordBytes 4 (adjustedSize size).toUInt32.toNat) 0
    (by simp)
  rw [Nat.add_zero, List.drop_zero, List.take_left' (length_wordBytes 4 _)] at hword
  rw [recordedSize, realBase, Nat.add_sub_cancel, readWord, setSize, hword,
    wordOf_wordBytes (Nat.lt_of_lt_of_le size.toUInt32.toNat_lt (by decide)), UInt64.toNat_toUInt32]

/-- A write outside its header leaves what is recorded in a block. -/
theorem recordedSize_write {a : Allocator} {ptr p : Nat} {bytes : List UInt8}
    (h : realBase ptr + 4 ≤ p ∨ p + bytes.length ≤ realBase ptr) :
    recordedSize { a with memory := write a.memory p bytes } ptr = recordedSize a ptr :=
  readWord_congr (read_write_of_disjoint h)

theorem length_setSize (size : UInt64) :
    (wordBytes 4 size.toUInt32.toNat ++ wordBytes 4 (adjustedSize size).toUInt32.toNat).length =
      8 := by
  simp

/-- A new block's header is no part of another one's. -/
theorem recordedSize_other {a : Allocator} {ptr size base real : Nat}
    (h : Allocated a.blocks ptr size) (hapart : ∀ b ∈ a.blocks, Block.Apart ⟨base, real + 12⟩ b)
    (requested : UInt64) :
    recordedSize { a with memory := setSize a.memory base requested } ptr = recordedSize a ptr := by
  refine recordedSize_write ?_
  rw [length_setSize]
  obtain ⟨other, rfl, hblock⟩ := h
  have hblocks := hapart _ hblock
  dsimp only [Block.Apart] at hblocks
  dsimp only [realBase]
  omega

theorem initSlot_of_ne (malloc : Heap) (a : Allocator) {slot other : Slot} (hne : other ≠ slot) :
    (initSlot malloc a slot).poolBufs other = a.poolBufs other := by
  have htmalloc : (tmalloc malloc a (slotSize slot.1)).1.poolBufs = a.poolBufs := by
    unfold tmalloc
    dsimp only
    split <;> rfl
  exact (Function.update_of_ne hne _ _).trans (congrFun htmalloc other)

theorem foldl_initSlot_of_not_mem (malloc : Heap) {rest : List Slot} {slot : Slot}
    (hslot : slot ∉ rest) (a : Allocator) :
    (rest.foldl (initSlot malloc) a).poolBufs slot = a.poolBufs slot := by
  induction rest generalizing a with
  | nil => rfl
  | cons other rest ih =>
      rw [List.mem_cons, not_or] at hslot
      rw [List.foldl_cons, ih hslot.2, initSlot_of_ne malloc a hslot.1]

theorem Filled.next {malloc : Heap} (hfresh : malloc.Fresh) {done : List Slot} {a : Allocator}
    (h : Filled done a) {slot : Slot} (hslot : slot ∉ done)
    (hserved : (initSlot malloc a slot).poolBufs slot ≠ 0) :
    Filled (slot :: done) (initSlot malloc a slot) := by
  rcases tmalloc_cases malloc a (slotSize slot.1) with
    ⟨-, htmalloc⟩ | ⟨base, hnonnull, hbase, htmalloc⟩
  · rw [initSlot, htmalloc] at hserved
    exact absurd (Function.update_self ..) hserved
  have hsize : (realSize (slotSize slot.1)).toNat = 1024 + 12 := by
    rw [toNat_realSize, adjustedSize_slotSize]
    rfl
  have hapart : ∀ b ∈ a.blocks, Block.Apart ⟨base, 1024 + 12⟩ b := by
    intro b hb
    have hnew := hfresh a.calls a.blocks (realSize (slotSize slot.1)).toNat
      (fun hnull => hnonnull (hbase.symm.trans hnull)) b hb
    rwa [hbase, hsize] at hnew
  rw [adjustedSize_slotSize] at htmalloc
  have hnew : initSlot malloc a slot =
      { a with
          calls := a.calls + 1
          memory := setSize a.memory base (slotSize slot.1)
          blocks := ⟨base, 1024 + 12⟩ :: a.blocks
          poolBufs := Function.update a.poolBufs slot (base + 12)
          poolUses := Function.update a.poolUses slot 0 } := by
    rw [initSlot, htmalloc]
    rfl
  have hother (other : Slot) (hdone : other ∈ done) : other ≠ slot :=
    fun heq => hslot (heq ▸ hdone)
  have hne (other : Slot) (hdone : other ∈ done) : a.poolBufs other ≠ base + 12 :=
    (h.allocated other hdone).ne_fresh hapart (by decide)
  rw [hnew]
  refine ⟨?_, h.idxs, List.pairwise_cons.mpr ⟨hapart, h.apart⟩, ?_, ?_, ?_⟩
  · dsimp only
    rw [h.uses]
    exact Function.update_eq_self slot _
  · intro other hmem
    rcases List.mem_cons.mp hmem with rfl | hdone
    · exact ⟨base, Function.update_self .., List.mem_cons_self ..⟩
    · dsimp only
      rw [Function.update_of_ne (hother other hdone)]
      exact (h.allocated other hdone).mono (fun b hb => List.mem_cons_of_mem _ hb)
  · intro s hs t ht heq
    dsimp only at heq
    rcases List.mem_cons.mp hs with rfl | hsdone
    · rcases List.mem_cons.mp ht with rfl | htdone
      · rfl
      · rw [Function.update_self, Function.update_of_ne (hother t htdone)] at heq
        exact absurd heq.symm (hne t htdone)
    · rw [Function.update_of_ne (hother s hsdone)] at heq
      rcases List.mem_cons.mp ht with rfl | htdone
      · rw [Function.update_self] at heq
        exact absurd heq (hne s hsdone)
      · rw [Function.update_of_ne (hother t htdone)] at heq
        exact h.injective s hsdone t htdone heq
  · intro other hmem
    rcases List.mem_cons.mp hmem with rfl | hdone
    · dsimp only
      rw [Function.update_self]
      refine (recordedSize_setSize a base (slotSize other.1)).trans ?_
      exact Nat.mod_eq_of_lt (slotSize_lt other.1)
    · dsimp only
      rw [Function.update_of_ne (hother other hdone), ← h.recorded other hdone]
      exact recordedSize_other (h.allocated other hdone) hapart (slotSize slot.1)

theorem Filled.rest {malloc : Heap} (hfresh : malloc.Fresh) {rest done : List Slot}
    {a : Allocator} (h : Filled done a) (hrest : rest.Nodup)
    (hdisjoint : ∀ slot ∈ rest, slot ∉ done)
    (hserved : ∀ slot ∈ rest, (rest.foldl (initSlot malloc) a).poolBufs slot ≠ 0) :
    Filled (rest.reverse ++ done) (rest.foldl (initSlot malloc) a) := by
  induction rest generalizing done a with
  | nil => exact h
  | cons slot rest ih =>
      obtain ⟨hslot, hrest⟩ := List.nodup_cons.mp hrest
      have hfirst := hserved slot (List.mem_cons_self ..)
      rw [List.foldl_cons, foldl_initSlot_of_not_mem malloc hslot] at hfirst
      have hnext := h.next hfresh (hdisjoint slot (List.mem_cons_self ..)) hfirst
      have hapart : ∀ other ∈ rest, other ∉ slot :: done := by
        intro other hother hmem
        rcases List.mem_cons.mp hmem with rfl | hdone
        · exact hslot hother
        · exact hdisjoint other (List.mem_cons_of_mem _ hother) hdone
      rw [List.reverse_cons, List.append_assoc]
      exact ih hnext hrest hapart (fun other hother => hserved other (List.mem_cons_of_mem _ hother))

/-- After `tinit_pool` every slot has a block. -/
theorem filled_tinitPool {malloc : Heap} (hfresh : malloc.Fresh) (hserves : malloc.ServesPools)
    (memory : Nat → UInt8) :
    Filled (slots.reverse ++ []) (tinitPool malloc (.start memory)) := by
  have hstart : Filled [] (.start memory) :=
    ⟨rfl, rfl, .nil, fun _ h => absurd h List.not_mem_nil,
      fun _ h => absurd h List.not_mem_nil, fun _ h => absurd h List.not_mem_nil⟩
  exact hstart.rest hfresh nodup_slots (fun _ _ => List.not_mem_nil)
    (fun slot _ => hserves memory slot)

/-- The allocator once it is initialised: the slots have blocks of their own, and so have the
live blocks that are not in the pools. -/
structure Sound (p : Program) : Prop where
  ready : p.allocator.initOneAlloc = false
  inStep : InStep p.allocator.poolBufs p.allocator.poolUses p.ptrs
  injective : Function.Injective p.allocator.poolBufs
  idxs : ∀ i, p.allocator.poolIdxs i < poolSlots
  apart : p.allocator.blocks.Pairwise Block.Apart
  slotBlock : ∀ slot, Allocated p.allocator.blocks (p.allocator.poolBufs slot) 1024
  liveBlock : ∀ ptr ∈ p.ptrs, ∃ size, Allocated p.allocator.blocks ptr size

theorem initialised_start (malloc : Heap) (memory : Nat → UInt8) :
    initialised malloc (.start memory) =
      { tinitPool malloc (.start memory) with initOneAlloc := false } :=
  if_pos (show (Allocator.start memory).initOneAlloc = true from rfl)

theorem mem_reverse_slots (slot : Slot) : slot ∈ slots.reverse ++ [] := by
  rw [List.append_nil, List.mem_reverse]
  exact mem_slots slot

theorem Filled.sound {a : Allocator} (h : Filled (slots.reverse ++ []) a) :
    Sound ⟨{ a with initOneAlloc := false }, []⟩ := by
  refine ⟨rfl, ?_, ?_, ?_, h.apart, fun slot => h.allocated slot (mem_reverse_slots slot),
    fun _ hptr => absurd hptr List.not_mem_nil⟩
  · dsimp only
    rw [h.uses]
    exact inStep_nil _
  · exact fun s t heq => h.injective s (mem_reverse_slots s) t (mem_reverse_slots t) heq
  · intro i
    dsimp only
    rw [h.idxs]
    exact Nat.zero_lt_succ 1023

theorem sound_initialised {malloc : Heap} (hfresh : malloc.Fresh) (hserves : malloc.ServesPools)
    (memory : Nat → UInt8) : Sound ⟨initialised malloc (.start memory), []⟩ := by
  rw [initialised_start]
  exact (filled_tinitPool hfresh hserves memory).sound

theorem initialised_of_ready (malloc : Heap) {a : Allocator} (h : a.initOneAlloc = false) :
    initialised malloc a = a := by
  rw [initialised, h]
  rfl

theorem ptrs_without (p : Program) (ptr : Nat) :
    (p.without ptr).map LiveBlock.ptr = p.ptrs.filter (· ≠ ptr) := by
  rw [Program.without, Program.ptrs, List.filter_map]
  rfl

/-- What `tpool_alloc` does: it takes a free slot of the size's pool, or where there is none
asks the heap. -/
theorem tpoolAlloc_cases (malloc : Heap) {a : Allocator} (hready : a.initOneAlloc = false)
    (size : UInt64) :
    ∃ idxs : PoolId → Nat, ((∀ i, a.poolIdxs i < poolSlots) → ∀ i, idxs i < poolSlots) ∧
      ((∃ slot : Slot, getPoolNum size = some slot.1 ∧ a.poolUses slot = 0 ∧
          tpoolAlloc malloc a size =
            ({ a with poolUses := Function.update a.poolUses slot 1, poolIdxs := idxs },
              a.poolBufs slot)) ∨
        ((∀ slot : Slot, getPoolNum size = some slot.1 → a.poolUses slot ≠ 0) ∧
          tpoolAlloc malloc a size = tmalloc malloc { a with poolIdxs := idxs } size)) := by
  have hmod (n : Nat) : n % poolSlots < poolSlots := Nat.mod_lt n (by decide)
  have hupdate {idxs : PoolId → Nat} (hidxs : ∀ i, idxs i < poolSlots) (poolId : PoolId) (n : Nat) :
      ∀ i, Function.update idxs poolId (n % poolSlots) i < poolSlots := by
    intro i
    rcases eq_or_ne i poolId with rfl | hne
    · rw [Function.update_self]
      exact hmod n
    · rw [Function.update_of_ne hne]
      exact hidxs i
  cases hpool : getPoolNum size with
  | none =>
      refine ⟨a.poolIdxs, fun h => h, .inr ⟨?_, ?_⟩⟩
      · intro slot h
        cases h
      · unfold tpoolAlloc
        rw [hpool]
  | some poolId =>
      rcases find?_cases (List.range poolSlots)
          (fun j => decide (a.poolUses (poolId, probe (a.poolIdxs poolId) j) = 0)) with
        ⟨j, hfind, hfree⟩ | ⟨hfind, hused⟩
      · refine ⟨_, fun h => hupdate (hupdate h poolId (a.poolIdxs poolId + 1)) poolId
          (a.poolIdxs poolId + j + 1),
          .inl ⟨(poolId, probe (a.poolIdxs poolId) j), rfl, of_decide_eq_true hfree, ?_⟩⟩
        unfold tpoolAlloc
        simp only [hpool, hready, Bool.false_eq_true, if_false, Allocator.setIdx,
          Allocator.setUse, hfind]
      · refine ⟨_, fun h => hupdate h poolId (a.poolIdxs poolId + 1), .inr ⟨?_, ?_⟩⟩
        · rintro ⟨id, i⟩ hid hfree
          obtain rfl : poolId = id := Option.some.inj hid
          obtain ⟨j, hj, hprobe⟩ := exists_probe (a.poolIdxs poolId) i.isLt
          have hi : probe (a.poolIdxs poolId) j = i := Fin.ext hprobe
          have hnot := of_decide_eq_false (hused j (List.mem_range.mpr hj))
          rw [hi] at hnot
          exact hnot hfree
        · unfold tpoolAlloc
          simp only [hpool, hready, Bool.false_eq_true, if_false, Allocator.setIdx, hfind]

/-- The outcomes of a request: a slot's block, nothing, or a new block of the heap. -/
inductive Allocation (malloc : Heap) (a : Allocator) (size : UInt64) : Allocator × Nat → Prop
  | pooled (slot : Slot) (idxs : PoolId → Nat) (hpool : getPoolNum size = some slot.1)
      (hfree : a.poolUses slot = 0) (hidxs : ∀ i, idxs i < poolSlots) :
      Allocation malloc a size
        ({ a with poolUses := Function.update a.poolUses slot 1, poolIdxs := idxs },
          a.poolBufs slot)
  | refused (idxs : PoolId → Nat)
      (hused : ∀ slot : Slot, getPoolNum size = some slot.1 → a.poolUses slot ≠ 0)
      (hnull : malloc a.calls a.blocks (realSize size).toNat = 0)
      (hidxs : ∀ i, idxs i < poolSlots) :
      Allocation malloc a size ({ a with poolIdxs := idxs, calls := a.calls + 1 }, 0)
  | heaped (base : Nat) (idxs : PoolId → Nat)
      (hmalloc : malloc a.calls a.blocks (realSize size).toNat ≠ 0)
      (hapart : ∀ b ∈ a.blocks, Block.Apart ⟨base, (adjustedSize size).toNat + 12⟩ b)
      (hidxs : ∀ i, idxs i < poolSlots) :
      Allocation malloc a size
        ({ a with
            poolIdxs := idxs
            calls := a.calls + 1
            memory := setSize a.memory base size
            blocks := ⟨base, (adjustedSize size).toNat + 12⟩ :: a.blocks }, base + 12)

theorem Sound.allocation {malloc : Heap} (hfresh : malloc.Fresh) {p : Program} (h : Sound p)
    (size : UInt64) :
    Allocation malloc p.allocator size (tpoolAlloc malloc p.allocator size) := by
  obtain ⟨idxs, hidxs, ⟨slot, hpool, hfree, halloc⟩ | ⟨hused, halloc⟩⟩ :=
    tpoolAlloc_cases malloc h.ready size
  · rw [halloc]
    exact .pooled slot idxs hpool hfree (hidxs h.idxs)
  · rw [halloc]
    rcases tmalloc_cases malloc { p.allocator with poolIdxs := idxs } size with
      ⟨hnull, htmalloc⟩ | ⟨base, hbase, hmalloc, htmalloc⟩
    · rw [htmalloc]
      exact .refused idxs hused hnull (hidxs h.idxs)
    · have hne : malloc p.allocator.calls p.allocator.blocks (realSize size).toNat ≠ 0 :=
        fun heq => hbase (hmalloc.symm.trans heq)
      have hnew := hfresh p.allocator.calls p.allocator.blocks (realSize size).toNat hne
      rw [show malloc p.allocator.calls p.allocator.blocks (realSize size).toNat = base
        from hmalloc, toNat_realSize] at hnew
      rw [htmalloc]
      exact .heaped base idxs hne hnew (hidxs h.idxs)

/-- A new block of the heap is no slot's and not live. -/
theorem Sound.fresh {p : Program} (h : Sound p) {base real : Nat}
    (hapart : ∀ b ∈ p.allocator.blocks, Block.Apart ⟨base, real + 12⟩ b) :
    (∀ slot, p.allocator.poolBufs slot ≠ base + 12) ∧ base + 12 ∉ p.ptrs := by
  constructor
  · exact fun slot => (h.slotBlock slot).ne_fresh hapart (Nat.le_add_left 12 real)
  · intro hmem
    obtain ⟨size, hblock⟩ := h.liveBlock _ hmem
    exact hblock.ne_fresh hapart (Nat.le_add_left 12 real) rfl

/-- A request keeps the invariant, whether it is served by a pool or by the heap. -/
theorem Sound.alloc {malloc : Heap} (hfresh : malloc.Fresh) {p : Program} (h : Sound p)
    (size : UInt64) (requested : Nat) :
    Sound (handOut (tpoolAlloc malloc p.allocator size) p.live requested) := by
  have houtcome := h.allocation hfresh size
  generalize tpoolAlloc malloc p.allocator size = result at houtcome ⊢
  cases houtcome with
  | pooled slot idxs hpool hfree hidxs =>
      rw [handOut, if_neg (h.slotBlock slot).ne_zero]
      refine ⟨h.ready, h.inStep.occupy h.injective hfree, h.injective, hidxs, h.apart,
        h.slotBlock, ?_⟩
      intro ptr hptr
      rcases List.mem_cons.mp hptr with rfl | hptr
      · exact ⟨_, h.slotBlock slot⟩
      · exact h.liveBlock ptr hptr
  | refused idxs hused hnull hidxs =>
      rw [handOut, if_pos rfl]
      exact ⟨h.ready, h.inStep, h.injective, hidxs, h.apart, h.slotBlock, h.liveBlock⟩
  | heaped base idxs hmalloc hapart hidxs =>
      obtain ⟨hforeign, hnew⟩ := h.fresh hapart
      have hgrows : ∀ b ∈ p.allocator.blocks,
          b ∈ ⟨base, (adjustedSize size).toNat + 12⟩ :: p.allocator.blocks :=
        fun b hb => List.mem_cons_of_mem _ hb
      rw [handOut, if_neg (Nat.succ_ne_zero _)]
      refine ⟨h.ready, h.inStep.handOut hforeign hnew, h.injective, hidxs,
        List.pairwise_cons.mpr ⟨hapart, h.apart⟩, fun slot => (h.slotBlock slot).mono hgrows, ?_⟩
      intro ptr hptr
      rcases List.mem_cons.mp hptr with rfl | hptr
      · exact ⟨_, base, rfl, List.mem_cons_self ..⟩
      · obtain ⟨size', hblock⟩ := h.liveBlock ptr hptr
        exact ⟨size', hblock.mono hgrows⟩

/-- The new block is none of the live ones. -/
theorem Sound.alloc_ne {malloc : Heap} (hfresh : malloc.Fresh) {p : Program} (h : Sound p)
    {size : UInt64} (hserved : (tpoolAlloc malloc p.allocator size).2 ≠ 0) {ptr : Nat}
    (hptr : ptr ∈ p.ptrs) : (tpoolAlloc malloc p.allocator size).2 ≠ ptr := by
  have halloc := h.alloc hfresh size 0
  rw [handOut, if_neg hserved] at halloc
  rintro rfl
  exact (List.nodup_cons.mp halloc.inStep.distinct).1 hptr

/-- What `tpool_free` does: it finds the block's slot, or frees the block. -/
theorem tpoolFree_cases {a : Allocator} (hready : a.initOneAlloc = false) (ptr : Nat) :
    (∃ slot, a.poolBufs slot = ptr ∧ tpoolFree a ptr = a.setUse slot 0) ∨
      (∀ slot, a.poolBufs slot ≠ ptr) ∧ tpoolFree a ptr = tfree a ptr := by
  unfold tpoolFree
  rw [hready, if_neg Bool.false_ne_true]
  rcases find?_cases slots (fun slot => decide (ptr = a.poolBufs slot)) with
    ⟨slot, hfind, hptr⟩ | ⟨hfind, hnone⟩
  · rw [hfind]
    exact .inl ⟨slot, (of_decide_eq_true hptr).symm, rfl⟩
  · rw [hfind]
    refine .inr ⟨?_, rfl⟩
    intro slot heq
    exact of_decide_eq_false (hnone slot (mem_slots slot)) heq.symm

/-- Freeing a live block, or `NULL`, keeps the invariant. -/
theorem Sound.free {p : Program} (h : Sound p) {ptr : Nat} (hptr : ptr = 0 ∨ ptr ∈ p.ptrs) :
    Sound ⟨tpoolFree p.allocator ptr, p.without ptr⟩ := by
  have hkept {other : Nat} (hother : other ∈ (p.without ptr).map LiveBlock.ptr) :
      other ∈ p.ptrs ∧ other ≠ ptr := by
    rw [ptrs_without, List.mem_filter] at hother
    exact ⟨hother.1, of_decide_eq_true hother.2⟩
  rcases tpoolFree_cases h.ready ptr with ⟨slot, rfl, hfree⟩ | ⟨hforeign, hfree⟩
  · rw [hfree]
    refine ⟨h.ready, ?_, h.injective, h.idxs, h.apart, h.slotBlock,
      fun other hother => h.liveBlock other (hkept hother).1⟩
    have hinStep := h.inStep.release h.injective slot
    rwa [← ptrs_without] at hinStep
  · rw [hfree, tfree]
    have hinStep := h.inStep.giveBack hforeign
    rw [← ptrs_without] at hinStep
    split_ifs with hnull
    · exact ⟨h.ready, hinStep, h.injective, h.idxs, h.apart, h.slotBlock,
        fun other hother => h.liveBlock other (hkept hother).1⟩
    · obtain ⟨size, base, rfl, -⟩ := h.liveBlock ptr (hptr.resolve_left hnull)
      refine ⟨h.ready, hinStep, h.injective, h.idxs, h.apart.sublist List.filter_sublist,
        fun slot => (h.slotBlock slot).free (hforeign slot) (Nat.le_add_left 12 base), ?_⟩
      intro other hother
      obtain ⟨size', hblock⟩ := h.liveBlock other (hkept hother).1
      exact ⟨size', hblock.free (hkept hother).2 (Nat.le_add_left 12 base)⟩

/-- What is in the memory is no part of the invariant. -/
theorem Sound.setMemory {a : Allocator} {live : List LiveBlock} (h : Sound ⟨a, live⟩)
    (memory : Nat → UInt8) : Sound ⟨{ a with memory := memory }, live⟩ :=
  ⟨h.ready, h.inStep, h.injective, h.idxs, h.apart, h.slotBlock, h.liveBlock⟩

theorem tpoolCalloc_eq {malloc : Heap} {a a' : Allocator} {size : UInt64} {ptr : Nat}
    (halloc : tpoolAlloc malloc a size = (a', ptr)) :
    tpoolCalloc malloc a size =
      if ptr = 0 then (a', 0)
      else ({ a' with memory := write a'.memory ptr (List.replicate size.toNat 0) }, ptr) := by
  rw [tpoolCalloc, halloc]

theorem tpoolRealloc_eq {malloc : Heap} {a a' : Allocator} {oldPtr newPtr : Nat} {newSize : UInt64}
    (hold : oldPtr ≠ 0) (halloc : tpoolAlloc malloc a newSize = (a', newPtr)) :
    tpoolRealloc malloc a oldPtr newSize =
      if newPtr = 0 then (tpoolFree a' oldPtr, 0)
      else
        (tpoolFree { a' with
          memory := write a'.memory newPtr (read a'.memory oldPtr (recordedSize a oldPtr)) } oldPtr,
          newPtr) := by
  rw [tpoolRealloc, if_neg hold, halloc]

theorem Sound.calloc {malloc : Heap} (hfresh : malloc.Fresh) {p : Program} (h : Sound p)
    (size : UInt64) (requested : Nat) :
    Sound (handOut (tpoolCalloc malloc p.allocator size) p.live requested) := by
  obtain ⟨a', ptr, hresult⟩ : ∃ a' ptr, tpoolAlloc malloc p.allocator size = (a', ptr) :=
    ⟨_, _, rfl⟩
  have halloc := h.alloc hfresh size requested
  rw [hresult, handOut] at halloc
  rw [tpoolCalloc_eq hresult]
  split_ifs with hnull
  · rw [handOut, if_pos rfl]
    rwa [if_pos hnull] at halloc
  · rw [handOut, if_neg hnull]
    rw [if_neg hnull] at halloc
    exact halloc.setMemory _

theorem Sound.without_null {p : Program} (h : Sound p) : p.without 0 = p.live := by
  refine List.filter_eq_self.mpr fun block hblock => decide_eq_true fun hnull => ?_
  obtain ⟨size, hallocated⟩ := h.liveBlock block.ptr (List.mem_map_of_mem hblock)
  exact hallocated.ne_zero hnull

/-- A reallocation allocates, copies and frees. -/
theorem Sound.realloc {malloc : Heap} (hfresh : malloc.Fresh) {p : Program} (h : Sound p)
    {oldPtr : Nat} (hold : oldPtr = 0 ∨ oldPtr ∈ p.ptrs) (newSize : UInt64) (requested : Nat) :
    Sound (handOut (tpoolRealloc malloc p.allocator oldPtr newSize) (p.without oldPtr)
      requested) := by
  have halloc := h.alloc hfresh newSize requested
  rcases eq_or_ne oldPtr 0 with rfl | hnonnull
  · rwa [tpoolRealloc, if_pos rfl, h.without_null]
  have hmem : oldPtr ∈ p.ptrs := hold.resolve_left hnonnull
  obtain ⟨a', newPtr, hresult⟩ :
      ∃ a' newPtr, tpoolAlloc malloc p.allocator newSize = (a', newPtr) := ⟨_, _, rfl⟩
  have hnew (hne : newPtr ≠ 0) : newPtr ≠ oldPtr := by
    have hserved : (tpoolAlloc malloc p.allocator newSize).2 ≠ 0 := by rwa [hresult]
    have hdifferent := h.alloc_ne hfresh hserved hmem
    rwa [hresult] at hdifferent
  rw [hresult, handOut] at halloc
  rw [tpoolRealloc_eq hnonnull hresult]
  split_ifs with hnull
  · rw [if_pos hnull] at halloc
    rw [handOut, if_pos rfl]
    exact halloc.free (.inr hmem)
  · rw [if_neg hnull] at halloc
    have hfreed := (halloc.setMemory (write a'.memory newPtr (read a'.memory oldPtr
      (recordedSize p.allocator oldPtr)))).free (.inr (List.mem_cons_of_mem _ hmem))
    have hkept : (⟨newPtr, requested⟩ :: p.live).filter (·.ptr ≠ oldPtr) =
        ⟨newPtr, requested⟩ :: p.without oldPtr :=
      List.filter_cons_of_pos (decide_eq_true (hnew hnull))
    rw [handOut, if_neg hnull, ← hkept]
    exact hfreed

/-- A program that has not called the allocator, or one that it is ready for. -/
def Invariant (p : Program) : Prop := (∃ memory, p = .start memory) ∨ Sound p

/-- What each call begins with makes the allocator ready. -/
theorem Invariant.initialised {malloc : Heap} (hfresh : malloc.Fresh)
    (hserves : malloc.ServesPools) {p : Program} (h : Invariant p) :
    Sound ⟨initialised malloc p.allocator, p.live⟩ := by
  rcases h with ⟨memory, rfl⟩ | hsound
  · exact sound_initialised hfresh hserves memory
  · rw [initialised_of_ready malloc hsound.ready]
    exact hsound

theorem step_invariant {malloc : Heap} (hfresh : malloc.Fresh) (hserves : malloc.ServesPools)
    (p : Program) (call : Call) (p' : Program) (h : Invariant p)
    (hstep : step malloc p call = some p') : Invariant p' := by
  have hready := h.initialised hfresh hserves
  cases call with
  | malloc size =>
      obtain rfl := Option.some.inj hstep
      exact .inr (hready.alloc hfresh size size.toNat)
  | calloc nmemb size =>
      obtain rfl := Option.some.inj hstep
      exact .inr (hready.calloc hfresh (nmemb * size) (nmemb.toNat * size.toNat))
  | realloc oldPtr newSize =>
      rw [step] at hstep
      split_ifs at hstep with hold
      obtain rfl := Option.some.inj hstep
      exact .inr (hready.realloc hfresh hold newSize newSize.toNat)
  | free ptr =>
      rw [step] at hstep
      split_ifs at hstep with hptr
      obtain rfl := Option.some.inj hstep
      exact .inr (hready.free hptr)
  | store ptr offset byte =>
      rw [step] at hstep
      split_ifs at hstep with hlive
      obtain rfl := Option.some.inj hstep
      obtain ⟨block, hblock, -⟩ := hlive
      rcases h with ⟨memory, rfl⟩ | hsound
      · exact absurd hblock List.not_mem_nil
      · exact .inr (hsound.setMemory _)

/-- The request is made to the heap. -/
def FallsBack (malloc : Heap) (a : Allocator) (size : UInt64) : Prop :=
  (tpoolAlloc malloc a size).1.calls ≠ a.calls

/-- The live blocks are distinct, the table marks exactly the slots whose blocks are live, the
indices are in range, and a request that a pool serves goes to the heap only when all blocks of
the pool are live. -/
structure PoolsInStep (malloc : Heap) (p : Program) : Prop where
  distinct : p.ptrs.Nodup
  uses : ∀ slot, p.allocator.poolUses slot = 1 ↔ p.allocator.poolBufs slot ∈ p.ptrs
  idxs : ∀ i, p.allocator.poolIdxs i < 1024
  fallback : ∀ size poolId, getPoolNum size = some poolId →
    FallsBack malloc (initialised malloc p.allocator) size →
    ∀ j, (initialised malloc p.allocator).poolBufs (poolId, j) ∈ p.ptrs

theorem Sound.fallback {malloc : Heap} {p : Program} (h : Sound p) {size : UInt64}
    {poolId : PoolId} (hpool : getPoolNum size = some poolId)
    (hheap : FallsBack malloc p.allocator size) (j : Fin poolSlots) :
    p.allocator.poolBufs (poolId, j) ∈ p.ptrs := by
  obtain ⟨idxs, -, ⟨slot, -, -, halloc⟩ | ⟨hused, -⟩⟩ := tpoolAlloc_cases malloc h.ready size
  · refine absurd ?_ hheap
    rw [halloc]
  · exact h.inStep.mem_of_ne_zero (hused (poolId, j) hpool)

/-- In every run in which only live blocks are reallocated and freed, the pools are in step with
the live blocks, given that `malloc` returns blocks that are not allocated and does so for each
slot that `tinit_pool` fills. -/
theorem pools_in_step {malloc : Heap} (hfresh : malloc.Fresh) (hserves : malloc.ServesPools)
    {memory : Nat → UInt8} {calls : List Call} {p : Program}
    (hrun : Runs.run (step malloc) (.start memory) calls = some p) : PoolsInStep malloc p := by
  have hinv : Invariant p :=
    Runs.run_invariant (step_invariant hfresh hserves) (.inl ⟨memory, rfl⟩) hrun
  have hready := hinv.initialised hfresh hserves
  have hfallback (size : UInt64) (poolId : PoolId) (hpool : getPoolNum size = some poolId)
      (hheap : FallsBack malloc (initialised malloc p.allocator) size) (j : Fin poolSlots) :
      (initialised malloc p.allocator).poolBufs (poolId, j) ∈ p.ptrs :=
    hready.fallback hpool hheap j
  rcases hinv with ⟨memory', rfl⟩ | hsound
  · refine ⟨List.nodup_nil, ?_, ?_, hfallback⟩
    · intro slot
      exact iff_of_false Nat.zero_ne_one List.not_mem_nil
    · exact fun _ => Nat.zero_lt_succ 1023
  · exact ⟨hsound.inStep.distinct, hsound.inStep.used, hsound.idxs, hfallback⟩

/-- A heap that gives what is behind all blocks that are allocated. -/
def bump : Heap := fun _ blocks _ => blocks.foldr (fun b top => max (b.base + b.size) top) 1

theorem bump_fresh : bump.Fresh := by
  intro calls blocks size hne b hb
  clear hne
  refine .inr ?_
  dsimp only [bump]
  induction blocks with
  | nil => exact absurd hb List.not_mem_nil
  | cons c blocks ih =>
      rw [List.foldr_cons]
      rcases List.mem_cons.mp hb with rfl | hb
      · exact Nat.le_max_left _ _
      · exact Nat.le_trans (ih hb) (Nat.le_max_right _ _)

theorem bump_ne_zero (calls : Nat) (blocks : List Block) (size : Nat) :
    bump calls blocks size ≠ 0 := by
  induction blocks with
  | nil => exact Nat.one_ne_zero
  | cons c blocks ih => exact Nat.ne_of_gt (lt_max_of_lt_right (Nat.pos_of_ne_zero ih))

/-- A heap that always has a block serves the pools. -/
theorem servesPools_of_ne_zero {malloc : Heap}
    (h : ∀ calls blocks size, malloc calls blocks size ≠ 0) : malloc.ServesPools := by
  have hfilled {rest : List Slot} {slot : Slot} (a : Allocator)
      (hslot : slot ∈ rest ∨ a.poolBufs slot ≠ 0) :
      (rest.foldl (initSlot malloc) a).poolBufs slot ≠ 0 := by
    induction rest generalizing a with
    | nil => exact hslot.resolve_left List.not_mem_nil
    | cons other rest ih =>
        refine ih (initSlot malloc a other) ?_
        rcases eq_or_ne slot other with rfl | hne
        · rcases tmalloc_cases malloc a (slotSize slot.1) with
            ⟨hnull, -⟩ | ⟨base, -, -, htmalloc⟩
          · exact absurd hnull (h _ _ _)
          · refine .inr ?_
            rw [initSlot, htmalloc]
            dsimp only
            rw [Function.update_self]
            exact Nat.succ_ne_zero _
        · rw [initSlot_of_ne malloc a hne]
          exact hslot.imp_left (fun hmem => (List.mem_cons.mp hmem).resolve_left hne)
  exact fun memory slot => hfilled (.start memory) (.inl (mem_slots slot))

theorem bump_servesPools : bump.ServesPools := servesPools_of_ne_zero bump_ne_zero

/-- What a request returns can be reallocated and freed. -/
theorem handOut_usable (result : Allocator × Nat) (live : List LiveBlock) (requested : Nat) :
    result.2 = 0 ∨ result.2 ∈ (handOut result live requested).ptrs := by
  rcases eq_or_ne result.2 0 with hnull | hne
  · exact .inl hnull
  · refine .inr ?_
    rw [handOut, if_neg hne]
    exact List.mem_cons_self ..

/-- A request and its reallocation. -/
theorem reallocation_runs (malloc : Heap) (memory : Nat → UInt8) (size newSize : UInt64) :
    ∃ p, Runs.run (step malloc) (.start memory)
      [.malloc size, .realloc (myMalloc malloc (.start memory) size).2 newSize] = some p := by
  have husable := handOut_usable (myMalloc malloc (.start memory) size) [] size.toNat
  have hstep : ∃ p, step malloc (handOut (myMalloc malloc (.start memory) size) [] size.toNat)
      (.realloc (myMalloc malloc (.start memory) size).2 newSize) = some p :=
    ⟨_, if_pos husable⟩
  obtain ⟨p, hp⟩ := hstep
  exact ⟨p, Runs.run_cons_eq_some.mpr ⟨_, rfl, Runs.run_cons_eq_some.mpr ⟨p, hp, rfl⟩⟩⟩

/-- 12 bytes, reallocated to 26. -/
theorem bump_pools_in_step :
    ∃ p, Runs.run (step bump) (.start fun _ => 0)
      [.malloc 12, .realloc (myMalloc bump (.start fun _ => 0) 12).2 26] = some p ∧
        PoolsInStep bump p := by
  obtain ⟨p, hrun⟩ := reallocation_runs bump (fun _ => 0) 12 26
  exact ⟨p, hrun, pools_in_step bump_fresh bump_servesPools hrun⟩

end EventLoop.Malloc
