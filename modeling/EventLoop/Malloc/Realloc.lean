import EventLoop.Malloc.Pool

/-!
What `my_realloc` keeps of a block. It copies as many bytes as the old block's header
records, whatever the new block's size, and frees the old block also where it fails.
-/

namespace EventLoop.Malloc

open EventLoop.ByteMemory EventLoop.Occupancy

instance : Std.Symm Block.Apart := ⟨fun _ _ h => h.symm⟩

theorem apart_of_mem {blocks : List Block} (hapart : blocks.Pairwise Block.Apart) {b c : Block}
    (hb : b ∈ blocks) (hc : c ∈ blocks) (hne : b ≠ c) : b.Apart c :=
  hapart.forall hb hc hne

theorem Allocated.unique {blocks : List Block} (hapart : blocks.Pairwise Block.Apart)
    {ptr size size' : Nat} (h : Allocated blocks ptr size) (h' : Allocated blocks ptr size') :
    size = size' := by
  obtain ⟨base, rfl, hb⟩ := h
  obtain ⟨base', hptr, hc⟩ := h'
  obtain rfl : base = base' := Nat.add_right_cancel hptr
  by_contra hne
  have hblocks := apart_of_mem hapart hb hc (fun heq => hne (by injection heq; omega))
  dsimp only [Block.Apart] at hblocks
  omega

/-- Two blocks' bytes are apart, and apart from each other's headers. -/
theorem Allocated.apart {blocks : List Block} (hapart : blocks.Pairwise Block.Apart)
    {ptr other size size' : Nat} (h : Allocated blocks ptr size)
    (h' : Allocated blocks other size') (hne : ptr ≠ other) :
    ptr + size ≤ realBase other ∧ ptr + size ≤ other ∨
      other + size' ≤ realBase ptr ∧ other + size' ≤ ptr := by
  obtain ⟨base, rfl, hb⟩ := h
  obtain ⟨base', rfl, hc⟩ := h'
  have hblocks := apart_of_mem hapart hb hc (fun heq => hne (by injection heq; omega))
  dsimp only [Block.Apart] at hblocks
  dsimp only [realBase]
  omega

/-- A write into a block's bytes leaves what is recorded in the headers. -/
theorem recordedSize_payload {a : Allocator} (hapart : a.blocks.Pairwise Block.Apart)
    {ptr other size size' k : Nat} {bytes : List UInt8} (h : Allocated a.blocks ptr size)
    (hother : Allocated a.blocks other size') (hfits : k + bytes.length ≤ size) :
    recordedSize { a with memory := write a.memory (ptr + k) bytes } other =
      recordedSize a other := by
  refine recordedSize_write ?_
  rcases eq_or_ne ptr other with rfl | hne
  · obtain ⟨base, rfl, -⟩ := h
    dsimp only [realBase]
    omega
  · rcases h.apart hapart hother hne with hbelow | habove
    · omega
    · obtain ⟨base, rfl, -⟩ := h
      obtain ⟨base', rfl, -⟩ := hother
      dsimp only [realBase] at habove ⊢
      omega

/-- The requests that a pool serves. -/
def poolSize (poolId : PoolId) : Nat :=
  match poolId with
  | .of92 => 92
  | .of12 => 12
  | .of26 => 26

theorem toNat_of_getPoolNum {size : UInt64} {poolId : PoolId} (h : getPoolNum size = some poolId) :
    size.toNat = poolSize poolId := by
  unfold getPoolNum at h
  split_ifs at h with h92 h12 h26
  · obtain rfl := Option.some.inj h
    exact h92
  · obtain rfl := Option.some.inj h
    exact h12
  · obtain rfl := Option.some.inj h
    exact h26

theorem adjustedSize_of_getPoolNum {size : UInt64} {poolId : PoolId}
    (h : getPoolNum size = some poolId) : (adjustedSize size).toNat = 1024 := by
  rw [toNat_adjustedSize, toNat_of_getPoolNum h]
  match poolId with
  | .of92 => rfl
  | .of12 => rfl
  | .of26 => rfl

theorem poolSize_le (poolId : PoolId) : poolSize poolId ≤ 1024 :=
  match poolId with
  | .of92 => by decide
  | .of12 => by decide
  | .of26 => by decide

theorem toNat_slotSize (poolId : PoolId) :
    (slotSize poolId).toNat = if poolSize poolId = 26 then 25 else poolSize poolId % 2 ^ 32 :=
  match poolId with
  | .of92 => rfl
  | .of12 => rfl
  | .of26 => rfl

/-- What the header of a live block records: the request modulo 2^32, except in the third pool,
whose slots `tinit_pool` asks for 25 bytes. -/
def recordedFor (p : Program) (block : LiveBlock) : Nat :=
  if block.requested = 26 ∧ ∃ slot, p.allocator.poolBufs slot = block.ptr then 25
  else block.requested % 2 ^ 32

/-- The headers are what the allocator wrote, and every live block has room for its request. -/
structure Headed (p : Program) : Prop where
  sound : Sound p
  slotHeader : ∀ slot,
    recordedSize p.allocator (p.allocator.poolBufs slot) = (slotSize slot.1).toNat
  pooled : ∀ block ∈ p.live, ∀ slot, p.allocator.poolBufs slot = block.ptr →
    block.requested = poolSize slot.1
  heaped : ∀ block ∈ p.live, (∀ slot, p.allocator.poolBufs slot ≠ block.ptr) →
    Allocated p.allocator.blocks block.ptr ((block.requested + 1023) / 1024 * 1024) ∧
      recordedSize p.allocator block.ptr = block.requested % 2 ^ 32

theorem Headed.recordedSize_eq {p : Program} (h : Headed p) {block : LiveBlock}
    (hblock : block ∈ p.live) : recordedSize p.allocator block.ptr = recordedFor p block := by
  unfold recordedFor
  by_cases hpooled : ∃ slot, p.allocator.poolBufs slot = block.ptr
  · obtain ⟨⟨poolId, j⟩, hslot⟩ := hpooled
    have hrequested := h.pooled block hblock _ hslot
    rw [← hslot, h.slotHeader, hrequested, toNat_slotSize]
    exact if_congr (and_iff_left ⟨_, rfl⟩).symm rfl rfl
  · rw [if_neg (fun hboth => hpooled hboth.2)]
    exact (h.heaped block hblock (fun slot hslot => hpooled ⟨slot, hslot⟩)).2

theorem Headed.room {p : Program} (h : Headed p) {block : LiveBlock} (hblock : block ∈ p.live) :
    ∃ size, Allocated p.allocator.blocks block.ptr size ∧ block.requested ≤ size := by
  by_cases hpooled : ∃ slot, p.allocator.poolBufs slot = block.ptr
  · obtain ⟨⟨poolId, j⟩, hslot⟩ := hpooled
    refine ⟨1024, hslot ▸ h.sound.slotBlock (poolId, j), ?_⟩
    rw [h.pooled block hblock _ hslot]
    exact poolSize_le poolId
  · refine ⟨_, (h.heaped block hblock (fun slot hslot => hpooled ⟨slot, hslot⟩)).1, ?_⟩
    omega

/-- Stores into a block's bytes leave the headers. -/
theorem Headed.write {p : Program} (h : Headed p) {ptr size k : Nat} {bytes : List UInt8}
    (hallocated : Allocated p.allocator.blocks ptr size) (hfits : k + bytes.length ≤ size) :
    Headed { p with allocator.memory := write p.allocator.memory (ptr + k) bytes } := by
  refine ⟨h.sound.setMemory _, ?_, h.pooled, ?_⟩
  · intro slot
    refine Eq.trans ?_ (h.slotHeader slot)
    exact recordedSize_payload h.sound.apart hallocated (h.sound.slotBlock slot) hfits
  · intro block hblock hforeign
    obtain ⟨hroom, hrecorded⟩ := h.heaped block hblock hforeign
    refine ⟨hroom, Eq.trans ?_ hrecorded⟩
    exact recordedSize_payload h.sound.apart hallocated hroom hfits

theorem Headed.alloc {malloc : Heap} (hfresh : malloc.Fresh) {p : Program} (h : Headed p)
    {size : UInt64} (hsize : size.toNat + 1023 < 2 ^ 64) :
    Headed (handOut (tpoolAlloc malloc p.allocator size) p.live size.toNat) := by
  have hsound := h.sound.alloc hfresh size size.toNat
  have houtcome := h.sound.allocation hfresh size
  generalize tpoolAlloc malloc p.allocator size = result at houtcome hsound ⊢
  cases houtcome with
  | pooled slot idxs hpool hfree hidxs =>
      rw [handOut, if_neg (h.sound.slotBlock slot).ne_zero] at hsound ⊢
      refine ⟨hsound, h.slotHeader, ?_, ?_⟩
      · intro block hblock other hother
        rcases List.mem_cons.mp hblock with rfl | hblock
        · obtain rfl := h.sound.injective hother
          exact toNat_of_getPoolNum hpool
        · exact h.pooled block hblock other hother
      · intro block hblock hforeign
        rcases List.mem_cons.mp hblock with rfl | hblock
        · exact absurd rfl (hforeign slot)
        · exact h.heaped block hblock hforeign
  | refused idxs hused hnull hidxs =>
      rw [handOut, if_pos rfl] at hsound ⊢
      exact ⟨hsound, h.slotHeader, h.pooled, h.heaped⟩
  | heaped base idxs hmalloc hapart hidxs =>
      have hgrows : ∀ b ∈ p.allocator.blocks,
          b ∈ ⟨base, (adjustedSize size).toNat + 12⟩ :: p.allocator.blocks :=
        fun b hb => List.mem_cons_of_mem _ hb
      rw [handOut, if_neg (Nat.succ_ne_zero _)] at hsound ⊢
      refine ⟨hsound, ?_, ?_, ?_⟩
      · intro slot
        refine Eq.trans ?_ (h.slotHeader slot)
        exact recordedSize_other (h.sound.slotBlock slot) hapart size
      · intro block hblock slot hslot
        rcases List.mem_cons.mp hblock with rfl | hblock
        · exact absurd hslot ((h.sound.fresh hapart).1 slot)
        · exact h.pooled block hblock slot hslot
      · intro block hblock hforeign
        rcases List.mem_cons.mp hblock with rfl | hblock
        · refine ⟨⟨base, rfl, ?_⟩, recordedSize_setSize p.allocator base size⟩
          have hadjusted : (adjustedSize size).toNat = (size.toNat + 1023) / 1024 * 1024 := by
            rw [toNat_adjustedSize, Nat.mod_eq_of_lt hsize]
          rw [← hadjusted]
          exact List.mem_cons_self ..
        · obtain ⟨hroom, hrecorded⟩ := h.heaped block hblock hforeign
          refine ⟨hroom.mono hgrows, Eq.trans ?_ hrecorded⟩
          exact recordedSize_other hroom hapart size

theorem Headed.free {p : Program} (h : Headed p) {ptr : Nat} (hptr : ptr = 0 ∨ ptr ∈ p.ptrs) :
    Headed ⟨tpoolFree p.allocator ptr, p.without ptr⟩ := by
  have hsound := h.sound.free hptr
  have hkept {block : LiveBlock} (hblock : block ∈ p.without ptr) :
      block ∈ p.live ∧ block.ptr ≠ ptr :=
    ⟨(List.mem_filter.mp hblock).1, of_decide_eq_true (List.mem_filter.mp hblock).2⟩
  rcases tpoolFree_cases h.sound.ready ptr with ⟨slot, -, hfree⟩ | ⟨hforeign, hfree⟩
  · rw [hfree] at hsound ⊢
    exact ⟨hsound, h.slotHeader, fun block hblock => h.pooled block (hkept hblock).1,
      fun block hblock => h.heaped block (hkept hblock).1⟩
  · rw [hfree, tfree] at hsound ⊢
    split_ifs at hsound ⊢ with hnull
    · exact ⟨hsound, h.slotHeader, fun block hblock => h.pooled block (hkept hblock).1,
        fun block hblock => h.heaped block (hkept hblock).1⟩
    · refine ⟨hsound, h.slotHeader, fun block hblock => h.pooled block (hkept hblock).1, ?_⟩
      intro block hblock hother
      obtain ⟨hroom, hrecorded⟩ := h.heaped block (hkept hblock).1 hother
      obtain ⟨size, base, rfl, -⟩ := h.sound.liveBlock ptr (hptr.resolve_left hnull)
      exact ⟨hroom.free (hkept hblock).2 (Nat.le_add_left 12 base), hrecorded⟩

/-- The allocator has the block as one that is handed out. -/
def Held (a : Allocator) (ptr : Nat) : Prop :=
  (∃ slot, a.poolBufs slot = ptr ∧ a.poolUses slot = 1) ∨
    (∀ slot, a.poolBufs slot ≠ ptr) ∧ ∃ size, Allocated a.blocks ptr size

/-- What a reallocation of a live block to `newSize` bytes promises. The copy writes as many
bytes as the old block's header records. -/
structure ReallocContract (malloc : Heap) (p : Program) (block : LiveBlock) (newSize : UInt64) :
    Prop where
  success : (myRealloc malloc p.allocator block.ptr newSize).2 ≠ 0 →
    (∀ k < min block.requested newSize.toNat,
      (myRealloc malloc p.allocator block.ptr newSize).1.memory
          ((myRealloc malloc p.allocator block.ptr newSize).2 + k) =
        p.allocator.memory (block.ptr + k)) ∧
      ∃ size, Allocated (myRealloc malloc p.allocator block.ptr newSize).1.blocks
          (myRealloc malloc p.allocator block.ptr newSize).2 size ∧
        recordedSize p.allocator block.ptr ≤ size
  failure : (myRealloc malloc p.allocator block.ptr newSize).2 = 0 →
    Held (myRealloc malloc p.allocator block.ptr newSize).1 block.ptr ∧
      ∀ k < block.requested,
        (myRealloc malloc p.allocator block.ptr newSize).1.memory (block.ptr + k) =
          p.allocator.memory (block.ptr + k)

/-- A pool has a free slot for the request, or `malloc` has a block. -/
def Served (malloc : Heap) (a : Allocator) (size : UInt64) : Prop :=
  (∃ slot : Slot, getPoolNum size = some slot.1 ∧ a.poolUses slot = 0) ∨
    malloc a.calls a.blocks (realSize size).toNat ≠ 0

/-- The request is served, and what the old block's header records is no more than the new
block's bytes and no less than those that are to be kept. -/
structure KeepsData (malloc : Heap) (p : Program) (block : LiveBlock) (newSize : UInt64) :
    Prop where
  served : Served malloc p.allocator newSize
  fits : recordedFor p block ≤ (adjustedSize newSize).toNat
  covers : min block.requested newSize.toNat ≤ recordedFor p block

/-- Where a request is served and where not. -/
theorem Sound.alloc_null_iff {malloc : Heap} (hfresh : malloc.Fresh) {p : Program}
    (h : Sound p) (size : UInt64) :
    (tpoolAlloc malloc p.allocator size).2 = 0 ↔ ¬ Served malloc p.allocator size := by
  have houtcome := h.allocation hfresh size
  generalize tpoolAlloc malloc p.allocator size = result at houtcome ⊢
  cases houtcome with
  | pooled slot idxs hpool hfree hidxs =>
      exact iff_of_false (h.slotBlock slot).ne_zero
        (not_not_intro (.inl ⟨slot, hpool, hfree⟩))
  | refused idxs hused hnull hidxs =>
      refine iff_of_true rfl ?_
      rintro (⟨slot, hpool, hfree⟩ | hserved)
      · exact hused slot hpool hfree
      · exact hserved hnull
  | heaped base idxs hmalloc hapart hidxs =>
      exact iff_of_false (Nat.succ_ne_zero _) (not_not_intro (.inr hmalloc))

/-- The new block has the rounded number of bytes, and no byte of it or of a live block is
changed. -/
theorem Sound.alloc_block {malloc : Heap} (hfresh : malloc.Fresh) {p : Program}
    (h : Sound p) {size : UInt64} (hserved : (tpoolAlloc malloc p.allocator size).2 ≠ 0) :
    Allocated (tpoolAlloc malloc p.allocator size).1.blocks
        (tpoolAlloc malloc p.allocator size).2 (adjustedSize size).toNat ∧
      (∀ k, (tpoolAlloc malloc p.allocator size).1.memory
          ((tpoolAlloc malloc p.allocator size).2 + k) =
        p.allocator.memory ((tpoolAlloc malloc p.allocator size).2 + k)) ∧
      ∀ ptr bytes, Allocated p.allocator.blocks ptr bytes →
        Allocated (tpoolAlloc malloc p.allocator size).1.blocks ptr bytes ∧
          ∀ k < bytes, (tpoolAlloc malloc p.allocator size).1.memory (ptr + k) =
            p.allocator.memory (ptr + k) := by
  have houtcome := h.allocation hfresh size
  generalize tpoolAlloc malloc p.allocator size = result at houtcome hserved ⊢
  cases houtcome with
  | pooled slot idxs hpool hfree hidxs =>
      rw [adjustedSize_of_getPoolNum hpool]
      exact ⟨h.slotBlock slot, fun _ => rfl, fun _ _ hblock => ⟨hblock, fun _ _ => rfl⟩⟩
  | refused idxs hused hnull hidxs => exact absurd rfl hserved
  | heaped base idxs hmalloc hapart hidxs =>
      refine ⟨⟨base, rfl, List.mem_cons_self ..⟩, ?_, ?_⟩
      · intro k
        refine write_of_ge ?_
        rw [length_setSize]
        omega
      · intro ptr bytes hblock
        refine ⟨hblock.mono fun b hb => List.mem_cons_of_mem _ hb, ?_⟩
        intro k hk
        obtain ⟨other, rfl, hmem⟩ := hblock
        have hblocks := hapart _ hmem
        dsimp only [Block.Apart] at hblocks
        rcases hblocks with hbelow | habove
        · refine write_of_ge ?_
          rw [length_setSize]
          omega
        · exact write_of_lt (by omega)

/-- Freeing one block leaves another. -/
theorem Allocated.tpoolFree {a : Allocator} {ptr other size size' : Nat}
    (h : Allocated a.blocks ptr size) (hready : a.initOneAlloc = false)
    (hother : Allocated a.blocks other size') (hne : ptr ≠ other) {memory : Nat → UInt8} :
    Allocated (tpoolFree { a with memory := memory } other).blocks ptr size := by
  rcases @tpoolFree_cases { a with memory := memory } hready other with
    ⟨slot, -, hfree⟩ | ⟨-, hfree⟩
  · rw [hfree]
    exact h
  · rw [hfree, tfree, if_neg hother.ne_zero]
    obtain ⟨base, rfl, -⟩ := hother
    exact h.free hne (Nat.le_add_left 12 base)

/-- The new block is no part of a live one. -/
theorem Sound.alloc_apart {malloc : Heap} (hfresh : malloc.Fresh) {p : Program} (h : Sound p)
    {size : UInt64} (hserved : (tpoolAlloc malloc p.allocator size).2 ≠ 0) {block : LiveBlock}
    (hblock : block ∈ p.live) {bytes : Nat}
    (hallocated : Allocated p.allocator.blocks block.ptr bytes) :
    (tpoolAlloc malloc p.allocator size).2 + (adjustedSize size).toNat ≤ realBase block.ptr ∨
      block.ptr + bytes ≤ (tpoolAlloc malloc p.allocator size).2 := by
  obtain ⟨hnew, -, hothers⟩ := h.alloc_block hfresh hserved
  have halloc := h.alloc hfresh size 0
  rw [handOut, if_neg hserved] at halloc
  have hne := h.alloc_ne hfresh hserved (List.mem_map_of_mem hblock)
  rcases hnew.apart halloc.apart (hothers _ _ hallocated).1 hne with hbelow | habove
  · exact .inl hbelow.1
  · exact .inr habove.2

/-- A block that is freed is no longer held. -/
theorem Sound.not_held_free {p : Program} (h : Sound p) (ptr : Nat) (hnonnull : ptr ≠ 0) :
    ¬ Held (tpoolFree p.allocator ptr) ptr := by
  rcases tpoolFree_cases h.ready ptr with ⟨slot, rfl, hfree⟩ | ⟨hforeign, hfree⟩
  · rw [hfree]
    rintro (⟨other, hother, huse⟩ | ⟨hforeign, -⟩)
    · obtain rfl := h.injective hother
      dsimp only [Allocator.setUse] at huse
      rw [Function.update_self] at huse
      cases huse
    · exact hforeign slot rfl
  · rw [hfree, tfree, if_neg hnonnull]
    rintro (⟨slot, hslot, -⟩ | ⟨-, size, base, rfl, hmem⟩)
    · exact hforeign slot hslot
    · exact of_decide_eq_true (List.mem_filter.mp hmem).2 (Nat.add_sub_cancel base 12).symm

theorem tpoolFree_memory (a : Allocator) (ptr : Nat) : (tpoolFree a ptr).memory = a.memory := by
  unfold tpoolFree tfree
  split
  · split <;> rfl
  · split
    · rfl
    · split <;> rfl

theorem recordedFor_le (p : Program) (block : LiveBlock) :
    recordedFor p block ≤ block.requested := by
  unfold recordedFor
  split_ifs with hpooled
  · rw [hpooled.1]
    decide
  · exact Nat.mod_le _ _

theorem Sound.myRealloc_eq (malloc : Heap) {p : Program} (h : Sound p) (oldPtr : Nat)
    (newSize : UInt64) :
    myRealloc malloc p.allocator oldPtr newSize =
      tpoolRealloc malloc p.allocator oldPtr newSize := by
  rw [myRealloc, initialised_of_ready malloc h.ready]

theorem Sound.ptr_ne_zero {p : Program} (h : Sound p) {block : LiveBlock}
    (hblock : block ∈ p.live) : block.ptr ≠ 0 := by
  obtain ⟨size, hallocated⟩ := h.liveBlock block.ptr (List.mem_map_of_mem hblock)
  exact hallocated.ne_zero

/-- A reallocation that is refused has freed the old block. -/
theorem Sound.realloc_refused {malloc : Heap} (hfresh : malloc.Fresh) {p : Program}
    (h : Sound p) {block : LiveBlock} (hblock : block ∈ p.live) {newSize : UInt64}
    (hrefused : ¬ Served malloc p.allocator newSize) :
    (myRealloc malloc p.allocator block.ptr newSize).2 = 0 ∧
      ¬ Held (myRealloc malloc p.allocator block.ptr newSize).1 block.ptr := by
  obtain ⟨a, new, hresult⟩ : ∃ a new, tpoolAlloc malloc p.allocator newSize = (a, new) :=
    ⟨_, _, rfl⟩
  have hnull := (h.alloc_null_iff hfresh newSize).mpr hrefused
  have halloc := h.alloc hfresh newSize 0
  rw [hresult] at hnull halloc
  rw [handOut, if_pos hnull] at halloc
  rw [h.myRealloc_eq, tpoolRealloc_eq (h.ptr_ne_zero hblock) hresult, if_pos hnull]
  exact ⟨rfl, halloc.not_held_free block.ptr (h.ptr_ne_zero hblock)⟩

/-- A reallocation that is served returns the block that the request for the new size gets,
with as many bytes of the old one as its header records. -/
theorem Headed.realloc_served {malloc : Heap} (hfresh : malloc.Fresh) {p : Program}
    (h : Headed p) {block : LiveBlock} (hblock : block ∈ p.live) {newSize : UInt64}
    (hserved : Served malloc p.allocator newSize) :
    (myRealloc malloc p.allocator block.ptr newSize).2 =
        (tpoolAlloc malloc p.allocator newSize).2 ∧
      (myRealloc malloc p.allocator block.ptr newSize).2 ≠ 0 ∧
      Allocated (myRealloc malloc p.allocator block.ptr newSize).1.blocks
        (myRealloc malloc p.allocator block.ptr newSize).2 (adjustedSize newSize).toNat ∧
      ∀ k, (myRealloc malloc p.allocator block.ptr newSize).1.memory
          ((myRealloc malloc p.allocator block.ptr newSize).2 + k) =
        if k < recordedFor p block then p.allocator.memory (block.ptr + k)
        else p.allocator.memory ((myRealloc malloc p.allocator block.ptr newSize).2 + k) := by
  have hne : (tpoolAlloc malloc p.allocator newSize).2 ≠ 0 :=
    fun hnull => (h.sound.alloc_null_iff hfresh newSize).mp hnull hserved
  obtain ⟨hnew, hnewBytes, hothers⟩ := h.sound.alloc_block hfresh hne
  have halloc := h.sound.alloc hfresh newSize 0
  have hdifferent := h.sound.alloc_ne hfresh hne (List.mem_map_of_mem hblock)
  have hptr := h.sound.ptr_ne_zero hblock
  obtain ⟨a, new, hresult⟩ : ∃ a new, tpoolAlloc malloc p.allocator newSize = (a, new) :=
    ⟨_, _, rfl⟩
  rw [hresult] at hne hnew hnewBytes hothers halloc hdifferent ⊢
  rw [handOut, if_neg hne] at halloc
  rw [h.sound.myRealloc_eq, tpoolRealloc_eq hptr hresult, if_neg hne, h.recordedSize_eq hblock]
  obtain ⟨size, hold, hroom⟩ := h.room hblock
  refine ⟨rfl, hne, hnew.tpoolFree halloc.ready (hothers _ _ hold).1 hdifferent, ?_⟩
  intro k
  have hlength : (read a.memory block.ptr (recordedFor p block)).length = recordedFor p block :=
    length_read ..
  rw [tpoolFree_memory]
  split_ifs with hk
  · rw [← hlength] at hk
    refine (write_at hk).trans ((getElem_read _ _ _ hk).trans ?_)
    rw [hlength] at hk
    exact (hothers _ _ hold).2 k
      (Nat.lt_of_lt_of_le hk (Nat.le_trans (recordedFor_le p block) hroom))
  · refine (write_of_ge ?_).trans (hnewBytes k)
    rw [hlength]
    exact Nat.add_le_add_left (Nat.le_of_not_lt hk) new

/-- Where the condition is met, the contract is kept. -/
theorem Headed.contract {malloc : Heap} (hfresh : malloc.Fresh) {p : Program} (h : Headed p)
    {block : LiveBlock} (hblock : block ∈ p.live) {newSize : UInt64}
    (hkeeps : KeepsData malloc p block newSize) : ReallocContract malloc p block newSize := by
  obtain ⟨-, hne, hallocated, hmemory⟩ := h.realloc_served hfresh hblock hkeeps.served
  refine ⟨?_, fun hnull => absurd hnull hne⟩
  intro _
  refine ⟨?_, _, hallocated, (h.recordedSize_eq hblock).trans_le hkeeps.fits⟩
  intro k hk
  rw [hmemory k, if_pos (Nat.lt_of_lt_of_le hk hkeeps.covers)]

/-- A reallocation that keeps the contract is served and does not write behind the new block. -/
theorem Headed.fits_of_contract {malloc : Heap} (hfresh : malloc.Fresh) {p : Program}
    (h : Headed p) {block : LiveBlock} (hblock : block ∈ p.live) {newSize : UInt64}
    (hcontract : ReallocContract malloc p block newSize) :
    Served malloc p.allocator newSize ∧ recordedFor p block ≤ (adjustedSize newSize).toNat := by
  have hserved : Served malloc p.allocator newSize := by
    by_contra hrefused
    obtain ⟨hnull, hfreed⟩ := h.sound.realloc_refused hfresh hblock hrefused
    exact hfreed (hcontract.failure hnull).1
  refine ⟨hserved, ?_⟩
  obtain ⟨-, hne, hallocated, -⟩ := h.realloc_served hfresh hblock hserved
  obtain ⟨-, size, hsize, hrecorded⟩ := hcontract.success hne
  have hsound := h.sound.realloc hfresh (.inr (List.mem_map_of_mem hblock)) newSize 0
  rw [← h.sound.myRealloc_eq, handOut, if_neg hne] at hsound
  obtain rfl := hsize.unique hsound.apart hallocated
  exact (h.recordedSize_eq hblock).ge.trans hrecorded

/-- The program with these bytes in a block. -/
def Program.filled (p : Program) (block : LiveBlock) (bytes : List UInt8) : Program :=
  { p with allocator.memory := write p.allocator.memory block.ptr bytes }

theorem Headed.filled {p : Program} (h : Headed p) {block : LiveBlock} (hblock : block ∈ p.live)
    {bytes : List UInt8} (hbytes : bytes.length = block.requested) :
    Headed (p.filled block bytes) := by
  obtain ⟨size, hallocated, hroom⟩ := h.room hblock
  exact h.write (k := 0) hallocated (by omega)

theorem tmalloc_ptr (malloc : Heap) {a b : Allocator} (hcalls : a.calls = b.calls)
    (hblocks : a.blocks = b.blocks) (size : UInt64) :
    (tmalloc malloc a size).2 = (tmalloc malloc b size).2 := by
  unfold tmalloc
  dsimp only
  rw [hcalls, hblocks]
  split <;> rfl

/-- Which block a request gets depends on the variables and the heap, not on the bytes. -/
theorem tpoolAlloc_ptr (malloc : Heap) {a b : Allocator} (hready : a.initOneAlloc = false)
    (hready' : b.initOneAlloc = false) (hbufs : a.poolBufs = b.poolBufs)
    (huses : a.poolUses = b.poolUses) (hidxs : a.poolIdxs = b.poolIdxs)
    (hcalls : a.calls = b.calls) (hblocks : a.blocks = b.blocks) (size : UInt64) :
    (tpoolAlloc malloc a size).2 = (tpoolAlloc malloc b size).2 := by
  unfold tpoolAlloc
  cases getPoolNum size with
  | none => exact tmalloc_ptr malloc hcalls hblocks size
  | some poolId =>
      simp only [hready, hready', Bool.false_eq_true, if_false, Allocator.setIdx,
        Allocator.setUse, huses, hidxs, hbufs]
      rcases find?_cases (List.range poolSlots)
          (fun j => decide (b.poolUses (poolId, probe (b.poolIdxs poolId) j) = 0)) with
        ⟨j, hfind, -⟩ | ⟨hfind, -⟩
      · simp only [hfind]
      · simp only [hfind]
        refine tmalloc_ptr malloc ?_ ?_ size
        · exact hcalls
        · exact hblocks

/-- A reallocation that keeps the contract whatever is stored in the block meets the
condition. -/
theorem Headed.keepsData {malloc : Heap} (hfresh : malloc.Fresh) {p : Program} (h : Headed p)
    {block : LiveBlock} (hblock : block ∈ p.live) {newSize : UInt64}
    (hall : ∀ bytes, bytes.length = block.requested →
      ReallocContract malloc (p.filled block bytes) block newSize) :
    KeepsData malloc p block newSize := by
  obtain ⟨hserved, hfits⟩ := (h.filled hblock (length_read ..)).fits_of_contract hfresh hblock
    (hall (read p.allocator.memory block.ptr block.requested) (length_read ..))
  change recordedFor p block ≤ (adjustedSize newSize).toNat at hfits
  refine ⟨hserved, hfits, ?_⟩
  by_contra hlost
  obtain ⟨hlostOld, hlostNew⟩ := Nat.lt_min.mp (Nat.lt_of_not_le hlost)
  -- The first byte that is not copied is what was there, whatever the block holds.
  have hbyte (byte : UInt8) : p.allocator.memory
      ((tpoolAlloc malloc p.allocator newSize).2 + recordedFor p block) = byte := by
    have hlength : (List.replicate block.requested byte).length = block.requested :=
      List.length_replicate
    have hfilled := h.filled hblock hlength
    obtain ⟨hnew, hne, hallocated, hmemory⟩ := hfilled.realloc_served hfresh hblock hserved
    have hkept := (hall _ hlength).success hne |>.1 _ (Nat.lt_min.mpr ⟨hlostOld, hlostNew⟩)
    have hptr : (tpoolAlloc malloc (p.filled block (List.replicate block.requested byte)).allocator
        newSize).2 = (tpoolAlloc malloc p.allocator newSize).2 :=
      tpoolAlloc_ptr malloc hfilled.sound.ready h.sound.ready rfl rfl rfl rfl rfl newSize
    have hrecorded : recordedFor (p.filled block (List.replicate block.requested byte)) block =
      recordedFor p block := rfl
    rw [hmemory, hrecorded, if_neg (Nat.lt_irrefl _), hnew, hptr] at hkept
    have hold : (p.filled block (List.replicate block.requested byte)).allocator.memory
        (block.ptr + recordedFor p block) = byte :=
      (write_at (by rwa [hlength])).trans (List.getElem_replicate _)
    have hapart : (p.filled block (List.replicate block.requested byte)).allocator.memory
        ((tpoolAlloc malloc p.allocator newSize).2 + recordedFor p block) =
          p.allocator.memory
            ((tpoolAlloc malloc p.allocator newSize).2 + recordedFor p block) := by
      rw [hnew, hptr] at hne
      obtain ⟨size, hallocated, hroom⟩ := h.room hblock
      have hbase : realBase block.ptr < block.ptr :=
        Nat.sub_lt (Nat.pos_of_ne_zero (h.sound.ptr_ne_zero hblock)) (by decide)
      rcases h.sound.alloc_apart hfresh hne hblock hallocated with hbelow | habove
      · refine write_of_lt ?_
        omega
      · refine write_of_ge ?_
        rw [hlength]
        omega
    exact hapart.symm.trans (hkept.trans hold)
  exact absurd ((hbyte 0).symm.trans (hbyte 1)) (by decide)

theorem le_adjustedSize {size : UInt64} (h : size.toNat + 1023 < 2 ^ 64) :
    size.toNat ≤ (adjustedSize size).toNat := by
  rw [toNat_adjustedSize, Nat.mod_eq_of_lt h]
  omega

theorem Headed.calloc {malloc : Heap} (hfresh : malloc.Fresh) {p : Program} (h : Headed p)
    {size : UInt64} (hsize : size.toNat + 1023 < 2 ^ 64) :
    Headed (handOut (tpoolCalloc malloc p.allocator size) p.live size.toNat) := by
  obtain ⟨a, ptr, hresult⟩ : ∃ a ptr, tpoolAlloc malloc p.allocator size = (a, ptr) :=
    ⟨_, _, rfl⟩
  have halloc := h.alloc hfresh hsize
  rw [tpoolCalloc_eq hresult]
  split_ifs with hnull
  · rw [hresult, handOut, if_pos hnull] at halloc
    rwa [handOut, if_pos rfl]
  · have hne : (tpoolAlloc malloc p.allocator size).2 ≠ 0 := by rwa [hresult]
    obtain ⟨hnew, -, -⟩ := h.sound.alloc_block hfresh hne
    rw [hresult] at hnew halloc
    rw [handOut, if_neg hnull] at halloc ⊢
    refine halloc.write (k := 0) hnew ?_
    rw [List.length_replicate, Nat.zero_add]
    exact le_adjustedSize hsize

theorem Headed.realloc {malloc : Heap} (hfresh : malloc.Fresh) {p : Program} (h : Headed p)
    {oldPtr : Nat} (hold : oldPtr = 0 ∨ oldPtr ∈ p.ptrs) {newSize : UInt64}
    (hsize : newSize.toNat + 1023 < 2 ^ 64)
    (hkeeps : ∀ block ∈ p.live, block.ptr = oldPtr → KeepsData malloc p block newSize) :
    Headed (handOut (tpoolRealloc malloc p.allocator oldPtr newSize) (p.without oldPtr)
      newSize.toNat) := by
  have halloc := h.alloc hfresh hsize
  rcases eq_or_ne oldPtr 0 with rfl | hnonnull
  · rwa [tpoolRealloc, if_pos rfl, h.sound.without_null]
  obtain ⟨block, hblock, rfl⟩ := List.mem_map.mp (hold.resolve_left hnonnull)
  obtain ⟨hserved, hfits, -⟩ := hkeeps block hblock rfl
  have hne : (tpoolAlloc malloc p.allocator newSize).2 ≠ 0 :=
    fun hnull => (h.sound.alloc_null_iff hfresh newSize).mp hnull hserved
  obtain ⟨hnew, -, -⟩ := h.sound.alloc_block hfresh hne
  have hdifferent := h.sound.alloc_ne hfresh hne (List.mem_map_of_mem hblock)
  obtain ⟨a, new, hresult⟩ : ∃ a new, tpoolAlloc malloc p.allocator newSize = (a, new) :=
    ⟨_, _, rfl⟩
  rw [hresult] at hne hnew halloc hdifferent
  rw [handOut, if_neg hne] at halloc
  rw [tpoolRealloc_eq hnonnull hresult, if_neg hne, h.recordedSize_eq hblock, handOut, if_neg hne]
  have hroom : 0 + (read a.memory block.ptr (recordedFor p block)).length ≤
      (adjustedSize newSize).toNat := by
    rw [length_read, Nat.zero_add]
    exact hfits
  have hcopied := halloc.write hnew hroom
  have hfreed := hcopied.free (.inr (List.mem_cons_of_mem _ (List.mem_map_of_mem hblock)))
  have hkept : (⟨new, newSize.toNat⟩ :: p.live).filter (·.ptr ≠ block.ptr) =
      ⟨new, newSize.toNat⟩ :: p.without block.ptr :=
    List.filter_cons_of_pos (decide_eq_true hdifferent)
  rw [← hkept]
  exact hfreed

/-- No request comes within 1023 bytes of 2^64, where rounding it up overflows, the product of
`my_calloc` taken as it is, and every reallocation of a live block meets the condition. -/
def KeepsContract (malloc : Heap) (p : Program) : Call → Prop
  | .malloc size => size.toNat + 1023 < 2 ^ 64
  | .calloc nmemb size => nmemb.toNat * size.toNat + 1023 < 2 ^ 64
  | .realloc oldPtr newSize =>
      newSize.toNat + 1023 < 2 ^ 64 ∧
        ∀ block ∈ p.live, block.ptr = oldPtr → KeepsData malloc p block newSize
  | .free _ => True
  | .store _ _ _ => True

def HeadedInvariant (p : Program) : Prop := (∃ memory, p = .start memory) ∨ Headed p

theorem HeadedInvariant.initialised {malloc : Heap} (hfresh : malloc.Fresh)
    (hserves : malloc.ServesPools) {p : Program} (h : HeadedInvariant p) :
    Headed ⟨initialised malloc p.allocator, p.live⟩ := by
  rcases h with ⟨memory, rfl⟩ | hheaded
  · refine ⟨sound_initialised hfresh hserves memory, ?_,
      fun _ hblock => absurd hblock List.not_mem_nil, fun _ hblock => absurd hblock List.not_mem_nil⟩
    have hfilled := filled_tinitPool hfresh hserves memory
    dsimp only [Program.start]
    rw [initialised_start]
    exact fun slot => hfilled.recorded slot (mem_reverse_slots slot)
  · rw [initialised_of_ready malloc hheaded.sound.ready]
    exact hheaded

theorem step_headed {malloc : Heap} (hfresh : malloc.Fresh) (hserves : malloc.ServesPools)
    (p : Program) (call : Call) (p' : Program) (h : HeadedInvariant p)
    (hguard : KeepsContract malloc p call) (hstep : step malloc p call = some p') :
    HeadedInvariant p' := by
  have hready := h.initialised hfresh hserves
  cases call with
  | malloc size =>
      obtain rfl := Option.some.inj hstep
      exact .inr (hready.alloc hfresh hguard)
  | calloc nmemb size =>
      obtain rfl := Option.some.inj hstep
      have hproduct : (nmemb * size).toNat = nmemb.toNat * size.toNat := by
        rw [UInt64.toNat_mul]
        exact Nat.mod_eq_of_lt (Nat.lt_of_le_of_lt (Nat.le_add_right _ 1023) hguard)
      rw [← hproduct]
      exact .inr (hready.calloc hfresh (by rw [hproduct]; exact hguard))
  | realloc oldPtr newSize =>
      rw [step] at hstep
      split_ifs at hstep with hold
      obtain rfl := Option.some.inj hstep
      refine .inr (hready.realloc hfresh hold hguard.1 ?_)
      intro block hblock hptr
      rcases h with ⟨memory, rfl⟩ | hheaded
      · exact absurd hblock List.not_mem_nil
      · rw [initialised_of_ready malloc hheaded.sound.ready]
        exact hguard.2 block hblock hptr
  | free ptr =>
      rw [step] at hstep
      split_ifs at hstep with hptr
      obtain rfl := Option.some.inj hstep
      exact .inr (hready.free hptr)
  | store ptr offset byte =>
      rw [step] at hstep
      split_ifs at hstep with hlive
      obtain rfl := Option.some.inj hstep
      obtain ⟨block, hblock, rfl, hoffset⟩ := hlive
      rcases h with ⟨memory, rfl⟩ | hheaded
      · exact absurd hblock List.not_mem_nil
      · obtain ⟨size, hallocated, hroom⟩ := hheaded.room hblock
        exact .inr (hheaded.write hallocated (Nat.le_trans hoffset hroom))

/-- In every run whose steps meet the condition, a reallocation of a live block that meets it
keeps the contract; and one that keeps it whatever is stored in the block meets the
condition. -/
theorem realloc_contract_iff {malloc : Heap} (hfresh : malloc.Fresh)
    (hserves : malloc.ServesPools) {memory : Nat → UInt8} {calls : List Call} {p : Program}
    (hrun : Runs.run (step malloc) (.start memory) calls = some p)
    (hguarded : Runs.Guarded (step malloc) (KeepsContract malloc) (.start memory) calls)
    {block : LiveBlock} (hblock : block ∈ p.live) (newSize : UInt64) :
    (KeepsData malloc p block newSize → ReallocContract malloc p block newSize) ∧
      ((∀ bytes, bytes.length = block.requested →
        ReallocContract malloc (p.filled block bytes) block newSize) →
          KeepsData malloc p block newSize) := by
  have hinv : HeadedInvariant p := Runs.guarded_run_invariant (step_headed hfresh hserves)
    (.inl ⟨memory, rfl⟩) hguarded hrun
  rcases hinv with ⟨memory', rfl⟩ | hheaded
  · exact absurd hblock List.not_mem_nil
  · exact ⟨hheaded.contract hfresh hblock, hheaded.keepsData hfresh hblock⟩

/-- A program whose one request is served. -/
theorem bump_malloc (size : UInt64) :
    ∃ p, Runs.run (step bump) (.start fun _ => 0) [.malloc size] = some p ∧
      ∃ block ∈ p.live, block.requested = size.toNat := by
  have hready := sound_initialised bump_fresh bump_servesPools (fun _ => 0)
  have hne : (myMalloc bump (.start fun _ => 0) size).2 ≠ 0 := fun hnull =>
    (hready.alloc_null_iff bump_fresh size).mp hnull (.inr (bump_ne_zero _ _ _))
  refine ⟨_, rfl, ⟨(myMalloc bump (.start fun _ => 0) size).2, size.toNat⟩, ?_, rfl⟩
  dsimp only [handOut, Program.start]
  rw [if_neg hne]
  exact List.mem_cons_self ..

theorem bump_malloc_guarded {size : UInt64} (hsize : size.toNat + 1023 < 2 ^ 64) :
    Runs.Guarded (step bump) (KeepsContract bump) (.start fun _ => 0) [.malloc size] :=
  ⟨hsize, fun _ _ => trivial⟩

/-- 12 bytes, reallocated to 26. -/
theorem bump_realloc_contract :
    ∃ p, Runs.run (step bump) (.start fun _ => 0) [.malloc 12] = some p ∧
      ∃ block ∈ p.live, block.requested = 12 ∧ ReallocContract bump p block 26 := by
  obtain ⟨p, hrun, block, hblock, hrequested⟩ := bump_malloc 12
  have hrecorded : recordedFor p block = 12 := by
    rw [recordedFor, hrequested]
    exact if_neg (fun h => absurd h.1 (by decide))
  refine ⟨p, hrun, block, hblock, hrequested, (realloc_contract_iff bump_fresh bump_servesPools
    hrun (bump_malloc_guarded (by decide)) hblock 26).1 ⟨.inr (bump_ne_zero _ _ _), ?_, ?_⟩⟩
  · rw [hrecorded]
    decide
  · rw [hrecorded, hrequested]
    decide

/-- 2000 bytes, reallocated to 10: the copy writes 2000 bytes into a block of 1024. -/
theorem bump_realloc_overruns :
    ∃ p, Runs.run (step bump) (.start fun _ => 0) [.malloc 2000] = some p ∧
      ∃ block ∈ p.live, block.requested = 2000 ∧ ¬ ReallocContract bump p block 10 := by
  obtain ⟨p, hrun, block, hblock, hrequested⟩ := bump_malloc 2000
  have hinv : HeadedInvariant p := Runs.guarded_run_invariant
    (step_headed bump_fresh bump_servesPools) (.inl ⟨fun _ => 0, rfl⟩)
    (bump_malloc_guarded (by decide)) hrun
  refine ⟨p, hrun, block, hblock, hrequested, ?_⟩
  intro hcontract
  rcases hinv with ⟨memory, rfl⟩ | hheaded
  · exact absurd hblock List.not_mem_nil
  · have hfits := (hheaded.fits_of_contract bump_fresh hblock hcontract).2
    rw [recordedFor, hrequested, if_neg (fun h => absurd h.1 (by decide))] at hfits
    exact absurd hfits (by decide)

end EventLoop.Malloc
