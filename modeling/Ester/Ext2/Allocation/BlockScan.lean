import Ester.Ext2.Allocation.Counters
import Ester.Ext2.SampleImage

/-
  Which blocks of a group the block allocator considers.

  The bitmap of a group has a bit for each of its
  `s_blocks_per_group` blocks, but the scan stops at
  `s_inodes_per_group`, the bound of the inode allocator.
  It serves a group when the lowest clear bit of the bitmap
  lies below both counts or below neither.

  Key definitions include:
    * `Fs.LowestFree`
    * `ServesGroup`

  Key theorems include:
    * `ext2FreeBlockAlloc_cases`
    * `ext2FreeBlockAlloc_servesGroup_iff`
-/

namespace Ester

namespace Ext2

------------------------------------------------------------
-- The Lowest Free Block
------------------------------------------------------------

/- The lowest clear bit of a group's block bitmap. -/
def Fs.LowestFree
    (s : Fs)
    (g : Fin maxGroups)
    (i : Nat) : Prop :=
  (s.bitmapBlock .block g).bit i = false ∧
    ∀ j < i, (s.bitmapBlock .block g).bit j = true

theorem Fs.LowestFree.not_set
    {s : Fs}
    {g : Fin maxGroups}
    {i : Nat}
    (hi : s.LowestFree g i)
    (hSet : (s.bitmapBlock .block g).bit i = true) :
    False := by
  have hClear := hi.1
  rw [hSet] at hClear
  cases hClear

theorem Fs.LowestFree.eq
    {s : Fs}
    {g : Fin maxGroups}
    {i j : Nat}
    (hi : s.LowestFree g i)
    (hj : s.LowestFree g j) :
    i = j := by
  rcases Nat.lt_trichotomy i j with hLt | hEq | hGt
  · exact (hi.not_set (hj.2 i hLt)).elim
  · exact hEq
  · exact (hj.not_set (hi.2 j hGt)).elim

/- Below a limit all bits are set, or there is a lowest. -/
theorem Fs.lowestFree_or_full
    (s : Fs)
    (g : Fin maxGroups)
    (limit : Nat) :
    (∃ i < limit, s.LowestFree g i) ∨
      ∀ i < limit, (s.bitmapBlock .block g).bit i = true := by
  cases hScan : (s.bitmapBlock .block g).firstClear limit with
  | none => exact .inr ((ByteBuffer.firstClear_eq_none_iff _ _).mp
      hScan)
  | some i =>
      rw [ByteBuffer.firstClear_eq_some_iff] at hScan
      exact .inl ⟨i, hScan.2.1, hScan.1, hScan.2.2⟩

/-
  What a caller is promised: the lowest free block of the
  group is marked used and its number is returned, and a
  group without one gives 0 and is left as it is.
-/
def ServesGroup
    (group : UInt32)
    (s : Fs) : Prop :=
  ∃ g n t, ext2GetBgd group = some g ∧
    ext2FreeBlockAlloc group s = some (n, t) ∧
    (∀ i < s.layout.blocksPerGroup, s.LowestFree g i →
      n.toNat = group.toNat * s.layout.blocksPerGroup + i ∧
        t = s.claim .block g i) ∧
    ((∀ i < s.layout.blocksPerGroup,
      (s.bitmapBlock .block g).bit i = true) → n = 0 ∧ t = s) ∧
    (n = 0 → ∀ i < s.layout.blocksPerGroup,
      (s.bitmapBlock .block g).bit i = true)

/- Block 0 of a served group 0 is in use. -/
theorem ServesGroup.root_set
    (hServes : ServesGroup 0 s)
    (hBlocks : 1 ≤ s.layout.blocksPerGroup) :
    (s.bitmapBlock .block ⟨0, Nat.succ_pos _⟩).bit 0 = true := by
  rcases hServes with ⟨g, n, t, hGet, -, hLowest, -, hZero⟩
  cases (@ext2GetBgd_of_lt 0 (Nat.succ_pos _)).symm.trans hGet
  by_contra hClear
  rw [Bool.not_eq_true] at hClear
  have hFirst := hLowest 0 hBlocks
    ⟨hClear, fun j hj => absurd hj (Nat.not_lt_zero j)⟩
  have hNumber : n = 0 := by
    rw [← UInt32.toNat_inj, hFirst.1, UInt32.toNat_zero,
      Nat.zero_mul]
  cases hClear.symm.trans (hZero hNumber 0 hBlocks)

------------------------------------------------------------
-- The Scan
------------------------------------------------------------

section Scan

variable {s : Fs}
variable {group : UInt32}
variable (hGroup : group.toNat < maxGroups)

include hGroup

/- The allocator acts on the first `s_inodes_per_group` bits. -/
theorem ext2FreeBlockAlloc_cases
    (hSteady : s.Steady)
    (hInodes : s.layout.inodesPerGroup ≤ 32768) :
    (∃ i < s.layout.inodesPerGroup,
      s.LowestFree ⟨_, hGroup⟩ i ∧
      ext2FreeBlockAlloc group s =
        some (UInt32.ofNat (group.toNat *
          s.layout.blocksPerGroup + i),
          s.claim .block ⟨_, hGroup⟩ i)) ∨
    ((∀ i < s.layout.inodesPerGroup,
      (s.bitmapBlock .block ⟨_, hGroup⟩).bit i = true) ∧
      ext2FreeBlockAlloc group s = some (0, s)) := by
  have hAlloc := ext2FreeAlloc_eq hSteady hInodes .block hGroup
  rw [← ext2FreeBlockAlloc] at hAlloc
  cases hScan : (s.disk (s.layout.bitmap .block
      ⟨group.toNat, hGroup⟩)).firstClear
        s.layout.inodesPerGroup with
  | none =>
      rw [hScan] at hAlloc
      rw [ByteBuffer.firstClear_eq_none_iff] at hScan
      exact .inr ⟨hScan, hAlloc⟩
  | some i =>
      rw [hScan] at hAlloc
      dsimp only at hAlloc
      rw [ByteBuffer.firstClear_eq_some_iff] at hScan
      rw [number_eq_ofNat s .block group i hGroup] at hAlloc
      exact .inl ⟨i, hScan.2.1, ⟨hScan.1, hScan.2.2⟩, hAlloc⟩

omit hGroup in
/- With another block size the bitmap does not fit its array. -/
theorem ext2FreeBlockAlloc_eq_none
    (hSize : ext2GetBlockSize s ≠ 4096) :
    ext2FreeBlockAlloc group s = none := by
  rw [ext2FreeBlockAlloc, ext2FreeAlloc]
  cases ext2GetBgd group with
  | none => rfl
  | some g => simp [readLocal, hSize]

/- The numbers of a group's blocks do not wrap. -/
theorem toNat_blockNumber
    {bound i : Nat}
    (hBound : bound ≤ 32768)
    (hi : i < 32768) :
    (UInt32.ofNat (group.toNat * bound + i)).toNat =
      group.toNat * bound + i := by
  have hMul : group.toNat * bound ≤ 127 * 32768 :=
    Nat.mul_le_mul (Nat.lt_succ_iff.mp hGroup) hBound
  apply UInt32.toNat_ofNat_of_lt'
  simp only [UInt32.size]
  omega

section Serving

variable (hSteady : s.Steady)
variable (hBlocks : 1 ≤ s.layout.blocksPerGroup)
variable (hBlocksMax : s.layout.blocksPerGroup ≤ 32768)
variable (hInodesMax : s.layout.inodesPerGroup ≤ 32768)

include hSteady hBlocks hBlocksMax hInodesMax

/- A served group looks at the bits of its own blocks. -/
theorem ServesGroup.counts
    (hServes : ServesGroup group s)
    {i : Nat}
    (hi : s.LowestFree ⟨_, hGroup⟩ i) :
    i < s.layout.blocksPerGroup ↔
      i < s.layout.inodesPerGroup := by
  rcases hServes with ⟨g, n, t, hGet, hAlloc, -, hFull, hZero⟩
  cases (ext2GetBgd_of_lt hGroup).symm.trans hGet
  rcases ext2FreeBlockAlloc_cases hGroup hSteady hInodesMax with
    ⟨j, hj, hFree, hRun⟩ | ⟨hUsed, hRun⟩
  · cases hFree.eq hi
    refine ⟨fun _ => hj, fun _ => ?_⟩
    -- a bit behind the group's blocks is not to be taken
    by_contra hBehind
    cases hAlloc.symm.trans hRun
    have hNone := (hFull fun k hk => hi.2 k (by omega)).1
    have hNat := congrArg UInt32.toNat hNone
    rw [toNat_blockNumber hGroup hBlocksMax
      (Nat.lt_of_lt_of_le hj hInodesMax),
      UInt32.toNat_zero] at hNat
    omega
  · cases hAlloc.symm.trans hRun
    constructor
    · intro hLt
      exact (hi.not_set (hZero rfl i hLt)).elim
    · intro hLt
      exact (hi.not_set (hUsed i hLt)).elim

/- A group is served whose counts agree on the lowest bit. -/
theorem servesGroup_of_counts
    (hRoot : group = 0 →
      (s.bitmapBlock .block ⟨_, hGroup⟩).bit 0 = true)
    (hCounts : ∀ i, s.LowestFree ⟨_, hGroup⟩ i →
      (i < s.layout.blocksPerGroup ↔
        i < s.layout.inodesPerGroup)) :
    ServesGroup group s := by
  have hBgd := ext2GetBgd_of_lt hGroup
  rcases ext2FreeBlockAlloc_cases hGroup hSteady hInodesMax with
    ⟨j, hj, hFree, hRun⟩ | ⟨hUsed, hRun⟩
  · have hLt := (hCounts j hFree).mpr hj
    have hNat := toNat_blockNumber hGroup (i := j) hBlocksMax
      (Nat.lt_of_lt_of_le hj hInodesMax)
    refine ⟨_, _, _, hBgd, hRun, ?_, ?_, ?_⟩
    · intro i hi hLowest
      cases hFree.eq hLowest
      exact ⟨hNat, rfl⟩
    · intro hAll
      exact (hFree.not_set (hAll j hLt)).elim
    · intro hNumber
      rw [hNumber, UInt32.toNat_zero] at hNat
      have hMul : group.toNat * s.layout.blocksPerGroup = 0 := by
        omega
      have hZero : group = 0 := by
        rcases Nat.mul_eq_zero.mp hMul with hGroup | hNone
        · exact UInt32.toNat_inj.mp hGroup
        · omega
      have hFirst : j = 0 := by omega
      subst hFirst
      exact (hFree.not_set (hRoot hZero)).elim
  · have hAll : ∀ i < s.layout.blocksPerGroup,
        (s.bitmapBlock .block ⟨_, hGroup⟩).bit i = true := by
      rcases s.lowestFree_or_full ⟨_, hGroup⟩
        s.layout.blocksPerGroup with ⟨i, hi, hLowest⟩ | hAll
      · have hLt := (hCounts i hLowest).mp hi
        exact (hLowest.not_set (hUsed i hLt)).elim
      · exact hAll
    refine ⟨_, _, _, hBgd, hRun, ?_, fun _ => ⟨rfl, rfl⟩,
      fun _ => hAll⟩
    intro i hi hLowest
    exact (hLowest.not_set (hAll i hi)).elim

end Serving

/-
  The allocator serves a group exactly when the device moves
  blocks of the announced size, block 0 is not free, and the
  lowest clear bit of the bitmap lies below both counts or
  below neither.
-/
theorem ext2FreeBlockAlloc_servesGroup_iff
    (hFaults : s.faults = [])
    (hBlocks : 1 ≤ s.layout.blocksPerGroup)
    (hBlocksMax : s.layout.blocksPerGroup ≤
      8 * (ext2GetBlockSize s).toNat)
    (hInodesMax : s.layout.inodesPerGroup ≤
      8 * (ext2GetBlockSize s).toNat) :
    ServesGroup group s ↔
      ext2GetBlockSize s = 4096 ∧
        (group = 0 →
          (s.bitmapBlock .block ⟨_, hGroup⟩).bit 0 = true) ∧
        ∀ i, s.LowestFree ⟨_, hGroup⟩ i →
          (i < s.layout.blocksPerGroup ↔
            i < s.layout.inodesPerGroup) := by
  constructor
  · intro hServes
    have hSize : ext2GetBlockSize s = 4096 := by
      rcases hServes with ⟨g, n, t, -, hAlloc, -⟩
      by_contra hOther
      rw [ext2FreeBlockAlloc_eq_none hOther] at hAlloc
      cases hAlloc
    rw [hSize] at hBlocksMax hInodesMax
    refine ⟨hSize, ?_, fun i hi => hServes.counts hGroup
      ⟨hFaults, hSize⟩ hBlocks hBlocksMax hInodesMax hi⟩
    rintro rfl
    exact hServes.root_set hBlocks
  · rintro ⟨hSize, hRoot, hCounts⟩
    rw [hSize] at hBlocksMax hInodesMax
    exact servesGroup_of_counts hGroup ⟨hFaults, hSize⟩ hBlocks
      hBlocksMax hInodesMax hRoot hCounts

end Scan

/- The image without files serves its group. -/
theorem ext2FreeBlockAlloc_servesGroup_sample :
    ServesGroup 0 emptySample ↔
      ext2GetBlockSize emptySample = 4096 ∧
        ((0 : UInt32) = 0 →
          (emptySample.bitmapBlock .block 0).bit 0 = true) ∧
        ∀ i, emptySample.LowestFree 0 i →
          (i < emptySample.layout.blocksPerGroup ↔
            i < emptySample.layout.inodesPerGroup) :=
  @ext2FreeBlockAlloc_servesGroup_iff emptySample 0
    (by decide) rfl (by decide) (by decide) (by decide)

/- The image without files, with 16 inodes for 64 blocks. -/
def fewInodes : Fs :=
  emptySample.setSb { sampleSb with sInodesPerGroup := 16 }

/-
  Blocks 0 to 15 are used and block 16 is free, but the scan
  looks at 16 bits only and finds no free block.
-/
theorem ext2FreeBlockAlloc_misses :
    ext2FreeBlockAlloc 0 fewInodes = some (0, fewInodes) ∧
      fewInodes.layout.blocksPerGroup = 64 ∧
      fewInodes.LowestFree 0 16 ∧
      ¬ ServesGroup 0 fewInodes := by
  have hBit {i : Nat} (hi : i < 32768) :
      (fewInodes.bitmapBlock .block 0).bit i =
        decide (i < 16) :=
    sampleBitmap_bit hi
  have hLowest : fewInodes.LowestFree 0 16 := by
    refine ⟨hBit (by omega), fun j hj => ?_⟩
    rw [hBit (by omega)]
    exact decide_eq_true hj
  have hRun : ext2FreeBlockAlloc 0 fewInodes =
      some (0, fewInodes) := by
    rcases @ext2FreeBlockAlloc_cases fewInodes 0
      (by decide) ⟨rfl, rfl⟩ (by decide) with
      ⟨i, hi, hFree, -⟩ | ⟨-, hRun⟩
    · have hEq := hFree.eq hLowest
      have hInodes : fewInodes.layout.inodesPerGroup = 16 := rfl
      omega
    · exact hRun
  refine ⟨hRun, rfl, hLowest, ?_⟩
  rintro ⟨g, n, t, hGet, hAlloc, -, -, hZero⟩
  cases hRun.symm.trans hAlloc
  have hGroup : (0 : Fin maxGroups) = g := Option.some.inj hGet
  subst hGroup
  exact hLowest.not_set (hZero rfl 16 (by decide))

end Ext2

end Ester
