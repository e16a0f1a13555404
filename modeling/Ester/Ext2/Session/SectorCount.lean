import Ester.Ext2.SampleImage
import Ester.Ext2.Session.Frame

/-
  The sector count of a file and the blocks derived from it.

  Both conversions of fs/ext2/file.c multiply in 32 bits
  before they divide.  With 4096-byte blocks the bytes of
  2^23 sectors are 2^32: from there on the block count starts
  over, and growing the file, for seeking and for writing,
  stores the new block over a pointer in use.  Growing also
  fills the slot behind the counted blocks when a file with a
  hole has a pointer there.

  Key definitions include:
    * `Fs.OffersBlock`
    * `CountsExactly`

  Key theorems include:
    * `blocks_of_sectors`
    * `growFile_slot`
    * `growFile_overwrites`
    * `countsExactly_iff`
-/

------------------------------------------------------------
-- Conversions
------------------------------------------------------------

namespace Ester

namespace Ext2

section

variable {s t : Fs} {sectors block : UInt32}

/- The block count is that of the sectors modulo 2^23. -/
theorem blocks_of_sectors
    (hBlock : ext2GetBlockSize s = 4096)
    (hSectors : sectors.toNat % 8 = 0) :
    (ext2SectorsToBlocks sectors s).toNat =
      sectors.toNat / 8 % 1048576 := by
  unfold ext2SectorsToBlocks
  rw [hBlock, UInt32.toNat_div, UInt32.toNat_mul]
  simp only [UInt32.reduceToNat]
  omega

/- Below 2^20 blocks the way back is exact. -/
theorem sectors_of_blocks
    (hBlock : ext2GetBlockSize s = 4096)
    (h : block.toNat < 1048576) :
    (ext2BlocksToSectors block s).toNat =
      8 * block.toNat := by
  unfold ext2BlocksToSectors
  rw [hBlock, UInt32.toNat_div, UInt32.toNat_mul]
  simp only [UInt32.reduceToNat]
  omega

------------------------------------------------------------
-- Growing
------------------------------------------------------------

/- The block allocator has a block for the open file. -/
def Fs.OffersBlock
    (s : Fs) : Prop :=
  ext2GetInodesPerGroup s ≠ 0 ∧
    ∃ num t, num ≠ 0 ∧
      ext2FreeBlockAlloc
        ((s.file.inodeNum - 1) / ext2GetInodesPerGroup s) s =
          some (num, t)

/- A grown file has the new block at the derived count. -/
theorem growFile_slot
    (hGrow : growFile s = some (0, block, t)) :
    s.OffersBlock ∧
      ∃ k : Fin ext2NBlocks,
        (k : Nat) = (allocatedBlocks s).toNat ∧
          (k : Nat) < ext2NdirBlocks ∧
          t.file.inode.iBlock =
            Function.update s.file.inode.iBlock k block := by
  rw [growFile] at hGrow
  dsimp only at hGrow
  split at hGrow
  · cases hGrow
  · next hPerGroup =>
    rcases Option.bind_eq_some_iff.mp hGrow with
      ⟨⟨num, u⟩, hAlloc, hGrow⟩
    have hFile : u.file = s.file := ext2FreeAlloc_file hAlloc
    split at hGrow
    · cases hGrow
    · next hNum =>
      split at hGrow
      · next hPointer =>
          cases hGrow
          refine ⟨⟨hPerGroup, num, u, hNum, hAlloc⟩,
            ⟨(allocatedBlocks s).toNat,
              Nat.lt_trans hPointer (by decide)⟩, rfl,
            hPointer, ?_⟩
          rw [← hFile]
          rfl
      · cases hGrow

/- With a block to take and a direct slot the file grows. -/
theorem growFile_of_offersBlock
    (hOffers : s.OffersBlock)
    (hSlot : (allocatedBlocks s).toNat < ext2NdirBlocks) :
    ∃ block t, growFile s = some (0, block, t) := by
  rcases hOffers with ⟨hPerGroup, num, u, hNum, hAlloc⟩
  simp only [growFile, if_neg hPerGroup, hAlloc,
    Option.bind_eq_bind, Option.bind_some, if_neg hNum,
    dif_pos hSlot]
  exact ⟨_, _, rfl⟩

/-
  The open file's sector count converts exactly in both
  directions, and growing the file fills no pointer slot that
  is in use: those of its blocks and those with a pointer
  stay as they are.
-/
structure CountsExactly
    (s : Fs) : Prop where
  blocks :
    (allocatedBlocks s).toNat =
      s.file.inode.iDiskSectorsCount.toNat / 8
  sectors :
    ext2BlocksToSectors (allocatedBlocks s) s =
      s.file.inode.iDiskSectorsCount
  keeps : ∀ block t, growFile s = some (0, block, t) →
    ∀ k : Fin ext2NBlocks,
      (k : Nat) < s.file.inode.iDiskSectorsCount.toNat / 8 ∨
        s.file.inode.iBlock k ≠ 0 →
      (k : Nat) ≠ (allocatedBlocks s).toNat ∧
        t.file.inode.iBlock k = s.file.inode.iBlock k

/- From 2^23 sectors on growing takes a pointer in use. -/
theorem growFile_overwrites
    (hBlock : ext2GetBlockSize s = 4096)
    (hSectors :
      s.file.inode.iDiskSectorsCount.toNat % 8 = 0)
    (hWrapped :
      8388608 ≤ s.file.inode.iDiskSectorsCount.toNat)
    (hGrow : growFile s = some (0, block, t)) :
    ∃ k : Fin ext2NBlocks,
      (k : Nat) < s.file.inode.iDiskSectorsCount.toNat / 8 ∧
        t.file.inode.iBlock k = block := by
  rcases growFile_slot hGrow with ⟨-, k, hk, -, hPointers⟩
  have hCount := blocks_of_sectors hBlock hSectors
  change (allocatedBlocks s).toNat = _ at hCount
  refine ⟨k, by omega, ?_⟩
  rw [hPointers]
  exact Function.update_self ..

/-
  The count is exact below 2^23 sectors and only there.  The
  slot behind the counted blocks has to be empty as well, if
  it is a direct one and there is a block to put into it: a
  file with a hole may have a pointer there.
-/
theorem countsExactly_iff
    (hBlock : ext2GetBlockSize s = 4096)
    (hSectors :
      s.file.inode.iDiskSectorsCount.toNat % 8 = 0) :
    CountsExactly s ↔
      s.file.inode.iDiskSectorsCount.toNat < 8388608 ∧
        ∀ k : Fin ext2NBlocks,
          (k : Nat) =
            s.file.inode.iDiskSectorsCount.toNat / 8 →
          (k : Nat) < ext2NdirBlocks → s.OffersBlock →
            s.file.inode.iBlock k = 0 := by
  have hCount := blocks_of_sectors hBlock hSectors
  change (allocatedBlocks s).toNat = _ at hCount
  constructor
  · intro h
    have hBlocks := h.blocks
    refine ⟨by omega, fun k hk hDirect hOffers => ?_⟩
    rcases growFile_of_offersBlock hOffers (by omega) with
      ⟨block, t, hGrow⟩
    by_contra hUsed
    have hNe := (h.keeps block t hGrow k (.inr hUsed)).1
    omega
  · rintro ⟨hLt, hEmpty⟩
    refine ⟨by omega, ?_, ?_⟩
    · refine UInt32.toNat_inj.mp ?_
      rw [sectors_of_blocks hBlock (by omega)]
      omega
    · intro block t hGrow k hUsed
      rcases growFile_slot hGrow with
        ⟨hOffers, j, hj, hDirect, hPointers⟩
      have hNe : k ≠ j := by
        rintro rfl
        rcases hUsed with hCounted | hPointer
        · omega
        · exact hPointer
            (hEmpty k (by omega) hDirect hOffers)
      refine ⟨fun hEq => hNe (Fin.ext (hEq.trans hj.symm)), ?_⟩
      rw [hPointers]
      exact Function.update_of_ne hNe ..

end

------------------------------------------------------------
-- Samples
------------------------------------------------------------

/- A mounted image with an open file of some sectors. -/
def sectorSample
    (sectors : UInt32) : Fs :=
  emptySample.setFileInode
    { Inode.zero with iDiskSectorsCount := sectors }

theorem sectorSample_blockSize
    (sectors : UInt32) :
    ext2GetBlockSize (sectorSample sectors) = 4096 :=
  emptySample_steady.blockSize

/- A file of 2^23 sectors counts as one without blocks. -/
theorem countsExactly_wrapped :
    ext2SectorsToBlocks 8388608 (sectorSample 8388608) = 0 ∧
      ¬ CountsExactly (sectorSample 8388608) := by
  have hZero :
      ext2SectorsToBlocks 8388608 (sectorSample 8388608) =
        0 := by
    unfold ext2SectorsToBlocks
    rw [sectorSample_blockSize]
    decide
  refine ⟨hZero, fun h => ?_⟩
  have hBlocks := h.blocks
  change (ext2SectorsToBlocks 8388608
    (sectorSample 8388608)).toNat = 1048576 at hBlocks
  rw [hZero] at hBlocks
  exact absurd hBlocks (by decide)

theorem countsExactly_largest :
    CountsExactly (sectorSample 8388600) :=
  (countsExactly_iff (sectorSample_blockSize _)
    (by decide)).mpr ⟨by decide, fun _ _ _ _ => rfl⟩

end Ext2

end Ester
