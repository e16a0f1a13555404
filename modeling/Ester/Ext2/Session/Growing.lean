import Ester.Ext2.File
import Ester.Ext2.Image

/-
  Allocations of the open file in well-formed images.

  In a well-formed image an allocator either finds no clear
  bit or claims the lowest one, and a granted block is never
  block 0.  `growFile` is such an allocation whose number is
  stored at the file's next free direct pointer.

  Key definitions include:
    * `Fs.nextFree`
    * `Inode.grown`, `Fs.grown`

  Key theorems include:
    * `ext2FreeAlloc_of_image`
    * `growFile_eq`
    * `SlotOk.grown`
-/

------------------------------------------------------------
-- Allocation
------------------------------------------------------------

namespace Ester

namespace Ext2

/- The lowest clear bit of a group's bitmap in scan range. -/
def Fs.nextFree
    (s : Fs)
    (r : Resource)
    (g : Fin maxGroups) : Option Nat :=
  (s.bitmapBlock r g).firstClear s.layout.inodesPerGroup

section

variable {inodes : UInt32 → Prop}
variable {owners : Owners} {s : Fs} {r : Resource}
variable {g : Fin maxGroups} {i : Nat} {n : UInt32}

theorem FreeBit.of_nextFree
    (hg : g < s.layout.groups)
    (hNext : s.nextFree r g = some i) :
    FreeBit s r g i := by
  rcases (ByteBuffer.firstClear_eq_some_iff _ _ _).mp hNext
    with ⟨hClear, hi, -⟩
  exact ⟨hg, hi, hClear⟩

/- The group an inode's number is computed to lie in. -/
theorem group_of_validInode
    (hL : s.layout.Ok)
    (hn : s.layout.ValidInode n) :
    s.sb.sInodesPerGroup ≠ 0 ∧
      ((n - 1) / s.sb.sInodesPerGroup).toNat =
        s.layout.slotGroup n := by
  constructor
  · intro h0
    have hPos := hL.inodes_pos
    simp [Fs.layout, h0] at hPos
  · have hPred : (n - 1).toNat = n.toNat - 1 := by
      rw [UInt32.toNat_sub_of_le _ _ (by
        rw [UInt32.le_iff_toNat_le]
        exact hn.1)]
      rfl
    rw [(hL.slotGroup_val hn).1, UInt32.toNat_div, hPred]
    rfl

/- An allocator in the group of an inode. -/
theorem ext2FreeAlloc_of_valid
    (hSteady : s.Steady)
    (hL : s.layout.Ok)
    (hn : s.layout.ValidInode n)
    (r : Resource) :
    ext2FreeAlloc r ((n - 1) / s.sb.sInodesPerGroup) s =
      match s.nextFree r (s.layout.slotGroup n) with
      | none => some (0, s)
      | some i =>
          some (UInt32.ofNat (s.layout.numberOf r
              (s.layout.slotGroup n) i),
            s.claim r (s.layout.slotGroup n) i) := by
  have hGroup := (group_of_validInode hL hn).2
  have hLt :
      ((n - 1) / s.sb.sInodesPerGroup).toNat < maxGroups := by
    rw [hGroup]
    exact (s.layout.slotGroup n).isLt
  have hFin :
      (⟨((n - 1) / s.sb.sInodesPerGroup).toNat, hLt⟩ :
        Fin maxGroups) = s.layout.slotGroup n :=
    Fin.ext hGroup
  rw [ext2FreeAlloc_eq hSteady hL.inodes_max r hLt]
  simp only [number_eq_ofNat _ _ _ _ hLt, hFin]
  rfl

theorem ext2FreeAlloc_of_image
    (h : ImageOkFor inodes owners s)
    (hn : s.layout.ValidInode n)
    (r : Resource) :
    ext2FreeAlloc r ((n - 1) / s.sb.sInodesPerGroup) s =
      match s.nextFree r (s.layout.slotGroup n) with
      | none => some (0, s)
      | some i =>
          some (UInt32.ofNat (s.layout.numberOf r
              (s.layout.slotGroup n) i),
            s.claim r (s.layout.slotGroup n) i) :=
  ext2FreeAlloc_of_valid h.steady h.layout hn r

/- A granted block is not the block of the superblock. -/
theorem FreeBit.blockNumber_ne_zero
    (h : ImageOkFor inodes owners s)
    (hFree : FreeBit s .block g i) :
    s.layout.blockNumber g i ≠ 0 := by
  intro h0
  exact h.not_meta_of_free hFree (h0 ▸ .superBlock)

/- The numbers of a group's inodes name slots. -/
theorem validInode_numberOf
    {L : Layout}
    (hL : L.Ok)
    (hg : g < L.groups)
    (hi : i < L.inodesPerGroup) :
    L.ValidInode (UInt32.ofNat (L.numberOf .inode g i)) := by
  have hToNat :
      (UInt32.ofNat (L.numberOf .inode g i)).toNat =
        L.numberOf .inode g i :=
    UInt32.toNat_ofNat_of_lt' (hL.numberOf_lt .inode g hi)
  have hMul :
      (g + 1) * L.inodesPerGroup ≤
        L.groups * L.inodesPerGroup :=
    Nat.mul_le_mul_right _ hg
  rw [Nat.add_mul, Nat.one_mul] at hMul
  rw [Layout.ValidInode, hToNat, Layout.numberOf]
  omega

/- A granted inode number names a slot. -/
theorem FreeBit.validInode
    (hL : s.layout.Ok)
    (hFree : FreeBit s .inode g i) :
    s.layout.ValidInode
      (UInt32.ofNat (s.layout.numberOf .inode g i)) :=
  validInode_numberOf hL hFree.group_lt hFree.lt

------------------------------------------------------------
-- Growing an Inode
------------------------------------------------------------

/- An inode with one more block, at a given pointer. -/
def Inode.grown
    (inode : Inode)
    (k : Fin ext2NBlocks)
    (block : UInt32) : Inode :=
  { inode.setBlock k block with
    iDiskSectorsCount := inode.iDiskSectorsCount + 8 }

variable {inode : Inode} {k : Fin ext2NBlocks}
variable {block : UInt32}

@[simp] theorem Inode.grown_isFile :
    (inode.grown k block).isFile = inode.isFile := rfl

@[simp] theorem Inode.grown_isDir :
    (inode.grown k block).isDir = inode.isDir := rfl

@[simp] theorem Inode.grown_iLowerSize :
    (inode.grown k block).iLowerSize = inode.iLowerSize := rfl

theorem Inode.grown_allocated
    (hLt : inode.allocated < ext2NdirBlocks) :
    (inode.grown k block).allocated = inode.allocated + 1 := by
  have hDirect : ext2NdirBlocks = 12 := rfl
  have hBytes :
      (inode.iDiskSectorsCount + 8) * 512 =
        inode.iDiskSectorsCount * 512 + 4096 := by
    rw [UInt32.add_mul]
    rfl
  simp only [Inode.allocated, Inode.grown, hBytes,
    UInt32.toNat_div, UInt32.toNat_add,
    UInt32.reduceToNat] at hLt ⊢
  omega

theorem Inode.grown_direct_self
    {j : Nat}
    (hj : j < ext2NdirBlocks)
    (hk : (k : Nat) = j) :
    (inode.grown k block).direct j hj = block := by
  subst hk
  simp [Inode.direct, Inode.grown, Inode.setBlock]

theorem Inode.grown_direct_of_ne
    {j : Nat}
    (hj : j < ext2NdirBlocks)
    (hk : (k : Nat) ≠ j) :
    (inode.grown k block).direct j hj =
      inode.direct j hj := by
  have hNe :
      (⟨j, Nat.lt_trans hj (by decide)⟩ : Fin ext2NBlocks) ≠
        k :=
    fun hEq => hk (congrArg Fin.val hEq).symm
  simp [Inode.direct, Inode.grown, Inode.setBlock, hNe]

/-
  A grown file's inode is well formed once its new block
  carries the label of the new pointer.
-/
theorem SlotOk.grown
    {L : Layout}
    {disk : UInt32 → Block}
    (h : SlotOk L owners disk n inode)
    (hFile : inode.isFile)
    (hLt : inode.allocated < ext2NdirBlocks)
    (hk : (k : Nat) = inode.allocated)
    (hBlock : owners block =
      some (.data n inode.allocated)) :
    SlotOk L owners disk n (inode.grown k block) where
  kind := h.kind
  file _ j hj hjLt hSet := by
    rw [Inode.grown_allocated hLt] at hjLt
    by_cases hEq : j = inode.allocated
    · rw [Inode.grown_direct_self hj (hk.trans hEq.symm),
        hBlock, hEq]
    · rw [Inode.grown_direct_of_ne hj
        (fun hkj => hEq (hkj.symm.trans hk))] at hSet ⊢
      exact h.file hFile j hj (by omega) hSet
  pointer _ hMany := by
    rw [Inode.grown_allocated hLt] at hMany
    omega
  dir hDir := by
    have hNot := h.kind hFile
    rw [Inode.grown_isDir, hNot] at hDir
    exact absurd hDir (by simp)

------------------------------------------------------------
-- Growing the Open File
------------------------------------------------------------

theorem allocatedBlocks_toNat
    (hSteady : s.Steady) :
    (allocatedBlocks s).toNat = s.file.inode.allocated := by
  rw [allocatedBlocks, ext2SectorsToBlocks,
    hSteady.blockSize, Inode.allocated]

theorem ext2BlocksToSectors_one
    (hSteady : s.Steady) :
    ext2BlocksToSectors 1 s = 8 := by
  rw [ext2BlocksToSectors, hSteady.blockSize]
  decide

/- The group whose blocks the open file takes. -/
def Fs.fileGroup
    (s : Fs) : Fin maxGroups :=
  s.layout.slotGroup s.file.inodeNum

/-
  The state after the open file, with a direct pointer left,
  took the block of bit `i`.
-/
def Fs.grown
    (s : Fs)
    (i : Nat) : Fs :=
  (s.claim .block s.fileGroup i).setFileInode
    (s.file.inode.grown (Fin.ofNat _ s.file.inode.allocated)
      (s.layout.blockNumber s.fileGroup i))

@[simp] theorem Fs.grown_layout
    (s : Fs)
    (i : Nat) :
    (s.grown i).layout = s.layout :=
  Fs.claim_layout _ _ _ _

@[simp] theorem Fs.grown_dataWrites
    (s : Fs)
    (i : Nat) :
    (s.grown i).dataWrites = s.dataWrites := rfl

@[simp] theorem Fs.grown_file
    (s : Fs)
    (i : Nat) :
    (s.grown i).file = { s.file with
      inode := s.file.inode.grown
        (Fin.ofNat _ s.file.inode.allocated)
        (s.layout.blockNumber s.fileGroup i) } := rfl

theorem Fs.grown_allocated
    (hDirect : s.file.inode.allocated < ext2NdirBlocks)
    (i : Nat) :
    (s.grown i).file.inode.allocated =
      s.file.inode.allocated + 1 :=
  Inode.grown_allocated hDirect

/- The new pointer of a grown file is its last one. -/
theorem Fs.grown_direct_last
    (hDirect : s.file.inode.allocated < ext2NdirBlocks)
    (i : Nat) :
    (s.grown i).file.inode.direct s.file.inode.allocated
        hDirect =
      s.layout.blockNumber s.fileGroup i :=
  Inode.grown_direct_self hDirect
    (Nat.mod_eq_of_lt (Nat.lt_trans hDirect (by decide)))

/- The other pointers of a grown file are the old ones. -/
theorem Fs.grown_direct_of_ne
    (hDirect : s.file.inode.allocated < ext2NdirBlocks)
    (i : Nat)
    {k : Nat}
    (hk : k < ext2NdirBlocks)
    (hNe : k ≠ s.file.inode.allocated) :
    (s.grown i).file.inode.direct k hk =
      s.file.inode.direct k hk := by
  apply Inode.grown_direct_of_ne
  rw [Fin.val_ofNat,
    Nat.mod_eq_of_lt (Nat.lt_trans hDirect (by decide))]
  exact hNe.symm

/-
  The open file finds no block, has no pointer left for the
  block it found, or stores it at the next pointer.
-/
theorem growFile_eq
    (h : ImageOkFor inodes owners s)
    (hn : s.layout.ValidInode s.file.inodeNum) :
    growFile s =
      match s.nextFree .block s.fileGroup with
      | none => some (1, 0, s)
      | some i =>
          if s.file.inode.allocated < ext2NdirBlocks then
            some (0, s.layout.blockNumber s.fileGroup i,
              s.grown i)
          else some (1, 0, s.claim .block s.fileGroup i) := by
  have hGroup := group_of_validInode h.layout hn
  have hAllocated := allocatedBlocks_toNat h.steady
  rw [growFile]
  simp only [ext2GetInodesPerGroup, hGroup.1, if_false,
    ext2FreeBlockAlloc, ext2FreeAlloc_of_image h hn]
  change (Option.bind (match s.nextFree .block s.fileGroup with
    | none => _
    | some i => _) _) = _
  cases hNext : s.nextFree .block s.fileGroup with
  | none => simp
  | some i =>
      have hFree : FreeBit s .block s.fileGroup i :=
        .of_nextFree (h.layout.slotGroup_lt hn) hNext
      have hSectors := ext2BlocksToSectors_one
        (s.claim_steady .block
          (s.layout.slotGroup s.file.inodeNum) i h.steady)
      have hNe := hFree.blockNumber_ne_zero h
      change (if s.layout.blockNumber s.fileGroup i = 0 then _
        else _) = _
      rw [if_neg hNe]
      dsimp only
      by_cases hLt :
          s.file.inode.allocated < ext2NdirBlocks
      · have hIndex :
            (⟨s.file.inode.allocated,
              Nat.lt_trans hLt (by decide)⟩ :
                Fin ext2NBlocks) =
              Fin.ofNat _ s.file.inode.allocated :=
          Fin.ext (Nat.mod_eq_of_lt
            (Nat.lt_trans hLt (by decide))).symm
        rw [if_pos hLt, dif_pos (hAllocated ▸ hLt)]
        simp only [hAllocated, hSectors, hIndex]
        rfl
      · rw [if_neg hLt, dif_neg (hAllocated ▸ hLt)]
        rfl

theorem growFile_of_none
    (h : ImageOkFor inodes owners s)
    (hn : s.layout.ValidInode s.file.inodeNum)
    (hNext : s.nextFree .block s.fileGroup = none) :
    growFile s = some (1, 0, s) := by
  rw [growFile_eq h hn, hNext]

theorem growFile_of_full
    (h : ImageOkFor inodes owners s)
    (hn : s.layout.ValidInode s.file.inodeNum)
    (hNext : s.nextFree .block s.fileGroup = some i)
    (hFull : ext2NdirBlocks ≤ s.file.inode.allocated) :
    growFile s =
      some (1, 0, s.claim .block s.fileGroup i) := by
  rw [growFile_eq h hn, hNext]
  exact if_neg (Nat.not_lt.mpr hFull)

theorem growFile_of_some
    (h : ImageOkFor inodes owners s)
    (hn : s.layout.ValidInode s.file.inodeNum)
    (hNext : s.nextFree .block s.fileGroup = some i)
    (hDirect : s.file.inode.allocated < ext2NdirBlocks) :
    growFile s =
      some (0, s.layout.blockNumber s.fileGroup i,
        s.grown i) := by
  rw [growFile_eq h hn, hNext]
  exact if_pos hDirect

end

end Ext2

end Ester
