import Ester.Ext2.Layout

/-
  The effect of one allocation in closed form.

  In a steady state `ext2_free_inode_alloc` and
  `ext2_free_block_alloc` either find no clear bit and leave
  the state alone, or `claim` the lowest one: set it in the
  bitmap block, decrease both counters and write block 1 and
  block 0 back.

  Key definitions include:
    * `Fs.claim`

  Key theorems include:
    * `ext2FreeAlloc_eq`
    * `Fs.claim_disk_bitmap`
    * `Fs.claim_disk_of_ne`
    * `Fs.claim_layout`
-/

------------------------------------------------------------
-- Claiming a Bit
------------------------------------------------------------

namespace Ester

namespace Ext2

/- Set bit `i` of a group's bitmap and count it as used. -/
def Fs.claim
    (r : Resource)
    (g : Fin maxGroups)
    (i : Nat)
    (s : Fs) : Fs :=
  let bitmap := r.bitmap (s.bgdt g)
  let s := s.putBlock bitmap ((s.disk bitmap).setBit i)
  let s := s.setBgdt
    (Function.update s.bgdt g (r.decBgd (s.bgdt g)))
  let s := s.putBlock 1
    ((s.disk 1).splice 0 4096 (bgdtCodec.encode s.bgdt))
  let s := s.setSb (r.decSb s.sb)
  s.putBlock 0
    ((s.disk 0).splice 1024 92 (superBlockCodec.encode s.sb))

namespace Resource

variable (r r' : Resource)

@[simp] theorem bitmap_decBgd
    (bgd : BlockGroupDescriptor) :
    r'.bitmap (r.decBgd bgd) = r'.bitmap bgd := by
  cases r <;> cases r' <;> rfl

@[simp] theorem decBgd_inodeTable
    (bgd : BlockGroupDescriptor) :
    (r.decBgd bgd).bgInodeTable = bgd.bgInodeTable := by
  cases r <;> rfl

@[simp] theorem decSb_sLogBlockSize
    (sb : SuperBlock) :
    (r.decSb sb).sLogBlockSize = sb.sLogBlockSize := by
  cases r <;> rfl

@[simp] theorem decSb_sBlocksCount
    (sb : SuperBlock) :
    (r.decSb sb).sBlocksCount = sb.sBlocksCount := by
  cases r <;> rfl

@[simp] theorem decSb_sInodesPerGroup
    (sb : SuperBlock) :
    (r.decSb sb).sInodesPerGroup = sb.sInodesPerGroup := by
  cases r <;> rfl

@[simp] theorem decSb_sBlocksPerGroup
    (sb : SuperBlock) :
    (r.decSb sb).sBlocksPerGroup = sb.sBlocksPerGroup := by
  cases r <;> rfl

@[simp] theorem decSb_sInodeSize
    (sb : SuperBlock) :
    (r.decSb sb).sInodeSize = sb.sInodeSize := by
  cases r <;> rfl

@[simp] theorem number_decSb
    (sb : SuperBlock)
    (group i : UInt32) :
    r'.number (r.decSb sb) group i =
      r'.number sb group i := by
  cases r <;> cases r' <;> rfl

@[simp] theorem bound_eq
    (sb : SuperBlock) :
    r.bound sb = sb.sInodesPerGroup := by
  cases r <;> rfl

end Resource

------------------------------------------------------------
-- What a Claim Changes
------------------------------------------------------------

namespace Fs

variable (r : Resource) (g : Fin maxGroups) (i : Nat)
variable (s : Fs)

@[simp] theorem claim_sb :
    (s.claim r g i).sb = r.decSb s.sb := rfl

@[simp] theorem claim_bgdt :
    (s.claim r g i).bgdt =
      Function.update s.bgdt g (r.decBgd (s.bgdt g)) := rfl

@[simp] theorem claim_faults :
    (s.claim r g i).faults = s.faults := rfl

@[simp] theorem claim_currentInode :
    (s.claim r g i).currentInode = s.currentInode := rfl

@[simp] theorem claim_file :
    (s.claim r g i).file = s.file := rfl

@[simp] theorem claim_dataWrites :
    (s.claim r g i).dataWrites = s.dataWrites := rfl

@[simp] theorem claim_blockSize :
    ext2GetBlockSize (s.claim r g i) = ext2GetBlockSize s := by
  simp [ext2GetBlockSize]

/- Sizes and places survive a claim. -/
@[simp] theorem claim_layout :
    (s.claim r g i).layout = s.layout := by
  have hBitmap (r' : Resource) (g' : Fin maxGroups) :
      r'.bitmap ((s.claim r g i).bgdt g') =
        r'.bitmap (s.bgdt g') := by
    by_cases h : g' = g
    · subst h
      simp
    · simp [h]
  have hTable (g' : Fin maxGroups) :
      ((s.claim r g i).bgdt g').bgInodeTable =
        (s.bgdt g').bgInodeTable := by
    by_cases h : g' = g
    · subst h
      simp
    · simp [h]
  simp only [layout, claim_blockSize, hBitmap, hTable]
  simp

theorem claim_steady
    (h : s.Steady) :
    (s.claim r g i).Steady :=
  ⟨h.faults, by rw [claim_blockSize]; exact h.blockSize⟩

variable {r g i s}

/- The bitmap block has the bit set. -/
theorem claim_disk_bitmap
    (h0 : s.layout.bitmap r g ≠ 0)
    (h1 : s.layout.bitmap r g ≠ 1) :
    (s.claim r g i).disk (s.layout.bitmap r g) =
      (s.disk (s.layout.bitmap r g)).setBit i := by
  simp only [layout] at *
  simp [claim, putBlock_disk, h0, h1]

/- Block 1 holds the new group descriptor table. -/
theorem claim_disk_one
    (h1 : s.layout.bitmap r g ≠ 1) :
    (s.claim r g i).disk 1 =
      (s.disk 1).splice 0 4096
        (bgdtCodec.encode (s.claim r g i).bgdt) := by
  simp only [layout] at *
  simp [claim, putBlock_disk, h1.symm]

/- Block 0 holds the new superblock. -/
theorem claim_disk_zero
    (h0 : s.layout.bitmap r g ≠ 0) :
    (s.claim r g i).disk 0 =
      (s.disk 0).splice 1024 92
        (superBlockCodec.encode (s.claim r g i).sb) := by
  simp only [layout] at *
  simp [claim, putBlock_disk, h0.symm]

/- All other blocks are untouched. -/
theorem claim_disk_of_ne
    {n : UInt32}
    (h : n ≠ s.layout.bitmap r g)
    (h0 : n ≠ 0)
    (h1 : n ≠ 1) :
    (s.claim r g i).disk n = s.disk n := by
  simp only [layout] at *
  simp [claim, putBlock_disk, h, h0, h1]

end Fs

------------------------------------------------------------
-- Allocation in Closed Form
------------------------------------------------------------

theorem ext2GetBgd_of_lt
    {group : UInt32}
    (hg : group.toNat < maxGroups) :
    ext2GetBgd group = some ⟨group.toNat, hg⟩ :=
  dif_pos hg

theorem ext2WriteBgdt_of_steady
    {s : Fs}
    (h : s.Steady) :
    ext2WriteBgdt s = some (0, s.putBlock 1
      ((s.disk 1).splice 0 4096
        (bgdtCodec.encode s.bgdt))) := by
  have hFits : 0 + 4096 ≤ logicalBlockSize := by decide
  simp [ext2WriteBgdt, readLocal_of_steady h,
    memcpy_of_le hFits, ext2WriteBlock_of_steady h]

theorem ext2WriteSb_of_steady
    {s : Fs}
    (h : s.Steady) :
    ext2WriteSb s = some (0, s.putBlock 0
      ((s.disk 0).splice 1024 92
        (superBlockCodec.encode s.sb))) := by
  have hFits : 1024 + 92 ≤ logicalBlockSize := by decide
  simp [ext2WriteSb, readLocal_of_steady h,
    memcpy_of_le hFits, ext2WriteBlock_of_steady h]

theorem scanBitmap_of_le
    (bitmap : Block)
    {limit : Nat}
    (h : limit ≤ 32768) :
    scanBitmap bitmap limit =
      some (bitmap.firstClear limit) := by
  have hMin : min limit (8 * logicalBlockSize) = limit :=
    Nat.min_eq_left h
  have hLimit : limit ≤ 8 * logicalBlockSize := h
  rw [scanBitmap, hMin]
  cases bitmap.firstClear limit with
  | none => exact if_pos hLimit
  | some i => rfl

/-
  An allocator returns 0 and changes nothing, or claims the
  lowest clear bit below `s_inodes_per_group`.
-/
theorem ext2FreeAlloc_eq
    {s : Fs}
    (hSteady : s.Steady)
    (hInodes : s.layout.inodesPerGroup ≤ 32768)
    (r : Resource)
    {group : UInt32}
    (hg : group.toNat < maxGroups) :
    ext2FreeAlloc r group s =
      match (s.disk (s.layout.bitmap r ⟨_, hg⟩)).firstClear
          s.layout.inodesPerGroup with
      | none => some (0, s)
      | some i => some (r.number s.sb group (UInt32.ofNat i),
          s.claim r ⟨_, hg⟩ i) := by
  simp only [Fs.layout] at *
  rw [ext2FreeAlloc, ext2GetBgd_of_lt hg, Option.bind_eq_bind,
    Option.bind_some, readLocal_of_steady hSteady]
  simp only [Option.bind_eq_bind, Option.bind_some,
    Resource.bound_eq, scanBitmap_of_le _ hInodes]
  cases (s.disk (r.bitmap (s.bgdt ⟨group.toNat, hg⟩))).firstClear
      s.sb.sInodesPerGroup.toNat with
  | none => rfl
  | some i =>
      have hMarked := hSteady.putBlock
        (r.bitmap (s.bgdt ⟨group.toNat, hg⟩))
        ((s.disk (r.bitmap (s.bgdt ⟨group.toNat, hg⟩))).setBit i)
      have hCounted := hMarked.setBgdt
        (Function.update s.bgdt ⟨group.toNat, hg⟩
          (r.decBgd (s.bgdt ⟨group.toNat, hg⟩)))
      simp only [ext2WriteBlock_of_steady hSteady,
        Fs.putBlock_bgdt, Option.bind_some,
        ext2WriteBgdt_of_steady hCounted]
      rw [ext2WriteSb_of_steady
        ((hCounted.putBlock _ _).setSb (by simp))]
      simp [Fs.claim]

end Ext2

end Ester
