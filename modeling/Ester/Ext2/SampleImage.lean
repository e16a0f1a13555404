import Mathlib.Order.Interval.Finset.Nat
import Ester.Ext2.File
import Ester.Ext2.Image

/-
  A family of small well-formed images.

  One group of 64 blocks and 32 inodes: block 0 holds the
  superblock, block 1 the descriptor table, blocks 2 and 3
  the bitmaps, block 4 the inode table.  The first sixteen
  blocks and inodes are in use; inodes and the contents of
  the blocks from 5 on are parameters.

  Key definitions include:
    * `sampleFs`, `sampleLayout`
    * `bytesBlock`, `sampleInode`
    * `emptySample`, `fileSample`

  Key theorems include:
    * `sampleLayout_ok`
    * `sampleFs_inodeAt`
    * `sampleFs_imageOk`
    * `fileSample_imageOk`
-/

------------------------------------------------------------
-- Definition
------------------------------------------------------------

namespace Ester

namespace Ext2

def sampleSb : SuperBlock :=
  { (default : SuperBlock) with
    sInodesCount := 32
    sBlocksCount := 64
    sFreeBlocksCount := 48
    sFreeInodesCount := 16
    sLogBlockSize := 2
    sBlocksPerGroup := 64
    sInodesPerGroup := 32
    sMagic := 0xEF53
    sInodeSize := 128 }

def sampleBgdt : Bgdt := fun g =>
  if g = 0 then
    { (default : BlockGroupDescriptor) with
      bgBlockBitmap := 2
      bgInodeBitmap := 3
      bgInodeTable := 4
      bgFreeBlocksCount := 48
      bgFreeInodesCount := 16 }
  else default

/- A bitmap whose first sixteen bits are set. -/
def sampleBitmap : Block :=
  .ofFn logicalBlockSize fun i => if i < 2 then 255 else 0

/- An inode table of one block. -/
def sampleTable
    (inodes : UInt32 → Inode) : Block :=
  .ofFn logicalBlockSize fun i =>
    inodeCodec.encode (inodes (UInt32.ofNat (i / 128 + 1)))
      (i % 128)

/- A block that starts with the given bytes, then zeros. -/
def bytesBlock
    (bytes : List UInt8) : Block :=
  .ofFn logicalBlockSize fun i => bytes.getD i 0

def sampleDisk
    (inodes : UInt32 → Inode)
    (content : UInt32 → Block)
    (b : UInt32) : Block :=
  match b.toNat with
  | 0 => (ByteBuffer.fill logicalBlockSize 0).splice 1024 92
      (superBlockCodec.encode sampleSb)
  | 1 => .ofFn logicalBlockSize (bgdtCodec.encode sampleBgdt)
  | 2 => sampleBitmap
  | 3 => sampleBitmap
  | 4 => sampleTable inodes
  | _ => content b

/- The mounted image, no file open. -/
def sampleFs
    (inodes : UInt32 → Inode)
    (content : UInt32 → Block) : Fs where
  disk := sampleDisk inodes content
  faults := []
  sb := sampleSb
  bgdt := sampleBgdt
  currentInode := Inode.zero
  file := File.closed
  dataWrites := []

------------------------------------------------------------
-- Layout
------------------------------------------------------------

/- The layout of all images of the family. -/
def sampleLayout : Layout where
  blockSize := 4096
  blocksCount := 64
  inodesPerGroup := 32
  blocksPerGroup := 64
  inodeSize := 128
  bitmap := fun r g => r.bitmap (sampleBgdt g)
  inodeTable := fun g => (sampleBgdt g).bgInodeTable

theorem sampleLayout_tableBlocks :
    sampleLayout.tableBlocks = 1 := rfl

/- The only group is the first one. -/
theorem sampleLayout_group_eq
    {g : Fin maxGroups}
    (hg : g < sampleLayout.groups) :
    g = 0 := by
  have hOne : sampleLayout.groups = 1 := rfl
  rw [hOne] at hg
  exact Fin.ext (by simpa using hg)

theorem sampleLayout_ok :
    sampleLayout.Ok where
  blockSize := rfl
  groups_le := by decide
  inodes_le := by decide
  blocks_le := by decide
  bitmap_ne_zero r g hg := by
    rw [sampleLayout_group_eq hg]
    cases r <;> decide
  bitmap_ne_one r g hg := by
    rw [sampleLayout_group_eq hg]
    cases r <;> decide
  bitmap_inj r r' g g' hg hg' hEq := by
    rw [sampleLayout_group_eq hg, sampleLayout_group_eq hg']
      at *
    refine ⟨?_, rfl⟩
    cases r <;> cases r' <;> first
      | rfl
      | exact absurd hEq (by decide)
  root_le := by decide
  inodeSize_ge := by decide
  inodeSize_dvd := ⟨32, rfl⟩
  table_inj g g' k k' hg hg' hk hk' _ := by
    rw [sampleLayout_tableBlocks] at hk hk'
    rw [sampleLayout_group_eq hg, sampleLayout_group_eq hg']
    exact ⟨rfl, by omega⟩
  table_ne_zero g k hg hk := by
    rw [sampleLayout_tableBlocks] at hk
    rw [sampleLayout_group_eq hg, Nat.lt_one_iff.mp hk]
    decide
  table_ne_one g k hg hk := by
    rw [sampleLayout_tableBlocks] at hk
    rw [sampleLayout_group_eq hg, Nat.lt_one_iff.mp hk]
    decide
  table_ne_bitmap r g g' k hg hg' hk := by
    rw [sampleLayout_tableBlocks] at hk
    rw [sampleLayout_group_eq hg, sampleLayout_group_eq hg',
      Nat.lt_one_iff.mp hk]
    cases r <;> decide

/- The metadata blocks are the first five. -/
theorem sampleLayout_isMeta
    {b : UInt32}
    (hb : sampleLayout.IsMeta b) :
    b.toNat < 5 := by
  cases hb with
  | superBlock => decide
  | groupTable => decide
  | bitmap r g hg =>
      rw [sampleLayout_group_eq hg]
      cases r <;> decide
  | inodeTable g k hg hk =>
      rw [sampleLayout_tableBlocks] at hk
      rw [sampleLayout_group_eq hg, Nat.lt_one_iff.mp hk]
      decide

section

variable (inodes : UInt32 → Inode)
variable (content : UInt32 → Block)

@[simp] theorem sampleFs_layout :
    (sampleFs inodes content).layout = sampleLayout := by
  have hSize : (1024 : UInt32) <<< sampleSb.sLogBlockSize =
      4096 := by decide
  simp only [Fs.layout, sampleFs, ext2GetBlockSize, hSize]
  rfl

------------------------------------------------------------
-- Bitmaps and Inodes
------------------------------------------------------------

theorem sampleBitmap_bit
    {i : Nat}
    (hi : i < 32768) :
    sampleBitmap.bit i = decide (i < 16) := by
  have hByte : i / 8 < logicalBlockSize :=
    Nat.div_lt_of_lt_mul hi
  have hMod : i % 8 < 8 := Nat.mod_lt _ (by omega)
  rw [ByteBuffer.bit, sampleBitmap,
    ByteBuffer.get_ofFn_of_lt _ hByte]
  by_cases hLow : i < 16
  · have hFirst : i / 8 < 2 := by omega
    rw [if_pos hFirst, decide_eq_true hLow]
    generalize i % 8 = k at hMod
    interval_cases k <;> decide
  · have hFirst : ¬ i / 8 < 2 := by omega
    rw [if_neg hFirst, decide_eq_false hLow]
    generalize i % 8 = k at hMod
    interval_cases k <;> decide

/- All other bits of both bitmaps are clear. -/
theorem sampleBitmap_card
    {limit : Nat}
    (hLimit : limit ≤ 64) :
    (sampleBitmap.clearBits limit).card = limit - 16 := by
  have hEq : sampleBitmap.clearBits limit =
      Finset.Ico 16 limit := by
    ext i
    rw [ByteBuffer.mem_clearBits, Finset.mem_Ico]
    by_cases hi : i < limit
    · simp [sampleBitmap_bit (show i < 32768 by omega), hi]
    · simp [hi]
  rw [hEq, Nat.card_Ico]

/- The first sixteen blocks are in use. -/
theorem sampleFs_blockUsed
    {b : UInt32}
    (hb : b.toNat < 16) :
    (sampleFs inodes content).BlockUsed b := by
  rw [Fs.BlockUsed, sampleFs_layout]
  refine ⟨0, b.toNat, by decide, ?_, ?_, ?_⟩
  · exact Nat.lt_of_lt_of_le hb (by decide)
  · simp [Layout.numberOf]
  · rw [Fs.bitmapBlock, sampleFs_layout]
    change sampleBitmap.bit b.toNat = true
    rw [sampleBitmap_bit (by omega), decide_eq_true hb]

/- Where the inodes of the group lie. -/
theorem sampleLayout_slot
    {n : UInt32}
    (hn : sampleLayout.ValidInode n) :
    sampleLayout.slotBlock n = 4 ∧
      sampleLayout.slotOffset n = (n.toNat - 1) * 128 := by
  have hLow := hn.1
  have hHigh : n.toNat ≤ 32 := hn.2
  have hSize : sampleLayout.inodeSize = 128 := rfl
  have hGroup : sampleLayout.slotGroup n = 0 := by
    apply Fin.ext
    rw [(sampleLayout_ok.slotGroup_val hn).1]
    change (n.toNat - 1) / 32 = 0
    omega
  have hIndex : sampleLayout.slotIndex n = n.toNat - 1 := by
    change (n.toNat - 1) % 32 = n.toNat - 1
    omega
  constructor
  · rw [Layout.slotBlock, hGroup, hIndex, hSize,
      show (n.toNat - 1) * 128 / 4096 = 0 by omega]
    rfl
  · rw [Layout.slotOffset, hIndex, hSize]
    omega

/- The inodes are the given ones. -/
theorem sampleFs_inodeAt
    {n : UInt32}
    (hn : sampleLayout.ValidInode n) :
    (sampleFs inodes content).inodeAt n = inodes n := by
  have hLow := hn.1
  have hHigh : n.toNat ≤ 32 := hn.2
  rcases sampleLayout_slot hn with ⟨hBlock, hOffset⟩
  rw [Fs.inodeAt, sampleFs_layout, hBlock, hOffset]
  refine Eq.trans ?_ (inodeCodec.decode_encode (inodes n))
  apply inodeCodec.decode_congr
  intro i hi
  rw [inodeCodec_size] at hi
  have hIn : (n.toNat - 1) * 128 + i < logicalBlockSize :=
    show _ < 4096 by omega
  change (sampleTable inodes).get _ = _
  rw [sampleTable, ByteBuffer.get_ofFn_of_lt _ hIn,
    show ((n.toNat - 1) * 128 + i) / 128 + 1 = n.toNat by omega,
    show ((n.toNat - 1) * 128 + i) % 128 = i by omega,
    UInt32.ofNat_toNat]

/-
  The image is well formed for labels of used blocks beyond
  the metadata that its inodes respect.
-/
theorem sampleFs_imageOk
    {owners : Owners}
    (hOwned : ∀ b o, owners b = some o →
      5 ≤ b.toNat ∧ b.toNat < 16)
    (hSlots : ∀ n : UInt32, owners.live n → 1 ≤ n.toNat →
      n.toNat ≤ 32 → SlotOk sampleLayout owners
        (sampleDisk inodes content) n (inodes n)) :
    ImageOk owners (sampleFs inodes content) where
  faults := rfl
  layout := by
    rw [sampleFs_layout]
    exact sampleLayout_ok
  meta_used b hb := by
    rw [sampleFs_layout] at hb
    exact sampleFs_blockUsed inodes content
      (Nat.lt_trans (sampleLayout_isMeta hb) (by decide))
  owned_used b o hb :=
    sampleFs_blockUsed inodes content (hOwned b o hb).2
  owned_not_meta b o hb hMeta := by
    rw [sampleFs_layout] at hMeta
    have hLow := (hOwned b o hb).1
    have hHigh := sampleLayout_isMeta hMeta
    omega
  slots n hLive hn := by
    rw [sampleFs_layout] at hn ⊢
    rw [sampleFs_inodeAt _ _ hn]
    exact hSlots n hLive hn.1 hn.2

/- The image before it is mounted. -/
def sampleBoot : Fs :=
  { sampleFs inodes content with
    sb := default
    bgdt := default }

/- Mounting reads the superblock and the descriptors. -/
theorem sampleBoot_mount :
    ext2ExtractSb (sampleBoot inodes content) =
        (0, (sampleBoot inodes content).setSb sampleSb) ∧
      ext2ExtractBgdt
          ((sampleBoot inodes content).setSb sampleSb) =
        some (0, sampleFs inodes content) := by
  have hSb : superBlockCodec.decode
      ((sampleDisk inodes content 0).slice 1024) =
        sampleSb := by
    refine Eq.trans ?_ (superBlockCodec.decode_encode sampleSb)
    apply superBlockCodec.decode_congr
    intro i hi
    exact ByteBuffer.get_splice_of_inside _ _ hi (by decide)
  have hBgdt : bgdtCodec.decode
      ((sampleDisk inodes content 1).slice 0) =
        sampleBgdt := by
    refine Eq.trans ?_ (bgdtCodec.decode_encode sampleBgdt)
    apply bgdtCodec.decode_congr
    intro i hi
    rw [ByteBuffer.slice_apply, Nat.zero_add]
    exact ByteBuffer.get_ofFn_of_lt _ hi
  have hMagic : sampleSb.sMagic = 0xEF53 := rfl
  have hSize : (1024 : UInt32) <<< sampleSb.sLogBlockSize =
      4096 := by decide
  constructor
  · simp [ext2ExtractSb, ext2ReadBlock, sampleBoot, sampleFs,
      hSb, hMagic]
  · simp [ext2ExtractBgdt, readLocal, ext2ReadBlock,
      ext2GetBlockSize, sampleBoot, sampleFs, hSize, hBgdt,
      Fs.setSb, Fs.setBgdt]

/- An image without files. -/
def emptySample : Fs :=
  sampleFs (fun _ => Inode.zero)
    fun _ => .fill logicalBlockSize 0

theorem emptySample_layout :
    emptySample.layout = sampleLayout :=
  sampleFs_layout _ _

theorem emptySample_steady :
    emptySample.Steady :=
  ⟨rfl, congrArg Layout.blockSize emptySample_layout⟩

/- An inode that is neither file nor directory. -/
theorem SlotOk.of_unused
    {L : Layout}
    {owners : Owners}
    {disk : UInt32 → Block}
    {n : UInt32}
    {inode : Inode}
    (hFile : inode.isFile = false)
    (hDir : inode.isDir = false) :
    SlotOk L owners disk n inode where
  kind hIs := absurd (hFile.symm.trans hIs) (by simp)
  file hIs := absurd (hFile.symm.trans hIs) (by simp)
  pointer hIs := absurd (hFile.symm.trans hIs) (by simp)
  dir hIs := absurd (hDir.symm.trans hIs) (by simp)

end

------------------------------------------------------------
-- An Image With One File
------------------------------------------------------------

/- An inode of a given type with leading block pointers. -/
def sampleInode
    (mode : UInt16)
    (size sectors : UInt32)
    (blocks : List UInt32) : Inode :=
  { Inode.zero with
    iTypePermission := mode
    iLowerSize := size
    iLinksCount := 1
    iDiskSectorsCount := sectors
    iBlock := fun k => blocks.getD k 0 }

/- A directory of one block. -/
def sampleDir
    (block : UInt32) : Inode :=
  sampleInode 0x41ED 4096 8 [block]

/- The pointers of a directory of one block. -/
theorem slotOk_sampleDir
    {L : Layout}
    {owners : Owners}
    {disk : UInt32 → Block}
    {n block : UInt32}
    (hOwner : owners block = some (.data n 0))
    (hEntries : DirBlockOk L owners (disk block)) :
    SlotOk L owners disk n (sampleDir block) where
  kind hFile := absurd hFile (by
    change ¬ decide ((0x41ED : UInt16) &&& 0x8000 ≠ 0) = true
    decide)
  file hFile := absurd hFile (by
    change ¬ decide ((0x41ED : UInt16) &&& 0x8000 ≠ 0) = true
    decide)
  pointer hFile := absurd hFile (by
    change ¬ decide ((0x41ED : UInt16) &&& 0x8000 ≠ 0) = true
    decide)
  dir _ k hk hLead := by
    cases k with
    | zero => exact ⟨hOwner, hEntries⟩
    | succ k =>
        exact absurd rfl (hLead (k + 1) (Nat.le_refl _))

/-
  The entries `.`, `..` and `f` of the root directory, the
  last one reaching to the end of the block.
-/
def rootEntries : List UInt8 :=
  [2, 0, 0, 0, 12, 0, 1, 2, 46, 0, 0, 0,
   2, 0, 0, 0, 12, 0, 2, 2, 46, 46, 0, 0,
   12, 0, 0, 0, 232, 15, 1, 1, 102, 0, 0, 0]

/- The root directory, and the file `/f` of two full blocks. -/
def fileSampleInodes
    (n : UInt32) : Inode :=
  if n = 2 then sampleDir 5
  else if n = 12 then sampleInode 0x81A4 8192 16 [6, 7]
  else Inode.zero

def fileSampleContent
    (b : UInt32) : Block :=
  if b = 5 then bytesBlock rootEntries
  else .fill logicalBlockSize 1

def fileSampleOwners : Owners where
  label b :=
    if b = 5 then some (.data 2 0)
    else if b = 6 then some (.data 12 0)
    else if b = 7 then some (.data 12 1)
    else none
  live _ := True
  root := trivial

def fileSample : Fs :=
  sampleFs fileSampleInodes fileSampleContent

theorem fileSample_layout :
    fileSample.layout = sampleLayout :=
  sampleFs_layout _ _

theorem rootEntries_ok
    {owners : Owners}
    (hFile : owners.live 12) :
    DirBlockOk sampleLayout owners
      (bytesBlock rootEntries) := by
  refine .entry (by decide) (by decide)
    (.inr ⟨by decide, owners.root⟩) ?_
  refine .entry (by decide) (by decide)
    (.inr ⟨by decide, owners.root⟩) ?_
  refine .entry (by decide) (by decide)
    (.inr ⟨by decide, hFile⟩) ?_
  exact .done (by decide)

theorem fileSample_slotOk :
    SlotOk sampleLayout fileSampleOwners
      (sampleDisk fileSampleInodes fileSampleContent) 12
      (sampleInode 0x81A4 8192 16 [6, 7]) where
  kind _ := by decide
  file _ k hk hLt _ := by
    have hTwo :
        (sampleInode 0x81A4 8192 16 [6, 7]).allocated = 2 := by
      decide
    rw [hTwo] at hLt
    interval_cases k <;> rfl
  pointer _ hMany := absurd hMany (by decide)
  dir hDir := absurd hDir (by decide)

theorem fileSample_imageOk :
    ImageOk fileSampleOwners fileSample := by
  apply sampleFs_imageOk
  · intro b o hb
    simp only [fileSampleOwners] at hb
    split at hb
    · next h => subst h; decide
    · split at hb
      · next h => subst h; decide
      · split at hb
        · next h => subst h; decide
        · cases hb
  · intro n _ _ _
    simp only [fileSampleInodes]
    split
    · next h =>
        subst h
        exact slotOk_sampleDir rfl (rootEntries_ok trivial)
    · split
      · next h =>
          subst h
          exact fileSample_slotOk
      · exact .of_unused (by decide) (by decide)

end Ext2

end Ester
