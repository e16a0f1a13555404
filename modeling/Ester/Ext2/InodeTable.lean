import Ester.Ext2.Inode
import Ester.Ext2.Layout

/-
  The inode tables as a map from inode numbers to inodes.

  On a well-formed layout `ext2_extract_inode` reads
  `inodeAt` and `ext2_inode_write` performs `putInode`,
  which replaces the slot of one inode: reading it back
  gives what was written, all other inodes and all other
  blocks are unchanged.

  Key definitions include:
    * `Fs.inodeAt`
    * `Fs.putInode`

  Key theorems include:
    * `ext2ExtractInode_eq`
    * `ext2InodeWrite_eq`
    * `Fs.inodeAt_putInode`
    * `Fs.inodeAt_putBlock`
-/

------------------------------------------------------------
-- Slots
------------------------------------------------------------

namespace Ester

namespace Ext2

namespace Fs

/- The inode stored under a number. -/
def inodeAt
    (s : Fs)
    (n : UInt32) : Inode :=
  inodeCodec.decode
    ((s.disk (s.layout.slotBlock n)).slice
      (s.layout.slotOffset n))

/- Store an inode under a number. -/
def putInode
    (s : Fs)
    (n : UInt32)
    (inode : Inode) : Fs :=
  s.putBlock (s.layout.slotBlock n)
    ((s.disk (s.layout.slotBlock n)).splice
      (s.layout.slotOffset n) 128 (inodeCodec.encode inode))

@[simp] theorem putBlock_layout
    (s : Fs)
    (b : UInt32)
    (content : Block) :
    (s.putBlock b content).layout = s.layout := rfl

@[simp] theorem setCurrentInode_layout
    (s : Fs)
    (inode : Inode) :
    (s.setCurrentInode inode).layout = s.layout := rfl

@[simp] theorem putInode_layout
    (s : Fs)
    (n : UInt32)
    (inode : Inode) :
    (s.putInode n inode).layout = s.layout := rfl

end Fs

section Slots

variable {s : Fs}
variable {groups : Nat}

/- The product in the slot computation does not overflow. -/
theorem toNat_index_mul_size
    (hSlots : s.layout.SlotsOk groups)
    {n : UInt32}
    (hn : s.layout.HasSlot groups n) :
    ((n - 1) % s.sb.sInodesPerGroup *
        s.sb.sInodeSize.toUInt32).toNat =
      s.layout.slotIndex n * s.layout.inodeSize := by
  have hBound := hSlots.index_mul_size_le n
  have hPred : (n - 1).toNat = n.toNat - 1 := by
    rw [UInt32.toNat_sub_of_le _ _ (by
      rw [UInt32.le_iff_toNat_le]
      exact hn.1)]
    rfl
  have hIndexEq :
      ((n - 1) % s.sb.sInodesPerGroup).toNat =
        s.layout.slotIndex n := by
    rw [UInt32.toNat_mod, hPred]
    rfl
  rw [UInt32.toNat_mul, hIndexEq, UInt16.toNat_toUInt32]
  apply Nat.mod_eq_of_lt
  have hSize : s.layout.inodeSize = s.sb.sInodeSize.toNat := rfl
  rw [hSize] at hBound
  omega

/- The slot computation is exact on valid numbers. -/
theorem inodeSlot_eq
    (hSlots : s.layout.SlotsOk groups)
    {n : UInt32}
    (hn : s.layout.HasSlot groups n) :
    inodeSlot n s =
      some (s.layout.slotBlock n,
        UInt32.ofNat (s.layout.slotOffset n)) := by
  have hPos : s.sb.sInodesPerGroup ≠ 0 := by
    intro h0
    have := hSlots.inodes_pos
    simp [Fs.layout, h0] at this
  have hPred : (n - 1).toNat = n.toNat - 1 := by
    rw [UInt32.toNat_sub_of_le _ _ (by
      rw [UInt32.le_iff_toNat_le]
      exact hn.1)]
    rfl
  have hGroup := hSlots.slotGroup_val hn
  have hMax : (n.toNat - 1) / s.sb.sInodesPerGroup.toNat <
      maxGroups := Nat.lt_of_lt_of_le hGroup.2 hSlots.groups_le
  have hBgd :
      ext2GetBgd ((n - 1) / s.sb.sInodesPerGroup) =
        some (s.layout.slotGroup n) := by
    have hToNat :
        ((n - 1) / s.sb.sInodesPerGroup).toNat =
          (n.toNat - 1) / s.sb.sInodesPerGroup.toNat := by
      rw [UInt32.toNat_div, hPred]
    rw [ext2GetBgd, dif_pos (by rw [hToNat]; exact hMax)]
    congr 1
    apply Fin.ext
    rw [hGroup.1]
    exact hToNat
  have hBound := hSlots.index_mul_size_le n
  have hProduct := toNat_index_mul_size hSlots hn
  have hBlockSize : ext2GetBlockSize s = 4096 :=
    hSlots.blockSize
  unfold inodeSlot
  simp only [ext2GetInodesPerGroup, ext2GetInodeSize, hPos,
    if_false, hBgd, hBlockSize, Option.bind_eq_bind,
    Option.bind_some, Option.some.injEq, Prod.mk.injEq]
  constructor
  · rw [Layout.slotBlock, Layout.tableBlock]
    congr 1
    apply UInt32.toNat_inj.mp
    rw [UInt32.toNat_div, hProduct]
    rw [UInt32.toNat_ofNat_of_lt']
    · rfl
    · have hDiv := Nat.div_le_self
        (s.layout.slotIndex n * s.layout.inodeSize) 4096
      simp only [UInt32.size]
      omega
  · apply UInt32.toNat_inj.mp
    rw [UInt32.toNat_mod, hProduct]
    rw [UInt32.toNat_ofNat_of_lt']
    · rfl
    · have := hSlots.slotOffset_le n
      simp only [UInt32.size]
      omega

theorem slotOffset_toNat
    {L : Layout}
    (hSlots : L.SlotsOk groups)
    (n : UInt32) :
    (UInt32.ofNat (L.slotOffset n)).toNat =
      L.slotOffset n := by
  apply UInt32.toNat_ofNat_of_lt'
  have := hSlots.slotOffset_le n
  simp only [UInt32.size]
  omega

------------------------------------------------------------
-- Reading and Writing
------------------------------------------------------------

/- Extraction reads the slot's bytes. -/
theorem ext2ExtractInode_slot
    (hSteady : s.Steady)
    (hSlots : s.layout.SlotsOk groups)
    {n : UInt32}
    (hn : s.layout.HasSlot groups n) :
    ext2ExtractInode n s =
      some (s.setCurrentInode (s.inodeAt n)) := by
  have hFits :
      s.layout.slotOffset n + 128 ≤ logicalBlockSize :=
    hSlots.slotOffset_le n
  simp [ext2ExtractInode, inodeSlot_eq hSlots hn,
    readLocal_of_steady hSteady, slotOffset_toNat hSlots,
    hFits, Fs.inodeAt]

/- Writing replaces the slot's bytes. -/
theorem ext2InodeWrite_slot
    (hSteady : s.Steady)
    (hSlots : s.layout.SlotsOk groups)
    {n : UInt32}
    (hn : s.layout.HasSlot groups n)
    (inode : Inode) :
    ext2InodeWrite n inode s = some (s.putInode n inode) := by
  have hFits :
      s.layout.slotOffset n + 128 ≤ logicalBlockSize :=
    hSlots.slotOffset_le n
  simp [ext2InodeWrite, inodeSlot_eq hSlots hn,
    readLocal_of_steady hSteady, slotOffset_toNat hSlots,
    memcpy_of_le hFits, ext2WriteBlock_of_steady hSteady,
    Fs.putInode]

end Slots

/- Extraction reads the stored inode. -/
theorem ext2ExtractInode_eq
    {s : Fs}
    (hSteady : s.Steady)
    (hL : s.layout.Ok)
    {n : UInt32}
    (hn : s.layout.ValidInode n) :
    ext2ExtractInode n s =
      some (s.setCurrentInode (s.inodeAt n)) :=
  ext2ExtractInode_slot hSteady hL.slots hn

/- Writing an inode replaces its slot. -/
theorem ext2InodeWrite_eq
    {s : Fs}
    (hSteady : s.Steady)
    (hL : s.layout.Ok)
    {n : UInt32}
    (hn : s.layout.ValidInode n)
    (inode : Inode) :
    ext2InodeWrite n inode s = some (s.putInode n inode) :=
  ext2InodeWrite_slot hSteady hL.slots hn inode

namespace Fs

/- Blocks without the slot do not matter to an inode. -/
theorem inodeAt_putBlock
    (s : Fs)
    {b : UInt32}
    (content : Block)
    {n : UInt32}
    (hb : s.layout.slotBlock n ≠ b) :
    (s.putBlock b content).inodeAt n = s.inodeAt n := by
  rw [inodeAt, inodeAt, putBlock_layout,
    putBlock_disk_of_ne _ _ hb]

/- An inode depends on the block of its slot only. -/
theorem inodeAt_congr
    {s t : Fs}
    {n : UInt32}
    (hLayout : t.layout = s.layout)
    (hDisk : t.disk (s.layout.slotBlock n) =
      s.disk (s.layout.slotBlock n)) :
    t.inodeAt n = s.inodeAt n := by
  rw [inodeAt, inodeAt, hLayout, hDisk]

@[simp] theorem putInode_disk_of_ne
    (s : Fs)
    (n : UInt32)
    (inode : Inode)
    {b : UInt32}
    (hb : b ≠ s.layout.slotBlock n) :
    (s.putInode n inode).disk b = s.disk b :=
  putBlock_disk_of_ne _ _ hb

/- A written slot changes only its own 128 bytes. -/
theorem putInode_get_of_outside
    (s : Fs)
    (n : UInt32)
    (inode : Inode)
    {b : UInt32}
    {i : Nat}
    (hOutside : ¬ (b = s.layout.slotBlock n ∧
      s.layout.slotOffset n ≤ i ∧
        i < s.layout.slotOffset n + 128)) :
    ((s.putInode n inode).disk b).get i = (s.disk b).get i := by
  by_cases hb : b = s.layout.slotBlock n
  · subst hb
    have hRange : ¬ (s.layout.slotOffset n ≤ i ∧
        i < s.layout.slotOffset n + 128) :=
      fun h => hOutside ⟨rfl, h⟩
    rw [putInode, putBlock_disk_self,
      ByteBuffer.get_splice_of_outside _ _ (by omega)]
  · rw [putInode_disk_of_ne s n inode hb]

/- What was stored under a number and nothing else. -/
theorem inodeAt_putInode_slot
    {s : Fs}
    {groups : Nat}
    (hSlots : s.layout.SlotsOk groups)
    {n m : UInt32}
    (hn : s.layout.HasSlot groups n)
    (hm : s.layout.HasSlot groups m)
    (inode : Inode) :
    (s.putInode n inode).inodeAt m =
      if m = n then inode else s.inodeAt m := by
  have hFits := hSlots.slotOffset_le n
  by_cases hEq : m = n
  · subst hEq
    rw [if_pos rfl, inodeAt, putInode_layout, putInode,
      putBlock_disk_self]
    refine Eq.trans ?_ (inodeCodec.decode_encode inode)
    apply inodeCodec.decode_congr
    intro i hi
    rw [inodeCodec_size] at hi
    rw [ByteBuffer.slice_apply,
      ByteBuffer.get_splice_of_inside _ _ hi hFits]
  · rw [if_neg hEq]
    by_cases hBlock :
        s.layout.slotBlock m = s.layout.slotBlock n
    · have hDisjoint :=
        hSlots.slot_disjoint hm hn hEq hBlock
      rw [inodeAt, inodeAt, putInode_layout, putInode, hBlock,
        putBlock_disk_self]
      apply inodeCodec.decode_congr
      intro i hi
      rw [inodeCodec_size] at hi
      rw [ByteBuffer.slice_apply, ByteBuffer.slice_apply,
        ByteBuffer.get_splice_of_outside _ _ (by omega)]
    · exact inodeAt_putBlock s _ hBlock

theorem inodeAt_putInode
    {s : Fs}
    (hL : s.layout.Ok)
    {n m : UInt32}
    (hn : s.layout.ValidInode n)
    (hm : s.layout.ValidInode m)
    (inode : Inode) :
    (s.putInode n inode).inodeAt m =
      if m = n then inode else s.inodeAt m :=
  inodeAt_putInode_slot hL.slots hn hm inode

end Fs

end Ext2

end Ester
