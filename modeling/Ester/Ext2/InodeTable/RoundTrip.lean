import Ester.Ext2.InodeTable
import Ester.Ext2.SampleImage

/-
  The inode tables as independent slots, for every legal
  geometry.

  Nothing is assumed about the rest of the image: any inode
  size that is a power of two within the block, any number
  of inodes in a group, and groups whose inode tables do not
  overlap.  Then a written inode is read back, all others
  stay as they were, and so does every other byte.

  Key definitions include:
    * `SlotGeometry`

  Key theorems include:
    * `SlotGeometry.slotsOk`
    * `inode_write_extract`
-/

------------------------------------------------------------
-- Geometry
------------------------------------------------------------

namespace Ester

namespace Ext2

/- The superblocks and descriptors in question. -/
structure SlotGeometry
    (s : Fs)
    (groups : Nat) : Prop where
  size_power : ∃ k, s.sb.sInodeSize.toNat = 2 ^ k
  size_ge : 128 ≤ s.sb.sInodeSize.toNat
  size_le : s.sb.sInodeSize.toNat ≤ 4096
  inodes_pos : 1 ≤ s.sb.sInodesPerGroup.toNat
  inodes_le : s.sb.sInodesPerGroup.toNat ≤ 32768
  groups_le : groups ≤ maxGroups
  tables_disjoint :
    ∀ (g g' : Fin maxGroups) (k k' : Nat),
      g < groups → g' < groups → g ≠ g' →
        k < s.layout.tableBlocks → k' < s.layout.tableBlocks →
          (s.bgdt g).bgInodeTable + UInt32.ofNat k ≠
            (s.bgdt g').bgInodeTable + UInt32.ofNat k'

/- Whole slots fit a block, and no two blocks coincide. -/
theorem SlotGeometry.slotsOk
    {s : Fs}
    {groups : Nat}
    (hGeometry : SlotGeometry s groups)
    (hSteady : s.Steady) :
    s.layout.SlotsOk groups where
  blockSize := hSteady.blockSize
  groups_le := hGeometry.groups_le
  inodes_pos := hGeometry.inodes_pos
  inodes_max := hGeometry.inodes_le
  inodeSize_ge := hGeometry.size_ge
  inodeSize_dvd := by
    rcases hGeometry.size_power with ⟨k, hk⟩
    have hLe := hGeometry.size_le
    have hSize : s.layout.inodeSize = 2 ^ k := hk
    have hBlock : (4096 : Nat) = 2 ^ 12 := by decide
    rw [hk, hBlock] at hLe
    rw [hSize, hBlock]
    exact Nat.pow_dvd_pow 2
      ((Nat.pow_le_pow_iff_right (by decide)).mp hLe)
  table_inj := by
    intro g g' k k' hg hg' hk hk' hEq
    by_cases hSame : g = g'
    · subst hSame
      have hTables : s.layout.tableBlocks ≤ 32768 := by
        have hInodes : s.layout.inodesPerGroup ≤ 32768 :=
          hGeometry.inodes_le
        have hSize : s.layout.inodeSize ≤ 4096 :=
          hGeometry.size_le
        have hMul := Nat.mul_le_mul hInodes hSize
        rw [Layout.tableBlocks]
        omega
      have hOf := congrArg UInt32.toNat
        ((UInt32.add_right_inj _).mp hEq)
      rw [UInt32.toNat_ofNat_of_lt' (by
          simp only [UInt32.size]
          omega),
        UInt32.toNat_ofNat_of_lt' (by
          simp only [UInt32.size]
          omega)] at hOf
      exact ⟨rfl, hOf⟩
    · exact absurd hEq (hGeometry.tables_disjoint g g' k k' hg
        hg' hSame hk hk')

------------------------------------------------------------
-- Round Trip and Frame
------------------------------------------------------------

/-
  After an inode was written, it is read back, the others
  are read as before, and no byte outside its slot changed.
  The offset in the table is a product without overflow.
-/
theorem inode_write_extract
    {s : Fs}
    {groups : Nat}
    (hSteady : s.Steady)
    (hGeometry : SlotGeometry s groups)
    {n m : UInt32}
    (hn : s.layout.HasSlot groups n)
    (hm : s.layout.HasSlot groups m)
    (v : Inode) :
    ∃ t, ext2InodeWrite n v s = some t ∧
      (ext2ExtractInode n t).map (fun u => u.currentInode) =
        some v ∧
      (m ≠ n → ∃ w,
        (ext2ExtractInode m s).map (fun u => u.currentInode) =
          some w ∧
        (ext2ExtractInode m t).map (fun u => u.currentInode) =
          some w) ∧
      (∀ b i, ¬ (b = s.layout.slotBlock n ∧
          s.layout.slotOffset n ≤ i ∧
            i < s.layout.slotOffset n + 128) →
        (t.disk b).get i = (s.disk b).get i) ∧
      ((n - 1) % s.sb.sInodesPerGroup *
          s.sb.sInodeSize.toUInt32).toNat =
        (n.toNat - 1) % s.sb.sInodesPerGroup.toNat *
          s.sb.sInodeSize.toNat := by
  have hSlots := hGeometry.slotsOk hSteady
  have hWrite := ext2InodeWrite_slot hSteady hSlots hn v
  have hSteady' : (s.putInode n v).Steady :=
    hSteady.putBlock _ _
  have hSlots' : (s.putInode n v).layout.SlotsOk groups := by
    rw [Fs.putInode_layout]
    exact hSlots
  have hRead : ∀ {k : UInt32}, s.layout.HasSlot groups k →
      (ext2ExtractInode k (s.putInode n v)).map
        (fun u => u.currentInode) =
          some (if k = n then v else s.inodeAt k) := by
    intro k hk
    rw [ext2ExtractInode_slot hSteady' hSlots' hk,
      Option.map_some, Fs.setCurrentInode_currentInode,
      Fs.inodeAt_putInode_slot hSlots hn hk v]
  refine ⟨s.putInode n v, hWrite, ?_, ?_, ?_,
    toNat_index_mul_size hSlots hn⟩
  · rw [hRead hn, if_pos rfl]
  · intro hNe
    refine ⟨s.inodeAt m, ?_, ?_⟩
    · rw [ext2ExtractInode_slot hSteady hSlots hm,
        Option.map_some, Fs.setCurrentInode_currentInode]
    · rw [hRead hm, if_neg hNe]
  · intro b i hOutside
    exact Fs.putInode_get_of_outside s n v hOutside

/- The sample image with a second group behind it. -/
def twoGroupFs : Fs :=
  { sampleFs (fun _ => Inode.zero) (fun _ => default) with
    bgdt := fun g =>
      if g = 1 then
        { (default : BlockGroupDescriptor) with
          bgInodeTable := 20 }
      else sampleBgdt g }

theorem twoGroupFs_steady :
    twoGroupFs.Steady :=
  ⟨rfl, by decide⟩

theorem twoGroupFs_geometry :
    SlotGeometry twoGroupFs 2 where
  size_power := ⟨7, by decide⟩
  size_ge := by decide
  size_le := by decide
  inodes_pos := by decide
  inodes_le := by decide
  groups_le := by decide
  tables_disjoint g g' k k' hg hg' hNe hk hk' := by
    have hOne : twoGroupFs.layout.tableBlocks = 1 := by decide
    rw [hOne] at hk hk'
    obtain rfl : k = 0 := by omega
    obtain rfl : k' = 0 := by omega
    have hCases : ∀ x : Fin maxGroups, (x : Nat) < 2 →
        x = 0 ∨ x = 1 := by decide
    rcases hCases g hg with rfl | rfl
    · rcases hCases g' hg' with rfl | rfl
      · exact absurd rfl hNe
      · decide
    · rcases hCases g' hg' with rfl | rfl
      · decide
      · exact absurd rfl hNe

/- An inode to write: an empty file of one block. -/
def slotSample : Inode :=
  sampleInode 0x81A4 0 8 [6]

/- The last inode of the first group and the next one. -/
theorem inode_write_extract_sample :
    ∃ t, ext2InodeWrite 32 slotSample twoGroupFs = some t ∧
      (ext2ExtractInode 32 t).map (fun u => u.currentInode) =
        some slotSample ∧
      ((33 : UInt32) ≠ 32 → ∃ w,
        (ext2ExtractInode 33 twoGroupFs).map
          (fun u => u.currentInode) = some w ∧
        (ext2ExtractInode 33 t).map
          (fun u => u.currentInode) = some w) ∧
      (∀ b i, ¬ (b = twoGroupFs.layout.slotBlock 32 ∧
          twoGroupFs.layout.slotOffset 32 ≤ i ∧
            i < twoGroupFs.layout.slotOffset 32 + 128) →
        (t.disk b).get i = (twoGroupFs.disk b).get i) ∧
      (((32 : UInt32) - 1) % twoGroupFs.sb.sInodesPerGroup *
          twoGroupFs.sb.sInodeSize.toUInt32).toNat =
        ((32 : UInt32).toNat - 1) %
            twoGroupFs.sb.sInodesPerGroup.toNat *
          twoGroupFs.sb.sInodeSize.toNat :=
  inode_write_extract twoGroupFs_steady twoGroupFs_geometry
    ⟨by decide, by decide⟩ ⟨by decide, by decide⟩ slotSample

end Ext2

end Ester
