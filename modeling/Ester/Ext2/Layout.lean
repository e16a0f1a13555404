import Ester.Ext2.Superblock

/-
  The geometry of a mounted image.

  A `Layout` is the part of superblock and group descriptor
  table that no operation changes: sizes, and where bitmaps
  and inode tables lie.  Well-formedness of an image is
  stated about its layout, so that it holds in every state
  of a run once it holds in the first.

  Key definitions include:
    * `Layout` and `Fs.layout`
    * `Layout.groups`
    * `Layout.BitmapsOk`
    * `Layout.limit`
    * `Layout.Ok`
    * `Layout.ValidInode`
    * `Layout.slotBlock`, `Layout.slotOffset`
    * `Layout.SlotsOk`

  Key theorems include:
    * `Layout.numberOf_inj`
    * `Layout.SlotsOk.slot_disjoint`
-/

------------------------------------------------------------
-- Layouts
------------------------------------------------------------

namespace Ester

namespace Ext2

/- Sizes and places that stay fixed while mounted. -/
structure Layout where
  blockSize : UInt32
  blocksCount : Nat
  inodesPerGroup : Nat
  blocksPerGroup : Nat
  inodeSize : Nat
  bitmap : Resource → Fin maxGroups → UInt32
  inodeTable : Fin maxGroups → UInt32

/- The layout a state has in memory. -/
def Fs.layout
    (s : Fs) : Layout where
  blockSize := ext2GetBlockSize s
  blocksCount := s.sb.sBlocksCount.toNat
  inodesPerGroup := s.sb.sInodesPerGroup.toNat
  blocksPerGroup := s.sb.sBlocksPerGroup.toNat
  inodeSize := s.sb.sInodeSize.toNat
  bitmap := fun r g => r.bitmap (s.bgdt g)
  inodeTable := fun g => (s.bgdt g).bgInodeTable

/- The layout depends on the static structures only. -/
theorem Fs.layout_congr
    {s t : Fs}
    (hSb : t.sb = s.sb)
    (hBgdt : t.bgdt = s.bgdt) :
    t.layout = s.layout := by
  simp only [layout, ext2GetBlockSize, hSb, hBgdt]

namespace Layout

/- The number of block groups, the last one possibly cut. -/
def groups
    (L : Layout) : Nat :=
  (L.blocksCount + L.blocksPerGroup - 1) / L.blocksPerGroup

/- How many bits of a group's bitmap stand for a resource. -/
def limit
    (L : Layout) : Resource → Nat
  | .inode => L.inodesPerGroup
  | .block => L.blocksPerGroup

/- The number that bit `i` of a group's bitmap stands for. -/
def numberOf
    (L : Layout) :
    Resource → (g : Fin maxGroups) → (i : Nat) → Nat
  | .inode, g, i => g * L.inodesPerGroup + i + 1
  | .block, g, i => g * L.blocksPerGroup + i

/-
  The sizes fit one bitmap block per group, and the bitmap
  blocks are distinct from each other and from the blocks of
  the superblock and the group descriptor table.
-/
structure BitmapsOk (L : Layout) : Prop where
  blockSize : L.blockSize = 4096
  groups_le : L.groups ≤ maxGroups
  inodes_le : L.inodesPerGroup ≤ L.blocksPerGroup
  blocks_le : L.blocksPerGroup ≤ 32768
  bitmap_ne_zero :
    ∀ r (g : Fin maxGroups), g < L.groups →
      L.bitmap r g ≠ 0
  bitmap_ne_one :
    ∀ r (g : Fin maxGroups), g < L.groups →
      L.bitmap r g ≠ 1
  bitmap_inj :
    ∀ r r' (g g' : Fin maxGroups),
      g < L.groups → g' < L.groups →
        L.bitmap r g = L.bitmap r' g' → r = r' ∧ g = g'

namespace BitmapsOk

variable {L : Layout}

theorem limit_le
    (h : L.BitmapsOk)
    (r : Resource) :
    L.limit r ≤ 32768 := by
  have hInodes := h.inodes_le
  have hBlocks := h.blocks_le
  cases r with
  | inode => exact Nat.le_trans hInodes hBlocks
  | block => exact hBlocks

theorem inodes_le_limit
    (h : L.BitmapsOk)
    (r : Resource) :
    L.inodesPerGroup ≤ L.limit r := by
  cases r with
  | inode => exact Nat.le_refl _
  | block => exact h.inodes_le

end BitmapsOk

/- Numbers of a resource name one bit of one group. -/
theorem numberOf_inj
    {L : Layout}
    (r : Resource)
    {g g' : Fin maxGroups}
    {i i' : Nat}
    (hi : i < L.limit r)
    (hi' : i' < L.limit r)
    (hEq : L.numberOf r g i = L.numberOf r g' i') :
    g = g' ∧ i = i' := by
  have hMul :
      g * L.limit r + i = g' * L.limit r + i' := by
    cases r with
    | inode =>
        simp only [numberOf] at hEq
        simp only [limit]
        omega
    | block => exact hEq
  have hPos : 0 < L.limit r := by omega
  have hDiv (a b : Nat) (hb : b < L.limit r) :
      (a * L.limit r + b) / L.limit r = a := by
    rw [Nat.mul_comm, Nat.mul_add_div hPos,
      Nat.div_eq_of_lt hb, Nat.add_zero]
  have hGroup : (g : Nat) = g' := by
    rw [← hDiv g i hi, hMul, hDiv g' i' hi']
  refine ⟨Fin.ext hGroup, ?_⟩
  rw [hGroup] at hMul
  omega

/- All numbers are far below the 32-bit range. -/
theorem BitmapsOk.numberOf_lt
    {L : Layout}
    (h : L.BitmapsOk)
    (r : Resource)
    (g : Fin maxGroups)
    {i : Nat}
    (hi : i < L.limit r) :
    L.numberOf r g i < 2 ^ 32 := by
  have hLimit := h.limit_le r
  have hGroup : (g : Nat) ≤ 127 := Nat.lt_succ_iff.mp g.isLt
  have hMul : (g : Nat) * L.limit r ≤ 127 * 32768 :=
    Nat.mul_le_mul hGroup hLimit
  cases r with
  | inode =>
      simp only [limit, numberOf] at *
      omega
  | block =>
      simp only [limit, numberOf] at *
      omega

------------------------------------------------------------
-- Inode Tables
------------------------------------------------------------

/- The blocks of one inode table. -/
def tableBlocks
    (L : Layout) : Nat :=
  (L.inodesPerGroup * L.inodeSize + 4095) / 4096

/- Block `k` of a group's inode table. -/
def tableBlock
    (L : Layout)
    (g : Fin maxGroups)
    (k : Nat) : UInt32 :=
  L.inodeTable g + UInt32.ofNat k

/- Numbers of inodes the image has a slot for. -/
def ValidInode
    (L : Layout)
    (n : UInt32) : Prop :=
  1 ≤ n.toNat ∧ n.toNat ≤ L.groups * L.inodesPerGroup

instance
    (L : Layout)
    (n : UInt32) :
    Decidable (L.ValidInode n) := by
  unfold ValidInode
  infer_instance

/-
  Inode slots do not straddle blocks, the root directory has
  a slot, and the blocks of the inode tables are distinct
  from each other and from all other metadata.
-/
structure Ok (L : Layout) : Prop extends L.BitmapsOk where
  root_le : 2 ≤ L.groups * L.inodesPerGroup
  inodeSize_ge : 128 ≤ L.inodeSize
  inodeSize_dvd : L.inodeSize ∣ 4096
  table_inj :
    ∀ (g g' : Fin maxGroups) (k k' : Nat),
      g < L.groups → g' < L.groups →
        k < L.tableBlocks → k' < L.tableBlocks →
          L.tableBlock g k = L.tableBlock g' k' →
            g = g' ∧ k = k'
  table_ne_zero :
    ∀ (g : Fin maxGroups) (k : Nat), g < L.groups →
      k < L.tableBlocks → L.tableBlock g k ≠ 0
  table_ne_one :
    ∀ (g : Fin maxGroups) (k : Nat), g < L.groups →
      k < L.tableBlocks → L.tableBlock g k ≠ 1
  table_ne_bitmap :
    ∀ r (g g' : Fin maxGroups) (k : Nat), g < L.groups →
      g' < L.groups → k < L.tableBlocks →
        L.tableBlock g k ≠ L.bitmap r g'

/- Blocks that hold file system metadata. -/
inductive IsMeta (L : Layout) : UInt32 → Prop
  | superBlock : IsMeta L 0
  | groupTable : IsMeta L 1
  | bitmap
      (r : Resource) (g : Fin maxGroups)
      (hg : g < L.groups) :
      IsMeta L (L.bitmap r g)
  | inodeTable
      (g : Fin maxGroups) (k : Nat)
      (hg : g < L.groups) (hk : k < L.tableBlocks) :
      IsMeta L (L.tableBlock g k)

/- The group whose table holds an inode. -/
def slotGroup
    (L : Layout)
    (n : UInt32) : Fin maxGroups :=
  Fin.ofNat maxGroups ((n.toNat - 1) / L.inodesPerGroup)

/- The index of an inode in its group. -/
def slotIndex
    (L : Layout)
    (n : UInt32) : Nat :=
  (n.toNat - 1) % L.inodesPerGroup

/- The block that holds an inode. -/
def slotBlock
    (L : Layout)
    (n : UInt32) : UInt32 :=
  L.tableBlock (L.slotGroup n)
    (L.slotIndex n * L.inodeSize / 4096)

/- The offset of an inode in its block. -/
def slotOffset
    (L : Layout)
    (n : UInt32) : Nat :=
  L.slotIndex n * L.inodeSize % 4096

/-
  What the slots of inodes rest on: whole slots in a block,
  and inode tables of `groups` groups that do not overlap.
-/
structure SlotsOk
    (L : Layout)
    (groups : Nat) : Prop where
  blockSize : L.blockSize = 4096
  groups_le : groups ≤ maxGroups
  inodes_pos : 0 < L.inodesPerGroup
  inodes_max : L.inodesPerGroup ≤ 32768
  inodeSize_ge : 128 ≤ L.inodeSize
  inodeSize_dvd : L.inodeSize ∣ 4096
  table_inj :
    ∀ (g g' : Fin maxGroups) (k k' : Nat),
      g < groups → g' < groups →
        k < L.tableBlocks → k' < L.tableBlocks →
          L.tableBlock g k = L.tableBlock g' k' →
            g = g' ∧ k = k'

/- Numbers of the inodes of `groups` groups. -/
def HasSlot
    (L : Layout)
    (groups : Nat)
    (n : UInt32) : Prop :=
  1 ≤ n.toNat ∧ n.toNat ≤ groups * L.inodesPerGroup

namespace SlotsOk

variable {L : Layout}
variable {groups : Nat}
variable (h : L.SlotsOk groups)

include h

theorem inodeSize_le :
    L.inodeSize ≤ 4096 :=
  Nat.le_of_dvd (by omega) h.inodeSize_dvd

theorem slotGroup_val
    {n : UInt32}
    (hn : L.HasSlot groups n) :
    (L.slotGroup n : Nat) =
      (n.toNat - 1) / L.inodesPerGroup ∧
      (n.toNat - 1) / L.inodesPerGroup < groups := by
  have hPos := h.inodes_pos
  have hLt : (n.toNat - 1) / L.inodesPerGroup < groups := by
    apply Nat.div_lt_of_lt_mul
    have hHigh := hn.2
    have hLow := hn.1
    rw [Nat.mul_comm]
    omega
  exact ⟨Nat.mod_eq_of_lt
    (Nat.lt_of_lt_of_le hLt h.groups_le), hLt⟩

theorem slotGroup_lt
    {n : UInt32}
    (hn : L.HasSlot groups n) :
    (L.slotGroup n : Nat) < groups := by
  rw [(h.slotGroup_val hn).1]
  exact (h.slotGroup_val hn).2

theorem slotIndex_lt
    (n : UInt32) :
    L.slotIndex n < L.inodesPerGroup :=
  Nat.mod_lt _ h.inodes_pos

/- The slot's block is one of its table. -/
theorem slotTable_lt
    (n : UInt32) :
    L.slotIndex n * L.inodeSize / 4096 < L.tableBlocks := by
  have hIndex := h.slotIndex_lt n
  have hSize := h.inodeSize_ge
  have hMul :
      (L.slotIndex n + 1) * L.inodeSize ≤
        L.inodesPerGroup * L.inodeSize :=
    Nat.mul_le_mul_right _ hIndex
  rw [Nat.add_mul, Nat.one_mul] at hMul
  unfold tableBlocks
  omega

/- A slot ends inside its block. -/
theorem slotOffset_le
    (n : UInt32) :
    L.slotOffset n + 128 ≤ 4096 := by
  have hSize := h.inodeSize_ge
  rcases h.inodeSize_dvd with ⟨c, hc⟩
  have hMod :
      L.slotOffset n =
        L.inodeSize * (L.slotIndex n % c) := by
    rw [slotOffset, hc, Nat.mul_comm, Nat.mul_mod_mul_left]
  have hPos : 0 < c := by
    rcases Nat.eq_zero_or_pos c with h0 | hPos
    · rw [h0, Nat.mul_zero] at hc
      omega
    · exact hPos
  have hLt := Nat.mod_lt (L.slotIndex n) hPos
  have hMul :
      L.inodeSize * (L.slotIndex n % c + 1) ≤
        L.inodeSize * c :=
    Nat.mul_le_mul_left _ hLt
  rw [Nat.mul_add, Nat.mul_one, ← hMod, ← hc] at hMul
  omega

/-
  Two inodes with slots in one block have disjoint slots.
-/
theorem slot_disjoint
    {n m : UInt32}
    (hn : L.HasSlot groups n)
    (hm : L.HasSlot groups m)
    (hNe : n ≠ m)
    (hBlock : L.slotBlock n = L.slotBlock m) :
    L.slotOffset n + 128 ≤ L.slotOffset m ∨
      L.slotOffset m + 128 ≤ L.slotOffset n := by
  have hSize := h.inodeSize_ge
  rcases h.table_inj _ _ _ _ (h.slotGroup_lt hn)
      (h.slotGroup_lt hm) (h.slotTable_lt n)
      (h.slotTable_lt m) hBlock with ⟨hGroup, hTable⟩
  have hGroups := congrArg Fin.val hGroup
  rw [(h.slotGroup_val hn).1, (h.slotGroup_val hm).1]
    at hGroups
  have hIndex : L.slotIndex n ≠ L.slotIndex m := by
    intro hEq
    apply hNe
    apply UInt32.toNat_inj.mp
    have hDivN := Nat.div_add_mod (n.toNat - 1)
      L.inodesPerGroup
    have hDivM := Nat.div_add_mod (m.toNat - 1)
      L.inodesPerGroup
    unfold slotIndex at hEq
    rw [hGroups, hEq] at hDivN
    have hn1 := hn.1
    have hm1 := hm.1
    omega
  have hStep {a b : Nat} (hab : a < b) :
      a * L.inodeSize + 128 ≤ b * L.inodeSize := by
    have hMul : (a + 1) * L.inodeSize ≤ b * L.inodeSize :=
      Nat.mul_le_mul_right _ hab
    rw [Nat.add_mul, Nat.one_mul] at hMul
    omega
  unfold slotOffset
  rcases Nat.lt_or_gt_of_ne hIndex with hLt | hGt
  · have := hStep hLt
    omega
  · have := hStep hGt
    omega

/- The offset in the table is computed without overflow. -/
theorem index_mul_size_le
    (n : UInt32) :
    L.slotIndex n * L.inodeSize ≤ 32768 * 4096 := by
  have hIndex := h.slotIndex_lt n
  have hInodes := h.inodes_max
  exact Nat.mul_le_mul (by omega) h.inodeSize_le

end SlotsOk

namespace Ok

variable {L : Layout} (h : L.Ok)
include h

theorem slots :
    L.SlotsOk L.groups where
  blockSize := h.blockSize
  groups_le := h.groups_le
  inodes_pos := by
    have hRoot := h.root_le
    rcases Nat.eq_zero_or_pos L.inodesPerGroup with h0 | hPos
    · rw [h0, Nat.mul_zero] at hRoot
      omega
    · exact hPos
  inodes_max := Nat.le_trans h.inodes_le h.blocks_le
  inodeSize_ge := h.inodeSize_ge
  inodeSize_dvd := h.inodeSize_dvd
  table_inj := h.table_inj

theorem inodes_pos :
    0 < L.inodesPerGroup :=
  h.slots.inodes_pos

theorem inodes_max :
    L.inodesPerGroup ≤ 32768 :=
  h.slots.inodes_max

theorem valid_root :
    L.ValidInode 2 :=
  ⟨by decide, h.root_le⟩

theorem slotGroup_val
    {n : UInt32}
    (hn : L.ValidInode n) :
    (L.slotGroup n : Nat) =
      (n.toNat - 1) / L.inodesPerGroup ∧
      (n.toNat - 1) / L.inodesPerGroup < L.groups :=
  h.slots.slotGroup_val hn

theorem slotGroup_lt
    {n : UInt32}
    (hn : L.ValidInode n) :
    (L.slotGroup n : Nat) < L.groups :=
  h.slots.slotGroup_lt hn

theorem slotTable_lt
    (n : UInt32) :
    L.slotIndex n * L.inodeSize / 4096 < L.tableBlocks :=
  h.slots.slotTable_lt n

theorem slotBlock_meta
    {n : UInt32}
    (hn : L.ValidInode n) :
    L.IsMeta (L.slotBlock n) :=
  .inodeTable _ _ (h.slotGroup_lt hn) (h.slotTable_lt n)

end Ok

end Layout

end Ext2

end Ester
