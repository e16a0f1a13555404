import Ester.Drivers.BlockStore
import Ester.Ext2.SampleImage

/-
  What the mount check leaves open.

  `ext2_extract_sb` accepts every superblock with the right
  magic number.  The block device always moves 4096 bytes,
  the descriptor table has a fixed number of entries, and
  reads reach the first 8 GiB only; the other fields of the
  superblock decide whether the rest of the code stays
  within these limits.

  Key definitions include:
    * `blockZeroSb`
    * `GeometryHandled`

  Key theorems include:
    * `transfers_iff`
    * `geometry_handled_iff`
    * `mount_accepts_small_blocks`
-/

------------------------------------------------------------
-- The Mounted Superblock
------------------------------------------------------------

namespace Ester

namespace Ext2

/- The superblock in a content of block 0. -/
def blockZeroSb
    (content : Block) : SuperBlock :=
  superBlockCodec.decode (content.slice 1024)

/- A successful mount keeps the superblock of block 0. -/
theorem sb_of_mount
    {s t : Fs}
    (hMount : ext2ExtractSb s = (0, t)) :
    t.sb = blockZeroSb (s.disk 0) := by
  have hRead : ∀ u : Fs, u.disk = s.disk →
      (if (u.setSb (superBlockCodec.decode
          ((s.disk 0).slice 1024))).sb.sMagic ≠ 0xEF53 then
        ((255 : UInt8), u.setSb (superBlockCodec.decode
          ((s.disk 0).slice 1024)))
      else (0, u.setSb (superBlockCodec.decode
          ((s.disk 0).slice 1024)))) = (0, t) →
        t.sb = blockZeroSb (s.disk 0) := by
    intro u _ hEq
    split at hEq
    · cases hEq
    · cases hEq
      rfl
  rw [ext2ExtractSb, ext2ReadBlock] at hMount
  cases hFaults : s.faults with
  | nil =>
      simp only [hFaults] at hMount
      exact hRead s rfl hMount
  | cons fault rest =>
      cases fault with
      | none =>
          simp only [hFaults] at hMount
          exact hRead { s with faults := rest } rfl hMount
      | some junk =>
          simp only [hFaults] at hMount
          cases hMount

------------------------------------------------------------
-- Geometry
------------------------------------------------------------

/-
  The rest of the code handles block `n` and the inodes of a
  state: a read fills a buffer of one block with the bytes
  of block `n`, a block fits the buffer of a file, and the
  group of an inode is an index of the descriptor table.
-/
def GeometryHandled
    (t : Fs)
    (n : UInt32) : Prop :=
  (∀ (disk : Ahci.Disk)
      (buffer : ByteBuffer (ext2GetBlockSize t).toNat),
    Ahci.ext2ReadBlock n buffer disk =
      some (0, .ofFn (ext2GetBlockSize t).toNat fun j =>
        disk ((ext2GetBlockSize t).toNat * n.toNat + j),
        disk)) ∧
  (ext2GetBlockSize t).toNat ≤ buffSize ∧
  ∀ i : UInt32, 1 ≤ i.toNat →
    i.toNat ≤ t.sb.sInodesCount.toNat →
      ext2GetInodesPerGroup t ≠ 0 ∧
        (ext2GetBgd ((i - 1) /
          ext2GetInodesPerGroup t)).isSome = true

/-
  A read fills a buffer of `size` bytes from the place of
  its block exactly if blocks have 4096 bytes and the block
  lies in the part of the disk that reads reach.
-/
theorem transfers_iff
    (size : Nat)
    (n : UInt32) :
    (∀ (disk : Ahci.Disk) (buffer : ByteBuffer size),
      Ahci.ext2ReadBlock n buffer disk =
        some (0, .ofFn size fun j =>
          disk (size * n.toNat + j), disk)) ↔
      size = 4096 ∧ n.toNat < 2 ^ 21 := by
  constructor
  · intro hTransfers
    have hLarge : 4096 ≤ size := by
      by_contra hSmall
      have hRead := hTransfers (fun _ => 0) (.fill size 0)
      rw [Ahci.ext2ReadBlock_memcpy, memcpy,
        if_neg (by omega)] at hRead
      cases hRead
    have hExact : size = 4096 := by
      by_contra hNe
      -- a byte behind the transfer keeps the buffer's value
      have hRead := hTransfers (fun _ => 0) (.fill size 1)
      rw [Ahci.ext2ReadBlock_eq n hLarge, Option.some_inj,
        Prod.mk.injEq, Prod.mk.injEq] at hRead
      have hByte := congrArg (fun b => b.get 4096) hRead.2.1
      rw [ByteBuffer.get_splice_of_outside _ _ (by omega),
        ByteBuffer.fill,
        ByteBuffer.get_ofFn_of_lt _ (by omega),
        ByteBuffer.get_ofFn_of_lt _ (by omega)] at hByte
      exact absurd hByte (by decide)
    subst hExact
    refine ⟨rfl, ?_⟩
    by_contra hHigh
    have hRead := hTransfers
      (fun j => if j < 2 ^ 33 then 0 else 1) (.fill 4096 0)
    rw [Ahci.ext2ReadBlock_block, Option.some_inj,
      Prod.mk.injEq, Prod.mk.injEq] at hRead
    have hByte := congrArg (fun b => b.get 0) hRead.2.1
    simp only [Ahci.blockAt] at hByte
    rw [ByteBuffer.get_ofFn_of_lt _ (by decide),
      ByteBuffer.get_ofFn_of_lt _ (by decide),
      if_pos (by omega), if_neg (by omega)] at hByte
    exact absurd hByte (by decide)
  · rintro ⟨rfl, hLow⟩ disk buffer
    rw [Ahci.ext2ReadBlock_block, Nat.mod_eq_of_lt hLow]
    rfl

/- All groups are in the table exactly if it is large enough. -/
theorem groups_iff
    (count perGroup : UInt32) :
    (∀ i : UInt32, 1 ≤ i.toNat → i.toNat ≤ count.toNat →
      perGroup ≠ 0 ∧
        (ext2GetBgd ((i - 1) / perGroup)).isSome = true) ↔
      count.toNat ≤ maxGroups * perGroup.toNat := by
  have hGroup : ∀ i : UInt32, 1 ≤ i.toNat →
      ((ext2GetBgd ((i - 1) / perGroup)).isSome = true ↔
        (i.toNat - 1) / perGroup.toNat < maxGroups) := by
    intro i hi
    have hPred : (i - 1).toNat = i.toNat - 1 := by
      rw [UInt32.toNat_sub_of_le _ _ (by
        rw [UInt32.le_iff_toNat_le]
        exact hi)]
      rfl
    rw [ext2GetBgd, UInt32.toNat_div, hPred]
    split <;> simp_all
  constructor
  · intro hAll
    rcases Nat.eq_zero_or_pos count.toNat with hZero | hPos
    · omega
    · have hLast := hAll count hPos (Nat.le_refl _)
      have hPer : 0 < perGroup.toNat := by
        rw [Nat.pos_iff_ne_zero]
        intro hZero
        exact hLast.1 (UInt32.toNat_inj.mp hZero)
      have hLt := (hGroup count hPos).mp hLast.2
      rw [Nat.div_lt_iff_lt_mul hPer] at hLt
      omega
  · intro hRoom i hi hCount
    have hPer : 0 < perGroup.toNat := by
      rw [Nat.pos_iff_ne_zero]
      intro hZero
      rw [hZero] at hRoom
      omega
    constructor
    · intro hZero
      rw [hZero] at hPer
      exact absurd hPer (by decide)
    · rw [hGroup i hi, Nat.div_lt_iff_lt_mul hPer]
      omega

/-
  After an accepted mount, the geometry is handled exactly
  for blocks of 4096 bytes, block numbers within the first
  8 GiB and inodes that the descriptor table has room for.
-/
theorem geometry_handled_iff
    {s t : Fs}
    (hMount : ext2ExtractSb s = (0, t))
    (n : UInt32) :
    GeometryHandled t n ↔
      (1024 : UInt32) <<< (blockZeroSb (s.disk 0)).sLogBlockSize
          = 4096 ∧
        n.toNat < 2 ^ 21 ∧
        (blockZeroSb (s.disk 0)).sInodesCount.toNat ≤
          maxGroups *
            (blockZeroSb (s.disk 0)).sInodesPerGroup.toNat := by
  have hSb := sb_of_mount hMount
  rw [GeometryHandled, transfers_iff, groups_iff,
    ext2GetInodesPerGroup, ext2GetBlockSize, hSb]
  have hSize : ∀ x : UInt32, x.toNat = 4096 ↔ x = 4096 := by
    intro x
    rw [← UInt32.toNat_inj]
    rfl
  rw [hSize]
  constructor
  · rintro ⟨⟨hBlock, hLow⟩, -, hRoom⟩
    exact ⟨hBlock, hLow, hRoom⟩
  · rintro ⟨hBlock, hLow, hRoom⟩
    refine ⟨⟨hBlock, hLow⟩, ?_, hRoom⟩
    rw [hBlock]
    decide

/- A disk that holds only a superblock, not yet mounted. -/
def onlySb
    (sb : SuperBlock) : Fs :=
  { emptySample with
    disk := fun _ => (ByteBuffer.fill logicalBlockSize 0).splice
      1024 92 (superBlockCodec.encode sb) }

theorem onlySb_mount
    {sb : SuperBlock}
    (hMagic : sb.sMagic = 0xEF53) :
    ext2ExtractSb (onlySb sb) = (0, (onlySb sb).setSb sb) := by
  have hSb : superBlockCodec.decode
      (((onlySb sb).disk 0).slice 1024) = sb := by
    refine Eq.trans ?_ (superBlockCodec.decode_encode sb)
    apply superBlockCodec.decode_congr
    intro i hi
    exact ByteBuffer.get_splice_of_inside _ _ hi (by decide)
  have hSteady : (onlySb sb).Steady :=
    ⟨rfl, emptySample_steady.blockSize⟩
  simp [ext2ExtractSb, ext2ReadBlock_of_steady hSteady, hSb,
    hMagic]

/- The sample superblock leads to a geometry that is handled. -/
theorem geometry_handled_sample :
    GeometryHandled ((onlySb sampleSb).setSb sampleSb) 5 ↔
      (1024 : UInt32) <<< (blockZeroSb
          ((onlySb sampleSb).disk 0)).sLogBlockSize = 4096 ∧
        (5 : UInt32).toNat < 2 ^ 21 ∧
        (blockZeroSb
            ((onlySb sampleSb).disk 0)).sInodesCount.toNat ≤
          maxGroups * (blockZeroSb
            ((onlySb sampleSb).disk 0)).sInodesPerGroup.toNat :=
  geometry_handled_iff (onlySb_mount rfl) 5

/-
  A superblock with blocks of 1024 bytes is accepted, and
  every read then overruns the caller's buffer.
-/
theorem mount_accepts_small_blocks :
    ¬ ∀ (s t : Fs), ext2ExtractSb s = (0, t) →
      ∀ n, GeometryHandled t n := by
  intro hClaim
  have hMagic : ({ sampleSb with sLogBlockSize := 0 } :
      SuperBlock).sMagic = 0xEF53 := rfl
  have hHandled := hClaim _ _ (onlySb_mount hMagic) 5
  have hSize := (transfers_iff _ 5).mp hHandled.1
  exact absurd hSize.1 (by decide)

end Ext2

end Ester
