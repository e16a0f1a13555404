import Ester.Drivers.Ahci

/-
  The block device as a store of blocks.

  A write command carries all 48 bits of the sector address,
  the read command only the low 24: the constant that is
  called READ_DMA_EX is the code of the 28-bit command, and
  the upper address bits go to registers that it ignores.
  Reads and writes mean the same sectors exactly for block
  numbers below 2^21, that is within the first 8 GiB.

  Key definitions include:
    * `blockAt`
    * `setBlock`
    * `RoundTrip`

  Key theorems include:
    * `ext2ReadBlock_eq`
    * `ext2WriteBlock_eq`
    * `roundTrip_iff`
    * `roundTrip_fails`
-/

namespace Ester

namespace Ahci

------------------------------------------------------------
-- Addresses
------------------------------------------------------------

/- The bytes of a word add up to it. -/
theorem bytes_toNat
    (x : UInt32) :
    x.toUInt8.toNat + 2 ^ 8 * (x >>> 8).toUInt8.toNat +
        2 ^ 16 * (x >>> 16).toUInt8.toNat = x.toNat % 2 ^ 24 ∧
      (x >>> 24).toUInt8.toNat = x.toNat / 2 ^ 24 := by
  have hx := x.toNat_lt
  have h8 : (x >>> 8).toNat = x.toNat / 2 ^ 8 := by
    rw [UInt32.toNat_shiftRight, Nat.shiftRight_eq_div_pow]
    rfl
  have h16 : (x >>> 16).toNat = x.toNat / 2 ^ 16 := by
    rw [UInt32.toNat_shiftRight, Nat.shiftRight_eq_div_pow]
    rfl
  have h24 : (x >>> 24).toNat = x.toNat / 2 ^ 24 := by
    rw [UInt32.toNat_shiftRight, Nat.shiftRight_eq_div_pow]
    rfl
  simp only [UInt32.toNat_toUInt8, h8, h16, h24]
  omega

@[simp] theorem command_fisRegH2D
    (command : UInt8)
    (startl starth count : UInt32) :
    (fisRegH2D command startl starth count).command =
      command := rfl

/- The read command keeps the low 24 bits of the address. -/
theorem lba28_fisRegH2D
    (command : UInt8)
    (startl starth count : UInt32) :
    (fisRegH2D command startl starth count).lba28 =
      startl.toNat % 2 ^ 24 := by
  have hDevice : ((1 : UInt8) <<< 6 &&& 0x0F).toNat = 0 := by
    decide
  simp only [FisRegH2D.lba28, fisRegH2D, hDevice, Nat.mul_zero,
    Nat.add_zero]
  exact (bytes_toNat startl).1

/- The write command keeps 48 bits of the address. -/
theorem lba48_fisRegH2D
    (command : UInt8)
    (startl starth count : UInt32) :
    (fisRegH2D command startl starth count).lba48 =
      startl.toNat + 2 ^ 32 * (starth.toNat % 2 ^ 16) := by
  have hLow := bytes_toNat startl
  have hHigh := bytes_toNat starth
  have hl := startl.toNat_lt
  have hByte := starth.toUInt8.toNat_lt
  have hByte' := (starth >>> 8).toUInt8.toNat_lt
  simp only [FisRegH2D.lba48, fisRegH2D]
  omega

/- The sector address of a block and its two halves. -/
theorem lba_of_block
    (blockId : UInt32) :
    let lba := (blockId.toUInt64 * logicalBlockSize64) / 512
    (lba.toUInt32 &&& 0xFFFFFFFF).toNat =
        8 * blockId.toNat % 2 ^ 32 ∧
      (((lba &&& 0xFFFFFFFF00000000) >>> 32).toUInt32).toNat =
        8 * blockId.toNat / 2 ^ 32 := by
  have hId := blockId.toNat_lt
  have hLba : ((blockId.toUInt64 * logicalBlockSize64) /
      512).toNat = 8 * blockId.toNat := by
    have hSize : logicalBlockSize64.toNat = 4096 := rfl
    have hSector : (512 : UInt64).toNat = 512 := rfl
    rw [UInt64.toNat_div, UInt64.toNat_mul,
      UInt32.toNat_toUInt64, hSize, hSector]
    omega
  generalize (blockId.toUInt64 * logicalBlockSize64) / 512 = lba
    at hLba
  constructor
  · have hMask : (0xFFFFFFFF : UInt32).toNat = 2 ^ 32 - 1 := rfl
    rw [UInt32.toNat_and, hMask,
      Nat.and_two_pow_sub_one_eq_mod, UInt64.toNat_toUInt32,
      hLba]
    omega
  · have hMask : (0xFFFFFFFF00000000 : UInt64).toNat =
        2 ^ 32 * (2 ^ 32 - 1) := rfl
    rw [UInt64.toNat_toUInt32, UInt64.toNat_shiftRight,
      UInt64.toNat_and, hMask,
      and_high_mask 32 32 (by simpa using lba.toNat_lt), hLba,
      Nat.shiftRight_eq_div_pow]
    simp only [UInt64.reduceToNat, Nat.reduceMod]
    omega

------------------------------------------------------------
-- Blocks of the Disk
------------------------------------------------------------

/- Block `k` of a disk. -/
def blockAt
    (disk : Disk)
    (k : Nat) : ByteBuffer 4096 :=
  ByteBuffer.ofFn 4096 fun j => disk (4096 * k + j)

/- The disk with block `k` replaced. -/
def setBlock
    (disk : Disk)
    (k : Nat)
    (data : ByteBuffer 4096) : Disk :=
  fun j =>
    if 4096 * k ≤ j ∧ j < 4096 * k + 4096 then
      data.get (j - 4096 * k)
    else disk j

/- Replacing a block changes that block only. -/
theorem blockAt_setBlock
    (disk : Disk)
    (k l : Nat)
    (data : ByteBuffer 4096) :
    blockAt (setBlock disk k data) l =
      if l = k then data else blockAt disk l := by
  apply ByteBuffer.ext_get
  intro i hi
  rw [blockAt, ByteBuffer.get_ofFn_of_lt _ hi, setBlock]
  by_cases hSame : l = k
  · subst hSame
    rw [if_pos rfl, if_pos (by omega), Nat.add_sub_cancel_left]
  · rw [if_neg hSame, if_neg (by omega), blockAt,
      ByteBuffer.get_ofFn_of_lt _ hi]

/- One block is eight sectors in a single region. -/
theorem regions_of_block
    (chunk : Nat)
    (last : UInt32 → Nat) :
    ((1 : UInt32) * logicalBlockSize32) / 512 = 8 ∧
      prdtEntries chunk last ((prdtl 8).toNat - 1) 0 8 =
        ([⟨0, last 8⟩], 8) :=
  ⟨by decide, rfl⟩

/-
  A read is a copy of 4096 bytes to the start of the buffer,
  from the block whose number has lost its upper bits.
-/
theorem ext2ReadBlock_memcpy
    (blockId : UInt32)
    {n : Nat}
    (buff : ByteBuffer n)
    (disk : Disk) :
    ext2ReadBlock blockId buff disk =
      (memcpy buff 0 (fun j =>
        disk (4096 * (blockId.toNat % 2 ^ 21) + j)) 4096).map
          fun out => (0, out, disk) := by
  have hLast : (((8 : UInt32) <<< 9) - 1).toNat % 2 ^ 22 =
      4095 := by decide
  have hCount : ∀ command startl starth,
      (fisRegH2D command startl starth 8).count28 = 8 :=
    fun _ _ _ => rfl
  have hLength : min (4095 + 1) (sectorSize * 8) = 4096 := by
    decide
  have hLba := (lba_of_block blockId).1
  have hStart : sectorSize *
      (8 * blockId.toNat % 2 ^ 32 % 2 ^ 24) =
        4096 * (blockId.toNat % 2 ^ 21) := by
    simp only [sectorSize]
    omega
  rw [ext2ReadBlock, ahciReadWrapper, ahciRead, read,
    (regions_of_block 0 fun _ => 0).1]
  simp only [(regions_of_block _ _).2, hLast]
  rw [FisRegH2D.execute, command_fisRegH2D, if_pos rfl,
    FisRegH2D.readDma, hCount, lba28_fisRegH2D, hLba, scatter,
    hLength, hStart]
  cases memcpy buff 0 (fun j =>
      disk (4096 * (blockId.toNat % 2 ^ 21) + j)) 4096 with
  | none => rfl
  | some out => rfl

theorem ext2ReadBlock_eq
    (blockId : UInt32)
    {n : Nat}
    (hn : 4096 ≤ n)
    (buff : ByteBuffer n)
    (disk : Disk) :
    ext2ReadBlock blockId buff disk =
      some (0, buff.splice 0 4096 fun j =>
        disk (4096 * (blockId.toNat % 2 ^ 21) + j), disk) := by
  rw [ext2ReadBlock_memcpy, memcpy_of_le (by omega),
    Option.map_some]

/- A write moves 4096 bytes of the buffer to the block. -/
theorem ext2WriteBlock_eq
    (blockId : UInt32)
    {n : Nat}
    (hn : 4096 ≤ n)
    (buff : ByteBuffer n)
    (disk : Disk) :
    ext2WriteBlock blockId buff disk =
      some (0, buff, fun j =>
        if 4096 * blockId.toNat ≤ j ∧
            j < 4096 * blockId.toNat + 4096 then
          buff.get (j - 4096 * blockId.toNat)
        else disk j) := by
  have hId := blockId.toNat_lt
  have hLast : (((8 : UInt32) * 512) % 4096 - 1).toNat %
      2 ^ 22 = 4194303 := by decide
  have hCount : ∀ command startl starth,
      (fisRegH2D command startl starth 8).count48 = 8 :=
    fun _ _ _ => rfl
  have hLength : min (4194303 + 1) (sectorSize * 8) = 4096 := by
    decide
  have hLba := lba_of_block blockId
  rw [ext2WriteBlock, ahciWriteWrapper, ahciWrite, write,
    (regions_of_block 0 fun _ => 0).1]
  simp only [(regions_of_block _ _).2, hLast]
  rw [FisRegH2D.execute, command_fisRegH2D,
    if_neg (by decide), if_pos rfl, FisRegH2D.writeDmaExt,
    hCount, lba48_fisRegH2D, hLba.1, hLba.2, gather, hLength,
    if_pos (by omega)]
  have hStart : sectorSize * (8 * blockId.toNat % 2 ^ 32 +
      2 ^ 32 * (8 * blockId.toNat / 2 ^ 32 % 2 ^ 16)) =
        4096 * blockId.toNat := by
    simp only [sectorSize]
    omega
  simp only [hStart, gather, Option.map_some,
    Nat.zero_add]

------------------------------------------------------------
-- Round Trips
------------------------------------------------------------

/- In terms of blocks, a read loses the upper bits. -/
theorem ext2ReadBlock_block
    (blockId : UInt32)
    (buff : ByteBuffer 4096)
    (disk : Disk) :
    ext2ReadBlock blockId buff disk =
      some (0, blockAt disk (blockId.toNat % 2 ^ 21), disk) := by
  rw [ext2ReadBlock_eq blockId (Nat.le_refl _),
    ByteBuffer.splice_full]
  rfl

/- In terms of blocks, a write replaces one block. -/
theorem ext2WriteBlock_block
    (blockId : UInt32)
    (data : ByteBuffer 4096)
    (disk : Disk) :
    ext2WriteBlock blockId data disk =
      some (0, data, setBlock disk blockId.toNat data) :=
  ext2WriteBlock_eq blockId (Nat.le_refl _) data disk

/-
  On every disk, a block that was written is read back, and
  the write does not change what is read from block `m`.
-/
def RoundTrip
    (n m : UInt32) : Prop :=
  ∀ (disk : Disk) (data buf : ByteBuffer 4096),
    ∃ disk', ext2WriteBlock n data disk =
        some (0, data, disk') ∧
      ext2ReadBlock n buf disk' = some (0, data, disk') ∧
      (m ≠ n →
        (ext2ReadBlock m buf disk').map (fun r => r.2.1) =
          (ext2ReadBlock m buf disk).map fun r => r.2.1)

/- A read after a write of `n` in terms of blocks. -/
theorem roundTrip_iff_blocks
    (n m : UInt32) :
    RoundTrip n m ↔
      ∀ (disk : Disk) (data : ByteBuffer 4096),
        blockAt (setBlock disk n.toNat data)
            (n.toNat % 2 ^ 21) = data ∧
          (m ≠ n →
            blockAt (setBlock disk n.toNat data)
                (m.toNat % 2 ^ 21) =
              blockAt disk (m.toNat % 2 ^ 21)) := by
  constructor
  · intro hTrip disk data
    rcases hTrip disk data data with
      ⟨disk', hWrite, hRead, hOther⟩
    rw [ext2WriteBlock_block] at hWrite
    simp only [Option.some_inj, Prod.mk.injEq, true_and]
      at hWrite
    subst hWrite
    simp only [ext2ReadBlock_block, Option.some_inj,
      Prod.mk.injEq, true_and, and_true, Option.map_some]
      at hRead hOther
    exact ⟨hRead, hOther⟩
  · intro hBlocks disk data buf
    rcases hBlocks disk data with ⟨hRead, hOther⟩
    refine ⟨_, ext2WriteBlock_block n data disk, ?_, ?_⟩
    · rw [ext2ReadBlock_block, hRead]
    · simp only [ext2ReadBlock_block, Option.map_some,
        Option.some_inj]
      exact hOther

/- The disk of zeros and a block of ones tell blocks apart. -/
theorem blockAt_zero_ne
    (k : Nat) :
    blockAt (fun _ => 0) k ≠ ByteBuffer.fill 4096 1 := by
  intro hEq
  have hByte := congrArg (fun b => b.get 0) hEq
  simp only [blockAt, ByteBuffer.fill] at hByte
  rw [ByteBuffer.get_ofFn_of_lt _ (by decide),
    ByteBuffer.get_ofFn_of_lt _ (by decide)] at hByte
  exact absurd hByte (by decide)

/-
  Blocks make the round trip exactly if the block number is
  below 2^21 and no other block is read from its place.
-/
theorem roundTrip_iff
    (n m : UInt32) :
    RoundTrip n m ↔
      n.toNat < 2 ^ 21 ∧
        (m ≠ n → m.toNat % 2 ^ 21 ≠ n.toNat) := by
  rw [roundTrip_iff_blocks]
  constructor
  · intro hBlocks
    rcases hBlocks (fun _ => 0) (ByteBuffer.fill 4096 1) with
      ⟨hRead, hOther⟩
    constructor
    · by_contra hHigh
      rw [blockAt_setBlock, if_neg (by omega)] at hRead
      exact blockAt_zero_ne _ hRead
    · intro hNe hAlias
      have hKept := hOther hNe
      rw [blockAt_setBlock, if_pos hAlias] at hKept
      exact blockAt_zero_ne _ hKept.symm
  · rintro ⟨hLow, hApart⟩ disk data
    have hSelf : n.toNat % 2 ^ 21 = n.toNat :=
      Nat.mod_eq_of_lt hLow
    constructor
    · rw [blockAt_setBlock, if_pos hSelf]
    · intro hNe
      rw [blockAt_setBlock, if_neg (hApart hNe)]

/- A block at 8 GiB is read from the start of the disk. -/
theorem roundTrip_fails :
    ¬ ∀ n m : UInt32, RoundTrip n m := by
  intro hClaim
  have hBlocks := (roundTrip_iff_blocks 0x200000 0).mp
    (hClaim 0x200000 0)
  have hRead := (hBlocks (fun _ => 0)
    (ByteBuffer.fill 4096 1)).1
  rw [blockAt_setBlock, if_neg (by decide)] at hRead
  exact blockAt_zero_ne _ hRead

end Ahci

end Ester
