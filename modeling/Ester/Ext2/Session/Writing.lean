import Ester.Ext2.Session.Descriptor

/-
  What one `ext2_fwrite` on an existing file can do.

  A write stays in the block under the position, or spills
  into the next block, which the file has already or takes
  now.  `WriteOutcome` lists the final states in closed form
  for writes in range of the direct blocks.

  Key definitions include:
    * `WriteInRange`
    * `Fs.wroteHead`, `restOf`, `Fs.finish`
    * `WriteOutcome`

  Key theorems include:
    * `writeExisting_outcome`
-/

------------------------------------------------------------
-- Parts of a Write
------------------------------------------------------------

namespace Ester

namespace Ext2

/-
  The file has the block under the position, and a write that
  spills into a block below the block count finds that the
  file has this one too.
-/
structure WriteInRange
    (size : UInt32)
    (s : Fs) : Prop where
  has :
    size.toNat ≤ 4096 → s.file.inode.HasBlock s.file.block
  spill :
    size.toNat ≤ 4096 →
      4096 < s.file.off + size.toNat →
        s.file.block + 1 < s.file.inode.allocated →
          s.file.inode.HasBlock (s.file.block + 1)

/- The buffer with the first bytes of the data copied in. -/
def Fs.headBuff
    (s : Fs)
    (data : Nat → UInt8)
    (len : Nat) : Block :=
  s.file.buff.splice s.file.off len data

/-
  The state after the first part of a write reached the
  block under the position.
-/
def Fs.wroteHead
    (s : Fs)
    (hk : s.file.block < ext2NdirBlocks)
    (data : Nat → UInt8)
    (len : Nat) : Fs :=
  (s.setBuff (s.headBuff data len)).wrote
    (s.file.inode.direct s.file.block hk) false
    (s.headBuff data len)

/- The block the rest of a spilling write is put into. -/
def restOf
    (data : Nat → UInt8)
    (off size : Nat) : Block :=
  (ByteBuffer.fill logicalBlockSize 0).splice 0
    (size - (4096 - off)) fun i => data (4096 - off + i)

/- The end of a write: record the size, store the inode. -/
def Fs.finish
    (s : Fs)
    (size : UInt32) : Fs :=
  s.commit (s.sizeAfter size)

/- The ways a write in range ends: error code and state. -/
inductive WriteOutcome
    (data : Nat → UInt8)
    (size : UInt32)
    (s : Fs) : UInt8 → Fs → Prop
  | tooBig
      (hSize : 4096 < size.toNat) :
      WriteOutcome data size s 1 s
  | inside
      (hSize : size.toNat ≤ 4096)
      (hHas : s.file.inode.HasBlock s.file.block)
      (hFits : s.file.off + size.toNat ≤ 4096) :
      WriteOutcome data size s 0
        ((s.wroteHead hHas.direct data size.toNat).finish size)
  | spilled
      (hSize : size.toNat ≤ 4096)
      (hHas : s.file.inode.HasBlock s.file.block)
      (hHas' : s.file.inode.HasBlock (s.file.block + 1))
      (hSpill : 4096 < s.file.off + size.toNat) :
      WriteOutcome data size s 0
        (((s.wroteHead hHas.direct data
          (4096 - s.file.off)).wrote
            (s.file.inode.direct (s.file.block + 1)
              hHas'.direct) true
            (restOf data s.file.off size.toNat)).finish size)
  | noBlock
      (hSize : size.toNat ≤ 4096)
      (hHas : s.file.inode.HasBlock s.file.block)
      (hLast : s.file.inode.allocated = s.file.block + 1)
      (hSpill : 4096 < s.file.off + size.toNat)
      (hNext :
        (s.wroteHead hHas.direct data
          (4096 - s.file.off)).nextFree
            .block s.fileGroup = none) :
      WriteOutcome data size s 1
        (s.wroteHead hHas.direct data (4096 - s.file.off))
  | noPointer
      (i : Nat)
      (hSize : size.toNat ≤ 4096)
      (hHas : s.file.inode.HasBlock s.file.block)
      (hLast : s.file.inode.allocated = s.file.block + 1)
      (hMany : ext2NdirBlocks ≤ s.file.inode.allocated)
      (hSpill : 4096 < s.file.off + size.toNat)
      (hNext :
        (s.wroteHead hHas.direct data
          (4096 - s.file.off)).nextFree
            .block s.fileGroup = some i) :
      WriteOutcome data size s 1
        ((s.wroteHead hHas.direct data
          (4096 - s.file.off)).claim .block s.fileGroup i)
  | grown
      (i : Nat)
      (hSize : size.toNat ≤ 4096)
      (hHas : s.file.inode.HasBlock s.file.block)
      (hLast : s.file.inode.allocated = s.file.block + 1)
      (hDirect : s.file.inode.allocated < ext2NdirBlocks)
      (hSpill : 4096 < s.file.off + size.toNat)
      (hNext :
        (s.wroteHead hHas.direct data
          (4096 - s.file.off)).nextFree
            .block s.fileGroup = some i) :
      WriteOutcome data size s 0
        ((((s.wroteHead hHas.direct data
          (4096 - s.file.off)).grown i).wrote
            (s.layout.blockNumber s.fileGroup i) true
            (restOf data s.file.off size.toNat)).finish size)

------------------------------------------------------------
-- Machine Arithmetic
------------------------------------------------------------

/- The block pointer at the index of a position. -/
theorem blockPtr_of_lt
    (inode : Inode)
    {k : Nat}
    (hk : k < ext2NdirBlocks) :
    inode.blockPtr k = some (inode.direct k hk) :=
  dif_pos (Nat.lt_trans hk (by decide))

theorem pos_div_toNat
    (f : File) :
    (f.pos / 4096).toNat = f.block :=
  UInt32.toNat_div _ _

theorem pos_mod_toNat
    (f : File) :
    (f.pos % 4096).toNat = f.off :=
  UInt32.toNat_mod _ _

/- The test for spilling does not overflow. -/
theorem spill_iff
    (f : File)
    {size : UInt32}
    (hSize : size.toNat ≤ 4096) :
    f.pos % 4096 + size > 4096 ↔
      4096 < f.off + size.toNat := by
  rw [gt_iff_lt, UInt32.lt_iff_toNat_lt,
    off_add_toNat f hSize]
  rfl

------------------------------------------------------------
-- Outcomes
------------------------------------------------------------

section

variable {inodes : UInt32 → Prop}
variable {owners : Owners} {s t : Fs}
variable {data : Nat → UInt8} {size : UInt32} {err : UInt8}

/- The first part of a write keeps the file consistent. -/
theorem Editing.wroteHead
    (h : Editing inodes owners s)
    (hHas : s.file.inode.HasBlock s.file.block)
    (data : Nat → UInt8)
    (len : Nat) :
    Editing inodes owners (s.wroteHead hHas.direct data len) :=
  (h.setBuff (s.headBuff data len)).wrote
    (h.owns hHas) false _

theorem writeInside_eq
    (h : Editing inodes owners s)
    (hHas : s.file.inode.HasBlock s.file.block)
    (hFits : s.file.off + size.toNat ≤ 4096) :
    writeInside (s.file.inode.direct s.file.block hHas.direct)
        data size s =
      some (0, (s.wroteHead hHas.direct data
        size.toNat).finish size) := by
  have hSize : ext2GetBlockSize s = 4096 :=
    h.image.layout.blockSize
  have hOff : s.file.pos.toNat % (4096 : UInt32).toNat =
      s.file.off := rfl
  have hCopy : memcpy s.file.buff s.file.off data
      size.toNat = some (s.headBuff data size.toNat) :=
    memcpy_of_le hFits
  have hCommit := (h.wroteHead hHas data
    size.toNat).commitSize_eq size
  simp only [writeInside, hSize, hOff, hCopy,
    Option.bind_eq_bind, Option.bind_some,
    writeData_of_steady (h.setBuff _).image.steady]
  exact hCommit ▸ rfl

/- The index of the next block. -/
theorem block_add_one_toNat
    (f : File) :
    (f.pos / 4096 + 1).toNat = f.block + 1 :=
  blockIndex_add_toNat f.pos (by decide)

/- The bound of the test for a missing next block. -/
theorem block_add_two_toNat
    (f : File) :
    (f.pos / 4096 + 2).toNat = f.block + 2 :=
  blockIndex_add_toNat f.pos (by decide)

/- The next block of a file that has one. -/
theorem Editing.nextBlock_of_has
    (h : Editing inodes owners s)
    (hHas : s.file.inode.HasBlock (s.file.block + 1)) :
    nextBlock s =
      some (0, s.file.inode.direct (s.file.block + 1)
        hHas.direct, s) := by
  have hSize : ext2GetBlockSize s = 4096 :=
    h.image.layout.blockSize
  have hEnough :
      ¬ allocatedBlocks s < s.file.pos / 4096 + 2 := by
    rw [UInt32.lt_iff_toNat_lt, block_add_two_toNat,
      allocatedBlocks_toNat h.image.steady]
    have hLt := hHas.lt
    omega
  have hIndex := block_add_one_toNat s.file
  simp [nextBlock, hSize, hEnough, hIndex,
    blockPtr_of_lt _ hHas.direct]

/- The next block of a file that has none takes a new one. -/
theorem Editing.nextBlock_of_le
    (h : Editing inodes owners s)
    (hLe : s.file.inode.allocated ≤ s.file.block + 1) :
    nextBlock s = growFile s := by
  have hSize : ext2GetBlockSize s = 4096 :=
    h.image.layout.blockSize
  have hMissing :
      allocatedBlocks s < s.file.pos / 4096 + 2 := by
    rw [UInt32.lt_iff_toNat_lt, block_add_two_toNat,
      allocatedBlocks_toNat h.image.steady]
    omega
  simp [nextBlock, hSize, hMissing]

/- Writing the rest of a spilled write and committing. -/
theorem Editing.commit_rest
    (h : Editing inodes owners s)
    {b : UInt32}
    {k : Nat}
    (hb : owners b = some (.data s.file.inodeNum k))
    (rest : Block) :
    commitSize size (writeData b true rest s) =
      some ((s.wrote b true rest).finish size) := by
  rw [writeData_of_steady h.image.steady,
    (h.wrote hb true rest).commitSize_eq]
  rfl

/- The first part of a spilling write fills the buffer. -/
theorem memcpy_head
    (s : Fs)
    (data : Nat → UInt8) :
    memcpy s.file.buff s.file.off data (4096 - s.file.off) =
      some (s.headBuff data (4096 - s.file.off)) := by
  have hOff := s.file.off_lt
  exact memcpy_of_le (show _ ≤ 4096 by omega)

/- A spilling write, where no next block is found. -/
theorem writeSpilling_of_missing
    (h : Editing inodes owners s)
    (hk : s.file.block < ext2NdirBlocks)
    {b : UInt32}
    (hNext : nextBlock
      (s.wroteHead hk data (4096 - s.file.off)) =
        some (1, b, t)) :
    writeSpilling (s.file.inode.direct s.file.block hk)
      data size s = some (1, t) := by
  have hBlockSize : ext2GetBlockSize s = 4096 :=
    h.image.layout.blockSize
  have hOff : s.file.pos.toNat % 4096 = s.file.off := rfl
  have h4096 : (4096 : UInt32).toNat = 4096 := rfl
  simp only [writeSpilling, hBlockSize, hOff, h4096,
    memcpy_head, Option.bind_eq_bind, Option.bind_some,
    writeData_of_steady (h.setBuff _).image.steady]
  exact hNext ▸ rfl

/- A spilling write, where the rest lands in a block. -/
theorem writeSpilling_of_found
    (h : Editing inodes owners s)
    (hSize : size.toNat ≤ 4096)
    (hk : s.file.block < ext2NdirBlocks)
    {b : UInt32}
    {u : Fs}
    (hNext : nextBlock
      (s.wroteHead hk data (4096 - s.file.off)) =
        some (0, b, u))
    {owners' : Owners}
    {k : Nat}
    (hFound : Editing inodes owners' u)
    (hb : owners' b = some (.data u.file.inodeNum k)) :
    writeSpilling (s.file.inode.direct s.file.block hk)
      data size s =
        some (0, (u.wrote b true
          (restOf data s.file.off size.toNat)).finish size) := by
  have hBlockSize : ext2GetBlockSize s = 4096 :=
    h.image.layout.blockSize
  have hOffLt := s.file.off_lt
  have hOff : s.file.pos.toNat % 4096 = s.file.off := rfl
  have h4096 : (4096 : UInt32).toNat = 4096 := rfl
  have hRest : memcpy (.fill logicalBlockSize 0) 0
      (fun i => data (4096 - s.file.off + i))
      (size.toNat - (4096 - s.file.off)) =
        some (restOf data s.file.off size.toNat) :=
    memcpy_of_le (show _ ≤ 4096 by omega)
  have hTail := @Editing.commit_rest inodes owners' u size hFound _ _ hb
    (restOf data s.file.off size.toNat)
  simp only [writeSpilling, hBlockSize, hOff, h4096,
    memcpy_head, Option.bind_eq_bind, Option.bind_some, hRest,
    writeData_of_steady (h.setBuff _).image.steady]
  change (nextBlock
    (s.wroteHead hk data (4096 - s.file.off))).bind _ = _
  rw [hNext, Option.bind_some]
  exact hTail ▸ rfl

/- Spilling a write: where the rest goes decides. -/
theorem writeSpilling_outcome
    (h : Editing inodes owners s)
    (hSize : size.toNat ≤ 4096)
    (hHas : s.file.inode.HasBlock s.file.block)
    (hSpill : 4096 < s.file.off + size.toNat)
    (hNext : s.file.block + 1 < s.file.inode.allocated →
      s.file.inode.HasBlock (s.file.block + 1))
    (hRun : writeSpilling
      (s.file.inode.direct s.file.block hHas.direct) data
        size s = some (err, t)) :
    WriteOutcome data size s err t := by
  have hk := hHas.direct
  have hHead := h.wroteHead hHas data (4096 - s.file.off)
  by_cases hMore : s.file.block + 1 < s.file.inode.allocated
  · have hHas' := hNext hMore
    rw [writeSpilling_of_found h hSize hk
      (hHead.nextBlock_of_has hHas') hHead
      (hHead.owns hHas')] at hRun
    cases hRun
    exact .spilled hSize hHas hHas' hSpill
  · have hLast : s.file.inode.allocated =
        s.file.block + 1 :=
      Nat.le_antisymm (Nat.not_lt.mp hMore) hHas.lt
    have hGrow := hHead.nextBlock_of_le (Nat.le_of_eq hLast)
    cases hBlock : (s.wroteHead hk data
        (4096 - s.file.off)).nextFree .block (s.wroteHead hk
          data (4096 - s.file.off)).fileGroup with
    | none =>
        rw [growFile_of_none hHead.image hHead.valid hBlock]
          at hGrow
        rw [writeSpilling_of_missing h hk hGrow] at hRun
        cases hRun
        exact .noBlock hSize hHas hLast hSpill hBlock
    | some i =>
        by_cases hDirect :
            s.file.inode.allocated < ext2NdirBlocks
        · have hGrown := (hHead.grown hBlock hDirect).1
          have hLabel : (Fs.grownOwners _ i owners)
              (s.layout.blockNumber s.fileGroup i) =
                some (.data s.file.inodeNum
                  s.file.inode.allocated) :=
            Function.update_self _ _ _
          rw [growFile_of_some hHead.image hHead.valid hBlock
            hDirect] at hGrow
          rw [writeSpilling_of_found h hSize hk hGrow hGrown
            hLabel] at hRun
          cases hRun
          exact .grown i hSize hHas hLast hDirect hSpill hBlock
        · have hMany := Nat.not_lt.mp hDirect
          rw [growFile_of_full hHead.image hHead.valid hBlock
            hMany] at hGrow
          rw [writeSpilling_of_missing h hk hGrow] at hRun
          cases hRun
          exact .noPointer i hSize hHas hLast hMany hSpill hBlock

/- Every write in range ends in one of the outcomes. -/
theorem writeExisting_outcome
    (h : Editing inodes owners s)
    (hRange : WriteInRange size s)
    (hRun : writeExisting data size s = some (err, t)) :
    WriteOutcome data size s err t := by
  have hBlockSize : ext2GetBlockSize s = 4096 :=
    h.image.layout.blockSize
  simp only [writeExisting, hBlockSize] at hRun
  split at hRun
  · next hBig =>
      cases hRun
      exact .tooBig (UInt32.lt_iff_toNat_lt.mp hBig)
  · next hSmall =>
      have hSize : size.toNat ≤ 4096 := by
        rw [gt_iff_lt, UInt32.lt_iff_toNat_lt] at hSmall
        exact Nat.not_lt.mp hSmall
      have hHas := hRange.has hSize
      simp only [ne_eq, not_true_eq_false, if_false,
        pos_div_toNat, blockPtr_of_lt _ hHas.direct,
        Option.bind_eq_bind, Option.bind_some,
        spill_iff _ hSize] at hRun
      split at hRun
      · next hSpill =>
          exact writeSpilling_outcome h hSize hHas hSpill
            (hRange.spill hSize hSpill) hRun
      · next hFits =>
          have hFits := Nat.not_lt.mp hFits
          rw [writeInside_eq h hHas hFits] at hRun
          cases hRun
          exact .inside hSize hHas hFits

end

end Ext2

end Ester
