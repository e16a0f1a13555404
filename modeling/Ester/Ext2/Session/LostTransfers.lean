import Ester.Ext2.Session.Calls
import Ester.Ext2.Session.FailedCreate

/-
  Writes and seeks whose transfers are lost.

  Writing, seeking and saving the buffer drop the answers to
  all their transfers.  As long as they stay inside their
  arrays they return 0 with every transfer lost, and they
  return 0 only if they stay inside.

  Key definitions include:
    * `CanGrow`, `CanSpill`, `CanWrite`, `CanSeek`
    * `FlushInside`
    * `KeepsExtent`
    * `seekMoved`

  Key theorems include:
    * `writeExisting_failing`, `writeExisting_succeeds`
    * `seekExisting_failing`, `seekExisting_succeeds`
    * `flush_failing`, `flush_succeeds`
-/

------------------------------------------------------------
-- Calls That Can Return Zero
------------------------------------------------------------

namespace Ester

namespace Ext2

/- The open file has a pointer left and can find a block. -/
structure CanGrow (s : Fs) : Prop where
  pointer : (allocatedBlocks s).toNat < ext2NdirBlocks
  offers :
    Offers .block
      ((s.file.inodeNum - 1) / s.sb.sInodesPerGroup) s

/- The rest of a write that leaves its block has a place. -/
def CanSpill
    (s : Fs) : Prop :=
  if (allocatedBlocks s).toNat < s.file.block + 2 then
    CanGrow s
  else s.file.block + 1 < ext2NBlocks

/- A write to the open file stays inside its arrays. -/
structure CanWrite
    (size : UInt32)
    (s : Fs) : Prop where
  fits : size.toNat ≤ 4096
  pointer : s.file.block < ext2NBlocks
  slot : s.SlotInside s.file.inodeNum
  spill : 4096 < s.file.off + size.toNat → CanSpill s

/- Saving the buffer of the open file stays inside. -/
structure FlushInside (s : Fs) : Prop where
  pointer : s.file.block < ext2NBlocks
  slot :
    s.file.newBytesCount > 0 → s.SlotInside s.file.inodeNum

/- A seek in the open file stays inside its arrays. -/
structure CanSeek
    (newPos : UInt32)
    (s : Fs) : Prop where
  flush :
    s.file.dirty → newPos.toNat / 4096 ≠ s.file.block →
      FlushInside s
  place :
    if (allocatedBlocks s).toNat ≤ newPos.toNat / 4096 then
      CanGrow s ∧ s.SlotInside s.file.inodeNum
    else newPos.toNat / 4096 < ext2NBlocks

section

variable {s t : Fs}

theorem blockPtr_inside
    (inode : Inode)
    {k : Nat}
    (hk : k < ext2NBlocks) :
    inode.blockPtr k = some (inode.iBlock ⟨k, hk⟩) :=
  dif_pos hk

/- The pointer at the index the code computes. -/
theorem blockPtr_pos
    (f : File)
    (hk : f.block < ext2NBlocks) :
    f.inode.blockPtr (f.pos / 4096).toNat =
      some (f.inode.iBlock ⟨_, hk⟩) := by
  rw [pos_div_toNat]
  exact blockPtr_inside _ hk

theorem lt_of_blockPtr
    {inode : Inode}
    {k : Nat}
    {ptr : UInt32}
    (hPtr : inode.blockPtr k = some ptr) :
    k < ext2NBlocks := by
  unfold Inode.blockPtr at hPtr
  split at hPtr
  · next hk => exact hk
  · cases hPtr

------------------------------------------------------------
-- Transfers That Fail
------------------------------------------------------------

/- Data that is lost is recorded as written. -/
theorem writeData_failing
    (block : UInt32)
    (spilled : Bool)
    (content : Block)
    (s : Fs)
    (junk : Block) :
    ∃ t, DiskOnly s t ∧ ∀ rest,
      writeData block spilled content
          (s.answering (some junk :: rest)) =
        (t : Fs).answering rest :=
  ⟨{ s with
    dataWrites := s.dataWrites ++
      [{ block := block
         inodeNum := s.file.inodeNum
         inode := s.file.inode
         pos := s.file.pos
         spilled := spilled }] }, ⟨rfl, rfl, rfl⟩,
    fun _ => rfl⟩

/- The file lies where it did and has the same blocks. -/
structure KeepsExtent
    (s t : Fs) : Prop where
  sb : t.sb = s.sb
  bgdt : t.bgdt = s.bgdt
  inodeNum : t.file.inodeNum = s.file.inodeNum
  pos : t.file.pos = s.file.pos
  sectors :
    t.file.inode.iDiskSectorsCount =
      s.file.inode.iDiskSectorsCount

theorem KeepsExtent.of_diskOnly
    (h : DiskOnly s t) :
    KeepsExtent s t where
  sb := h.sb
  bgdt := h.bgdt
  inodeNum := by rw [h.file]
  pos := by rw [h.file]
  sectors := by rw [h.file]

theorem KeepsExtent.setBuff
    (s : Fs)
    (buff : ByteBuffer buffSize) :
    KeepsExtent s (s.setBuff buff) :=
  ⟨rfl, rfl, rfl, rfl, rfl⟩

/- Other answers still to come change no extent. -/
theorem KeepsExtent.answering
    (s : Fs)
    (faults : List Fault) :
    KeepsExtent (s.answering faults) s :=
  ⟨rfl, rfl, rfl, rfl, rfl⟩

namespace KeepsExtent

variable {u : Fs} (h : KeepsExtent s t)
include h

theorem trans
    (h' : KeepsExtent t u) :
    KeepsExtent s u :=
  ⟨h'.sb.trans h.sb, h'.bgdt.trans h.bgdt,
    h'.inodeNum.trans h.inodeNum, h'.pos.trans h.pos,
    h'.sectors.trans h.sectors⟩

theorem symm :
    KeepsExtent t s :=
  ⟨h.sb.symm, h.bgdt.symm, h.inodeNum.symm, h.pos.symm,
    h.sectors.symm⟩

theorem layout :
    t.layout = s.layout :=
  Fs.layout_congr h.sb h.bgdt

theorem allocatedBlocks :
    Ext2.allocatedBlocks t = Ext2.allocatedBlocks s := by
  simp only [Ext2.allocatedBlocks, ext2SectorsToBlocks,
    ext2GetBlockSize, h.sectors, h.sb]

theorem slotInside
    (hSlot : s.SlotInside s.file.inodeNum) :
    t.SlotInside t.file.inodeNum := by
  rw [h.inodeNum]
  exact hSlot.congr h.layout

theorem canGrow
    (hCan : CanGrow s) :
    CanGrow t := by
  rcases hCan with ⟨hPointer, i, hi, hNe⟩
  refine ⟨by rwa [h.allocatedBlocks], i, ?_, ?_⟩
  · rwa [h.layout]
  · rwa [h.inodeNum, h.sb]

theorem canSpill
    (hCan : CanSpill s) :
    CanSpill t := by
  unfold CanSpill at *
  rw [h.allocatedBlocks, File.block, h.pos]
  split
  · next hLast =>
      rw [File.block, if_pos hLast] at hCan
      exact h.canGrow hCan
  · next hHas => rwa [File.block, if_neg hHas] at hCan

end KeepsExtent

/- A slot that is inside has its group in the table. -/
theorem Fs.SlotInside.group
    {n : UInt32}
    (hSlot : s.SlotInside n) :
    s.sb.sInodesPerGroup ≠ 0 ∧
      ∃ g, ext2GetBgd ((n - 1) / s.sb.sInodesPerGroup) =
        some g := by
  rcases hSlot with ⟨block, offset, hSlot, -⟩
  rw [inodeSlot] at hSlot
  dsimp only at hSlot
  split at hSlot
  · cases hSlot
  · next hPos =>
      rcases Option.bind_eq_some_iff.mp hSlot with
        ⟨g, hGroup, -⟩
      exact ⟨hPos, g, hGroup⟩

/- Growing with a bitmap that is lost. -/
theorem growFile_failing
    (hL : s.layout.Ok)
    (hCan : CanGrow s)
    (hSlot : s.SlotInside s.file.inodeNum) :
    ∃ faults block t, HasFailure faults ∧
      (t : Fs).layout = s.layout ∧
      t.file.inodeNum = s.file.inodeNum ∧ ∀ rest,
        growFile (s.answering (faults ++ rest)) =
          some (0, block, t.answering rest) := by
  have hMax : s.layout.inodesPerGroup ≤ 8 * logicalBlockSize :=
    hL.inodes_max
  rcases hSlot.group with ⟨hPos, g, hGroup⟩
  rcases hCan with ⟨hPointer, i, hi, hNe⟩
  rcases ext2FreeAlloc_failing hL.blockSize .block hGroup hi
    (by omega) with ⟨faults, hFails, hAlloc⟩
  generalize Resource.number .block s.sb
    ((s.file.inodeNum - 1) / s.sb.sInodesPerGroup)
    (UInt32.ofNat i) = block at hAlloc hNe
  let inode := s.file.inode.setBlock
    ⟨(allocatedBlocks s).toNat,
      Nat.lt_trans hPointer (by decide)⟩ block
  refine ⟨faults, block, (s.counted .block g).setFileInode
    { inode with
      iDiskSectorsCount := inode.iDiskSectorsCount +
        ext2BlocksToSectors 1 (s.counted .block g) },
    hFails, Fs.counted_layout _ _ _, rfl, fun rest => ?_⟩
  have hPerGroup (faults : List Fault) :
      ext2GetInodesPerGroup (s.answering faults) =
        s.sb.sInodesPerGroup := rfl
  have hAllocated (faults : List Fault) :
      allocatedBlocks (s.answering faults) =
        allocatedBlocks s := rfl
  simp only [growFile, hPerGroup, hPos, if_false,
    hAllocated, ext2FreeBlockAlloc, Fs.answering_file, hAlloc,
    Option.bind_eq_bind, Option.bind_some, hNe,
    dif_pos hPointer]
  rfl

/- The block a write spills into, when the bitmap is lost. -/
theorem nextBlock_failing
    (hL : s.layout.Ok)
    (hCan : CanSpill s)
    (hSlot : s.SlotInside s.file.inodeNum) :
    ∃ faults block t, (t : Fs).layout = s.layout ∧
      t.file.inodeNum = s.file.inodeNum ∧ ∀ rest,
        nextBlock (s.answering (faults ++ rest)) =
          some (0, block, t.answering rest) := by
  have hSize : ext2GetBlockSize s = 4096 := hL.blockSize
  have hTest (faults : List Fault) :
      allocatedBlocks (s.answering faults) <
          s.file.pos / 4096 + 2 ↔
        (allocatedBlocks s).toNat < s.file.block + 2 := by
    rw [UInt32.lt_iff_toNat_lt, block_add_two_toNat]
    rfl
  unfold CanSpill at hCan
  split at hCan
  · next hLast =>
      rcases growFile_failing hL hCan hSlot with
        ⟨faults, block, t, -, hLayout, hNum, hGrow⟩
      refine ⟨faults, block, t, hLayout, hNum, fun rest => ?_⟩
      simp only [nextBlock, Fs.answering_blockSize, hSize,
        Fs.answering_file]
      rw [if_pos ((hTest _).mpr hLast), hGrow]
  · next hHas =>
      refine ⟨[], s.file.inode.iBlock ⟨_, hCan⟩, s, rfl, rfl,
        fun rest => ?_⟩
      simp only [nextBlock, Fs.answering_blockSize, hSize,
        Fs.answering_file, List.nil_append]
      rw [if_neg (fun h => hHas ((hTest _).mp h)),
        block_add_one_toNat, blockPtr_inside _ hCan]
      rfl

/- Committing the size to a slot that cannot be written. -/
theorem commitSize_failing
    (hBlock : ext2GetBlockSize s = 4096)
    (hSlot : s.SlotInside s.file.inodeNum)
    (size : UInt32)
    (junk : Block) :
    ∃ t, ∀ rest,
      commitSize size (s.answering
          (some junk :: some junk :: rest)) =
        some ((t : Fs).answering rest) := by
  let top := s.file.pos % ext2GetBlockSize s + size
  let inode := if top > s.file.inode.iLowerSize then
      { s.file.inode with
        iLowerSize := s.file.inode.iLowerSize +
          (top - s.file.inode.iLowerSize) }
    else s.file.inode
  refine ⟨s.setFileInode inode, fun rest => ?_⟩
  exact ext2InodeWrite_failing (s := s.setFileInode inode)
    hBlock (hSlot.congr rfl) inode junk junk rest

------------------------------------------------------------
-- Writing
------------------------------------------------------------

variable {data : Nat → UInt8} {size : UInt32}

/- The branches of a write, in exact arithmetic. -/
theorem writeExisting_eq
    (hBlock : ext2GetBlockSize s = 4096)
    (data : Nat → UInt8)
    (size : UInt32) :
    writeExisting data size s =
      if 4096 < size.toNat then some (1, s)
      else (s.file.inode.blockPtr s.file.block).bind fun ptr =>
        if 4096 < s.file.off + size.toNat then
          writeSpilling ptr data size s
        else writeInside ptr data size s := by
  simp only [writeExisting, hBlock, pos_div_toNat, ne_eq,
    not_true_eq_false, if_false, Option.bind_eq_bind]
  have hTest : size > 4096 ↔ 4096 < size.toNat :=
    UInt32.lt_iff_toNat_lt
  by_cases hBig : 4096 < size.toNat
  · rw [if_pos hBig, if_pos (hTest.mpr hBig)]
  · rw [if_neg hBig, if_neg fun h => hBig (hTest.mp h)]
    have hSpill := spill_iff s.file (Nat.not_lt.mp hBig)
    simp only [hSpill]

/- A write inside the block, with every transfer lost. -/
theorem writeInside_failing
    (hBlock : ext2GetBlockSize s = 4096)
    (hSlot : s.SlotInside s.file.inodeNum)
    (hFits : s.file.off + size.toNat ≤ 4096)
    (data : Nat → UInt8)
    (ptr : UInt32) :
    ∃ faults t, HasFailure faults ∧ ∀ rest,
      writeInside ptr data size (s.answering (faults ++ rest)) =
        some (0, (t : Fs).answering rest) := by
  let junk : Block := .fill _ 0
  let buff := s.headBuff data size.toNat
  rcases writeData_failing ptr false buff (s.setBuff buff) junk
    with ⟨u, hData, hWrite⟩
  have hSame := (KeepsExtent.setBuff s buff).trans
    (.of_diskOnly hData)
  have hSize : ext2GetBlockSize u = 4096 :=
    (congrArg Layout.blockSize hSame.layout).trans hBlock
  rcases commitSize_failing hSize (hSame.slotInside hSlot)
    size junk with ⟨t, hCommit⟩
  refine ⟨[some junk, some junk, some junk], t,
    ⟨junk, List.mem_cons_self⟩, fun rest => ?_⟩
  have hOff : s.file.pos.toNat % (4096 : UInt32).toNat =
      s.file.off := rfl
  have hCopy : memcpy s.file.buff s.file.off data
      size.toNat = some buff :=
    memcpy_of_le hFits
  have hSet (faults : List Fault) :
      (s.answering faults).setBuff buff =
        (s.setBuff buff).answering faults := rfl
  simp only [writeInside, Fs.answering_blockSize, hBlock,
    Fs.answering_file, hOff, hCopy, hSet, hWrite, hCommit,
    Option.bind_eq_bind, Option.bind_some, List.cons_append,
    List.nil_append]

/- A write past the block, with every transfer lost. -/
theorem writeSpilling_failing
    (hL : s.layout.Ok)
    (hSlot : s.SlotInside s.file.inodeNum)
    (hSize : size.toNat ≤ 4096)
    (hCan : CanSpill s)
    (data : Nat → UInt8)
    (ptr : UInt32) :
    ∃ faults t, HasFailure faults ∧ ∀ rest,
      writeSpilling ptr data size
          (s.answering (faults ++ rest)) =
        some (0, (t : Fs).answering rest) := by
  have hBlock : ext2GetBlockSize s = 4096 := hL.blockSize
  have hOffLt := s.file.off_lt
  let junk : Block := .fill _ 0
  let buff := s.headBuff data (4096 - s.file.off)
  let tail := restOf data s.file.off size.toNat
  rcases writeData_failing ptr false buff (s.setBuff buff) junk
    with ⟨u, hData, hHead⟩
  have hSame := (KeepsExtent.setBuff s buff).trans
    (.of_diskOnly hData)
  rcases nextBlock_failing (hSame.layout ▸ hL)
      (hSame.canSpill hCan) (hSame.slotInside hSlot) with
    ⟨faults, block, v, hLayout, hNum, hNext⟩
  rcases writeData_failing block true tail v junk with
    ⟨w, hData', hTail⟩
  have hwLayout : w.layout = s.layout :=
    (KeepsExtent.of_diskOnly hData').layout.trans
      (hLayout.trans hSame.layout)
  have hwSlot : w.SlotInside w.file.inodeNum := by
    rw [hData'.file, hNum, hSame.inodeNum]
    exact hSlot.congr hwLayout
  rcases commitSize_failing
      ((congrArg Layout.blockSize hwLayout).trans hBlock)
      hwSlot size junk with ⟨t, hCommit⟩
  refine ⟨some junk :: (faults ++
    [some junk, some junk, some junk]), t,
    ⟨junk, List.mem_cons_self⟩, fun rest => ?_⟩
  have hOff : s.file.pos.toNat % 4096 = s.file.off := rfl
  have h4096 : (4096 : UInt32).toNat = 4096 := rfl
  have hCopy : memcpy s.file.buff s.file.off data
      (4096 - s.file.off) = some buff :=
    memcpy_of_le (show _ ≤ 4096 by omega)
  have hCopyTail : memcpy
      (ByteBuffer.fill logicalBlockSize 0) 0
      (fun i => data (4096 - s.file.off + i))
      (size.toNat - (4096 - s.file.off)) = some tail :=
    memcpy_of_le (show _ ≤ 4096 by omega)
  have hSet (faults : List Fault) :
      (s.answering faults).setBuff buff =
        (s.setBuff buff).answering faults := rfl
  simp only [writeSpilling, Fs.answering_blockSize, hBlock,
    Fs.answering_file, hOff, h4096, hCopy, hSet,
    List.cons_append, List.append_assoc, List.nil_append,
    hHead, hNext, Option.bind_eq_bind, Option.bind_some,
    ne_eq, not_true_eq_false, if_false, hCopyTail, hTail,
    hCommit]

/- A write that can return 0 does so with lost transfers. -/
theorem writeExisting_failing
    (hL : s.layout.Ok)
    (hCan : CanWrite size s)
    (data : Nat → UInt8) :
    ∃ faults t, HasFailure faults ∧ ∀ rest,
      writeExisting data size (s.answering (faults ++ rest)) =
        some (0, (t : Fs).answering rest) := by
  have hBlock : ext2GetBlockSize s = 4096 := hL.blockSize
  have hFits := Nat.not_lt.mpr hCan.fits
  by_cases hSpill : 4096 < s.file.off + size.toNat
  · rcases writeSpilling_failing hL hCan.slot hCan.fits
        (hCan.spill hSpill) data
        (s.file.inode.iBlock ⟨_, hCan.pointer⟩) with
      ⟨faults, t, hFails, hRun⟩
    refine ⟨faults, t, hFails, fun rest => ?_⟩
    rw [writeExisting_eq (by exact hBlock), if_neg hFits]
    simp only [Fs.answering_file, if_pos hSpill,
      blockPtr_inside _ hCan.pointer, Option.bind_some, hRun]
  · rcases writeInside_failing hBlock hCan.slot
        (Nat.not_lt.mp hSpill) data
        (s.file.inode.iBlock ⟨_, hCan.pointer⟩) with
      ⟨faults, t, hFails, hRun⟩
    refine ⟨faults, t, hFails, fun rest => ?_⟩
    rw [writeExisting_eq (by exact hBlock), if_neg hFits]
    simp only [Fs.answering_file, if_neg hSpill,
      blockPtr_inside _ hCan.pointer, Option.bind_some, hRun]

------------------------------------------------------------
-- Seeking
------------------------------------------------------------

variable {newPos : UInt32}

/- What a seek does once the buffer is saved. -/
def seekMoved
    (newPos : UInt32)
    (s : Fs) : Option (UInt8 × Fs) :=
  if (allocatedBlocks s).toNat ≤ newPos.toNat / 4096 then
    seekGrowing (s.movedTo newPos)
  else (loadBlock (s.movedTo newPos)).bind fun t => some (0, t)

/- The branches of a seek, in exact arithmetic. -/
theorem seekExisting_eq
    (hBlock : ext2GetBlockSize s = 4096)
    (newPos : UInt32) :
    seekExisting newPos s =
      (if s.file.dirty ∧ newPos.toNat / 4096 ≠ s.file.block then
        flush s
      else some s).bind (seekMoved newPos) := by
  have hIndex : (newPos / 4096).toNat = newPos.toNat / 4096 :=
    UInt32.toNat_div _ _
  have hNext : (newPos / 4096 + 1).toNat =
      newPos.toNat / 4096 + 1 :=
    blockIndex_add_toNat newPos (by decide)
  have hOther : newPos / 4096 ≠ s.file.pos / 4096 ↔
      newPos.toNat / 4096 ≠ s.file.block := by
    rw [ne_eq, ← UInt32.toNat_inj, hIndex, pos_div_toNat]
  have hGrows (a : UInt32) :
      a < newPos / 4096 + 1 ↔ a.toNat ≤ newPos.toNat / 4096 := by
    rw [UInt32.lt_iff_toNat_lt, hNext, Nat.lt_succ_iff]
  simp only [seekExisting, hBlock, hOther, hGrows,
    Option.bind_eq_bind]
  split <;> rfl

/- Saving the buffer, with every transfer lost. -/
theorem flush_failing
    (hBlock : ext2GetBlockSize s = 4096)
    (hCan : FlushInside s) :
    ∃ faults t, HasFailure faults ∧ KeepsExtent s t ∧
      ∀ rest, flush (s.answering (faults ++ rest)) =
        some ((t : Fs).answering rest) := by
  let junk : Block := .fill _ 0
  have hPtr := blockPtr_pos s.file hCan.pointer
  rcases writeData_failing (s.file.inode.iBlock
      ⟨_, hCan.pointer⟩) false s.file.buff s junk with
    ⟨u, hData, hWrite⟩
  have hSame := KeepsExtent.of_diskOnly hData
  by_cases hNew : s.file.newBytesCount > 0
  · let v := u.setFileInode { u.file.inode with
      iLowerSize := u.file.pos + u.file.newBytesCount }
    have hSize : ext2GetBlockSize v = 4096 :=
      (congrArg Layout.blockSize hSame.layout).trans hBlock
    have hSlot : v.SlotInside u.file.inodeNum := by
      rw [hData.file]
      exact (hCan.slot hNew).congr hSame.layout
    have hStore := ext2InodeWrite_failing hSize hSlot
      v.file.inode junk junk
    refine ⟨[some junk, some junk, some junk], v,
      ⟨junk, List.mem_cons_self⟩,
      hSame.trans ⟨rfl, rfl, rfl, rfl, rfl⟩,
      fun rest => ?_⟩
    have hNew' : u.file.newBytesCount > 0 := by
      rwa [hData.file]
    simp only [flush, Fs.answering_blockSize, hBlock,
      Fs.answering_file, hPtr, Option.bind_eq_bind,
      Option.bind_some, List.cons_append, List.nil_append,
      hWrite]
    rw [if_pos hNew']
    exact hStore rest
  · refine ⟨[some junk], u, ⟨junk, List.mem_cons_self⟩,
      hSame, fun rest => ?_⟩
    have hNew' : ¬ u.file.newBytesCount > 0 := by
      rwa [hData.file]
    simp only [flush, Fs.answering_blockSize, hBlock,
      Fs.answering_file, hPtr, Option.bind_eq_bind,
      Option.bind_some, List.cons_append, List.nil_append,
      hWrite]
    rw [if_neg hNew']

/- The block under the position is whatever the buffer held. -/
theorem loadBlock_failing
    (hBlock : ext2GetBlockSize s = 4096)
    (hk : s.file.block < ext2NBlocks)
    (junk : Block) :
    ∃ t, ∀ rest,
      loadBlock (s.answering (some junk :: rest)) =
        some ((t : Fs).answering rest) := by
  have hPtr := blockPtr_pos s.file hk
  refine ⟨s.setBuff junk, fun rest => ?_⟩
  simp only [loadBlock, Fs.answering_blockSize, hBlock,
    Fs.answering_file, hPtr, Option.bind_eq_bind,
    Option.bind_some, ext2ReadBlock_failing]
  rfl

/- Growing by a seek, with every transfer lost. -/
theorem seekGrowing_failing
    (hL : s.layout.Ok)
    (hCan : CanGrow s)
    (hSlot : s.SlotInside s.file.inodeNum) :
    ∃ faults t, HasFailure faults ∧ ∀ rest,
      seekGrowing (s.answering (faults ++ rest)) =
        some (0, (t : Fs).answering rest) := by
  let junk : Block := .fill _ 0
  rcases growFile_failing hL hCan hSlot with
    ⟨faults, block, u, hFails, hLayout, hNum, hGrow⟩
  have hSize : ext2GetBlockSize u = 4096 :=
    (congrArg Layout.blockSize hLayout).trans hL.blockSize
  let off := u.file.pos % 4096
  have hOff : 0 + off.toNat ≤ logicalBlockSize := by
    have hLt : off.toNat < 4096 :=
      (pos_mod_toNat u.file).trans_lt u.file.off_lt
    rw [Nat.zero_add]
    exact Nat.le_of_lt hLt
  have hClear : memset junk 0 0 off.toNat =
      some (clearedPrefix junk off.toNat) :=
    memcpy_of_le hOff
  let v := (u.setBuff (clearedPrefix junk off.toNat))
  let w := v.setFileInode { v.file.inode with
    iLowerSize := off }
  have hwSlot : w.SlotInside u.file.inodeNum := by
    rw [hNum]
    exact hSlot.congr hLayout
  have hStore := ext2InodeWrite_failing (s := w) hSize hwSlot
    w.file.inode junk junk
  refine ⟨faults ++ [some junk, some junk, some junk], w,
    hFails.append _, fun rest => ?_⟩
  simp only [seekGrowing, List.append_assoc, hGrow,
    Option.bind_eq_bind, Option.bind_some, ne_eq,
    not_true_eq_false, if_false, List.cons_append,
    List.nil_append, ext2ReadBlock_failing,
    Fs.answering_blockSize, hSize, Fs.answering_file]
  change ((memset junk 0 0 off.toNat).bind _) = _
  rw [hClear]
  change (ext2InodeWrite u.file.inodeNum w.file.inode
    (w.answering (some junk :: some junk :: rest))).bind _ = _
  rw [hStore]
  rfl

/- What follows the flush, with every transfer lost. -/
theorem seekMoved_failing
    (hL : s.layout.Ok)
    (hPlace :
      if (allocatedBlocks s).toNat ≤ newPos.toNat / 4096 then
        CanGrow s ∧ s.SlotInside s.file.inodeNum
      else newPos.toNat / 4096 < ext2NBlocks) :
    ∃ faults t, HasFailure faults ∧ ∀ rest,
      seekMoved newPos (s.answering (faults ++ rest)) =
        some (0, (t : Fs).answering rest) := by
  by_cases hGrows :
      (allocatedBlocks s).toNat ≤ newPos.toNat / 4096
  · rw [if_pos hGrows] at hPlace
    rcases seekGrowing_failing (s := s.movedTo newPos) hL
        ⟨hPlace.1.pointer, hPlace.1.offers⟩
        (hPlace.2.congr rfl) with ⟨faults, t, hFails, hRun⟩
    refine ⟨faults, t, hFails, fun rest => ?_⟩
    rw [seekMoved, if_pos (by exact hGrows)]
    exact hRun rest
  · rw [if_neg hGrows] at hPlace
    let junk : Block := .fill _ 0
    rcases loadBlock_failing (s := s.movedTo newPos)
        hL.blockSize hPlace junk with ⟨t, hLoad⟩
    refine ⟨[some junk], t, ⟨junk, List.mem_cons_self⟩,
      fun rest => ?_⟩
    rw [seekMoved, if_neg (by exact hGrows)]
    exact congrArg (Option.bind · fun t => some (0, t))
      (hLoad rest)

/- A seek that can return 0 does so with lost transfers. -/
theorem seekExisting_failing
    (hL : s.layout.Ok)
    (hCan : CanSeek newPos s) :
    ∃ faults t, HasFailure faults ∧ ∀ rest,
      seekExisting newPos (s.answering (faults ++ rest)) =
        some (0, (t : Fs).answering rest) := by
  have hBlock : ext2GetBlockSize s = 4096 := hL.blockSize
  by_cases hFlush :
      s.file.dirty ∧ newPos.toNat / 4096 ≠ s.file.block
  · rcases flush_failing hBlock
        (hCan.flush hFlush.1 hFlush.2) with
      ⟨faults, u, hFails, hSame, hRun⟩
    have hPlace : if (allocatedBlocks u).toNat ≤
        newPos.toNat / 4096 then
          CanGrow u ∧ u.SlotInside u.file.inodeNum
        else newPos.toNat / 4096 < ext2NBlocks := by
      have hCan := hCan.place
      rw [hSame.allocatedBlocks]
      split at hCan
      · next hLe =>
          rw [if_pos hLe]
          exact ⟨hSame.canGrow hCan.1,
            hSame.slotInside hCan.2⟩
      · next hLt => rwa [if_neg hLt]
    rcases seekMoved_failing (hSame.layout ▸ hL) hPlace with
      ⟨faults', t, -, hMoved⟩
    refine ⟨faults ++ faults', t, hFails.append _,
      fun rest => ?_⟩
    rw [List.append_assoc, seekExisting_eq (by exact hBlock),
      if_pos (by exact hFlush), hRun, Option.bind_some,
      hMoved]
  · rcases seekMoved_failing hL hCan.place with
      ⟨faults, t, hFails, hMoved⟩
    refine ⟨faults, t, hFails, fun rest => ?_⟩
    rw [seekExisting_eq (by exact hBlock),
      if_neg (by exact hFlush), Option.bind_some, hMoved]

------------------------------------------------------------
-- Whatever the Device Answers
------------------------------------------------------------

theorem writeData_extent
    (block : UInt32)
    (spilled : Bool)
    (content : Block)
    (s : Fs) :
    KeepsExtent s (writeData block spilled content s) :=
  .of_diskOnly
    ⟨(ext2WriteBlock_diskOnly _ _ _).file,
      (ext2WriteBlock_diskOnly _ _ _).sb,
      (ext2WriteBlock_diskOnly _ _ _).bgdt⟩

/- A size that is committed goes to a slot that is inside. -/
theorem slotInside_of_commitSize
    (hCommit : commitSize size s = some t) :
    s.SlotInside s.file.inodeNum :=
  (slotInside_of_write (s := s.setFileInode _)
    hCommit).congr rfl

theorem growFile_succeeds
    {block : UInt32}
    (hGrow : growFile s = some (0, block, t)) :
    CanGrow s ∧ t.layout = s.layout ∧
      t.file.inodeNum = s.file.inodeNum := by
  rw [growFile] at hGrow
  dsimp only at hGrow
  split at hGrow
  · cases hGrow
  · rcases Option.bind_eq_some_iff.mp hGrow with
      ⟨⟨num, u⟩, hAlloc, hGrow⟩
    split at hGrow
    · cases hGrow
    · next hNe =>
        rcases (ext2FreeAlloc_claims hAlloc).resolve_left
          (fun h => hNe h.1) with ⟨g, i, hClaims⟩
        have hNum : u.file.inodeNum = s.file.inodeNum :=
          congrArg File.inodeNum (ext2FreeAlloc_file hAlloc)
        split at hGrow
        · next hPointer =>
            cases hGrow
            refine ⟨⟨hPointer, i, hClaims.lt, ?_⟩,
              hClaims.layout, ?_⟩
            · exact hClaims.number ▸ hNe
            · exact hNum
        · cases hGrow

theorem nextBlock_succeeds
    (hBlock : ext2GetBlockSize s = 4096)
    {block : UInt32}
    (hNext : nextBlock s = some (0, block, t)) :
    CanSpill s ∧ t.layout = s.layout ∧
      t.file.inodeNum = s.file.inodeNum := by
  have hTest : allocatedBlocks s < s.file.pos / 4096 + 2 ↔
      (allocatedBlocks s).toNat < s.file.block + 2 := by
    rw [UInt32.lt_iff_toNat_lt, block_add_two_toNat]
  simp only [nextBlock, hBlock, hTest] at hNext
  unfold CanSpill
  split at hNext
  · next hLast =>
      rw [if_pos hLast]
      exact growFile_succeeds hNext
  · next hHas =>
      rw [if_neg hHas]
      rcases Option.bind_eq_some_iff.mp hNext with
        ⟨ptr, hPtr, hNext⟩
      cases hNext
      rw [block_add_one_toNat] at hPtr
      exact ⟨lt_of_blockPtr hPtr, rfl, rfl⟩

/- A write that returns 0 has stayed inside its arrays. -/
theorem writeExisting_succeeds
    (hBlock : ext2GetBlockSize s = 4096)
    (hWrite : writeExisting data size s = some (0, t)) :
    CanWrite size s := by
  rw [writeExisting_eq hBlock] at hWrite
  split at hWrite
  · cases hWrite
  · next hFits =>
      rcases Option.bind_eq_some_iff.mp hWrite with
        ⟨ptr, hPtr, hWrite⟩
      have hPointer := lt_of_blockPtr hPtr
      have hFits := Nat.not_lt.mp hFits
      split at hWrite
      · next hSpill =>
          simp only [writeSpilling, Option.bind_eq_bind,
            Option.bind_eq_some_iff] at hWrite
          rcases hWrite with
            ⟨buff, -, ⟨code, next, u⟩, hNext, hWrite⟩
          have hHead := (KeepsExtent.setBuff s buff).trans
            (writeData_extent ptr false buff (s.setBuff buff))
          split at hWrite
          · cases hWrite
          · next hCode =>
              have hCode : code = 0 := not_not.mp hCode
              subst hCode
              simp only [Option.bind_eq_some_iff] at hWrite
              rcases hWrite with ⟨rest, -, v, hCommit, -⟩
              rcases nextBlock_succeeds
                ((congrArg Layout.blockSize
                  hHead.layout).trans hBlock) hNext with
                ⟨hCan, hLayout, hNum⟩
              have hTail := writeData_extent next true rest u
              have hSlot :=
                hTail.symm.slotInside
                  (slotInside_of_commitSize hCommit)
              rw [hNum] at hSlot
              exact ⟨hFits, hPointer,
                hHead.symm.slotInside
                  (hSlot.congr hLayout.symm),
                fun _ => hHead.symm.canSpill hCan⟩
      · next hInside =>
          simp only [writeInside, Option.bind_eq_bind,
            Option.bind_eq_some_iff] at hWrite
          rcases hWrite with ⟨buff, -, u, hCommit, -⟩
          have hSame := (KeepsExtent.setBuff s buff).trans
            (writeData_extent ptr false buff (s.setBuff buff))
          exact ⟨hFits, hPointer,
            hSame.symm.slotInside
              (slotInside_of_commitSize hCommit),
            fun hSpill => absurd hSpill hInside⟩

/- A buffer that is saved goes to blocks of the arrays. -/
theorem flush_succeeds
    (hBlock : ext2GetBlockSize s = 4096)
    (hFlush : flush s = some t) :
    FlushInside s ∧ KeepsExtent s t := by
  simp only [flush, hBlock, pos_div_toNat,
    Option.bind_eq_bind, Option.bind_eq_some_iff] at hFlush
  rcases hFlush with ⟨ptr, hPtr, hFlush⟩
  have hData := writeData_extent ptr false s.file.buff s
  have hFile : (writeData ptr false s.file.buff s).file =
      s.file := (ext2WriteBlock_diskOnly _ _ _).file
  split at hFlush
  · next hNew =>
      have hSlot := slotInside_of_write hFlush
      have hStored := ext2InodeWrite_diskOnly hFlush
      refine ⟨⟨lt_of_blockPtr hPtr, fun _ => ?_⟩, ?_⟩
      · refine Fs.SlotInside.congr ?_ hData.symm.layout
        have hNum := hData.inodeNum
        exact hNum ▸ hSlot.congr rfl
      · refine KeepsExtent.trans (t := (writeData ptr false
          s.file.buff s).setFileInode _) ?_
            (.of_diskOnly hStored)
        exact ⟨hData.sb, hData.bgdt, hData.inodeNum,
          hData.pos, hData.sectors⟩
  · next hNew =>
      cases hFlush
      refine ⟨⟨lt_of_blockPtr hPtr, fun hSome => ?_⟩, hData⟩
      rw [hFile] at hNew
      exact absurd hSome hNew

theorem seekMoved_succeeds
    (hBlock : ext2GetBlockSize s = 4096)
    (hSeek : seekMoved newPos s = some (0, t)) :
    if (allocatedBlocks s).toNat ≤ newPos.toNat / 4096 then
      CanGrow s ∧ s.SlotInside s.file.inodeNum
    else newPos.toNat / 4096 < ext2NBlocks := by
  rw [seekMoved] at hSeek
  split at hSeek
  · next hGrows =>
      rw [if_pos hGrows]
      simp only [seekGrowing, Option.bind_eq_bind,
        Option.bind_eq_some_iff] at hSeek
      rcases hSeek with ⟨⟨code, block, u⟩, hGrow, hSeek⟩
      split at hSeek
      · cases hSeek
      · next hCode =>
          have hCode : code = 0 := not_not.mp hCode
          subst hCode
          simp only [Option.bind_eq_some_iff] at hSeek
          rcases hSeek with ⟨buff, -, v, hWrite, -⟩
          rcases growFile_succeeds hGrow with
            ⟨hCan, hLayout, hNum⟩
          have hRead := ext2ReadBlock_untouched block u
          have hSlot := slotInside_of_write hWrite
          refine ⟨⟨hCan.pointer, hCan.offers⟩, ?_⟩
          have hNum' : u.file.inodeNum = s.file.inodeNum := hNum
          rw [← hNum', ← congrArg File.inodeNum hRead.file]
          refine hSlot.congr ?_
          exact hLayout.symm.trans
            (KeepsExtent.of_diskOnly
              hRead.toDiskOnly).layout.symm
  · next hHas =>
      rw [if_neg hHas]
      simp only [Option.bind_eq_some_iff] at hSeek
      rcases hSeek with ⟨u, hLoad, -⟩
      have hIndex : (newPos / 4096).toNat =
          newPos.toNat / 4096 := UInt32.toNat_div _ _
      have hSize : ext2GetBlockSize (s.movedTo newPos) = 4096 :=
        hBlock
      rw [loadBlock] at hLoad
      dsimp only at hLoad
      rcases Option.bind_eq_some_iff.mp hLoad with
        ⟨ptr, hPtr, -⟩
      rw [hSize] at hPtr
      change Inode.blockPtr _ (newPos / 4096).toNat = _ at hPtr
      rw [hIndex] at hPtr
      exact lt_of_blockPtr hPtr

theorem CanSeek.of_answering
    {faults : List Fault}
    (h : CanSeek newPos (s.answering faults)) :
    CanSeek newPos s := by
  have hSame := KeepsExtent.answering s faults
  refine ⟨fun hDirty hOther => ?_, ?_⟩
  · have hFlush := h.flush hDirty hOther
    exact ⟨hFlush.pointer, hFlush.slot⟩
  · have hPlace := h.place
    rw [hSame.allocatedBlocks]
    split at hPlace
    · next hGrows =>
        rw [if_pos hGrows]
        exact ⟨hSame.canGrow hPlace.1,
          hSame.slotInside hPlace.2⟩
    · next hHas => rwa [if_neg hHas]

/- A seek that returns 0 has stayed inside its arrays. -/
theorem seekExisting_succeeds
    (hBlock : ext2GetBlockSize s = 4096)
    (hSeek : seekExisting newPos s = some (0, t)) :
    CanSeek newPos s := by
  rw [seekExisting_eq hBlock] at hSeek
  rcases Option.bind_eq_some_iff.mp hSeek with
    ⟨u, hFlush, hSeek⟩
  split at hFlush
  · next hDirty =>
      rcases flush_succeeds hBlock hFlush with
        ⟨hInside, hSame⟩
      have hPlace := seekMoved_succeeds
        ((congrArg Layout.blockSize hSame.layout).trans hBlock)
        hSeek
      rw [hSame.allocatedBlocks] at hPlace
      refine ⟨fun _ _ => hInside, ?_⟩
      split at hPlace
      · next hGrows =>
          rw [if_pos hGrows]
          exact ⟨hSame.symm.canGrow hPlace.1,
            hSame.symm.slotInside hPlace.2⟩
      · next hHas => rwa [if_neg hHas]
  · next hClean =>
      cases hFlush
      exact ⟨fun hDirty hOther =>
        absurd ⟨hDirty, hOther⟩ hClean,
        seekMoved_succeeds hBlock hSeek⟩

end

end Ext2

end Ester
