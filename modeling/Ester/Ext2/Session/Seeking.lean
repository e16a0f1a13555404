import Ester.Ext2.Session.Descriptor

/-
  What one `ext2_fseek` on an existing file can do.

  The position always moves.  Then the block under it is
  loaded, or, when the file has fewer blocks, the file takes
  one more block and its recorded size is set to the new
  position's offset in a block.

  Key definitions include:
    * `Fs.movedTo`
    * `clearedPrefix`
    * `SeekOutcome`

  Key theorems include:
    * `seekExisting_outcome`
-/

------------------------------------------------------------
-- Outcomes
------------------------------------------------------------

namespace Ester

namespace Ext2

/- The state with another position, nothing pending. -/
def Fs.movedTo
    (s : Fs)
    (newPos : UInt32) : Fs :=
  s.setFile { s.file with
    pos := newPos
    newBytesCount := 0
    dirty := false }

@[simp] theorem Fs.movedTo_disk
    (s : Fs)
    (newPos : UInt32) :
    (s.movedTo newPos).disk = s.disk := rfl

@[simp] theorem Fs.movedTo_layout
    (s : Fs)
    (newPos : UInt32) :
    (s.movedTo newPos).layout = s.layout := rfl

theorem Editing.movedTo
    {inodes : UInt32 → Prop}
    {owners : Owners}
    {s : Fs}
    (h : Editing inodes owners s)
    (newPos : UInt32) :
    Editing inodes owners (s.movedTo newPos) :=
  h.setFile rfl rfl

/- A block whose first bytes are cleared. -/
def clearedPrefix
    (content : Block)
    (len : Nat) : Block :=
  content.splice 0 len fun _ => 0

/- The ways a seek ends: error code and state. -/
inductive SeekOutcome
    (newPos : UInt32)
    (s : Fs) : UInt8 → Fs → Prop
  | loaded
      (ptr : UInt32)
      (hPtr : s.file.inode.blockPtr (newPos.toNat / 4096) =
        some ptr)
      (hLt : newPos.toNat / 4096 < s.file.inode.allocated) :
      SeekOutcome newPos s 0
        ((s.movedTo newPos).setBuff (s.disk ptr))
  | noBlock
      (hLe : s.file.inode.allocated ≤ newPos.toNat / 4096)
      (hNext : s.nextFree .block s.fileGroup = none) :
      SeekOutcome newPos s 1 (s.movedTo newPos)
  | noPointer
      (i : Nat)
      (hLe : s.file.inode.allocated ≤ newPos.toNat / 4096)
      (hMany : ext2NdirBlocks ≤ s.file.inode.allocated)
      (hNext : s.nextFree .block s.fileGroup = some i) :
      SeekOutcome newPos s 1
        ((s.movedTo newPos).claim .block s.fileGroup i)
  | grown
      (i : Nat)
      (hLe : s.file.inode.allocated ≤ newPos.toNat / 4096)
      (hDirect : s.file.inode.allocated < ext2NdirBlocks)
      (hNext : s.nextFree .block s.fileGroup = some i) :
      SeekOutcome newPos s 0
        ((((s.movedTo newPos).grown i).setBuff
          (clearedPrefix
            (s.disk (s.layout.blockNumber s.fileGroup i))
            (newPos.toNat % 4096))).commit (newPos % 4096))

------------------------------------------------------------
-- Seeking
------------------------------------------------------------

section

variable {inodes : UInt32 → Prop}
variable {owners : Owners} {s t : Fs}
variable {newPos : UInt32} {err : UInt8}

/- Growing at a position the file does not reach. -/
theorem seekGrowing_outcome
    (h : Editing inodes owners s)
    (hLe : s.file.inode.allocated ≤ newPos.toNat / 4096)
    (hRun : seekGrowing (s.movedTo newPos) =
      some (err, t)) :
    SeekOutcome newPos s err t := by
  have hMoved := h.movedTo newPos
  cases hNext : s.nextFree .block s.fileGroup with
  | none =>
      rw [seekGrowing,
        growFile_of_none hMoved.image hMoved.valid hNext]
        at hRun
      cases hRun
      exact .noBlock hLe hNext
  | some i =>
      by_cases hDirect :
          s.file.inode.allocated < ext2NdirBlocks
      · have hFree : FreeBit s .block s.fileGroup i :=
          .of_nextFree (h.image.layout.slotGroup_lt h.valid)
            hNext
        have hGrow := growFile_of_some hMoved.image hMoved.valid
          hNext hDirect
        have hGrown := (hMoved.grown hNext hDirect).1
        have hRead := ext2ReadBlock_of_steady
          hGrown.image.steady
          ((s.movedTo newPos).layout.blockNumber
            (s.movedTo newPos).fileGroup i)
        have hContent : ((s.movedTo newPos).grown i).disk
            ((s.movedTo newPos).layout.blockNumber
              (s.movedTo newPos).fileGroup i) =
              s.disk (s.layout.blockNumber s.fileGroup i) :=
          Fs.claim_disk_of_not_meta hFree
            (h.image.not_meta_of_free hFree)
        have hSize : ext2GetBlockSize
            ((s.movedTo newPos).grown i) = 4096 :=
          hGrown.image.layout.blockSize
        have hOff : (newPos % 4096).toNat =
            newPos.toNat % 4096 := UInt32.toNat_mod _ _
        have hPos : ((s.movedTo newPos).grown i).file.pos =
            newPos := rfl
        have hClear : memset
            (s.disk (s.layout.blockNumber s.fileGroup i)) 0 0
            (newPos.toNat % 4096) = some (clearedPrefix
              (s.disk (s.layout.blockNumber s.fileGroup i))
              (newPos.toNat % 4096)) :=
          memcpy_of_le (show _ ≤ 4096 by omega)
        have hBuffered := hGrown.setBuff (clearedPrefix
          (s.disk (s.layout.blockNumber s.fileGroup i))
          (newPos.toNat % 4096))
        simp only [seekGrowing, hGrow, Option.bind_eq_bind,
          Option.bind_some, hRead, hContent, hSize, hPos,
          hOff, hClear] at hRun
        rw [if_neg (by simp)] at hRun
        have hWrite := hBuffered.inodeWrite_resize
          (newPos % 4096)
        rcases Option.bind_eq_some_iff.mp hRun with
          ⟨u, hStored, hRun⟩
        cases hStored.symm.trans hWrite
        cases hRun
        exact .grown i hLe hDirect hNext
      · have hFull := Nat.not_lt.mp hDirect
        rw [seekGrowing, growFile_of_full hMoved.image
          hMoved.valid hNext hFull] at hRun
        cases hRun
        exact .noPointer i hLe hFull hNext

/- Loading the block a seek leads to. -/
theorem loadBlock_of_steady
    (hSteady : s.Steady)
    (newPos : UInt32) :
    loadBlock (s.movedTo newPos) =
      (s.file.inode.blockPtr (newPos.toNat / 4096)).bind
        fun ptr => some
          ((s.movedTo newPos).setBuff (s.disk ptr)) := by
  have hMoved : (s.movedTo newPos).Steady :=
    ⟨hSteady.faults, hSteady.blockSize⟩
  have hIndex : (newPos / 4096).toNat = newPos.toNat / 4096 :=
    UInt32.toNat_div _ _
  simp only [loadBlock, hMoved.blockSize,
    ext2ReadBlock_of_steady hMoved]
  rw [← hIndex]
  rfl

/- A seek with nothing to flush loads a block or grows. -/
theorem seekExisting_of_clean
    (hSteady : s.Steady)
    (hClean : s.file.dirty = false)
    (newPos : UInt32) :
    seekExisting newPos s =
      if s.file.inode.allocated ≤ newPos.toNat / 4096 then
        seekGrowing (s.movedTo newPos)
      else (s.file.inode.blockPtr
          (newPos.toNat / 4096)).bind fun ptr => some
            (0, (s.movedTo newPos).setBuff (s.disk ptr)) := by
  have hMoved : (s.movedTo newPos).Steady :=
    ⟨hSteady.faults, hSteady.blockSize⟩
  have hBound : (newPos / 4096 + 1).toNat =
      newPos.toNat / 4096 + 1 :=
    blockIndex_add_toNat newPos (by decide)
  have hAllocated : (allocatedBlocks (s.movedTo newPos)).toNat =
      s.file.inode.allocated :=
    allocatedBlocks_toNat hMoved
  simp only [seekExisting, hClean, Bool.false_eq_true,
    false_and, if_false, Option.bind_eq_bind,
    Option.bind_some, hSteady.blockSize]
  change (if allocatedBlocks (s.movedTo newPos) <
      newPos / 4096 + 1 then seekGrowing (s.movedTo newPos)
    else (loadBlock (s.movedTo newPos)).bind fun s =>
      some (0, s)) = _
  rw [loadBlock_of_steady hSteady, Option.bind_assoc]
  by_cases hLe : s.file.inode.allocated ≤ newPos.toNat / 4096
  · rw [if_pos hLe, if_pos]
    rw [UInt32.lt_iff_toNat_lt, hAllocated, hBound]
    omega
  · rw [if_neg hLe, if_neg]
    · rfl
    · rw [UInt32.lt_iff_toNat_lt, hAllocated, hBound]
      omega

/- A seek with nothing to flush ends in an outcome. -/
theorem seekExisting_outcome
    (h : Editing inodes owners s)
    (hClean : s.file.dirty = false)
    (hRun : seekExisting newPos s = some (err, t)) :
    SeekOutcome newPos s err t := by
  rw [seekExisting_of_clean h.image.steady hClean] at hRun
  split at hRun
  · next hLe => exact seekGrowing_outcome h hLe hRun
  · next hLt =>
      rw [Option.bind_eq_some_iff] at hRun
      rcases hRun with ⟨ptr, hPtr, hRun⟩
      cases hRun
      exact .loaded ptr hPtr (Nat.not_le.mp hLt)

end

end Ext2

end Ester
