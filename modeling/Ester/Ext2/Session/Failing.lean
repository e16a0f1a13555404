import Ester.Ext2.Session.Atomicity
import Ester.Ext2.Session.Calls

/-
  What a write or a seek that fails leaves behind.

  A seek has moved before it can fail, a spilling write has
  stored its first part, and a creation or a growing that
  fails late keeps the block it took.  So a failed call
  leaves the file alone only if it is a write that is too
  long or stores what is stored already, or a creation that
  takes no block.

  Key definitions include:
    * `LeftAlone`
    * `TakesBlock`
    * `Call.FailsCleanly`

  Key theorems include:
    * `CreateOutcome.leftAlone`
    * `writeExisting_untouched`
    * `failing_call_iff`
    * `failing_call_changes`
-/

------------------------------------------------------------
-- Conditions
------------------------------------------------------------

namespace Ester

namespace Ext2

/-
  The file is as it was: position, inode and buffer, the
  stored blocks, the recorded inode, and which blocks are
  free.  A file that does not exist has nothing stored.
-/
structure LeftAlone
    (s t : Fs) : Prop where
  pos : t.file.pos = s.file.pos
  inode : t.file.inode = s.file.inode
  buff : t.file.buff = s.file.buff
  stored :
    s.file.exist → ∀ k (hHas : s.file.inode.HasBlock k),
      t.disk (s.file.inode.direct k hHas.direct) =
        s.disk (s.file.inode.direct k hHas.direct)
  recorded :
    s.file.exist →
      t.inodeAt s.file.inodeNum = s.inodeAt s.file.inodeNum
  bitmaps :
    ∀ g : Fin maxGroups, g < s.layout.groups →
      t.bitmapBlock .block g = s.bitmapBlock .block g
  groupCounts :
    ∀ g, (t.bgdt g).bgFreeBlocksCount =
      (s.bgdt g).bgFreeBlocksCount
  count : t.sb.sFreeBlocksCount = s.sb.sFreeBlocksCount

/-
  The parent of the open file's path is a directory whose
  group has a free inode and a free block in scan range.
-/
def TakesBlock
    (stack : CreateStack)
    (s : Fs) : Prop :=
  ∃ parent v, ResolvesParent stack s parent v ∧
    v.currentInode.isDir ∧
    (s.nextFree .inode (s.layout.slotGroup parent)).isSome ∧
    (s.nextFree .block (s.layout.slotGroup parent)).isSome

/-
  The first part of a spilling write is what the buffer and
  the block under the position hold already.
-/
def HeadIsStored
    (data : Nat → UInt8)
    (s : Fs) : Prop :=
  s.headBuff data (4096 - s.file.off) = s.file.buff ∧
    ∀ ptr, s.file.inode.blockPtr s.file.block = some ptr →
      s.disk ptr = s.file.buff

/- When a failing write or seek leaves the file alone. -/
def Call.FailsCleanly : Call → Fs → Prop
  | .fwrite data size stack, s =>
      if s.file.exist then
        4096 < size.toNat ∨
          (s.nextFree .block s.fileGroup = none ∧
            HeadIsStored data s)
      else ¬ TakesBlock stack s
  | .fseek _ stack, s =>
      s.file.exist = false ∧ ¬ TakesBlock stack s
  | _, _ => True

section

variable {inodes : UInt32 → Prop}
variable {owners : Owners} {s t : Fs} {err : UInt8}

theorem Untouched.layout
    (h : Untouched s t) :
    t.layout = s.layout :=
  Fs.layout_congr h.sb h.bgdt

theorem Untouched.image
    (hSame : Untouched s t)
    (h : ImageOkFor inodes owners s)
    (hFaults : t.faults = s.faults) :
    ImageOkFor inodes owners t :=
  h.congr hSame.disk hFaults hSame.sb hSame.bgdt

theorem Untouched.leftAlone
    (h : Untouched s t) :
    LeftAlone s t := by
  have hLayout := h.layout
  exact
    { pos := by rw [h.file]
      inode := by rw [h.file]
      buff := by rw [h.file]
      stored := fun _ _ _ => by rw [h.disk]
      recorded := fun _ => by
        rw [Fs.inodeAt, Fs.inodeAt, hLayout, h.disk]
      bitmaps := fun _ _ => by
        rw [Fs.bitmapBlock, Fs.bitmapBlock, hLayout, h.disk]
      groupCounts := fun _ => by rw [h.bgdt]
      count := by rw [h.sb] }

------------------------------------------------------------
-- Creating
------------------------------------------------------------

/- A file that is placed costs a block. -/
theorem Linked.count_placed
    {parent : UInt32}
    {garbage : Inode}
    {i j : Nat}
    (hLink : Linked (s.placedOwners parent i j owners) parent
      (s.placed parent garbage i j) t) :
    t.sb.sFreeBlocksCount = s.sb.sFreeBlocksCount - 1 := by
  cases hLink <;> rfl

/-
  A creation in a parent leaves an absent file alone, or it
  finds an inode and a block and costs one block for good.
-/
theorem CreateOutcome.leftAlone
    {parent : UInt32}
    {garbage : Inode}
    {name : List UInt8}
    (hOut :
      CreateOutcome owners parent garbage name s err t)
    (h : ImageOk owners s)
    (hn : s.layout.ValidInode parent)
    (hAbsent : s.file.exist = false) :
    (err = 1 ∧ LeftAlone s t ∧
      (s.currentInode.isDir = false ∨
        s.nextFree .inode (s.layout.slotGroup parent) = none ∨
        s.nextFree .block (s.layout.slotGroup parent) =
          none)) ∨
    (s.currentInode.isDir ∧
      (s.nextFree .inode (s.layout.slotGroup parent)).isSome ∧
      (s.nextFree .block (s.layout.slotGroup parent)).isSome ∧
      t.sb.sFreeBlocksCount = s.sb.sFreeBlocksCount - 1) := by
  have hG := h.layout.slotGroup_lt hn
  cases hOut with
  | refused hNone =>
      exact .inl ⟨rfl, (Untouched.refl s).leftAlone,
        hNone.imp id .inl⟩
  | noBlock i hDir hInode hBlock =>
      refine .inl ⟨rfl, ?_, .inr (.inr hBlock)⟩
      exact
        { pos := rfl
          inode := rfl
          buff := rfl
          stored := fun hExist =>
            absurd (hExist.symm.trans hAbsent) (by simp)
          recorded := fun hExist =>
            absurd (hExist.symm.trans hAbsent) (by simp)
          bitmaps := fun g hg => by
            rw [Fs.bitmapBlock_claim h.layout.toBitmapsOk rfl
              hG hg, if_neg (by simp)]
          groupCounts := fun g => by
            rw [Fs.claim_bgdt, Function.update_apply]
            split
            · next hEq => subst hEq; rfl
            · rfl
          count := rfl }
  | unlinked i j code u hDir hInode hBlock hAdd hCode hLink =>
      exact .inr ⟨hDir, by rw [hInode]; rfl,
        by rw [hBlock]; rfl, hLink.count_placed⟩
  | created i j u hDir hInode hBlock hAdd hLink =>
      exact .inr ⟨hDir, by rw [hInode]; rfl,
        by rw [hBlock]; rfl, hLink.count_placed⟩

/-
  Creating an absent file leaves it alone when no block is
  there to take, else it costs one block for good.
-/
theorem ext2FileCreate_leftAlone
    {stack : CreateStack}
    (h : ImageOk owners s)
    (hAbsent : s.file.exist = false)
    (hCreate : ext2FileCreate stack s = some (err, t)) :
    (err = 1 ∧ LeftAlone s t ∧ ¬ TakesBlock stack s) ∨
      (TakesBlock stack s ∧
        t.sb.sFreeBlocksCount =
          s.sb.sFreeBlocksCount - 1) := by
  rcases ext2FileCreate_outcome h hCreate with
    ⟨rfl, rfl, hStops⟩ | ⟨parent, name, hParent, hLive, hOut⟩
  · refine .inl ⟨rfl, (Untouched.refl t).leftAlone, ?_⟩
    rintro ⟨parent, v, hParent, -⟩
    exact hStops parent v hParent
  · have hSet := h.setCurrentInode (s.inodeAt parent)
    rcases hOut.leftAlone hSet hLive.valid hAbsent with
      ⟨rfl, hLeft, hNone⟩ | ⟨hDir, hInode, hBlock, hCount⟩
    · refine .inl ⟨rfl, ⟨hLeft.pos, hLeft.inode, hLeft.buff,
        hLeft.stored, hLeft.recorded, hLeft.bitmaps,
        hLeft.groupCounts, hLeft.count⟩, ?_⟩
      rintro ⟨parent', v, hParent', hDir, hInode, hBlock⟩
      rcases hParent.unique hParent' with ⟨rfl, rfl⟩
      rcases hNone with hNotDir | hNoInode | hNoBlock
      · exact absurd (hDir.symm.trans hNotDir) (by simp)
      · change s.nextFree .inode (s.layout.slotGroup parent) =
          none at hNoInode
        rw [hNoInode] at hInode
        exact absurd hInode (by simp)
      · change s.nextFree .block (s.layout.slotGroup parent) =
          none at hNoBlock
        rw [hNoBlock] at hBlock
        exact absurd hBlock (by simp)
    · exact .inr ⟨⟨parent, _, hParent, hDir, hInode, hBlock⟩,
        hCount⟩

/- A call that costs a block does not leave the file alone. -/
theorem not_leftAlone_of_count
    (hCount : t.sb.sFreeBlocksCount =
      s.sb.sFreeBlocksCount - 1) :
    ¬ LeftAlone s t := by
  intro hLeft
  rw [hLeft.count] at hCount
  exact ne_sub_one _ hCount

------------------------------------------------------------
-- Writing
------------------------------------------------------------

variable {data : Nat → UInt8} {size : UInt32}

/- Without a free block, asking for the next changes nothing. -/
theorem nextBlock_untouched
    {block : UInt32}
    (h : ImageOkFor inodes owners s)
    (hn : s.layout.ValidInode s.file.inodeNum)
    (hNext : s.nextFree .block s.fileGroup = none)
    (hRun : nextBlock s = some (err, block, t)) :
    t = s := by
  rw [nextBlock] at hRun
  split at hRun
  · rw [growFile_of_none h hn hNext] at hRun
    cases hRun
    rfl
  · simp only [Option.bind_eq_bind,
      Option.bind_eq_some_iff] at hRun
    rcases hRun with ⟨num, -, hRun⟩
    cases hRun
    rfl

/-
  A failing write that stores what is stored already, while
  no block is free, changes nothing.
-/
theorem writeExisting_untouched
    (h : ImageOkFor inodes owners s)
    (hn : s.layout.ValidInode s.file.inodeNum)
    (hNext : s.nextFree .block s.fileGroup = none)
    (hHead : HeadIsStored data s)
    (hFail : err ≠ 0)
    (hRun : writeExisting data size s = some (err, t)) :
    Untouched s t := by
  have hBlockSize : ext2GetBlockSize s = 4096 :=
    h.layout.blockSize
  have hOffLt := s.file.off_lt
  have hOff : s.file.pos.toNat % 4096 = s.file.off := rfl
  have h4096 : (4096 : UInt32).toNat = 4096 := rfl
  have hCopy : memcpy s.file.buff s.file.off data
      (4096 - s.file.off) = some s.file.buff :=
    (memcpy_of_le (show _ ≤ 4096 by omega)).trans
      (congrArg some hHead.1)
  simp only [writeExisting, hBlockSize] at hRun
  split at hRun
  · cases hRun
    exact .refl s
  · simp only [ne_eq, not_true_eq_false, if_false,
      pos_div_toNat, Option.bind_eq_bind,
      Option.bind_eq_some_iff] at hRun
    rcases hRun with ⟨ptr, hPtr, hRun⟩
    have hSame := hHead.2 ptr hPtr
    split at hRun
    · -- the first part is stored, no block for the rest
      simp only [writeSpilling, hBlockSize, hOff, hCopy,
        h4096, Option.bind_eq_bind, Option.bind_some,
        writeData_of_steady (h.setFile _).steady,
        Fs.setBuff] at hRun
      have hWrote : Untouched s
          ((s.setFile { s.file with
            buff := s.file.buff }).wrote ptr false
              s.file.buff) := by
        refine ⟨⟨rfl, rfl, rfl⟩, ?_⟩
        rw [← hSame]
        exact Function.update_eq_self ptr s.disk
      generalize hHead' : (s.setFile { s.file with
        buff := s.file.buff }).wrote ptr false s.file.buff = u
        at hRun hWrote
      have hImage : ImageOkFor inodes owners u :=
        hWrote.image h (by rw [← hHead']; rfl)
      simp only [Option.bind_eq_some_iff] at hRun
      rcases hRun with ⟨⟨code, next, v⟩, hNextBlock, hRun⟩
      have hNone : u.nextFree .block u.fileGroup = none := by
        rw [Fs.nextFree, Fs.fileGroup, Fs.bitmapBlock,
          hWrote.layout, hWrote.disk, hWrote.file]
        exact hNext
      have hSameNext := nextBlock_untouched hImage
        (by rwa [hWrote.layout, hWrote.file]) hNone hNextBlock
      subst hSameNext
      split at hRun
      · cases hRun
        exact hWrote
      · simp only [Option.bind_eq_some_iff] at hRun
        rcases hRun with ⟨rest, -, w, -, hRun⟩
        cases hRun
        exact absurd rfl hFail
    · simp only [writeInside, Option.bind_eq_bind,
        Option.bind_eq_some_iff] at hRun
      rcases hRun with ⟨buff, -, u, -, hRun⟩
      cases hRun
      exact absurd rfl hFail

/- The first part of a write leaves the block bitmaps. -/
theorem Editing.wroteHead_nextFree
    (h : Editing inodes owners s)
    (hHas : s.file.inode.HasBlock s.file.block)
    (data : Nat → UInt8)
    (len : Nat) :
    (s.wroteHead hHas.direct data len).nextFree .block
        s.fileGroup =
      s.nextFree .block s.fileGroup := by
  have hBits :
      (s.wroteHead hHas.direct data len).bitmapBlock .block
        s.fileGroup = s.bitmapBlock .block s.fileGroup :=
    Fs.wrote_bitmapBlock _ _ _ _ (h.image.ne_bitmap
      (h.owns hHas) .block
      (h.image.layout.slotGroup_lt h.valid))
  rw [Fs.nextFree, hBits]
  rfl

/- A failing write in range that leaves the file alone. -/
theorem WriteOutcome.failsCleanly
    (hOut : WriteOutcome data size s err t)
    (h : Editing inodes owners s)
    (hExist : s.file.exist)
    (hFail : err ≠ 0)
    (hLeft : LeftAlone s t) :
    4096 < size.toNat ∨
      (s.nextFree .block s.fileGroup = none ∧
        HeadIsStored data s) := by
  cases hOut with
  | tooBig hSize => exact .inl hSize
  | inside => exact absurd rfl hFail
  | spilled => exact absurd rfl hFail
  | grown => exact absurd rfl hFail
  | noBlock hSize hHas hLast hSpill hNext =>
      have hBuff : s.headBuff data (4096 - s.file.off) =
          s.file.buff := hLeft.buff
      refine .inr ⟨?_, hBuff, ?_⟩
      · rwa [h.wroteHead_nextFree hHas] at hNext
      · intro ptr hPtr
        rw [blockPtr_of_lt _ hHas.direct] at hPtr
        cases hPtr
        have hStored := hLeft.stored hExist _ hHas
        rw [Fs.wroteHead, Fs.wrote_disk_self] at hStored
        exact hStored.symm.trans hBuff
  | noPointer i hSize hHas hLast hMany hSpill hNext =>
      exact absurd hLeft (not_leftAlone_of_count rfl)

/- A failing write with a direct pointer left costs nothing. -/
theorem WriteOutcome.count
    (hOut : WriteOutcome data size s err t)
    (hFail : err ≠ 0)
    (hFew : s.file.inode.allocated < ext2NdirBlocks) :
    t.sb.sFreeBlocksCount = s.sb.sFreeBlocksCount := by
  cases hOut with
  | tooBig => rfl
  | noBlock => rfl
  | inside => exact absurd rfl hFail
  | spilled => exact absurd rfl hFail
  | grown => exact absurd rfl hFail
  | noPointer i hSize hHas hLast hMany hSpill hNext => omega

/- A seek that fails has moved. -/
theorem SeekOutcome.pos
    {newPos : UInt32}
    (hOut : SeekOutcome newPos s err t) :
    t.file.pos = newPos := by
  cases hOut <;> rfl

------------------------------------------------------------
-- Calls
------------------------------------------------------------

/- A failing write to a file that exists. -/
theorem ext2Fwrite_failing_of_exist
    {stack : CreateStack}
    (h : ImageOkFor inodes owners s)
    (hFile : FileOk inodes s)
    (hOpen : s.file.isOpen)
    (hExist : s.file.exist)
    (hRun : ext2Fwrite data size stack s = some (err, t))
    (hFail : err ≠ 0) :
    ((Call.fwrite data size stack).FailsCleanly s →
        LeftAlone s t) ∧
      (WriteInRange size s → LeftAlone s t →
        (Call.fwrite data size stack).FailsCleanly s) := by
  simp only [Call.FailsCleanly, hExist, if_true]
  constructor
  · intro hCleanly
    rcases ext2Fwrite_cases hRun with
      ⟨hClosed, -⟩ | ⟨-, code, u, hEnsure, hRest⟩
    · exact absurd (hOpen.symm.trans hClosed) (by simp)
    · rw [ensureExists_of_exist hExist] at hEnsure
      cases hEnsure
      rcases hRest with ⟨hCode, -⟩ | ⟨-, hWrite⟩
      · exact absurd rfl hCode
      · rcases hCleanly with hBig | ⟨hNext, hHead⟩
        · have hBig' : size > 4096 :=
            UInt32.lt_iff_toNat_lt.mpr hBig
          rw [writeExisting, show ext2GetBlockSize s = 4096
            from h.layout.blockSize, if_pos hBig'] at hWrite
          cases hWrite
          exact (Untouched.refl s).leftAlone
        · exact (writeExisting_untouched h
            (hFile.valid hOpen hExist) hNext hHead hFail
            hWrite).leftAlone
  · intro hRange hLeft
    exact (ext2Fwrite_outcome h hFile hOpen hExist hRange
      hRun).failsCleanly (hFile.editing h hOpen hExist)
        hExist hFail hLeft

/- A failing write to a file that does not exist yet. -/
theorem ext2Fwrite_failing_of_absent
    {stack : CreateStack}
    (h : ImageOk owners s)
    (hFile : FileOk owners.live s)
    (hOpen : s.file.isOpen)
    (hAbsent : s.file.exist = false)
    (hRun : ext2Fwrite data size stack s = some (err, t))
    (hFail : err ≠ 0) :
    LeftAlone s t ↔ ¬ TakesBlock stack s := by
  rcases ext2Fwrite_cases hRun with
    ⟨hClosed, -⟩ | ⟨-, code, u, hEnsure, hRest⟩
  · exact absurd (hOpen.symm.trans hClosed) (by simp)
  · have hCreate := hEnsure
    rw [ensureExists, hAbsent, if_neg Bool.false_ne_true]
      at hCreate
    rcases ext2FileCreate_leftAlone h hAbsent hCreate with
      ⟨rfl, hLeft, hNone⟩ | ⟨hTakes, hCount⟩
    · rcases hRest with ⟨-, -, rfl⟩ | ⟨hCode, -⟩
      · exact iff_of_true hLeft hNone
      · exact absurd hCode (by decide)
    · refine iff_of_false (not_leftAlone_of_count ?_)
        (not_not_intro hTakes)
      rcases hRest with ⟨-, -, rfl⟩ | ⟨rfl, hWrite⟩
      · exact hCount
      · -- the new file has one block, so no more is lost
        rcases ensureExists_stepOk h hFile hOpen hEnsure with
          ⟨⟨owners', hStep⟩, hEnsured⟩
        have hEditing := hStep.file.editing hStep.image
          (hEnsured.isOpen.trans hOpen) (hEnsured.exist rfl)
        have hOne := hEnsured.allocated hAbsent rfl
        have hOut := writeExisting_outcome hEditing
          (hEnsured.writeInRange hFile hOpen hAbsent) hWrite
        rw [hOut.count hFail (by rw [hOne]; decide)]
        exact hCount

/- A seek that fails in a file that exists has moved. -/
theorem ext2Fseek_failing_of_exist
    {newPos : UInt32}
    {stack : CreateStack}
    (h : ImageOkFor inodes owners s)
    (hFile : FileOk inodes s)
    (hOpen : s.file.isOpen)
    (hExist : s.file.exist)
    (hRun : ext2Fseek newPos stack s = some (err, t))
    (hFail : err ≠ 0) :
    ¬ LeftAlone s t := by
  have hMoves : s.file.pos ≠ newPos := by
    rintro rfl
    rw [ext2Fseek, if_neg (not_not_intro hOpen), if_pos rfl]
      at hRun
    cases hRun
    exact hFail rfl
  have hOut := ext2Fseek_outcome h hFile hOpen hExist
    hMoves hRun
  exact fun hLeft => hMoves (hLeft.pos.symm.trans hOut.pos)

/- A failing seek in a file that does not exist yet. -/
theorem ext2Fseek_failing_of_absent
    {newPos : UInt32}
    {stack : CreateStack}
    (h : ImageOk owners s)
    (hFile : FileOk owners.live s)
    (hOpen : s.file.isOpen)
    (hAbsent : s.file.exist = false)
    (hRun : ext2Fseek newPos stack s = some (err, t))
    (hFail : err ≠ 0) :
    LeftAlone s t ↔ ¬ TakesBlock stack s := by
  rcases ext2Fseek_cases hRun with
    ⟨-, hClosed | ⟨-, rfl⟩⟩ |
      ⟨-, hMoves, code, u, hEnsure, hRest⟩
  · exact absurd (hOpen.symm.trans hClosed) (by simp)
  · exact absurd rfl hFail
  · have hCreate := hEnsure
    rw [ensureExists, hAbsent, if_neg Bool.false_ne_true]
      at hCreate
    rcases ext2FileCreate_leftAlone h hAbsent hCreate with
      ⟨rfl, hLeft, hNone⟩ | ⟨hTakes, hCount⟩
    · rcases hRest with ⟨-, -, rfl⟩ | ⟨hCode, -⟩
      · exact iff_of_true hLeft hNone
      · exact absurd hCode (by decide)
    · refine iff_of_false ?_ (not_not_intro hTakes)
      rcases hRest with ⟨-, -, rfl⟩ | ⟨rfl, hSeek⟩
      · exact not_leftAlone_of_count hCount
      · -- the file was created, then the position moved
        rcases ensureExists_stepOk h hFile hOpen hEnsure with
          ⟨⟨owners', hStep⟩, hEnsured⟩
        have hEditing := hStep.file.editing hStep.image
          (hEnsured.isOpen.trans hOpen)
          (hEnsured.exist rfl)
        have hOut := seekExisting_outcome hEditing
          hStep.file.clean hSeek
        exact fun hLeft =>
          hMoves (hLeft.pos.symm.trans hOut.pos)

/-
  A failing call on an open file leaves the file alone when
  it fails cleanly; a write in range and every other call
  leave it alone only then.  Of the inodes of the image only
  that of the file has to be well formed, if it exists.
-/
theorem failing_call_iff
    (h : ImageOkFor (s.callInodes owners) owners s)
    (hFile : FileOk (s.callInodes owners) s)
    (hOpen : s.file.isOpen)
    {c : Call}
    {o : Answer}
    (hRun : exec c s = some (o, t))
    (hFail : o.code ≠ 0) :
    (c.FailsCleanly s → LeftAlone s t) ∧
      (c.InRange s → LeftAlone s t → c.FailsCleanly s) := by
  -- a file that has to be created may lead to any live inode
  have hAll (hAbsent : s.file.exist = false) :
      s.callInodes owners = owners.live := by
    funext n
    rw [Fs.callInodes, hAbsent, if_neg Bool.false_ne_true]
  cases c with
  | fopen pathname mode stack =>
      rcases Option.map_eq_some_iff.mp hRun with
        ⟨u, -, hEq⟩
      cases hEq
      exact absurd rfl hFail
  | fclose stack =>
      rcases Option.map_eq_some_iff.mp hRun with
        ⟨⟨code, u⟩, hClose, hEq⟩
      cases hEq
      rw [ext2Fclose, if_neg (not_not_intro hOpen)] at hClose
      simp only [Option.bind_eq_bind,
        Option.bind_eq_some_iff] at hClose
      rcases hClose with ⟨⟨err, v⟩, -, hClose⟩
      split at hClose
      · cases hClose
        exact absurd rfl hFail
      · split at hClose
        · simp only [Option.bind_eq_some_iff] at hClose
          rcases hClose with ⟨w, -, hClose⟩
          cases hClose
          exact absurd rfl hFail
        · cases hClose
          exact absurd rfl hFail
  | fread out size =>
      rcases Option.map_eq_some_iff.mp hRun with
        ⟨⟨code, out', u⟩, hRead, hEq⟩
      cases hEq
      rw [ext2Fread_same h.steady hRead]
      exact ⟨fun _ => (Untouched.refl s).leftAlone,
        fun _ _ => trivial⟩
  | fwrite data size stack =>
      rcases Option.map_eq_some_iff.mp hRun with
        ⟨⟨code, u⟩, hWrite, hEq⟩
      cases hEq
      cases hExist : s.file.exist with
      | true =>
          have hBoth := ext2Fwrite_failing_of_exist h hFile
            hOpen hExist hWrite hFail
          exact ⟨hBoth.1, fun hRange =>
            hBoth.2 (hRange hOpen hExist)⟩
      | false =>
          rw [hAll hExist] at h hFile
          have hIff := ext2Fwrite_failing_of_absent h hFile
            hOpen hExist hWrite hFail
          simp only [Call.FailsCleanly, hExist,
            Bool.false_eq_true, if_false]
          exact ⟨hIff.mpr, fun _ => hIff.mp⟩
  | fseek newPos stack =>
      rcases Option.map_eq_some_iff.mp hRun with
        ⟨⟨code, u⟩, hSeek, hEq⟩
      cases hEq
      cases hExist : s.file.exist with
      | true =>
          have hNot := ext2Fseek_failing_of_exist h hFile
            hOpen hExist hSeek hFail
          exact ⟨fun hCleanly =>
              absurd (hExist.symm.trans hCleanly.1) (by simp),
            fun _ hLeft => absurd hLeft hNot⟩
      | false =>
          rw [hAll hExist] at h hFile
          have hIff := ext2Fseek_failing_of_absent h hFile
            hOpen hExist hSeek hFail
          exact ⟨fun hCleanly => hIff.mpr hCleanly.2,
            fun _ hLeft => ⟨hExist, hIff.mp hLeft⟩⟩

end

/-
  Seeking behind the two blocks of `/f` fails in a full
  image, but the position has moved; spilling a write out of
  its second block fails, but its first part is on the disk.
-/
theorem failing_call_changes :
    (¬ ∀ owners s c o t, ImageOk owners s →
      FileOk owners.live s → s.file.isOpen →
        exec c s = some (o, t) → o.code ≠ 0 →
          LeftAlone s t) ∧
    ∃ s o t o₁ p o' q,
      (exec (.fseek 8192 .zero) s = some (o, t) ∧
        o.code = 1 ∧ s.file.pos = 0 ∧ t.file.pos = 8192) ∧
      (exec (.fseek 5000 .zero) s = some (o₁, p) ∧
        exec (.fwrite (fun _ => 7) 4000 .zero) p =
          some (o', q) ∧
        o'.code = 1 ∧ (p.disk 7).get 904 = 1 ∧
          (q.disk 7).get 904 = 7) := by
  have hFacts :
      ((exec (.fopen [47, 102, 0] 114 .zero) fullSample).bind
        fun r => (exec (.fseek 8192 .zero) r.2).bind fun t =>
          (exec (.fseek 5000 .zero) r.2).bind fun p =>
            (exec (.fwrite (fun _ => 7) 4000 .zero)
              p.2).map fun q =>
                ((r.2.file.isOpen, t.1.code, r.2.file.pos,
                  t.2.file.pos), p.1.code, q.1.code,
                  (p.2.disk 7).get 904,
                  (q.2.disk 7).get 904)) =
        some ((true, 1, 0, 8192), 0, 1, 1, 7) := by
    decide +kernel
  rcases Option.bind_eq_some_iff.mp hFacts with
    ⟨⟨o₀, s⟩, hOpening, hFacts⟩
  rcases Option.bind_eq_some_iff.mp hFacts with
    ⟨⟨o, t⟩, hSeek, hFacts⟩
  rcases Option.bind_eq_some_iff.mp hFacts with
    ⟨⟨o₁, p⟩, hSeek', hFacts⟩
  rcases Option.map_eq_some_iff.mp hFacts with
    ⟨⟨o', q⟩, hWrite, hFacts⟩
  simp only [Prod.mk.injEq] at hFacts
  rcases hFacts with
    ⟨⟨hOpen, hCode, hPos, hMoved⟩, -, hCode', hOld, hNew⟩
  constructor
  · intro hAll
    have hRange : (Call.fopen [47, 102, 0] 114 .zero).InRange
        fullSample := trivial
    rcases exec_stepOk fullSample_imageOk (.of_closed rfl)
      hRange hOpening with ⟨owners, hStep⟩
    have hLeft := hAll _ s _ o t hStep.image hStep.file hOpen
      hSeek (by rw [hCode]; decide)
    have hSame := hLeft.pos
    rw [hPos, hMoved] at hSame
    exact absurd hSame (by decide)
  · exact ⟨s, o, t, o₁, p, o', q,
      ⟨hSeek, hCode, hPos, hMoved⟩, hSeek', hWrite, hCode',
      hOld, hNew⟩

/- A write of 5000 bytes to `/f` fails and changes nothing. -/
theorem failing_call_sample :
    ∃ s o t, s.file.exist ∧
      exec (.fwrite (fun _ => 7) 5000 .zero) s =
        some (o, t) ∧ o.code ≠ 0 ∧ LeftAlone s t := by
  have hFacts :
      ((exec (.fopen [47, 102, 0] 114 .zero) fileSample).bind
        fun r => (exec (.fwrite (fun _ => 7) 5000 .zero)
          r.2).map fun t =>
            (r.2.file.isOpen, r.2.file.exist, t.1.code)) =
        some (true, true, 1) := by
    decide +kernel
  rcases Option.bind_eq_some_iff.mp hFacts with
    ⟨⟨o₀, s⟩, hOpening, hFacts⟩
  rcases Option.map_eq_some_iff.mp hFacts with
    ⟨⟨o, t⟩, hWrite, hFacts⟩
  simp only [Prod.mk.injEq] at hFacts
  rcases hFacts with ⟨hOpen, hExist, hCode⟩
  have hRange : (Call.fopen [47, 102, 0] 114 .zero).InRange
      fileSample := trivial
  rcases exec_stepOk fileSample_imageOk (.of_closed rfl)
    hRange hOpening with ⟨owners, hStep⟩
  have hFail : o.code ≠ 0 := by
    rw [hCode]
    decide
  have hCleanly : (Call.fwrite (fun _ => 7) 5000
      .zero).FailsCleanly s := by
    rw [Call.FailsCleanly, if_pos hExist]
    exact .inl (by decide)
  have hOwn : FileOk (s.callInodes owners) s :=
    { hStep.file with
      own := fun _ hExist => (if_pos hExist).mpr rfl }
  exact ⟨s, o, t, hExist, hWrite, hFail,
    (failing_call_iff (hStep.image.mono fun _ hIn =>
      hStep.file.callInodes_live hOpen hIn) hOwn hOpen hWrite
        hFail).1 hCleanly⟩

end Ext2

end Ester
