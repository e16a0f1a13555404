import Ester.Ext2.SampleImage
import Ester.Ext2.Session.Calls

/-
  The size a write records.

  Every successful write to an existing file ends by storing
  its inode with the larger of the old size and the end of
  the write, where the end is measured from the start of the
  block under the position.  That is the end of the write in
  the file exactly for writes in the first block; elsewhere
  the recorded size is right only when the write does not
  pass it.  All of this holds on any image with the layout
  of a mounted one, whatever its bitmaps and inodes say.

  Key definitions include:
    * `RecordsEnd`
    * `CommitPending`

  Key theorems include:
    * `writeExisting_commits`
    * `ext2Fwrite_recordsEnd_iff`
-/

------------------------------------------------------------
-- About to Commit
------------------------------------------------------------

namespace Ester

namespace Ext2

/-
  After the write, descriptor and disk record the larger of
  the old size and the end of the write.
-/
structure RecordsEnd
    (s t : Fs)
    (size : UInt32) : Prop where
  descriptor :
    t.file.inode.iLowerSize.toNat =
      max s.file.inode.iLowerSize.toNat
        (s.file.pos.toNat + size.toNat)
  stored :
    (t.inodeAt s.file.inodeNum).iLowerSize.toNat =
      max s.file.inode.iLowerSize.toNat
        (s.file.pos.toNat + size.toNat)

/-
  A state of the same write with its data stored, which has
  yet to record the size.
-/
structure CommitPending
    (s u : Fs) : Prop where
  steady : u.Steady
  layout : u.layout = s.layout
  inodeNum : u.file.inodeNum = s.file.inodeNum
  pos : u.file.pos = s.file.pos
  oldSize : u.file.inode.iLowerSize = s.file.inode.iLowerSize

section

variable {s t u : Fs}
variable {data : Nat → UInt8} {size : UInt32}

theorem CommitPending.wrote
    (h : CommitPending s u)
    (block : UInt32)
    (spilled : Bool)
    (content : Block) :
    CommitPending s (u.wrote block spilled content) where
  steady := ⟨h.steady.faults, h.steady.blockSize⟩
  layout := h.layout
  inodeNum := h.inodeNum
  pos := h.pos
  oldSize := h.oldSize

theorem CommitPending.trans
    {v : Fs}
    (hFirst : CommitPending s u)
    (hRest : CommitPending u v) :
    CommitPending s v where
  steady := hRest.steady
  layout := hRest.layout.trans hFirst.layout
  inodeNum := hRest.inodeNum.trans hFirst.inodeNum
  pos := hRest.pos.trans hFirst.pos
  oldSize := hRest.oldSize.trans hFirst.oldSize

theorem CommitPending.commitSize
    (h : CommitPending s u)
    (hL : s.layout.Ok)
    (hn : s.layout.ValidInode s.file.inodeNum) :
    commitSize size u =
      some (u.commit (u.sizeAfter size)) := by
  apply commitSize_of_valid h.steady
  · rw [h.layout]
    exact hL
  · rw [h.layout, h.inodeNum]
    exact hn

/- The larger of the old size and the end in its block. -/
theorem sizeAfter_toNat
    (u : Fs)
    (hSize : size.toNat ≤ 4096) :
    (u.sizeAfter size).toNat =
      max u.file.inode.iLowerSize.toNat
        (u.file.off + size.toNat) := by
  have hTop := off_add_toNat u.file hSize
  unfold Fs.sizeAfter
  dsimp only
  split
  · next hGt =>
      rw [gt_iff_lt, UInt32.lt_iff_toNat_lt, hTop] at hGt
      omega
  · next hLe =>
      rw [gt_iff_lt, UInt32.lt_iff_toNat_lt, hTop] at hLe
      omega

/-
  The commit records the end of the write exactly when the
  write starts in the first block or does not pass the old
  size.
-/
theorem CommitPending.recordsEnd_iff
    (h : CommitPending s u)
    (hL : s.layout.Ok)
    (hn : s.layout.ValidInode s.file.inodeNum)
    (hSize : size.toNat ≤ 4096) :
    RecordsEnd s (u.commit (u.sizeAfter size)) size ↔
      s.file.pos.toNat < 4096 ∨
        s.file.pos.toNat + size.toNat ≤
          s.file.inode.iLowerSize.toNat := by
  have hStored : (u.commit (u.sizeAfter size)).inodeAt
      s.file.inodeNum =
        u.file.inode.resize (u.sizeAfter size) := by
    have hPut := Fs.inodeAt_putInode
      (s := u.setFileInode
        (u.file.inode.resize (u.sizeAfter size)))
      (n := u.file.inodeNum) (m := u.file.inodeNum)
      (by rw [Fs.setFileInode_layout, h.layout]
          exact hL)
      (by rw [Fs.setFileInode_layout, h.layout, h.inodeNum]
          exact hn)
      (by rw [Fs.setFileInode_layout, h.layout, h.inodeNum]
          exact hn)
      (u.file.inode.resize (u.sizeAfter size))
    rw [if_pos rfl] at hPut
    rw [← h.inodeNum]
    exact hPut
  have hOff : u.file.off = s.file.pos.toNat % 4096 := by
    rw [File.off, h.pos]
  have hAfter := sizeAfter_toNat u hSize
  rw [h.oldSize, hOff] at hAfter
  have hExact : RecordsEnd s (u.commit (u.sizeAfter size))
      size ↔ max s.file.inode.iLowerSize.toNat
        (s.file.pos.toNat % 4096 + size.toNat) =
      max s.file.inode.iLowerSize.toNat
        (s.file.pos.toNat + size.toNat) := by
    constructor
    · intro hRecords
      have hRec := hRecords.descriptor
      rw [Fs.commit_file, Inode.resize_iLowerSize,
        hAfter] at hRec
      exact hRec
    · intro hEq
      refine ⟨?_, ?_⟩
      · rw [Fs.commit_file, Inode.resize_iLowerSize, hAfter,
          hEq]
      · rw [hStored, Inode.resize_iLowerSize, hAfter, hEq]
  rw [hExact]
  omega

------------------------------------------------------------
-- Writing
------------------------------------------------------------

/- Nothing has happened to the size yet. -/
theorem CommitPending.refl
    (hSteady : s.Steady) :
    CommitPending s s :=
  ⟨hSteady, rfl, rfl, rfl, rfl⟩

/- The first part of a write leaves the size to be recorded. -/
theorem CommitPending.wroteHead
    (hSteady : s.Steady)
    (hk : s.file.block < ext2NdirBlocks)
    (data : Nat → UInt8)
    (len : Nat) :
    CommitPending s (s.wroteHead hk data len) :=
  ⟨⟨hSteady.faults, hSteady.blockSize⟩, rfl, rfl, rfl, rfl⟩

/- So does taking another block for the file. -/
theorem growFile_pending
    (hSteady : s.Steady)
    (hL : s.layout.Ok)
    (hn : s.layout.ValidInode s.file.inodeNum)
    {b : UInt32}
    (hRun : growFile s = some (0, b, u)) :
    CommitPending s u := by
  have hGroup := group_of_validInode hL hn
  simp only [growFile, ext2GetInodesPerGroup, hGroup.1,
    if_false, ext2FreeBlockAlloc,
    ext2FreeAlloc_of_valid hSteady hL hn,
    Option.bind_eq_bind, Option.bind_eq_some_iff] at hRun
  rcases hRun with ⟨⟨num, v⟩, hAlloc, hRun⟩
  split at hAlloc
  · cases hAlloc
    cases hRun
  · next i hNext =>
      cases hAlloc
      dsimp only at hRun
      split at hRun
      · cases hRun
      · split at hRun
        · cases hRun
          have hClaimed := s.claim_steady .block
            (s.layout.slotGroup s.file.inodeNum) i hSteady
          exact
            { steady := ⟨hClaimed.faults, hClaimed.blockSize⟩
              layout := s.claim_layout .block
                (s.layout.slotGroup s.file.inodeNum) i
              inodeNum := rfl
              pos := rfl
              oldSize := rfl }
        · cases hRun

/- So does finding the next block. -/
theorem nextBlock_pending
    (hSteady : s.Steady)
    (hL : s.layout.Ok)
    (hn : s.layout.ValidInode s.file.inodeNum)
    {b : UInt32}
    (hRun : nextBlock s = some (0, b, u)) :
    CommitPending s u := by
  unfold nextBlock at hRun
  dsimp only at hRun
  split at hRun
  · exact growFile_pending hSteady hL hn hRun
  · simp only [Option.bind_eq_bind,
      Option.bind_eq_some_iff] at hRun
    rcases hRun with ⟨ptr, -, hRun⟩
    cases hRun
    exact .refl hSteady

/- A spilling write commits after its rest. -/
theorem writeSpilling_commits
    (hSteady : s.Steady)
    (hL : s.layout.Ok)
    (hn : s.layout.ValidInode s.file.inodeNum)
    (hk : s.file.block < ext2NdirBlocks)
    (hRun : writeSpilling
      (s.file.inode.direct s.file.block hk) data size s =
        some (0, t)) :
    ∃ u, CommitPending s u ∧
      t = u.commit (u.sizeAfter size) := by
  have hBlockSize := hSteady.blockSize
  have hOff : s.file.pos.toNat % 4096 = s.file.off := rfl
  have h4096 : (4096 : UInt32).toNat = 4096 := rfl
  have hBuff : (s.setBuff (s.headBuff data
      (4096 - s.file.off))).Steady :=
    ⟨hSteady.faults, hSteady.blockSize⟩
  simp only [writeSpilling, hBlockSize, hOff, h4096,
    memcpy_head, Option.bind_eq_bind, Option.bind_some,
    writeData_of_steady hBuff] at hRun
  change (nextBlock (s.wroteHead hk data
    (4096 - s.file.off))).bind _ = _ at hRun
  rw [Option.bind_eq_some_iff] at hRun
  rcases hRun with ⟨⟨err, b, u⟩, hNext, hRun⟩
  dsimp only at hRun
  split at hRun
  · cases hRun
  · next hErr =>
      have hErr : err = 0 := not_not.mp hErr
      subst hErr
      have hHead := CommitPending.wroteHead hSteady hk data
        (4096 - s.file.off)
      have hPending := hHead.trans
        (nextBlock_pending hHead.steady hL hn hNext)
      simp only [Option.bind_eq_some_iff] at hRun
      rcases hRun with ⟨rest, -, v, hCommit, hRun⟩
      cases hRun
      rw [writeData_of_steady hPending.steady,
        (hPending.wrote b true rest).commitSize hL hn]
        at hCommit
      cases hCommit
      exact ⟨_, hPending.wrote b true rest, rfl⟩

/- A write inside its block commits after it. -/
theorem writeInside_commits
    (hSteady : s.Steady)
    (hL : s.layout.Ok)
    (hn : s.layout.ValidInode s.file.inodeNum)
    (hk : s.file.block < ext2NdirBlocks)
    (hFits : s.file.off + size.toNat ≤ 4096)
    (hRun : writeInside
      (s.file.inode.direct s.file.block hk) data size s =
        some (0, t)) :
    ∃ u, CommitPending s u ∧
      t = u.commit (u.sizeAfter size) := by
  have hBlockSize := hSteady.blockSize
  have hOff : s.file.pos.toNat % (4096 : UInt32).toNat =
      s.file.off := rfl
  have hCopy : memcpy s.file.buff s.file.off data
      size.toNat = some (s.headBuff data size.toNat) :=
    memcpy_of_le hFits
  have hBuff : (s.setBuff
      (s.headBuff data size.toNat)).Steady :=
    ⟨hSteady.faults, hSteady.blockSize⟩
  have hHead :=
    CommitPending.wroteHead hSteady hk data size.toNat
  simp only [writeInside, hBlockSize, hOff, hCopy,
    Option.bind_eq_bind, Option.bind_some,
    writeData_of_steady hBuff] at hRun
  change (commitSize size
    (s.wroteHead hk data size.toNat)).bind _ = _ at hRun
  rw [hHead.commitSize hL hn] at hRun
  cases hRun
  exact ⟨_, hHead, rfl⟩

/-
  A successful write at an allocated direct block ends with
  a commit, wherever its rest went.
-/
theorem writeExisting_commits
    (hSteady : s.Steady)
    (hL : s.layout.Ok)
    (hn : s.layout.ValidInode s.file.inodeNum)
    (hk : s.file.block < ext2NdirBlocks)
    (hRun : writeExisting data size s = some (0, t)) :
    size.toNat ≤ 4096 ∧ ∃ u, CommitPending s u ∧
      t = u.commit (u.sizeAfter size) := by
  have hBlockSize := hSteady.blockSize
  simp only [writeExisting, hBlockSize] at hRun
  split at hRun
  · cases hRun
  · next hSmall =>
      have hSize : size.toNat ≤ 4096 := by
        rw [gt_iff_lt, UInt32.lt_iff_toNat_lt] at hSmall
        exact Nat.not_lt.mp hSmall
      refine ⟨hSize, ?_⟩
      simp only [ne_eq, not_true_eq_false, if_false,
        pos_div_toNat, blockPtr_of_lt _ hk,
        Option.bind_eq_bind, Option.bind_some,
        spill_iff _ hSize] at hRun
      split at hRun
      · exact writeSpilling_commits hSteady hL hn hk hRun
      · next hFits =>
          exact writeInside_commits hSteady hL hn hk
            (Nat.not_lt.mp hFits) hRun

/-
  A successful write of an open file at a position in its
  allocated direct blocks records the larger of the old size
  and the end of the write, in the descriptor and on the
  disk, exactly when it starts in the first block or does not
  pass the old size.
-/
theorem ext2Fwrite_recordsEnd_iff
    {stack : CreateStack}
    (hSteady : s.Steady)
    (hL : s.layout.Ok)
    (hn : s.layout.ValidInode s.file.inodeNum)
    (hExist : s.file.exist)
    (hk : s.file.block < ext2NdirBlocks)
    (hRun : ext2Fwrite data size stack s = some (0, t)) :
    RecordsEnd s t size ↔
      s.file.pos.toNat < 4096 ∨
        s.file.pos.toNat + size.toNat ≤
          s.file.inode.iLowerSize.toNat := by
  rcases ext2Fwrite_cases hRun with
    ⟨-, hErr, -⟩ | ⟨-, code, u, hEnsure, hRest⟩
  · exact absurd hErr (by decide)
  · rw [ensureExists_of_exist hExist] at hEnsure
    cases hEnsure
    rcases hRest with ⟨hCode, -⟩ | ⟨-, hWrite⟩
    · exact absurd rfl hCode
    · rcases writeExisting_commits hSteady hL hn hk hWrite
        with ⟨hSize, u, hPending, rfl⟩
      exact hPending.recordsEnd_iff hL hn hSize

end

------------------------------------------------------------
-- Writes Near the End of the Sample File
------------------------------------------------------------

/- `/f` opened and positioned at its byte 8000. -/
def nearEndSample : Fs :=
  ((runAll exec [.fopen [47, 102, 0] 114 .zero,
    .fseek 8000 .zero] fileSample).getD ([], fileSample)).2

theorem nearEndSample_file :
    nearEndSample.file.isOpen ∧ nearEndSample.file.exist ∧
      nearEndSample.file.pos = 8000 ∧
      nearEndSample.file.inode.allocated = 2 ∧
      nearEndSample.file.inode.iLowerSize = 8192 := by
  decide +kernel

theorem nearEndSample_run :
    ∃ trace, GuardedRun exec (fun c _ u => c.InRange u)
      fileSample trace nearEndSample := by
  have hFacts :
      ((exec (.fopen [47, 102, 0] 114 .zero) fileSample).bind
        fun r => exec (.fseek 8000 .zero) r.2).isSome := by
    decide +kernel
  rcases Option.isSome_iff_exists.mp hFacts with ⟨r, hBoth⟩
  rcases Option.bind_eq_some_iff.mp hBoth with
    ⟨⟨o, u⟩, hFirst, hSecond⟩
  have hState : nearEndSample = r.2 := by
    rw [nearEndSample, runAll_cons exec hFirst
      (runAll_cons exec hSecond rfl)]
    rfl
  have hStart : Call.InRange
      (.fopen [47, 102, 0] 114 .zero) fileSample := trivial
  have hSeek : Call.InRange (.fseek 8000 .zero) u := trivial
  rw [hState]
  exact ⟨_, .snoc (.snoc .refl hStart hFirst) hSeek hSecond⟩

/- A hundred bytes at byte 8000 of `/f` stay in its size. -/
theorem ext2Fwrite_recordsEnd_sample :
    ∃ t, ext2Fwrite (fun _ => 7) 100 .zero nearEndSample =
        some (0, t) ∧
      RecordsEnd nearEndSample t 100 := by
  rcases nearEndSample_file with
    ⟨hOpen, hExist, hPos, hTwo, hOld⟩
  rcases nearEndSample_run with ⟨trace, hRun⟩
  rcases run_stepOk (fun _ _ _ hRange => hRange)
      fileSample_imageOk (.of_closed rfl) hRun with
    ⟨owners', hStep⟩
  have hWrite :
      (ext2Fwrite (fun _ => 7) 100 .zero nearEndSample).map
        Prod.fst = some 0 := by
    decide +kernel
  rcases Option.map_eq_some_iff.mp hWrite with
    ⟨⟨err, t⟩, hWrite, hErr⟩
  subst hErr
  refine ⟨t, hWrite, (ext2Fwrite_recordsEnd_iff
    hStep.image.steady hStep.image.layout
    (hStep.file.valid hOpen hExist) hExist ?_ hWrite).mpr
      (.inr ?_)⟩
  · rw [File.block, hPos]
    decide
  · rw [hPos, hOld]
    decide

/-
  Three hundred bytes at byte 8000 of `/f` end at byte 8300
  in a third block, and the recorded size stays 8192.
-/
theorem ext2Fwrite_loses_end :
    (∃ trace, GuardedRun exec (fun c _ u => c.InRange u)
      fileSample trace nearEndSample) ∧
    nearEndSample.file.isOpen ∧ nearEndSample.file.exist ∧
    nearEndSample.file.block < ext2NdirBlocks ∧
    nearEndSample.file.block <
      nearEndSample.file.inode.allocated ∧
    nearEndSample.file.pos = 8000 ∧
    ∃ t, ext2Fwrite (fun _ => 7) 300 .zero nearEndSample =
        some (0, t) ∧
      t.file.inode.iLowerSize = 8192 ∧
      (t.inodeAt 12).iLowerSize = 8192 ∧
      ¬ RecordsEnd nearEndSample t 300 := by
  rcases nearEndSample_file with
    ⟨hOpen, hExist, hPos, hTwo, hOld⟩
  have hWrite :
      (ext2Fwrite (fun _ => 7) 300 .zero nearEndSample).map
          (fun r => (r.1, r.2.file.inode.iLowerSize,
            (r.2.inodeAt 12).iLowerSize)) =
        some (0, 8192, 8192) := by
    decide +kernel
  rcases Option.map_eq_some_iff.mp hWrite with
    ⟨⟨err, t⟩, hWrite, hEq⟩
  simp only [Prod.mk.injEq] at hEq
  rcases hEq with ⟨rfl, hSize, hStored⟩
  refine ⟨nearEndSample_run, hOpen, hExist, ?_, ?_, hPos, t,
    hWrite, hSize, hStored, ?_⟩
  · rw [File.block, hPos]
    decide
  · rw [File.block, hPos, hTwo]
    decide
  · intro hRecords
    have hEnd := hRecords.descriptor
    rw [hSize, hOld, hPos] at hEnd
    exact absurd hEnd (by decide)

end Ext2

end Ester
