import Ester.Ext2.Session.Seeking
import Ester.Ext2.Session.Writing

/-
  What the parts of a call preserve.

  Writing, seeking and creating keep the image and the
  descriptor well formed, keep the labels of blocks, and
  write file data to the right blocks.

  Key definitions include:
    * `StepOk`, `ImageStep`
    * `Ensured`

  Key theorems include:
    * `WriteOutcome.stepOk`
    * `SeekOutcome.stepOk`
    * `ensureExists_stepOk`
-/

------------------------------------------------------------
-- Preservation
------------------------------------------------------------

namespace Ester

namespace Ext2

/- What a call preserves from one state to the next. -/
structure StepOk
    (inodes : UInt32 → Prop)
    (owners : Owners)
    (s : Fs)
    (owners' : Owners)
    (t : Fs) : Prop where
  labels : Extends owners owners'
  image : ImageOkFor inodes owners' t
  file : FileOk inodes t
  layout : t.layout = s.layout
  writes :
    ∀ e ∈ t.dataWrites,
      e ∈ s.dataWrites ∨ e.InFile owners'

theorem StepOk.refl
    {inodes : UInt32 → Prop}
    {owners : Owners}
    {s : Fs}
    (h : ImageOkFor inodes owners s)
    (hFile : FileOk inodes s) :
    StepOk inodes owners s owners s where
  labels := .refl owners
  image := h
  file := hFile
  layout := rfl
  writes _ he := .inl he

theorem StepOk.trans
    {inodes inodes' : UInt32 → Prop}
    {owners owners₁ owners₂ : Owners}
    {s u t : Fs}
    (h₁ : StepOk inodes owners s owners₁ u)
    (h₂ : StepOk inodes' owners₁ u owners₂ t) :
    StepOk inodes' owners s owners₂ t where
  labels := h₁.labels.trans h₂.labels
  image := h₂.image
  file := h₂.file
  layout := h₂.layout.trans h₁.layout
  writes e he := by
    rcases h₂.writes e he with hOld | hNew
    · rcases h₁.writes e hOld with hOlder | hNew
      · exact .inl hOlder
      · exact .inr (hNew.mono h₂.labels)
    · exact .inr hNew

/- A step to an image whose live inodes are well formed. -/
abbrev ImageStep
    (owners : Owners)
    (s : Fs)
    (owners' : Owners)
    (t : Fs) : Prop :=
  StepOk owners'.live owners s owners' t

/- No inode becomes live in a call on an existing file. -/
theorem StepOk.imageStep
    {owners owners' : Owners}
    {s t : Fs}
    (h : StepOk owners.live owners s owners' t)
    (hLive : owners'.live = owners.live) :
    ImageStep owners s owners' t := by
  rw [ImageStep, hLive]
  exact h

/- Only the current inode changes. -/
theorem StepOk.setCurrentInode
    {inodes : UInt32 → Prop}
    {owners : Owners}
    {s : Fs}
    (h : ImageOkFor inodes owners s)
    (hFile : FileOk inodes s)
    (inode : Inode) :
    StepOk inodes owners s owners (s.setCurrentInode inode) where
  labels := .refl owners
  image := h.setCurrentInode inode
  file := ⟨hFile.clean, hFile.noNew, hFile.own,
    hFile.valid, hFile.isFile, hFile.stored, hFile.fresh⟩
  layout := rfl
  writes _ he := .inl he

/- The descriptor when it agrees with the disk again. -/
theorem FileOk.of_editing
    {inodes : UInt32 → Prop}
    {owners : Owners}
    {s : Fs}
    (h : Editing inodes owners s)
    (hStored : s.inodeAt s.file.inodeNum = s.file.inode)
    (hClean : s.file.dirty = false)
    (hNoNew : s.file.newBytesCount = 0)
    (hExist : s.file.exist = true) :
    FileOk inodes s where
  clean := hClean
  noNew := hNoNew
  own _ _ := h.own
  valid _ _ := h.valid
  isFile _ _ := h.isFile
  stored _ _ := hStored
  fresh _ hAbsent := by
    rw [hExist] at hAbsent
    exact absurd hAbsent (by simp)

section

variable {inodes : UInt32 → Prop}
variable {owners : Owners} {s t : Fs} {err : UInt8}

/- The tail of every write: one more data write, a commit. -/
theorem Editing.finish_stepOk
    (h : Editing inodes owners s)
    (hClean : s.file.dirty = false)
    (hNoNew : s.file.newBytesCount = 0)
    (hExist : s.file.exist = true)
    (size : UInt32) :
    FileOk inodes (s.finish size) ∧
      ImageOkFor inodes owners (s.finish size) := by
  have hCommit := h.commit (s.sizeAfter size)
  exact ⟨.of_editing hCommit.1 hCommit.2 hClean hNoNew
    hExist, hCommit.1.image⟩

/- One more entry of the history. -/
theorem writes_append
    {e : DataWrite}
    {log log' : List DataWrite}
    (hOld : ∀ d ∈ log, d ∈ log' ∨ d.InFile owners)
    (hNew : e.InFile owners) :
    ∀ d ∈ log ++ [e], d ∈ log' ∨ d.InFile owners := by
  intro d hd
  rcases List.mem_append.mp hd with hd | hd
  · exact hOld d hd
  · rw [List.mem_singleton.mp hd]
    exact .inr hNew

/- The history after the first part of a write. -/
theorem Editing.wroteHead_writes
    (h : Editing inodes owners s)
    (hHas : s.file.inode.HasBlock s.file.block)
    (data : Nat → UInt8)
    (len : Nat) :
    ∀ d ∈ (s.wroteHead hHas.direct data len).dataWrites,
      d ∈ s.dataWrites ∨ d.InFile owners :=
  writes_append (fun _ hd => .inl hd)
    (h.dataWrite_inFile hHas false rfl)

/- The first part of a write spares the inode tables. -/
theorem Editing.wroteHead_inodeAt
    (h : Editing inodes owners s)
    (hHas : s.file.inode.HasBlock s.file.block)
    (data : Nat → UInt8)
    (len : Nat) :
    (s.wroteHead hHas.direct data len).inodeAt s.file.inodeNum =
      s.inodeAt s.file.inodeNum :=
  Fs.wrote_inodeAt _ _ _ _
    (h.image.ne_slotBlock (h.owns hHas) h.valid)

/- The rest of a write that goes to a new last block. -/
theorem Editing.grownRest_stepOk
    (h : Editing inodes owners s)
    (hClean : s.file.dirty = false)
    (hNoNew : s.file.newBytesCount = 0)
    (hExist : s.file.exist = true)
    {i : Nat}
    (hNext : s.nextFree .block s.fileGroup = some i)
    (hDirect : s.file.inode.allocated < ext2NdirBlocks)
    (hLast : s.file.inode.allocated = s.file.block + 1)
    {log : List DataWrite}
    (hWrites :
      ∀ d ∈ s.dataWrites, d ∈ log ∨ d.InFile owners)
    (rest : Block)
    (size : UInt32) :
    ∃ owners', Extends owners owners' ∧
      owners'.live = owners.live ∧
      ImageOkFor inodes owners' (((s.grown i).wrote
        (s.layout.blockNumber s.fileGroup i) true
        rest).finish size) ∧
      FileOk inodes (((s.grown i).wrote
        (s.layout.blockNumber s.fileGroup i) true
        rest).finish size) ∧
      ∀ d ∈ ((s.grown i).wrote
        (s.layout.blockNumber s.fileGroup i) true
        rest).dataWrites, d ∈ log ∨ d.InFile owners' := by
  rcases h.grown hNext hDirect with ⟨hGrown, hLabels⟩
  have hHas := h.grown_hasBlock hNext hDirect
  have hBlock := hGrown.wrote (s.grownOwners_self i owners)
    true rest
  rcases hBlock.finish_stepOk hClean hNoNew hExist size with
    ⟨hDone, hImage⟩
  have hEntry := hGrown.dataWrite_inFile hHas true hLast
  rw [Fs.grown_direct_last hDirect] at hEntry
  exact ⟨_, hLabels, rfl, hImage, hDone,
    writes_append (fun d hd => (hWrites d hd).imp_right
      fun hIn => hIn.mono hLabels) hEntry⟩

/- A write in range preserves everything. -/
theorem WriteOutcome.stepOk
    {data : Nat → UInt8}
    {size : UInt32}
    (hOut : WriteOutcome data size s err t)
    (hFile : FileOk inodes s)
    (hOpen : s.file.isOpen)
    (hExist : s.file.exist)
    (h : Editing inodes owners s) :
    ∃ owners', StepOk inodes owners s owners' t ∧
      owners'.live = owners.live := by
  cases hOut with
  | tooBig => exact ⟨owners, .refl h.image hFile, rfl⟩
  | inside hSize hHas hFits =>
      have hHead := h.wroteHead hHas data size.toNat
      rcases hHead.finish_stepOk hFile.clean hFile.noNew
        hExist size with ⟨hDone, hImage⟩
      exact ⟨owners,
        { labels := .refl owners
          image := hImage
          file := hDone
          layout := rfl
          writes := h.wroteHead_writes hHas data _ },
        rfl⟩
  | spilled hSize hHas hHas' hSpill =>
      have hHead := h.wroteHead hHas data (4096 - s.file.off)
      have hRest := hHead.wrote (hHead.owns hHas') true
        (restOf data s.file.off size.toNat)
      rcases hRest.finish_stepOk hFile.clean hFile.noNew
        hExist size with ⟨hDone, hImage⟩
      exact ⟨owners,
        { labels := .refl owners
          image := hImage
          file := hDone
          layout := rfl
          writes := writes_append
            (h.wroteHead_writes hHas data _)
            (hHead.dataWrite_inFile hHas' true rfl) },
        rfl⟩
  | noBlock hSize hHas hLast hSpill hNext =>
      have hHead := h.wroteHead hHas data (4096 - s.file.off)
      have hStored := (h.wroteHead_inodeAt hHas data
        (4096 - s.file.off)).trans (hFile.stored hOpen hExist)
      exact ⟨owners,
        { labels := .refl owners
          image := hHead.image
          file := .of_editing hHead hStored hFile.clean
            hFile.noNew hExist
          layout := rfl
          writes := h.wroteHead_writes hHas data _ },
        rfl⟩
  | noPointer i hSize hHas hLast hMany hSpill hNext =>
      have hHead := h.wroteHead hHas data (4096 - s.file.off)
      have hFree : FreeBit _ .block s.fileGroup i :=
        .of_nextFree (hHead.image.layout.slotGroup_lt
          hHead.valid) hNext
      have hStored := (Fs.inodeAt_claim hHead.image.layout
        hFree hHead.valid).trans ((h.wroteHead_inodeAt hHas
          data (4096 - s.file.off)).trans
            (hFile.stored hOpen hExist))
      exact ⟨owners,
        { labels := .refl owners
          image := hHead.image.claim hFree
          file :=
            { clean := hFile.clean
              noNew := hFile.noNew
              own := fun _ _ => hHead.own
              valid := fun _ _ => by
                rw [Fs.claim_layout]
                exact hHead.valid
              isFile := fun _ _ => hHead.isFile
              stored := fun _ _ => hStored
              fresh := fun _ hAbsent =>
                absurd (hExist.symm.trans hAbsent) (by simp) }
          layout := Fs.claim_layout _ _ _ _
          writes := h.wroteHead_writes hHas data _ },
        rfl⟩
  | grown i hSize hHas hLast hDirect hSpill hNext =>
      have hHead := h.wroteHead hHas data (4096 - s.file.off)
      rcases hHead.grownRest_stepOk hFile.clean hFile.noNew
          hExist hNext hDirect hLast
          (h.wroteHead_writes hHas data _)
          (restOf data s.file.off size.toNat) size with
        ⟨owners', hLabels, hLive, hImage, hDone, hWrites⟩
      exact ⟨owners',
        { labels := hLabels
          image := hImage
          file := hDone
          layout := Fs.claim_layout _ _ _ _
          writes := hWrites },
        hLive⟩

/- Every seek preserves everything and writes no data. -/
theorem SeekOutcome.stepOk
    {newPos : UInt32}
    (hOut : SeekOutcome newPos s err t)
    (hFile : FileOk inodes s)
    (hOpen : s.file.isOpen)
    (hExist : s.file.exist)
    (h : Editing inodes owners s) :
    ∃ owners', StepOk inodes owners s owners' t ∧
      owners'.live = owners.live := by
  have hMoved := h.movedTo newPos
  have hStored := hFile.stored hOpen hExist
  cases hOut with
  | loaded ptr hPtr hLt =>
      have hLoaded := hMoved.setBuff (s.disk ptr)
      exact ⟨owners,
        { labels := .refl owners
          image := hLoaded.image
          file := .of_editing hLoaded hStored rfl rfl hExist
          layout := rfl
          writes := fun _ hd => .inl hd },
        rfl⟩
  | noBlock hLe hNext =>
      exact ⟨owners,
        { labels := .refl owners
          image := hMoved.image
          file := .of_editing hMoved hStored rfl rfl hExist
          layout := rfl
          writes := fun _ hd => .inl hd },
        rfl⟩
  | noPointer i hLe hMany hNext =>
      have hFree : FreeBit (s.movedTo newPos) .block
          s.fileGroup i :=
        .of_nextFree (h.image.layout.slotGroup_lt h.valid)
          hNext
      have hClaimed := (Fs.inodeAt_claim hMoved.image.layout
        hFree hMoved.valid).trans hStored
      exact ⟨owners,
        { labels := .refl owners
          image := hMoved.image.claim hFree
          file :=
            { clean := rfl
              noNew := rfl
              own := fun _ _ => hMoved.own
              valid := fun _ _ => by
                rw [Fs.claim_layout]
                exact hMoved.valid
              isFile := fun _ _ => hMoved.isFile
              stored := fun _ _ => hClaimed
              fresh := fun _ hAbsent =>
                absurd (hExist.symm.trans hAbsent) (by simp) }
          layout := Fs.claim_layout _ _ _ _
          writes := fun _ hd => .inl hd },
        rfl⟩
  | grown i hLe hDirect hNext =>
      rcases hMoved.grown hNext hDirect with
        ⟨hGrown, hLabels⟩
      have hLoaded := hGrown.setBuff (clearedPrefix
        (s.disk (s.layout.blockNumber s.fileGroup i))
        (newPos.toNat % 4096))
      have hCommit := hLoaded.commit (newPos % 4096)
      exact ⟨_,
        { labels := hLabels
          image := hCommit.1.image
          file := .of_editing hCommit.1 hCommit.2 rfl rfl
            hExist
          layout := Fs.claim_layout _ _ _ _
          writes := fun _ hd => .inl hd },
        rfl⟩

------------------------------------------------------------
-- Creating on Demand
------------------------------------------------------------

/- What `ensureExists` leaves for the rest of the call. -/
structure Ensured
    (s : Fs)
    (err : UInt8)
    (t : Fs) : Prop where
  isOpen : t.file.isOpen = s.file.isOpen
  pos : t.file.pos = s.file.pos
  dataWrites : t.dataWrites = s.dataWrites
  exist : err = 0 → t.file.exist
  same : s.file.exist → t = s
  allocated :
    s.file.exist = false → err = 0 →
      t.file.inode.allocated = 1
  has :
    s.file.exist = false → err = 0 →
      t.file.inode.HasBlock 0

theorem ensureExists_stepOk
    {stack : CreateStack}
    (h : ImageOk owners s)
    (hFile : FileOk owners.live s)
    (hOpen : s.file.isOpen)
    (hRun : ensureExists stack s = some (err, t)) :
    (∃ owners', ImageStep owners s owners' t) ∧
      Ensured s err t := by
  rw [ensureExists] at hRun
  split at hRun
  · next hExist =>
      cases hRun
      exact ⟨⟨owners, .refl h hFile⟩,
        { isOpen := rfl
          pos := rfl
          dataWrites := rfl
          exist := fun _ => hExist
          same := fun _ => rfl
          allocated := fun hAbsent =>
            absurd (hExist.symm.trans hAbsent) (by simp)
          has := fun hAbsent =>
            absurd (hExist.symm.trans hAbsent) (by simp) }⟩
  · next hAbsent =>
      have hAbsent := Bool.eq_false_iff.mpr hAbsent
      rcases ext2FileCreate_created h hRun with
        ⟨owners', hNew⟩
      have hPos : t.file.pos = s.file.pos := by
        rw [hNew.file]
      refine ⟨⟨owners', ?_⟩, ?_⟩
      · -- a failed creation leaves the file absent
        have hDone : t.file.exist → err = 0 := by
          intro hExist
          by_contra hErr
          rw [hNew.failed hErr, hAbsent] at hExist
          exact absurd hExist (by simp)
        exact
          { labels := hNew.labels
            image := hNew.image
            file :=
              { clean := by
                  rw [hNew.file]
                  exact hFile.clean
                noNew := by
                  rw [hNew.file]
                  exact hFile.noNew
                own := fun _ hExist =>
                  (hNew.live (hDone hExist)).live
                valid := fun _ hExist =>
                  (hNew.live (hDone hExist)).valid
                isFile := fun _ hExist =>
                  hNew.isFile (hDone hExist)
                stored := fun _ hExist =>
                  hNew.stored (hDone hExist)
                fresh := fun _ _ =>
                  hPos.trans (hFile.fresh hOpen hAbsent) }
            layout := hNew.layout
            writes := fun _ hd => .inl (hNew.dataWrites ▸ hd) }
      · exact
          { isOpen := by rw [hNew.file]
            pos := hPos
            dataWrites := hNew.dataWrites
            exist := hNew.exist
            same := fun hExist =>
              absurd (hExist.symm.trans hAbsent) (by simp)
            allocated := fun _ => hNew.allocated
            has := fun _ hDone =>
              { direct := by decide
                lt := by rw [hNew.allocated hDone]; decide
                set := hNew.image.ne_zero
                  (hNew.first hDone) } }

end

end Ext2

end Ester
