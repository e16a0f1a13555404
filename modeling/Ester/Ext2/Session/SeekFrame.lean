import Ester.Ext2.SampleImage
import Ester.Ext2.Session.Content

/-
  What a seek leaves alone.

  A seek that takes no new block changes no stored byte, no
  pointer and no size of the file.  One that takes a block
  sets the size to the new position's offset in a block,
  whatever it was before, and puts the block at the pointer
  behind the block count, whatever that pointer led to.

  Key definitions include:
    * `SeekGrows`
    * `SeekKeeps`
    * `Call.OnFile`, `OnDisk`

  Key theorems include:
    * `SeekOutcome.keeps_iff`
    * `OnDisk.step`
    * `ext2Fseek_keeps_iff`
    * `ext2Fseek_shrinks_size`
-/

------------------------------------------------------------
-- Growing and Keeping
------------------------------------------------------------

namespace Ester

namespace Ext2

/-
  A seek takes a new block: the position moves past the
  blocks of the file, which has a direct pointer left and a
  free block in its group.
-/
def SeekGrows
    (newPos : UInt32)
    (s : Fs) : Prop :=
  s.file.pos ≠ newPos ∧
    s.file.inode.allocated ≤ newPos.toNat / 4096 ∧
      s.file.inode.allocated < ext2NdirBlocks ∧
        (s.nextFree .block s.fileGroup).isSome

/-
  No stored byte of the file and no pointer to one of its
  blocks changes, and its recorded size does not decrease,
  neither in the descriptor nor on the disk.
-/
structure SeekKeeps
    (owners : Owners)
    (s t : Fs) : Prop where
  blocks :
    ∀ b, ¬ s.layout.IsMeta b → t.disk b = s.disk b
  pointers :
    ∀ k : Fin ext2NBlocks,
      (k : Nat) ≠ s.file.inode.allocated ∨
        ext2NdirBlocks ≤ (k : Nat) →
          t.file.inode.iBlock k = s.file.inode.iBlock k
  owned :
    ∀ k (hk : k < ext2NdirBlocks), s.Owns owners k hk →
      t.file.inode.direct k hk = s.file.inode.direct k hk
  bytes :
    ∀ x (hx : x / 4096 < ext2NdirBlocks),
      s.Owns owners (x / 4096) hx →
        t.fileByte x = s.fileByte x
  size :
    s.file.inode.iLowerSize.toNat ≤
      t.file.inode.iLowerSize.toNat
  stored :
    (s.inodeAt s.file.inodeNum).iLowerSize.toNat ≤
      (t.inodeAt s.file.inodeNum).iLowerSize.toNat

theorem SeekKeeps.refl
    (owners : Owners)
    (s : Fs) :
    SeekKeeps owners s s where
  blocks _ _ := rfl
  pointers _ _ := rfl
  owned _ _ _ := rfl
  bytes _ _ _ := rfl
  size := Nat.le_refl _
  stored := Nat.le_refl _

section

variable {inodes : UInt32 → Prop}
variable {owners : Owners} {s t : Fs}
variable {newPos : UInt32} {err : UInt8}

------------------------------------------------------------
-- Outcomes of a Seek
------------------------------------------------------------

/- A seek changes the pointer behind the count at most. -/
theorem SeekOutcome.iBlock_eq
    (hOut : SeekOutcome newPos s err t)
    {k : Fin ext2NBlocks}
    (hk : (k : Nat) ≠ s.file.inode.allocated ∨
      ext2NdirBlocks ≤ (k : Nat)) :
    t.file.inode.iBlock k = s.file.inode.iBlock k := by
  cases hOut with
  | loaded => rfl
  | noBlock => rfl
  | noPointer => rfl
  | grown i hLe hDirect hNext =>
      have hIndex :
          (Fin.ofNat ext2NBlocks s.file.inode.allocated :
            Nat) = s.file.inode.allocated :=
        Nat.mod_eq_of_lt (Nat.lt_trans hDirect (by decide))
      apply Function.update_of_ne
      intro hEq
      rw [hEq] at hk
      change (Fin.ofNat ext2NBlocks s.file.inode.allocated :
        Nat) ≠ _ ∨ _ ≤ (Fin.ofNat ext2NBlocks
          s.file.inode.allocated : Nat) at hk
      rw [hIndex] at hk
      omega

/- The inode a seek leaves behind. -/
theorem SeekOutcome.records
    (hOut : SeekOutcome newPos s err t)
    (h : Editing inodes owners s)
    (hMoves : s.file.pos ≠ newPos) :
    (SeekGrows newPos s ∧
      t.file.inode.iLowerSize = newPos % 4096 ∧
        (t.inodeAt s.file.inodeNum).iLowerSize =
          newPos % 4096 ∧
        ∀ hk, owners (t.file.inode.direct
          s.file.inode.allocated hk) = none) ∨
      (¬ SeekGrows newPos s ∧
        t.file.inode = s.file.inode ∧
          t.inodeAt s.file.inodeNum =
            s.inodeAt s.file.inodeNum) := by
  have hMoved := h.movedTo newPos
  cases hOut with
  | loaded ptr hPtr hLt =>
      exact .inr ⟨fun hGrows => by
        have hLe := hGrows.2.1
        omega, rfl, rfl⟩
  | noBlock hLe hNext =>
      refine .inr ⟨fun hGrows => ?_, rfl, rfl⟩
      have hSome := hGrows.2.2.2
      rw [hNext] at hSome
      exact absurd hSome (by simp)
  | noPointer i hLe hMany hNext =>
      have hFree : FreeBit (s.movedTo newPos) .block
          s.fileGroup i :=
        .of_nextFree (h.image.layout.slotGroup_lt h.valid)
          hNext
      refine .inr ⟨fun hGrows => ?_, rfl, ?_⟩
      · have hFew := hGrows.2.2.1
        omega
      · exact Fs.inodeAt_claim hMoved.image.layout hFree
          hMoved.valid
  | grown i hLe hDirect hNext =>
      have hGrown := (hMoved.grown hNext hDirect).1
      have hLoaded := hGrown.setBuff (clearedPrefix
        (s.disk (s.layout.blockNumber s.fileGroup i))
        (newPos.toNat % 4096))
      have hStored := (hLoaded.commit (newPos % 4096)).2
      have hFree : FreeBit s .block s.fileGroup i :=
        .of_nextFree (h.image.layout.slotGroup_lt h.valid)
          hNext
      refine .inl ⟨⟨hMoves, hLe, hDirect, ?_⟩, rfl, ?_, ?_⟩
      · rw [hNext]
        rfl
      · exact congrArg Inode.iLowerSize hStored
      · intro hk
        exact (congrArg owners (Fs.grown_direct_last
          (s := s.movedTo newPos) hDirect i)).trans
            (h.image.unlabelled hFree)

/-
  A seek keeps the file exactly when it takes no block, or
  the size was no larger than the new offset and the pointer
  it sets led to no block of the file.
-/
theorem SeekOutcome.keeps_iff
    (hOut : SeekOutcome newPos s err t)
    (h : Editing inodes owners s)
    (hStored : s.inodeAt s.file.inodeNum = s.file.inode)
    (hMoves : s.file.pos ≠ newPos) :
    SeekKeeps owners s t ↔
      ¬ SeekGrows newPos s ∨
        (s.file.inode.iLowerSize.toNat ≤
            newPos.toNat % 4096 ∧
          ∀ hk, ¬ s.Owns owners s.file.inode.allocated hk) := by
  have hOff : (newPos % 4096).toNat = newPos.toNat % 4096 :=
    UInt32.toNat_mod _ _
  -- what is left once sizes and owned pointers are settled
  have hKeeps
      (hOwned : ∀ k (hk : k < ext2NdirBlocks),
        s.Owns owners k hk →
          t.file.inode.direct k hk = s.file.inode.direct k hk)
      (hSize : s.file.inode.iLowerSize.toNat ≤
        t.file.inode.iLowerSize.toNat)
      (hDisk : (s.inodeAt s.file.inodeNum).iLowerSize.toNat ≤
        (t.inodeAt s.file.inodeNum).iLowerSize.toNat) :
      SeekKeeps owners s t := by
    refine ⟨fun _ hb => hOut.disk_of_not_meta h hb,
      fun _ hk => hOut.iBlock_eq hk, hOwned, ?_, hSize, hDisk⟩
    intro x hx hOwns
    have hBlock : t.fileBlock (x / 4096) hx =
        s.fileBlock (x / 4096) hx := by
      rw [Fs.fileBlock, hOwned _ hx hOwns]
      exact hOut.disk_of_not_meta h (h.direct_not_meta hOwns)
    rw [Fs.fileByte, Fs.fileByte, dif_pos hx, dif_pos hx,
      hBlock]
  rcases hOut.records h hMoves with
    ⟨hGrows, hSize, hDisk, hNew⟩ | ⟨hNot, hInode, hDisk⟩
  · constructor
    · intro hKept
      have hLe := hKept.size
      rw [hSize, hOff] at hLe
      refine .inr ⟨hLe, fun hk hOwns => ?_⟩
      -- the owned pointer would now lead to a fresh block
      have hFresh := hNew hk
      rw [hKept.owned _ hk hOwns, hOwns] at hFresh
      exact absurd hFresh (by simp)
    · rintro (hNot | ⟨hLe, hFree⟩)
      · exact absurd hGrows hNot
      · apply hKeeps
        · intro k hk hOwns
          refine hOut.direct_of_ne hk ?_
          rintro rfl
          exact hFree hk hOwns
        · rw [hSize, hOff]
          exact hLe
        · rw [hDisk, hStored, hOff]
          exact hLe
  · refine iff_of_true (hKeeps ?_ ?_ ?_) (.inl hNot)
    · intro k hk _
      rw [hInode]
    · rw [hInode]
    · rw [hDisk]

------------------------------------------------------------
-- Calls on the Open File
------------------------------------------------------------

/- A call that works on the open file. -/
def Call.OnFile : Call → Prop
  | .fread _ _ => True
  | .fwrite _ _ _ => True
  | .fseek _ _ => True
  | _ => False

/-
  A file is open and on the disk, and its own inode is among
  the well-formed ones.
-/
structure OnDisk
    (inodes : UInt32 → Prop)
    (owners : Owners)
    (s : Fs) : Prop where
  image : ImageOkFor inodes owners s
  file : FileOk inodes s
  isOpen : s.file.isOpen
  exist : s.file.exist

theorem OnDisk.editing
    (h : OnDisk inodes owners s) :
    Editing inodes owners s :=
  h.file.editing h.image h.isOpen h.exist

/- The next state of a file whose number stays. -/
theorem OnDisk.of_stepOk
    {owners' : Owners}
    (h : OnDisk inodes owners s)
    (hStep : StepOk inodes owners s owners' t)
    (hOpen : t.file.isOpen = s.file.isOpen)
    (hExist : t.file.exist = s.file.exist) :
    OnDisk inodes owners' t where
  image := hStep.image
  file := hStep.file
  isOpen := hOpen.trans h.isOpen
  exist := hExist.trans h.exist

/- The file stays open and on the disk. -/
theorem OnDisk.step
    {c : Call}
    {o : Answer}
    (h : OnDisk inodes owners s)
    (hOn : c.OnFile)
    (hRange : c.InRange s)
    (hRun : exec c s = some (o, t)) :
    ∃ owners', Extends owners owners' ∧
      OnDisk inodes owners' t := by
  cases c with
  | fopen => exact hOn.elim
  | fclose => exact hOn.elim
  | fread out size =>
      rcases Option.map_eq_some_iff.mp hRun with
        ⟨⟨code, out', u⟩, hRead, hEq⟩
      cases hEq
      rw [ext2Fread_same h.image.steady hRead]
      exact ⟨owners, .refl owners, h⟩
  | fwrite data size stack =>
      rcases Option.map_eq_some_iff.mp hRun with
        ⟨⟨code, u⟩, hWrite, hEq⟩
      cases hEq
      have hOut := ext2Fwrite_outcome h.image h.file h.isOpen
        h.exist (hRange h.isOpen h.exist) hWrite
      rcases hOut.stepOk h.file h.isOpen h.exist h.editing with
        ⟨owners', hStep, -⟩
      refine ⟨owners', hStep.labels,
        h.of_stepOk hStep ?_ ?_⟩ <;> cases hOut <;> rfl
  | fseek newPos stack =>
      rcases Option.map_eq_some_iff.mp hRun with
        ⟨⟨code, u⟩, hSeek, hEq⟩
      cases hEq
      rcases ext2Fseek_cases hSeek with
        ⟨rfl, -⟩ | ⟨-, hMoves, -⟩
      · exact ⟨owners, .refl owners, h⟩
      · have hOut := ext2Fseek_outcome h.image h.file h.isOpen
          h.exist hMoves hSeek
        rcases hOut.stepOk h.file h.isOpen h.exist h.editing
          with ⟨owners', hStep, -⟩
        refine ⟨owners', hStep.labels,
          h.of_stepOk hStep ?_ ?_⟩ <;> cases hOut <;> rfl

/-
  After every run of calls on an open, existing file, a seek
  keeps its bytes, its pointers and its recorded size exactly
  when it takes no block, or the size was no larger than the
  new position's offset in its block and the pointer behind
  the block count leads to no block of the file.
-/
theorem ext2Fseek_keeps_iff
    {s₀ : Fs}
    (h : OnDisk inodes owners s₀)
    {trace : List (Call × Answer)}
    (hRun : GuardedRun exec
      (fun c _ u => c.OnFile ∧ c.InRange u) s₀ trace s)
    {stack : CreateStack}
    (hSeek : ext2Fseek newPos stack s = some (err, t)) :
    ∃ owners', Extends owners owners' ∧
      OnDisk inodes owners' s ∧
      (SeekKeeps owners' s t ↔
        ¬ SeekGrows newPos s ∨
          (s.file.inode.iLowerSize.toNat ≤
              newPos.toNat % 4096 ∧
            ∀ hk, ¬ s.Owns owners'
              s.file.inode.allocated hk)) := by
  have hReached : ∃ owners', Extends owners owners' ∧
      OnDisk inodes owners' s := by
    refine GuardedRun.invariant
      (fun s => ∃ owners', Extends owners owners' ∧
        OnDisk inodes owners' s)
      hRun ⟨owners, .refl owners, h⟩ ?_
    rintro c o u v ⟨owners₁, hMore, hOld⟩ ⟨hOn, hRange⟩ hStep
    rcases hOld.step hOn hRange hStep with
      ⟨owners₂, hMore', hNew⟩
    exact ⟨owners₂, hMore.trans hMore', hNew⟩
  rcases hReached with ⟨owners', hMore, hHere⟩
  refine ⟨owners', hMore, hHere, ?_⟩
  by_cases hMoves : s.file.pos = newPos
  · rcases ext2Fseek_cases hSeek with
      ⟨rfl, -⟩ | ⟨-, hOther, -⟩
    · exact iff_of_true (.refl owners' t)
        (.inl fun hGrows => hGrows.1 hMoves)
    · exact absurd hMoves hOther
  · exact (ext2Fseek_outcome hHere.image hHere.file
      hHere.isOpen hHere.exist hMoves hSeek).keeps_iff
        hHere.editing
        (hHere.file.stored hHere.isOpen hHere.exist) hMoves

end

/- Opening `/f` leaves it open and on the disk. -/
theorem fileSample_onDisk
    {o : Answer}
    {s : Fs}
    (hFirst : exec (.fopen [47, 102, 0] 114 .zero) fileSample =
      some (o, s))
    (hOpen : s.file.isOpen)
    (hExist : s.file.exist) :
    ∃ owners, OnDisk owners.live owners s := by
  have hStart : Call.InRange
      (.fopen [47, 102, 0] 114 .zero) fileSample := trivial
  rcases exec_stepOk fileSample_imageOk (.of_closed rfl)
      hStart hFirst with ⟨owners, hStep⟩
  exact ⟨owners, hStep.image, hStep.file, hOpen, hExist⟩

/-
  Opening `/f`, reading ten bytes and seeking to byte 5000,
  inside its second block.
-/
theorem ext2Fseek_keeps_sample :
    ∃ owners s₀ trace s t, OnDisk owners.live owners s₀ ∧
      GuardedRun exec (fun c _ u => c.OnFile ∧ c.InRange u)
        s₀ trace s ∧
      trace.length = 1 ∧
      ext2Fseek 5000 .zero s = some (0, t) ∧
      t.file.pos = 5000 ∧
      ∃ owners', SeekKeeps owners' s t := by
  have hFacts :
      ((exec (.fopen [47, 102, 0] 114 .zero) fileSample).bind
        fun r => (exec (.fread (fun _ => 0) 10) r.2).bind
          fun p => (ext2Fseek 5000 .zero p.2).map fun q =>
            ((r.2.file.isOpen, r.2.file.exist),
              p.2.file.inode.allocated, q.1, q.2.file.pos)) =
        some ((true, true), 2, 0, 5000) := by
    decide +kernel
  rcases Option.bind_eq_some_iff.mp hFacts with
    ⟨⟨o, s₀⟩, hFirst, hFacts⟩
  rcases Option.bind_eq_some_iff.mp hFacts with
    ⟨⟨o', s⟩, hRead, hFacts⟩
  rcases Option.map_eq_some_iff.mp hFacts with
    ⟨⟨err, t⟩, hSeek, hFacts⟩
  simp only [Prod.mk.injEq] at hFacts
  rcases hFacts with ⟨⟨hOpen, hExist⟩, hTwo, rfl, hPos⟩
  rcases fileSample_onDisk hFirst hOpen hExist with
    ⟨owners, hOnDisk⟩
  have hOn : (Call.fread (fun _ => 0) 10).OnFile := trivial
  have hRange : Call.InRange (.fread (fun _ => 0) 10) s₀ :=
    trivial
  have hRun : GuardedRun exec
      (fun c _ u => c.OnFile ∧ c.InRange u) s₀ _ s :=
    .snoc .refl ⟨hOn, hRange⟩ hRead
  rcases ext2Fseek_keeps_iff hOnDisk hRun hSeek with
    ⟨owners', -, -, hIff⟩
  refine ⟨owners, s₀, _, s, t, hOnDisk, hRun, rfl, hSeek, hPos,
    owners', hIff.mpr (.inl ?_)⟩
  intro hGrows
  have hLe := hGrows.2.1
  rw [hTwo] at hLe
  exact absurd hLe (by decide)

/-
  Seeking to byte 8192, the end of `/f`, takes a third block
  and sets the recorded size of 8192 bytes to 0.
-/
theorem ext2Fseek_shrinks_size :
    ∃ owners s t, OnDisk owners.live owners s ∧
      ext2Fseek 8192 .zero s = some (0, t) ∧
      s.file.inode.iLowerSize = 8192 ∧
      t.file.inode.iLowerSize = 0 ∧
      (t.inodeAt 12).iLowerSize = 0 ∧
      ∀ owners', ¬ SeekKeeps owners' s t := by
  have hFacts :
      ((exec (.fopen [47, 102, 0] 114 .zero) fileSample).bind
        fun r => (ext2Fseek 8192 .zero r.2).map fun q =>
          ((r.2.file.isOpen, r.2.file.exist),
            (r.2.file.inode.iLowerSize, q.1),
            q.2.file.inode.iLowerSize,
            (q.2.inodeAt 12).iLowerSize)) =
        some ((true, true), (8192, 0), 0, 0) := by
    decide +kernel
  rcases Option.bind_eq_some_iff.mp hFacts with
    ⟨⟨o, s⟩, hFirst, hFacts⟩
  rcases Option.map_eq_some_iff.mp hFacts with
    ⟨⟨err, t⟩, hSeek, hFacts⟩
  simp only [Prod.mk.injEq] at hFacts
  rcases hFacts with
    ⟨⟨hOpen, hExist⟩, ⟨hBefore, rfl⟩, hAfter, hStored⟩
  rcases fileSample_onDisk hFirst hOpen hExist with
    ⟨owners, hOnDisk⟩
  refine ⟨owners, s, t, hOnDisk, hSeek, hBefore, hAfter,
    hStored, ?_⟩
  intro owners' hKeeps
  have hLe := hKeeps.size
  rw [hBefore, hAfter] at hLe
  exact absurd hLe (by decide)

end Ext2

end Ester
