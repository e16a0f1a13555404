import Ester.Library.Run
import Ester.Ext2.Session.Step

/-
  What one call of the file interface preserves.

  Each operation is taken apart once, into the outcomes of
  its parts; a call in range, one whose write finds its
  position among the file's direct blocks, then preserves
  everything, and so does a run of such calls.

  Key definitions include:
    * `Fs.opened`
    * `Call.InRange`

  Key theorems include:
    * `ext2Fopen_cases`
    * `ext2Fwrite_reaches`
    * `ext2Fseek_reaches`
    * `exec_stepOk`
    * `run_stepOk`
-/

------------------------------------------------------------
-- Opening and Closing
------------------------------------------------------------

namespace Ester

namespace Ext2

section

variable {owners : Owners} {s t : Fs} {err : UInt8}

/- The state after opening inode `n` under a name. -/
def Fs.opened
    (s : Fs)
    (n : UInt32)
    (mode : ByteBuffer 2)
    (name : ByteBuffer maxPathLen) : Fs :=
  (s.setCurrentInode (s.inodeAt n)).setFile
    { inodeNum := n
      mode := mode
      isOpen := true
      pos := 0
      newBytesCount := 0
      dirty := false
      exist := (s.inodeAt n).isFile
      pathname := name
      buff := .fill buffSize 0
      inode := s.inodeAt n }

/-
  Opening changes the current inode at most, or opens the
  inode the lookup ended at.
-/
theorem ext2Fopen_cases
    {pathname : List UInt8}
    {mode : UInt8}
    {stack : FindStack}
    (h : ImageOk owners s)
    (hRun : ext2Fopen pathname mode stack s = some t) :
    (∃ inode, t = s.setCurrentInode inode) ∨
      (s.file.isOpen = false ∧ ∃ n u mode' name,
        ext2InodeFind pathname stack s = some (n, u) ∧
          LiveInode s.layout owners n ∧
            t = s.opened n mode' name) := by
  have hSame : s = s.setCurrentInode s.currentInode := rfl
  simp only [ext2Fopen, fopenWith, Option.bind_eq_bind,
    Option.bind_eq_some_iff] at hRun
  rcases hRun with ⟨len, -, hRun⟩
  split at hRun
  · cases hRun
    exact .inl ⟨_, hSame⟩
  · split at hRun
    · cases hRun
      exact .inl ⟨_, hSame⟩
    · next hClosed =>
        simp only [Option.bind_eq_some_iff] at hRun
        rcases hRun with ⟨⟨n, u⟩, hFind, v, hExtract, hRun⟩
        rcases ext2InodeFind_live h hFind with
          ⟨hLive, inode, rfl⟩
        have hSet := h.setCurrentInode inode
        rw [ext2ExtractInode_eq hSet.steady hSet.layout
          hLive.valid] at hExtract
        cases hExtract
        have hOpened {exist : Bool}
            (hExist : (s.inodeAt n).isFile = exist)
            (hOpen : openFile pathname mode n exist
              (s.setCurrentInode (s.inodeAt n)) = some t) :
            ∃ mode' name, t = s.opened n mode' name := by
          simp only [openFile, Option.bind_eq_bind,
            Option.bind_eq_some_iff] at hOpen
          rcases hOpen with ⟨_, -, name, -, hOpen⟩
          cases hOpen
          exact ⟨_, name, by rw [Fs.opened, hExist]; rfl⟩
        have hNotOpen := Bool.eq_false_iff.mpr hClosed
        split at hRun
        · next hNotFile =>
            split at hRun
            · cases hRun
              exact .inl ⟨_, rfl⟩
            · rcases hOpened (Bool.eq_false_iff.mpr hNotFile)
                hRun with ⟨mode', name, hOpen⟩
              exact .inr ⟨hNotOpen, n, _, mode', name, hFind,
                hLive, hOpen⟩
        · next hIsFile =>
            rcases hOpened (not_not.mp hIsFile) hRun with
              ⟨mode', name, hOpen⟩
            exact .inr ⟨hNotOpen, n, _, mode', name, hFind,
              hLive, hOpen⟩

theorem ext2Fopen_stepOk
    {pathname : List UInt8}
    {mode : UInt8}
    {stack : FindStack}
    (h : ImageOk owners s)
    (hFile : FileOk owners.live s)
    (hRun : ext2Fopen pathname mode stack s = some t) :
    ImageStep owners s owners t := by
  rcases ext2Fopen_cases h hRun with
    ⟨inode, rfl⟩ | ⟨-, n, u, mode', name, -, hLive, rfl⟩
  · exact .setCurrentInode h hFile inode
  · exact
      { labels := .refl owners
        image := (h.setCurrentInode _).setFile _
        file :=
          { clean := rfl
            noNew := rfl
            own := fun _ _ => hLive.live
            valid := fun _ _ => hLive.valid
            isFile := fun _ hExist => hExist
            stored := fun _ _ => rfl
            fresh := fun _ _ => rfl }
        layout := rfl
        writes := fun _ hd => .inl hd }

/- Closing resets the descriptor of whatever is stored. -/
theorem ext2Fclose_cases
    {stack : CreateStack}
    (hRun : ext2Fclose stack s = some (err, t)) :
    (s.file.isOpen = false ∧ err = 1 ∧ t = s) ∨
      (s.file.isOpen ∧ ∃ code u,
        ensureExists stack s = some (code, u) ∧
          (u.file.dirty = false → t = resetFile u)) := by
  rw [ext2Fclose] at hRun
  split at hRun
  · next hClosed =>
      cases hRun
      exact .inl ⟨Bool.eq_false_iff.mpr hClosed, rfl, rfl⟩
  · next hOpen =>
      simp only [Option.bind_eq_bind,
        Option.bind_eq_some_iff] at hRun
      rcases hRun with ⟨⟨code, u⟩, hEnsure, hRun⟩
      refine .inr ⟨not_not.mp hOpen, code, u, hEnsure, ?_⟩
      intro hClean'
      split at hRun
      · cases hRun
        rfl
      · rw [hClean'] at hRun
        cases hRun
        rfl

theorem ext2Fclose_stepOk
    {stack : CreateStack}
    (h : ImageOk owners s)
    (hFile : FileOk owners.live s)
    (hRun : ext2Fclose stack s = some (err, t)) :
    ∃ owners', ImageStep owners s owners' t := by
  rcases ext2Fclose_cases hRun with
    ⟨-, -, rfl⟩ | ⟨hOpen, code, u, hEnsure, hReset⟩
  · exact ⟨owners, .refl h hFile⟩
  · rcases ensureExists_stepOk h hFile hOpen hEnsure with
      ⟨⟨owners', hStep⟩, -⟩
    rw [hReset hStep.file.clean]
    exact ⟨owners',
      { labels := hStep.labels
        image := hStep.image.setFile _
        file := .of_closed rfl
        layout := hStep.layout
        writes := hStep.writes }⟩

------------------------------------------------------------
-- Reading, Writing and Seeking
------------------------------------------------------------

/- A read inside a block copies from the buffer. -/
theorem ext2Fread_of_inside
    {out : Nat → UInt8}
    {size : UInt32}
    (hSteady : s.Steady)
    (hOpen : s.file.isOpen)
    (hFits : s.file.off + size.toNat ≤ 4096) :
    ext2Fread out size s =
      some (0, fun i =>
        if i < size.toNat then s.file.buff.get (s.file.off + i)
        else out i, s) := by
  have hSmall : ¬ size > 4096 := by
    rw [gt_iff_lt, UInt32.lt_iff_toNat_lt]
    exact Nat.not_lt.mpr (show size.toNat ≤ 4096 by omega)
  have hInside : ¬ s.file.off + size.toNat > 4096 := by omega
  have h4096 : (4096 : UInt32).toNat = 4096 := rfl
  simp only [ext2Fread, hSteady.blockSize, hOpen, hSmall,
    pos_mod_toNat, h4096, hInside, not_true_eq_false,
    if_false, ne_eq]

/-
  A read that runs past its block goes on in the block behind
  the next pointer.
-/
theorem ext2Fread_of_spilling
    {out : Nat → UInt8}
    {size : UInt32}
    (hSteady : s.Steady)
    (hOpen : s.file.isOpen)
    (hSize : size.toNat ≤ 4096)
    (hSpill : 4096 < s.file.off + size.toNat) :
    ext2Fread out size s =
      (s.file.inode.blockPtr (s.file.block + 1)).bind
        fun b => some (0, fun i =>
          if i < 4096 - s.file.off then
            s.file.buff.get (s.file.off + i)
          else if i < size.toNat then
            (s.disk b).get (i - (4096 - s.file.off))
          else out i, s) := by
  have hSmall : ¬ size > 4096 := by
    rw [gt_iff_lt, UInt32.lt_iff_toNat_lt]
    exact Nat.not_lt.mpr hSize
  have h4096 : (4096 : UInt32).toNat = 4096 := rfl
  simp only [ext2Fread, hSteady.blockSize, hOpen, hSmall,
    pos_mod_toNat, h4096, block_add_one_toNat, hSpill, if_true,
    not_true_eq_false, if_false, ne_eq,
    readLocal_of_steady hSteady, Option.bind_eq_bind,
    Option.bind_some]

/- A read of more than a block is refused. -/
theorem ext2Fread_of_big
    {size : UInt32}
    (hSteady : s.Steady)
    (hBig : 4096 < size.toNat)
    (out : Nat → UInt8) :
    ext2Fread out size s = some (1, out, s) := by
  have hGt : size > 4096 := by
    rw [gt_iff_lt, UInt32.lt_iff_toNat_lt]
    exact hBig
  simp only [ext2Fread, hSteady.blockSize, hGt, if_true,
    ite_self]

/- Reading changes nothing. -/
theorem ext2Fread_same
    {out out' : Nat → UInt8}
    {size : UInt32}
    (hSteady : s.Steady)
    (hRun : ext2Fread out size s = some (err, out', t)) :
    t = s := by
  rw [ext2Fread] at hRun
  split at hRun
  · cases hRun
    rfl
  · dsimp only at hRun
    split at hRun
    · cases hRun
      rfl
    · split at hRun
      · cases hRun
      · split at hRun
        · simp only [readLocal_of_steady hSteady,
            Option.bind_eq_bind, Option.bind_some,
            Option.bind_eq_some_iff] at hRun
          rcases hRun with ⟨blockNum, -, hRun⟩
          cases hRun
          rfl
        · cases hRun
          rfl

/- The write that follows when the file exists. -/
theorem ext2Fwrite_cases
    {data : Nat → UInt8}
    {size : UInt32}
    {stack : CreateStack}
    (hRun : ext2Fwrite data size stack s = some (err, t)) :
    (s.file.isOpen = false ∧ err = 1 ∧ t = s) ∨
      (s.file.isOpen ∧ ∃ code u,
        ensureExists stack s = some (code, u) ∧
          ((code ≠ 0 ∧ err = 1 ∧ t = u) ∨
            (code = 0 ∧
              writeExisting data size u = some (err, t)))) := by
  rw [ext2Fwrite] at hRun
  split at hRun
  · next hClosed =>
      cases hRun
      exact .inl ⟨Bool.eq_false_iff.mpr hClosed, rfl, rfl⟩
  · next hOpen =>
      simp only [Option.bind_eq_bind,
        Option.bind_eq_some_iff] at hRun
      rcases hRun with ⟨⟨code, u⟩, hEnsure, hRun⟩
      refine .inr ⟨not_not.mp hOpen, code, u, hEnsure, ?_⟩
      split at hRun
      · next hCode =>
          cases hRun
          exact .inl ⟨hCode, rfl, rfl⟩
      · next hCode =>
          exact .inr ⟨not_not.mp hCode, hRun⟩

/- The seek that follows when the file exists. -/
theorem ext2Fseek_cases
    {newPos : UInt32}
    {stack : CreateStack}
    (hRun : ext2Fseek newPos stack s = some (err, t)) :
    (t = s ∧ (s.file.isOpen = false ∨
        (s.file.pos = newPos ∧ err = 0))) ∨
      (s.file.isOpen ∧ s.file.pos ≠ newPos ∧ ∃ code u,
        ensureExists stack s = some (code, u) ∧
          ((code ≠ 0 ∧ err = 1 ∧ t = u) ∨
            (code = 0 ∧
              seekExisting newPos u = some (err, t)))) := by
  rw [ext2Fseek] at hRun
  split at hRun
  · next hClosed =>
      cases hRun
      exact .inl ⟨rfl, .inl (Bool.eq_false_iff.mpr hClosed)⟩
  · next hOpen =>
      split at hRun
      · next hPos =>
          cases hRun
          exact .inl ⟨rfl, .inr ⟨hPos, rfl⟩⟩
      · next hPos =>
          simp only [Option.bind_eq_bind,
            Option.bind_eq_some_iff] at hRun
          rcases hRun with ⟨⟨code, u⟩, hEnsure, hRun⟩
          refine .inr ⟨not_not.mp hOpen, hPos, code, u,
            hEnsure, ?_⟩
          split at hRun
          · next hCode =>
              cases hRun
              exact .inl ⟨hCode, rfl, rfl⟩
          · next hCode =>
              exact .inr ⟨not_not.mp hCode, hRun⟩

/- A write to a file created for it starts at its block 0. -/
theorem Ensured.writeInRange
    {inodes : UInt32 → Prop}
    {size : UInt32}
    (hEnsured : Ensured s 0 t)
    (hFile : FileOk inodes s)
    (hOpen : s.file.isOpen)
    (hAbsent : s.file.exist = false) :
    WriteInRange size t := by
  have hPos : t.file.pos = 0 :=
    hEnsured.pos.trans (hFile.fresh hOpen hAbsent)
  have hBlock : t.file.block = 0 := by
    rw [File.block, hPos]
    rfl
  have hOff : t.file.off = 0 := by
    rw [File.off, hPos]
    rfl
  constructor
  · intro _
    rw [hBlock]
    exact hEnsured.has hAbsent rfl
  · intro hSize hSpill
    omega

/-
  A write does nothing, stops at a failed creation, or ends
  in an outcome of a write to an existing file.
-/
theorem ext2Fwrite_reaches
    {data : Nat → UInt8}
    {size : UInt32}
    {stack : CreateStack}
    (h : ImageOk owners s)
    (hFile : FileOk owners.live s)
    (hRange : s.file.isOpen → s.file.exist →
      WriteInRange size s)
    (hRun : ext2Fwrite data size stack s = some (err, t)) :
    (t = s ∧ err = 1) ∨ ∃ owners' code u,
      ensureExists stack s = some (code, u) ∧
        ImageStep owners s owners' u ∧
          ((code ≠ 0 ∧ err = 1 ∧ t = u) ∨
            (code = 0 ∧ u.file.isOpen ∧ u.file.exist ∧
              Editing owners'.live owners' u ∧
                WriteOutcome data size u err t)) := by
  rcases ext2Fwrite_cases hRun with
    ⟨-, hErr, rfl⟩ | ⟨hOpen, code, u, hEnsure, hRest⟩
  · exact .inl ⟨rfl, hErr⟩
  · rcases ensureExists_stepOk h hFile hOpen hEnsure with
      ⟨⟨owners', hStep⟩, hEnsured⟩
    refine .inr ⟨owners', code, u, hEnsure, hStep, ?_⟩
    refine hRest.imp id ?_
    rintro ⟨rfl, hWrite⟩
    have hOpen' := hEnsured.isOpen.trans hOpen
    have hExist' := hEnsured.exist rfl
    have hInRange : WriteInRange size u := by
      cases hExist : s.file.exist with
      | true =>
          rw [hEnsured.same hExist]
          exact hRange hOpen hExist
      | false =>
          exact hEnsured.writeInRange hFile hOpen hExist
    have hEditing :=
      hStep.file.editing hStep.image hOpen' hExist'
    exact ⟨rfl, hOpen', hExist', hEditing,
      writeExisting_outcome hEditing hInRange hWrite⟩

/-
  A seek does nothing, stops at a failed creation, or ends in
  an outcome of a seek in an existing file.
-/
theorem ext2Fseek_reaches
    {newPos : UInt32}
    {stack : CreateStack}
    (h : ImageOk owners s)
    (hFile : FileOk owners.live s)
    (hRun : ext2Fseek newPos stack s = some (err, t)) :
    t = s ∨ (s.file.isOpen ∧ s.file.pos ≠ newPos ∧
      ∃ owners' code u,
        ensureExists stack s = some (code, u) ∧
          ImageStep owners s owners' u ∧
            ((code ≠ 0 ∧ err = 1 ∧ t = u) ∨
              (code = 0 ∧ u.file.isOpen ∧ u.file.exist ∧
                Editing owners'.live owners' u ∧
                  SeekOutcome newPos u err t))) := by
  rcases ext2Fseek_cases hRun with
    ⟨rfl, -⟩ | ⟨hOpen, hMoves, code, u, hEnsure, hRest⟩
  · exact .inl rfl
  · rcases ensureExists_stepOk h hFile hOpen hEnsure with
      ⟨⟨owners', hStep⟩, hEnsured⟩
    refine .inr ⟨hOpen, hMoves, owners', code, u, hEnsure,
      hStep, ?_⟩
    refine hRest.imp id ?_
    rintro ⟨rfl, hSeek⟩
    have hOpen' := hEnsured.isOpen.trans hOpen
    have hExist' := hEnsured.exist rfl
    have hEditing :=
      hStep.file.editing hStep.image hOpen' hExist'
    exact ⟨rfl, hOpen', hExist', hEditing,
      seekExisting_outcome hEditing hStep.file.clean hSeek⟩

/- A file that exists is not created again. -/
theorem ensureExists_of_exist
    {stack : CreateStack}
    (hExist : s.file.exist) :
    ensureExists stack s = some (0, s) :=
  if_pos hExist

/- A write to an open file that exists. -/
theorem ext2Fwrite_outcome
    {data : Nat → UInt8}
    {size : UInt32}
    {stack : CreateStack}
    {inodes : UInt32 → Prop}
    (h : ImageOkFor inodes owners s)
    (hFile : FileOk inodes s)
    (hOpen : s.file.isOpen)
    (hExist : s.file.exist)
    (hRange : WriteInRange size s)
    (hRun : ext2Fwrite data size stack s = some (err, t)) :
    WriteOutcome data size s err t := by
  rcases ext2Fwrite_cases hRun with
    ⟨hClosed, -⟩ | ⟨-, code, u, hEnsure, hRest⟩
  · exact absurd (hOpen.symm.trans hClosed) (by simp)
  · rw [ensureExists_of_exist hExist] at hEnsure
    cases hEnsure
    rcases hRest with ⟨hCode, -⟩ | ⟨-, hWrite⟩
    · exact absurd rfl hCode
    · exact writeExisting_outcome
        (hFile.editing h hOpen hExist) hRange hWrite

/- A seek to another position in an open file that exists. -/
theorem ext2Fseek_outcome
    {newPos : UInt32}
    {stack : CreateStack}
    {inodes : UInt32 → Prop}
    (h : ImageOkFor inodes owners s)
    (hFile : FileOk inodes s)
    (hOpen : s.file.isOpen)
    (hExist : s.file.exist)
    (hMoves : s.file.pos ≠ newPos)
    (hRun : ext2Fseek newPos stack s = some (err, t)) :
    SeekOutcome newPos s err t := by
  rcases ext2Fseek_cases hRun with
    ⟨-, hClosed | ⟨hStays, -⟩⟩ |
      ⟨-, -, code, u, hEnsure, hRest⟩
  · exact absurd (hOpen.symm.trans hClosed) (by simp)
  · exact absurd hStays hMoves
  · rw [ensureExists_of_exist hExist] at hEnsure
    cases hEnsure
    rcases hRest with ⟨hCode, -⟩ | ⟨-, hSeek⟩
    · exact absurd rfl hCode
    · exact seekExisting_outcome
        (hFile.editing h hOpen hExist) hFile.clean hSeek

------------------------------------------------------------
-- Calls and Runs
------------------------------------------------------------

/-
  A call is in range when a write finds the blocks it needs
  among the direct blocks of the file.
-/
def Call.InRange : Call → Fs → Prop
  | .fwrite _ size _, s =>
      s.file.isOpen → s.file.exist → WriteInRange size s
  | _, _ => True

/- Every call in range preserves everything. -/
theorem exec_stepOk
    {c : Call}
    {o : Answer}
    (h : ImageOk owners s)
    (hFile : FileOk owners.live s)
    (hRange : c.InRange s)
    (hRun : exec c s = some (o, t)) :
    ∃ owners', ImageStep owners s owners' t := by
  cases c with
  | fopen pathname mode stack =>
      rcases Option.map_eq_some_iff.mp hRun with
        ⟨u, hOpen, hEq⟩
      cases hEq
      exact ⟨owners, ext2Fopen_stepOk h hFile hOpen⟩
  | fclose stack =>
      rcases Option.map_eq_some_iff.mp hRun with
        ⟨⟨code, u⟩, hClose, hEq⟩
      cases hEq
      exact ext2Fclose_stepOk h hFile hClose
  | fread out size =>
      rcases Option.map_eq_some_iff.mp hRun with
        ⟨⟨code, out', u⟩, hRead, hEq⟩
      cases hEq
      rw [ext2Fread_same h.steady hRead]
      exact ⟨owners, .refl h hFile⟩
  | fwrite data size stack =>
      rcases Option.map_eq_some_iff.mp hRun with
        ⟨⟨code, u⟩, hWrite, hEq⟩
      cases hEq
      rcases ext2Fwrite_reaches h hFile hRange hWrite with
        ⟨rfl, -⟩ | ⟨owners₁, code', v, -, hStep,
          ⟨-, -, rfl⟩ | ⟨-, hOpen, hExist, hEditing, hOut⟩⟩
      · exact ⟨owners, .refl h hFile⟩
      · exact ⟨owners₁, hStep⟩
      · rcases hOut.stepOk hStep.file hOpen hExist hEditing
          with ⟨owners₂, hLast, hLive⟩
        exact ⟨owners₂, hStep.trans (hLast.imageStep hLive)⟩
  | fseek newPos stack =>
      rcases Option.map_eq_some_iff.mp hRun with
        ⟨⟨code, u⟩, hSeek, hEq⟩
      cases hEq
      rcases ext2Fseek_reaches h hFile hSeek with
        rfl | ⟨-, -, owners₁, code', v, -, hStep,
          ⟨-, -, rfl⟩ | ⟨-, hOpen, hExist, hEditing, hOut⟩⟩
      · exact ⟨owners, .refl h hFile⟩
      · exact ⟨owners₁, hStep⟩
      · rcases hOut.stepOk hStep.file hOpen hExist hEditing
          with ⟨owners₂, hLast, hLive⟩
        exact ⟨owners₂, hStep.trans (hLast.imageStep hLive)⟩

/- What holds after every run of calls in range. -/
theorem run_stepOk
    {s₀ : Fs}
    {guard : Call → Answer → Fs → Prop}
    (hGuard : ∀ c o u, guard c o u → c.InRange u)
    (h : ImageOk owners s₀)
    (hFile : FileOk owners.live s₀)
    {trace : List (Call × Answer)}
    (hRun : GuardedRun exec guard s₀ trace s) :
    ∃ owners', ImageStep owners s₀ owners' s := by
  refine GuardedRun.invariant
    (fun s => ∃ owners', ImageStep owners s₀ owners' s)
    hRun ⟨owners, .refl h hFile⟩ ?_
  rintro c o u v ⟨owners₁, hOld⟩ hIn hStep
  rcases exec_stepOk hOld.image hOld.file (hGuard c o u hIn)
    hStep with ⟨owners₂, hNew⟩
  exact ⟨owners₂, hOld.trans hNew⟩

end

end Ext2

end Ester
