import Ester.Ext2.SampleImage
import Ester.Ext2.Session.Atomicity

/-
  Sessions of a file that was opened for reading.

  The mode is stored in the descriptor and read by nothing:
  the calls of such a session leave the disk alone only where
  they do not come to write.  A write call does so when it is
  refused for its size, and a seek when it finds its block
  among those of the file, or no free block in the group.

  Key definitions include:
    * `Fs.GroupFull`
    * `Call.InSession`, `Call.Spares`
    * `ReadOnly`

  Key theorems include:
    * `exec_spares`
    * `read_session_spares_disk`
    * `read_session_writes`
-/

------------------------------------------------------------
-- Calls That Do Not Write
------------------------------------------------------------

namespace Ester

namespace Ext2

/- What the next transfer delivers if it reads this block. -/
def Fs.delivers
    (s : Fs)
    (block : UInt32) : Block :=
  (ext2ReadBlock block s).2.1

/-
  The allocator finds no clear bit in the block bitmap of the
  file's group, as the device delivers it.
-/
def Fs.GroupFull
    (s : Fs) : Prop :=
  ∀ g, ext2GetBgd
      ((s.file.inodeNum - 1) / s.sb.sInodesPerGroup) =
        some g →
    ∀ i, i < s.sb.sInodesPerGroup.toNat →
      (s.delivers (s.bgdt g).bgBlockBitmap).bit i = true

/- The calls between opening and closing. -/
def Call.InSession : Call → Prop
  | .fopen _ _ _ => False
  | .fclose _ => False
  | .fread _ _ => True
  | .fwrite _ _ _ => True
  | .fseek _ _ => True

/-
  The call does not come to a write of the disk: a write call
  is refused for its size, and a seek stays where it is, goes
  to a block of the file or finds no free block.
-/
def Call.Spares : Call → Fs → Prop
  | .fwrite _ size _, s => ext2GetBlockSize s < size
  | .fseek newPos _, s =>
      s.file.pos = newPos ∨
        newPos / ext2GetBlockSize s + 1 ≤ allocatedBlocks s ∨
          s.GroupFull
  | _, _ => True

/-
  An existing file is open with nothing to save, and the disk
  is the one given.
-/
structure ReadOnly
    (disk : UInt32 → Block)
    (s : Fs) : Prop where
  isOpen : s.file.isOpen = true
  exist : s.file.exist = true
  clean : s.file.dirty = false
  disk : s.disk = disk

section

variable {s t : Fs} {disk : UInt32 → Block}

theorem Untouched.readOnly
    (hSame : Untouched s t)
    (h : ReadOnly disk s) :
    ReadOnly disk t where
  isOpen := by rw [hSame.file, h.isOpen]
  exist := by rw [hSame.file, h.exist]
  clean := by rw [hSame.file, h.clean]
  disk := by rw [hSame.disk, h.disk]

theorem delivers_setFile
    (s : Fs)
    (file : File)
    (block : UInt32) :
    (s.setFile file).delivers block = s.delivers block := by
  unfold Fs.delivers ext2ReadBlock
  rw [Fs.setFile_faults]
  split <;> rfl

theorem readLocal_delivers
    {block : UInt32}
    {err : UInt8}
    {content : Block}
    (hRead : readLocal block s = some (err, content, t)) :
    content = s.delivers block := by
  rw [readLocal] at hRead
  split at hRead
  · rw [Fs.delivers, Option.some.inj hRead]
  · cases hRead

/- A file takes no block from a full group. -/
theorem growFile_of_groupFull
    {err : UInt8}
    {num : UInt32}
    (hFull : s.GroupFull)
    (hGrow : growFile s = some (err, num, t)) :
    err ≠ 0 ∧ Untouched s t := by
  rw [growFile] at hGrow
  split at hGrow
  · cases hGrow
  · simp only [Option.bind_eq_bind,
      Option.bind_eq_some_iff] at hGrow
    rcases hGrow with ⟨⟨blockNum, u⟩, hAlloc, hGrow⟩
    rcases ext2FreeAlloc_cases hAlloc with
      ⟨-, g, code, bitmap, v, found, hGroup, hRead, hScan,
        hFound⟩
    have hSet : ∀ i, i < s.sb.sInodesPerGroup.toNat →
        bitmap.bit i = true := by
      rw [readLocal_delivers hRead]
      exact hFull g hGroup
    rcases hFound with ⟨-, rfl, hSame⟩ | ⟨hSome, -⟩
    · rw [if_pos rfl] at hGrow
      cases hGrow
      exact ⟨by decide, hSame⟩
    · -- a bit that the scan finds is clear
      rcases Option.isSome_iff_exists.mp hSome with ⟨i, rfl⟩
      rcases scanBitmap_eq_some hScan with ⟨hLt, hClear⟩
      rw [hSet i hLt] at hClear
      cases hClear

theorem loadBlock_readOnly
    (h : ReadOnly disk s)
    (hLoad : loadBlock s = some t) :
    ReadOnly disk t := by
  simp only [loadBlock, Option.bind_eq_bind,
    Option.bind_eq_some_iff] at hLoad
  rcases hLoad with ⟨block, -, hLoad⟩
  have hSame :=
    (ext2ReadBlock_untouched block s).readOnly h
  cases hLoad
  exact ⟨hSame.isOpen, hSame.exist, hSame.clean, hSame.disk⟩

/- A seek that does not come to write. -/
theorem seekExisting_spares
    {newPos : UInt32}
    {err : UInt8}
    (h : ReadOnly disk s)
    (hSpares :
      newPos / ext2GetBlockSize s + 1 ≤ allocatedBlocks s ∨
        s.GroupFull)
    (hSeek : seekExisting newPos s = some (err, t)) :
    ReadOnly disk t := by
  have hMoved : ReadOnly disk (s.setFile { s.file with
      pos := newPos
      newBytesCount := 0
      dirty := false }) :=
    ⟨h.isOpen, h.exist, rfl, h.disk⟩
  simp only [seekExisting, h.clean, Bool.false_eq_true,
    false_and, if_false, Option.bind_eq_bind,
    Option.bind_some] at hSeek
  split at hSeek
  · next hPast =>
      rcases hSpares with hInside | hFull
      · exact absurd hPast (UInt32.not_lt.mpr hInside)
      · simp only [seekGrowing, Option.bind_eq_bind,
          Option.bind_eq_some_iff] at hSeek
        rcases hSeek with ⟨⟨code, num, u⟩, hGrow, hSeek⟩
        -- the position plays no part in the allocation
        have hFull' : Fs.GroupFull (s.setFile { s.file with
            pos := newPos
            newBytesCount := 0
            dirty := false }) := by
          intro g hGroup i hi
          rw [delivers_setFile]
          exact hFull g hGroup i hi
        rcases growFile_of_groupFull hFull' hGrow with
          ⟨hCode, hSame⟩
        rw [if_pos hCode] at hSeek
        cases hSeek
        exact hSame.readOnly hMoved
  · simp only [Option.bind_eq_some_iff] at hSeek
    rcases hSeek with ⟨u, hLoad, hSeek⟩
    cases hSeek
    exact loadBlock_readOnly hMoved hLoad

/- One call of the session that does not come to write. -/
theorem exec_spares
    {c : Call}
    {o : Answer}
    (h : ReadOnly disk s)
    (hSession : c.InSession)
    (hSpares : c.Spares s)
    (hRun : exec c s = some (o, t)) :
    ReadOnly disk t := by
  cases c with
  | fopen => exact hSession.elim
  | fclose => exact hSession.elim
  | fread out size =>
      rcases Option.map_eq_some_iff.mp hRun with
        ⟨⟨code, out', u⟩, hRead, hEq⟩
      cases hEq
      exact (ext2Fread_untouched hRead).readOnly h
  | fwrite data size stack =>
      rcases Option.map_eq_some_iff.mp hRun with
        ⟨⟨code, u⟩, hWrite, hEq⟩
      cases hEq
      have hBig : size > ext2GetBlockSize s := hSpares
      simp only [ext2Fwrite, h.isOpen, ensureExists, h.exist,
        writeExisting, if_pos hBig, not_true_eq_false,
        if_false, if_true, ne_eq, Option.bind_eq_bind,
        Option.bind_some] at hWrite
      cases hWrite
      exact h
  | fseek newPos stack =>
      rcases Option.map_eq_some_iff.mp hRun with
        ⟨⟨code, u⟩, hSeek, hEq⟩
      cases hEq
      simp only [ext2Fseek, h.isOpen, ensureExists, h.exist,
        not_true_eq_false, if_false, if_true, ne_eq,
        Option.bind_eq_bind, Option.bind_some] at hSeek
      split at hSeek
      · cases hSeek
        exact h
      · next hMoves =>
          exact seekExisting_spares h
            (hSpares.resolve_left hMoves) hSeek

------------------------------------------------------------
-- Sessions
------------------------------------------------------------

/- Opening an existing file does not write. -/
theorem ext2Fopen_readOnly
    {pathname : List UInt8}
    {mode : UInt8}
    {stack : FindStack}
    (hClosed : s.file.isOpen = false)
    (hMode : mode ≠ 119)
    (hOpen : ext2Fopen pathname mode stack s = some t)
    (hOpened : t.file.isOpen = true) :
    ReadOnly s.disk t := by
  have hStill {u : Fs}
      (hSame : Untouched s u) :
      u.file.isOpen ≠ true := by
    rw [hSame.file, hClosed]
    exact Bool.false_ne_true
  simp only [ext2Fopen, fopenWith, hClosed, Option.bind_eq_bind,
    Option.bind_eq_some_iff, Bool.false_eq_true,
    if_false] at hOpen
  rcases hOpen with ⟨len, -, hOpen⟩
  split at hOpen
  · cases hOpen
    exact absurd hOpened (hStill (.refl s))
  · simp only [Option.bind_eq_some_iff] at hOpen
    rcases hOpen with ⟨⟨n, u⟩, hFind, v, hExtract, hOpen⟩
    have hSame := (ext2InodeFind_untouched hFind).trans
      (ext2ExtractInode_untouched hExtract)
    split at hOpen
    · cases hOpen
      exact absurd hOpened (hStill hSame)
    · simp only [openFile, Option.bind_eq_bind,
        Option.bind_eq_some_iff] at hOpen
      rcases hOpen with ⟨_, -, name, -, hOpen⟩
      cases hOpen
      exact ⟨rfl, rfl, rfl, hSame.disk⟩

/- Closing an existing clean file does not write. -/
theorem ReadOnly.fclose_disk
    {stack : CreateStack}
    {code : UInt8}
    (h : ReadOnly disk s)
    (hClose : ext2Fclose stack s = some (code, t)) :
    t.disk = disk := by
  simp only [ext2Fclose, h.isOpen, ensureExists, h.exist,
    h.clean, not_true_eq_false, if_false, if_true, ne_eq,
    Bool.false_eq_true, Option.bind_eq_bind,
    Option.bind_some] at hClose
  cases hClose
  exact h.disk

/-
  On every image, and with any failures of the device: after
  opening an existing file without `w`, every run of calls
  that do not come to write leaves the disk as it was, in
  every state it reaches and when the file is closed there.
-/
theorem read_session_spares_disk
    {pathname : List UInt8}
    {mode : UInt8}
    {stack : FindStack}
    (hClosed : s.file.isOpen = false)
    (hMode : mode ≠ 119)
    (hOpen : ext2Fopen pathname mode stack s = some t)
    (hOpened : t.file.isOpen = true)
    {trace : List (Call × Answer)}
    {u : Fs}
    (hRun : GuardedRun exec
      (fun c _ v => c.InSession ∧ c.Spares v) t trace u) :
    u.disk = s.disk ∧ ∀ stack' code v,
      ext2Fclose stack' u = some (code, v) →
        v.disk = s.disk := by
  have hEnd : ReadOnly s.disk u := by
    refine hRun.invariant (ReadOnly s.disk)
      (ext2Fopen_readOnly hClosed hMode hOpen hOpened) ?_
    intro c o v w h hGuard hStep
    exact exec_spares h hGuard.1 hGuard.2 hStep
  exact ⟨hEnd.disk,
    fun _ _ _ hClose => hEnd.fclose_disk hClose⟩

end

------------------------------------------------------------
-- Two Sessions in the Sample Image
------------------------------------------------------------

/- Opening `/f` with mode `r`, seeking in it and closing. -/
theorem read_session_spares_sample :
    ∃ t u, ext2Fopen [47, 102, 0] 114 .zero fileSample =
        some t ∧
      ext2Fseek 5000 .zero t = some (0, u) ∧
      u.file.pos = 5000 ∧ u.disk = fileSample.disk := by
  have hFacts :
      ((ext2Fopen [47, 102, 0] 114 .zero fileSample).bind
        fun t => (exec (.fseek 5000 .zero) t).map fun r =>
          ((t.file.isOpen, r.1.code), r.2.file.pos,
            decide (5000 / ext2GetBlockSize t + 1 ≤
              allocatedBlocks t))) =
        some ((true, 0), 5000, true) := by
    decide +kernel
  rcases Option.bind_eq_some_iff.mp hFacts with
    ⟨t, hOpen, hFacts⟩
  rcases Option.map_eq_some_iff.mp hFacts with
    ⟨⟨o, u⟩, hStep, hFacts⟩
  simp only [Prod.mk.injEq, decide_eq_true_eq] at hFacts
  rcases hFacts with ⟨⟨hOpened, hCode⟩, hPos, hInside⟩
  have hSeek : ext2Fseek 5000 .zero t = some (0, u) := by
    rcases Option.map_eq_some_iff.mp hStep with
      ⟨⟨code, v⟩, hSeek, hEq⟩
    cases hEq
    rw [hSeek, ← hCode]
  have hRun : GuardedRun exec
      (fun c _ v => c.InSession ∧ c.Spares v) t
      [(.fseek 5000 .zero, o)] u :=
    .snoc .refl ⟨trivial, .inr (.inl hInside)⟩ hStep
  have hMode : (114 : UInt8) ≠ 119 := by decide
  exact ⟨t, u, hOpen, hSeek, hPos,
    (read_session_spares_disk rfl hMode hOpen hOpened hRun).1⟩

/-
  Opening `/f` with mode `r` and writing one byte stores it,
  and a seek behind its two blocks takes a third one.
-/
theorem read_session_writes :
    ImageOk fileSampleOwners fileSample ∧
      fileSample.file = File.closed ∧
    ∃ t, ext2Fopen [47, 102, 0] 114 .zero fileSample =
        some t ∧
      t.file.isOpen = true ∧ t.file.exist = true ∧
      t.file.mode.get 0 = 114 ∧
      (∃ u v, ext2Fwrite (fun _ => 7) 1 .zero t =
          some (0, u) ∧
        ext2Fclose .zero u = some (0, v) ∧
        v.disk ≠ fileSample.disk) ∧
      ∃ u v, ext2Fseek 8192 .zero t = some (0, u) ∧
        ext2Fclose .zero u = some (0, v) ∧
        v.disk ≠ fileSample.disk := by
  have hWrite :
      (ext2Fopen [47, 102, 0] 114 .zero fileSample).bind
        (fun t => (ext2Fwrite (fun _ => 7) 1 .zero t).bind
          fun u => (ext2Fclose .zero u.2).map fun v =>
            ((t.file.isOpen, t.file.exist, t.file.mode.get 0),
              u.1, v.1, (v.2.disk 6).get 0)) =
        some ((true, true, 114), 0, 0, 7) := by
    decide +kernel
  have hSeek :
      (ext2Fopen [47, 102, 0] 114 .zero fileSample).bind
        (fun t => (ext2Fseek 8192 .zero t).bind
          fun u => (ext2Fclose .zero u.2).map fun v =>
            (u.1, v.1, (v.2.disk 2).bit 16)) =
        some (0, 0, true) := by
    decide +kernel
  rcases Option.bind_eq_some_iff.mp hWrite with
    ⟨t, hOpen, hWrite⟩
  rcases Option.bind_eq_some_iff.mp hWrite with
    ⟨⟨code, u⟩, hFirst, hWrite⟩
  rcases Option.map_eq_some_iff.mp hWrite with
    ⟨⟨code', v⟩, hClose, hWrite⟩
  rw [hOpen, Option.bind_some] at hSeek
  rcases Option.bind_eq_some_iff.mp hSeek with
    ⟨⟨code₁, u₁⟩, hSecond, hSeek⟩
  rcases Option.map_eq_some_iff.mp hSeek with
    ⟨⟨code₁', v₁⟩, hClose₁, hSeek⟩
  simp only [Prod.mk.injEq] at hWrite hSeek
  rcases hWrite with
    ⟨⟨hOpened, hExist, hMode⟩, rfl, rfl, hByte⟩
  rcases hSeek with ⟨rfl, rfl, hBit⟩
  refine ⟨fileSample_imageOk, rfl, t, hOpen, hOpened, hExist,
    hMode, ⟨u, v, hFirst, hClose, ?_⟩, u₁, v₁, hSecond,
    hClose₁, ?_⟩
  · intro hSame
    rw [hSame] at hByte
    exact absurd hByte (by decide +kernel)
  · intro hSame
    rw [hSame] at hBit
    exact absurd hBit (by decide +kernel)

end Ext2

end Ester
