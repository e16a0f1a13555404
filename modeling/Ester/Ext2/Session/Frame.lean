import Ester.Ext2.File

/-
  What the parts of a call leave alone, on every image and
  with a device that may fail.

  Looking up and reading change neither the disk nor the
  descriptor.  Allocating, storing an inode and entering it
  in a directory change the disk but not the descriptor.
  Creating, writing and seeking change the descriptor, but
  not its name, not whether it is open, and they leave
  nothing pending.

  Key definitions include:
    * `DiskOnly`, `Untouched`
    * `KeepsName`

  Key theorems include:
    * `ext2InodeFind_untouched`
    * `ext2FreeAlloc_cases`
    * `ext2FileCreate_keepsName`
    * `writeExisting_keepsName`
    * `seekExisting_keepsName`
-/

------------------------------------------------------------
-- Looking Up
------------------------------------------------------------

namespace Ester

namespace Ext2

/- Only the disk may have changed, no static structure. -/
structure DiskOnly
    (s t : Fs) : Prop where
  file : t.file = s.file
  sb : t.sb = s.sb
  bgdt : t.bgdt = s.bgdt

theorem DiskOnly.refl
    (s : Fs) :
    DiskOnly s s :=
  ⟨rfl, rfl, rfl⟩

theorem DiskOnly.trans
    {s t u : Fs}
    (h₁ : DiskOnly s t)
    (h₂ : DiskOnly t u) :
    DiskOnly s u :=
  ⟨h₂.file.trans h₁.file, h₂.sb.trans h₁.sb,
    h₂.bgdt.trans h₁.bgdt⟩

/- The disk did not change either. -/
structure Untouched
    (s t : Fs) : Prop extends DiskOnly s t where
  disk : t.disk = s.disk

theorem Untouched.refl
    (s : Fs) :
    Untouched s s :=
  ⟨.refl s, rfl⟩

theorem Untouched.trans
    {s t u : Fs}
    (h₁ : Untouched s t)
    (h₂ : Untouched t u) :
    Untouched s u :=
  ⟨h₁.toDiskOnly.trans h₂.toDiskOnly,
    h₂.disk.trans h₁.disk⟩

section

variable {s t : Fs}

theorem ext2ReadBlock_untouched
    (block : UInt32)
    (s : Fs) :
    Untouched s (ext2ReadBlock block s).2.2 := by
  unfold ext2ReadBlock
  split <;> exact ⟨⟨rfl, rfl, rfl⟩, rfl⟩

theorem readLocal_untouched
    {block : UInt32}
    {err : UInt8}
    {content : Block}
    (hRead : readLocal block s = some (err, content, t)) :
    Untouched s t := by
  rw [readLocal] at hRead
  split at hRead
  · have hSame := ext2ReadBlock_untouched block s
    rwa [Option.some.inj hRead] at hSame
  · cases hRead

theorem ext2ExtractInode_untouched
    {n : UInt32}
    (hExtract : ext2ExtractInode n s = some t) :
    Untouched s t := by
  simp only [ext2ExtractInode, Option.bind_eq_bind,
    Option.bind_eq_some_iff] at hExtract
  rcases hExtract with
    ⟨_, -, ⟨err, content, u⟩, hRead, hExtract⟩
  split at hExtract
  · cases hExtract
    have hSame := readLocal_untouched hRead
    exact ⟨⟨hSame.file, hSame.sb, hSame.bgdt⟩, hSame.disk⟩
  · cases hExtract

theorem listBlocks_untouched
    {blocks : List UInt32}
    {room room' : Nat}
    {entries entries' : DirEntries}
    (hList : listBlocks blocks room entries s =
      some (room', entries', t)) :
    Untouched s t := by
  induction blocks generalizing room entries s with
  | nil =>
      cases hList
      exact .refl _
  | cons block blocks ih =>
      rw [listBlocks] at hList
      split at hList
      · cases hList
        exact .refl _
      · simp only [Option.bind_eq_bind,
          Option.bind_eq_some_iff] at hList
        rcases hList with ⟨⟨err, content, u⟩, hRead,
          ⟨full, room₁, entries₁⟩, -, hList⟩
        have hSame := readLocal_untouched hRead
        split at hList
        · cases hList
          exact hSame
        · exact hSame.trans (ih hList)

theorem ext2ListDirectory_untouched
    {n : UInt32}
    {count : Nat}
    {entries entries' : DirEntries}
    (hList : ext2ListDirectory n entries s =
      some (count, entries', t)) :
    Untouched s t := by
  simp only [ext2ListDirectory, Option.bind_eq_bind,
    Option.bind_eq_some_iff] at hList
  rcases hList with ⟨u, hExtract, hList⟩
  have hSame := ext2ExtractInode_untouched hExtract
  split at hList
  · simp only [Option.bind_eq_some_iff] at hList
    rcases hList with ⟨⟨room, entries₁, v⟩, hBlocks, hList⟩
    cases hList
    exact hSame.trans (listBlocks_untouched hBlocks)
  · cases hList
    exact hSame

theorem walkLoop_untouched
    {rows : UnpackedPath}
    {remaining i : Nat}
    {n m : UInt32}
    {entries : DirEntries}
    (hWalk : walkLoop ext2ListDirectory rows remaining i n
      entries s = some (m, t)) :
    Untouched s t := by
  induction remaining generalizing i n entries s with
  | zero =>
      cases hWalk
      exact .refl _
  | succ remaining ih =>
      simp only [walkLoop, Option.bind_eq_bind,
        Option.bind_eq_some_iff] at hWalk
      rcases hWalk with ⟨⟨count, entries₁, u⟩, hList, found,
        -, hWalk⟩
      have hSame := ext2ListDirectory_untouched hList
      split at hWalk
      · cases hWalk
        exact hSame
      · exact hSame.trans (ih hWalk)

theorem ext2InodeFind_untouched
    {pathname : List UInt8}
    {stack : FindStack}
    {n : UInt32}
    (hFind : ext2InodeFind pathname stack s = some (n, t)) :
    Untouched s t := by
  simp only [ext2InodeFind, inodeFindWith,
    Option.bind_eq_bind, Option.bind_eq_some_iff] at hFind
  rcases hFind with ⟨⟨depth, rows⟩, -, cmp, -, hFind⟩
  split at hFind
  · cases hFind
    exact .refl s
  · exact walkLoop_untouched hFind

/- Reading file data, wherever the read goes. -/
theorem ext2Fread_untouched
    {out out' : Nat → UInt8}
    {size : UInt32}
    {err : UInt8}
    (hRun : ext2Fread out size s = some (err, out', t)) :
    Untouched s t := by
  rw [ext2Fread] at hRun
  split at hRun
  · cases hRun
    exact .refl s
  · dsimp only at hRun
    split at hRun
    · cases hRun
      exact .refl s
    · split at hRun
      · cases hRun
      · split at hRun
        · simp only [Option.bind_eq_bind,
            Option.bind_eq_some_iff] at hRun
          rcases hRun with ⟨block, -, ⟨code, tmp, u⟩, hRead,
            hRun⟩
          cases hRun
          exact readLocal_untouched hRead
        · cases hRun
          exact .refl s

------------------------------------------------------------
-- Changing the Disk
------------------------------------------------------------

theorem ext2WriteBlock_diskOnly
    (block : UInt32)
    (content : Block)
    (s : Fs) :
    DiskOnly s (ext2WriteBlock block content s).2 := by
  unfold ext2WriteBlock
  split <;> exact ⟨rfl, rfl, rfl⟩

theorem ext2WriteBgdt_diskOnly
    {err : UInt8}
    (hWrite : ext2WriteBgdt s = some (err, t)) :
    DiskOnly s t := by
  simp only [ext2WriteBgdt, Option.bind_eq_bind,
    Option.bind_eq_some_iff] at hWrite
  rcases hWrite with
    ⟨⟨code, content, u⟩, hRead, content', -, hWrite⟩
  cases hWrite
  exact (readLocal_untouched hRead).toDiskOnly.trans
    (ext2WriteBlock_diskOnly _ _ _)

theorem ext2WriteSb_diskOnly
    {err : UInt8}
    (hWrite : ext2WriteSb s = some (err, t)) :
    DiskOnly s t := by
  simp only [ext2WriteSb, Option.bind_eq_bind,
    Option.bind_eq_some_iff] at hWrite
  rcases hWrite with ⟨⟨code, content, u⟩, hRead, hWrite⟩
  have hSame := (readLocal_untouched hRead).toDiskOnly
  split at hWrite
  · cases hWrite
    exact hSame
  · simp only [Option.bind_eq_some_iff] at hWrite
    rcases hWrite with ⟨content', -, hWrite⟩
    cases hWrite
    exact hSame.trans (ext2WriteBlock_diskOnly _ _ _)

/-
  An allocator that finds a clear bit decreases the counter
  of its resource, wherever its writes go.
-/
theorem ext2FreeAlloc_cases
    {r : Resource}
    {group num : UInt32}
    (hAlloc : ext2FreeAlloc r group s = some (num, t)) :
    t.file = s.file ∧ ∃ g err bitmap u found,
      ext2GetBgd group = some g ∧
        readLocal (r.bitmap (s.bgdt g)) s =
          some (err, bitmap, u) ∧
        scanBitmap bitmap (r.bound s.sb).toNat = some found ∧
        ((found = none ∧ num = 0 ∧ Untouched s t) ∨
          (found.isSome ∧ t.sb = r.decSb s.sb)) := by
  simp only [ext2FreeAlloc, Option.bind_eq_bind,
    Option.bind_eq_some_iff] at hAlloc
  rcases hAlloc with ⟨g, hGroup, ⟨code, bitmap, u⟩, hRead,
    found, hScan, hAlloc⟩
  have hSame := readLocal_untouched hRead
  rw [hSame.sb] at hScan
  cases found with
  | none =>
      cases hAlloc
      exact ⟨hSame.file, g, code, bitmap, _, none, hGroup,
        hRead, hScan, .inl ⟨rfl, rfl, hSame⟩⟩
  | some i =>
      simp only [Option.bind_eq_some_iff] at hAlloc
      rcases hAlloc with
        ⟨⟨code₁, v⟩, hBgdt, ⟨code₂, w⟩, hSb, hAlloc⟩
      have hBitmap := hSame.toDiskOnly.trans
        (ext2WriteBlock_diskOnly (r.bitmap (u.bgdt g))
          (bitmap.setBit i) u)
      have hBgdt := ext2WriteBgdt_diskOnly hBgdt
      have hSb := ext2WriteSb_diskOnly hSb
      cases hAlloc
      refine ⟨hSb.file.trans (hBgdt.file.trans hBitmap.file),
        g, code, bitmap, u, some i, hGroup, hRead, hScan,
        .inr ⟨rfl, hSb.sb.trans ?_⟩⟩
      exact congrArg r.decSb (hBgdt.sb.trans hBitmap.sb)

theorem ext2FreeAlloc_file
    {r : Resource}
    {group num : UInt32}
    (hAlloc : ext2FreeAlloc r group s = some (num, t)) :
    t.file = s.file :=
  (ext2FreeAlloc_cases hAlloc).1

theorem ext2InodeWrite_diskOnly
    {n : UInt32}
    {inode : Inode}
    (hWrite : ext2InodeWrite n inode s = some t) :
    DiskOnly s t := by
  simp only [ext2InodeWrite, Option.bind_eq_bind,
    Option.bind_eq_some_iff] at hWrite
  rcases hWrite with ⟨_, -, ⟨code, content, u⟩, hRead,
    content', -, hWrite⟩
  cases hWrite
  exact (readLocal_untouched hRead).toDiskOnly.trans
    (ext2WriteBlock_diskOnly _ _ _)

theorem addInBlocks_diskOnly
    {n : UInt32}
    {name : List UInt8}
    {blocks : List UInt32}
    {room : Nat}
    {err : UInt8}
    (hAdd : addInBlocks n name blocks room s =
      some (err, t)) :
    DiskOnly s t := by
  induction blocks generalizing room s with
  | nil =>
      cases hAdd
      exact .refl _
  | cons block blocks ih =>
      rw [addInBlocks] at hAdd
      split at hAdd
      · cases hAdd
        exact .refl _
      · simp only [Option.bind_eq_bind,
          Option.bind_eq_some_iff] at hAdd
        rcases hAdd with
          ⟨⟨code, content, u⟩, hRead, result, -, hAdd⟩
        have hSame := (readLocal_untouched hRead).toDiskOnly
        cases result with
        | full =>
            cases hAdd
            exact hSame
        | passed room' => exact hSame.trans (ih hAdd)
        | added content' =>
            cases hAdd
            exact hSame.trans (ext2WriteBlock_diskOnly _ _ _)

theorem ext2AddDirEntry_diskOnly
    {dirInode : Inode}
    {n : UInt32}
    {name : List UInt8}
    {err : UInt8}
    (hAdd : ext2AddDirEntry dirInode n name s =
      some (err, t)) :
    DiskOnly s t := by
  rw [ext2AddDirEntry] at hAdd
  split at hAdd
  · exact addInBlocks_diskOnly hAdd
  · cases hAdd
    exact .refl _

------------------------------------------------------------
-- Changing the Descriptor
------------------------------------------------------------

/-
  The descriptor keeps its name and stays open or closed, and
  nothing becomes pending in it.
-/
structure KeepsName
    (s t : Fs) : Prop where
  isOpen : t.file.isOpen = s.file.isOpen
  pathname : t.file.pathname = s.file.pathname
  clean : s.file.dirty = false → t.file.dirty = false
  noNew :
    s.file.newBytesCount = 0 → t.file.newBytesCount = 0

theorem KeepsName.of_file
    (hFile : t.file = s.file) :
    KeepsName s t where
  isOpen := by rw [hFile]
  pathname := by rw [hFile]
  clean := by rw [hFile]; exact id
  noNew := by rw [hFile]; exact id

theorem KeepsName.trans
    {u : Fs}
    (h₁ : KeepsName s t)
    (h₂ : KeepsName t u) :
    KeepsName s u where
  isOpen := h₂.isOpen.trans h₁.isOpen
  pathname := h₂.pathname.trans h₁.pathname
  clean h := h₂.clean (h₁.clean h)
  noNew h := h₂.noNew (h₁.noNew h)

theorem KeepsName.setFile
    {f : File}
    (hOpen : f.isOpen = s.file.isOpen)
    (hName : f.pathname = s.file.pathname)
    (hDirty : s.file.dirty = false → f.dirty = false)
    (hNew : s.file.newBytesCount = 0 → f.newBytesCount = 0) :
    KeepsName s (s.setFile f) :=
  ⟨hOpen, hName, hDirty, hNew⟩

theorem KeepsName.setFileInode
    (inode : Inode) :
    KeepsName s (s.setFileInode inode) :=
  .setFile rfl rfl id id

theorem KeepsName.setBuff
    (buff : ByteBuffer buffSize) :
    KeepsName s (s.setBuff buff) :=
  .setFile rfl rfl id id

theorem writeData_keepsName
    (block : UInt32)
    (spilled : Bool)
    (content : Block)
    (s : Fs) :
    KeepsName s (writeData block spilled content s) :=
  .of_file (ext2WriteBlock_diskOnly _ _ _).file

theorem commitNew_keepsName
    {parent newInode : Inode}
    {n : UInt32}
    {name : List UInt8}
    {err : UInt8}
    (hCommit : commitNew parent n newInode name s =
      some (err, t)) :
    KeepsName s t := by
  simp only [commitNew, Option.bind_eq_bind,
    Option.bind_eq_some_iff] at hCommit
  rcases hCommit with
    ⟨u, hWrite, ⟨code, v⟩, hAdd, hCommit⟩
  have hNumbered : KeepsName s (s.setFile { s.file with
      inodeNum := n
      inode := newInode }) := .setFile rfl rfl id id
  have hStored := (ext2InodeWrite_diskOnly hWrite).trans
    (ext2AddDirEntry_diskOnly hAdd)
  have hLinked : KeepsName s v :=
    hNumbered.trans (.of_file hStored.file)
  split at hCommit
  · cases hCommit
    exact hLinked
  · cases hCommit
    exact hLinked.trans (.setFile rfl rfl id id)

theorem createIn_keepsName
    {parent : UInt32}
    {garbage : Inode}
    {name : List UInt8}
    {err : UInt8}
    (hCreate : createIn parent garbage name s =
      some (err, t)) :
    KeepsName s t := by
  rw [createIn] at hCreate
  split at hCreate
  · cases hCreate
    exact .of_file rfl
  · dsimp only at hCreate
    split at hCreate
    · cases hCreate
    · simp only [Option.bind_eq_bind,
        Option.bind_eq_some_iff] at hCreate
      rcases hCreate with ⟨⟨n, u⟩, hInode, hCreate⟩
      have hTaken : KeepsName s u :=
        .of_file (ext2FreeAlloc_file hInode)
      split at hCreate
      · cases hCreate
        exact hTaken
      · simp only [Option.bind_eq_some_iff] at hCreate
        rcases hCreate with ⟨⟨block, v⟩, hBlock, hCreate⟩
        have hBoth : KeepsName s v :=
          hTaken.trans (.of_file (ext2FreeAlloc_file hBlock))
        split at hCreate
        · cases hCreate
          exact hBoth
        · exact hBoth.trans (commitNew_keepsName hCreate)

theorem ext2FileCreate_keepsName
    {stack : CreateStack}
    {err : UInt8}
    (hCreate : ext2FileCreate stack s = some (err, t)) :
    KeepsName s t := by
  simp only [ext2FileCreate, Option.bind_eq_bind,
    Option.bind_eq_some_iff] at hCreate
  rcases hCreate with ⟨len, -, hCreate⟩
  split at hCreate
  · cases hCreate
    exact .of_file rfl
  · simp only [Option.bind_eq_some_iff] at hCreate
    rcases hCreate with ⟨⟨depth, rows⟩, -, hCreate⟩
    split at hCreate
    · cases hCreate
      exact .of_file rfl
    · simp only [Option.bind_eq_some_iff] at hCreate
      rcases hCreate with ⟨path, -, ⟨parent, u⟩, hFind, v,
        hExtract, hCreate⟩
      have hSame := (ext2InodeFind_untouched hFind).trans
        (ext2ExtractInode_untouched hExtract)
      exact (KeepsName.of_file hSame.file).trans
        (createIn_keepsName hCreate)

theorem ensureExists_keepsName
    {stack : CreateStack}
    {err : UInt8}
    (hEnsure : ensureExists stack s = some (err, t)) :
    KeepsName s t := by
  rw [ensureExists] at hEnsure
  split at hEnsure
  · cases hEnsure
    exact .of_file rfl
  · exact ext2FileCreate_keepsName hEnsure

theorem growFile_keepsName
    {err : UInt8}
    {block : UInt32}
    (hGrow : growFile s = some (err, block, t)) :
    KeepsName s t := by
  rw [growFile] at hGrow
  dsimp only at hGrow
  split at hGrow
  · cases hGrow
  · simp only [Option.bind_eq_bind,
      Option.bind_eq_some_iff] at hGrow
    rcases hGrow with ⟨⟨num, u⟩, hAlloc, hGrow⟩
    have hTaken : KeepsName s u :=
      .of_file (ext2FreeAlloc_file hAlloc)
    split at hGrow
    · cases hGrow
      exact hTaken
    · split at hGrow
      · cases hGrow
        exact hTaken.trans (.setFileInode _)
      · cases hGrow
        exact hTaken

------------------------------------------------------------
-- Writing and Seeking
------------------------------------------------------------

theorem commitSize_keepsName
    {size : UInt32}
    (hCommit : commitSize size s = some t) :
    KeepsName s t :=
  (KeepsName.setFileInode _).trans
    (.of_file (ext2InodeWrite_diskOnly hCommit).file)

theorem nextBlock_keepsName
    {err : UInt8}
    {block : UInt32}
    (hNext : nextBlock s = some (err, block, t)) :
    KeepsName s t := by
  rw [nextBlock] at hNext
  split at hNext
  · exact growFile_keepsName hNext
  · simp only [Option.bind_eq_bind,
      Option.bind_eq_some_iff] at hNext
    rcases hNext with ⟨num, -, hNext⟩
    cases hNext
    exact .of_file rfl

theorem writeSpilling_keepsName
    {block : UInt32}
    {data : Nat → UInt8}
    {size : UInt32}
    {err : UInt8}
    (hWrite : writeSpilling block data size s =
      some (err, t)) :
    KeepsName s t := by
  simp only [writeSpilling, Option.bind_eq_bind,
    Option.bind_eq_some_iff] at hWrite
  rcases hWrite with
    ⟨buff, -, ⟨code, next, u⟩, hNext, hWrite⟩
  have hHead : KeepsName s u :=
    ((KeepsName.setBuff buff).trans
      (writeData_keepsName _ _ _ _)).trans
        (nextBlock_keepsName hNext)
  split at hWrite
  · cases hWrite
    exact hHead
  · simp only [Option.bind_eq_some_iff] at hWrite
    rcases hWrite with ⟨rest, -, v, hCommit, hWrite⟩
    cases hWrite
    exact (hHead.trans (writeData_keepsName _ _ _ _)).trans
      (commitSize_keepsName hCommit)

theorem writeInside_keepsName
    {block : UInt32}
    {data : Nat → UInt8}
    {size : UInt32}
    {err : UInt8}
    (hWrite : writeInside block data size s =
      some (err, t)) :
    KeepsName s t := by
  simp only [writeInside, Option.bind_eq_bind,
    Option.bind_eq_some_iff] at hWrite
  rcases hWrite with ⟨buff, -, u, hCommit, hWrite⟩
  cases hWrite
  exact ((KeepsName.setBuff buff).trans
    (writeData_keepsName _ _ _ _)).trans
      (commitSize_keepsName hCommit)

theorem writeExisting_keepsName
    {data : Nat → UInt8}
    {size : UInt32}
    {err : UInt8}
    (hWrite : writeExisting data size s = some (err, t)) :
    KeepsName s t := by
  rw [writeExisting] at hWrite
  dsimp only at hWrite
  split at hWrite
  · cases hWrite
    exact .of_file rfl
  · split at hWrite
    · cases hWrite
    · simp only [Option.bind_eq_bind,
        Option.bind_eq_some_iff] at hWrite
      rcases hWrite with ⟨block, -, hWrite⟩
      split at hWrite
      · exact writeSpilling_keepsName hWrite
      · exact writeInside_keepsName hWrite

theorem flush_keepsName
    (hFlush : flush s = some t) :
    KeepsName s t := by
  simp only [flush, Option.bind_eq_bind,
    Option.bind_eq_some_iff] at hFlush
  rcases hFlush with ⟨block, -, hFlush⟩
  have hData := writeData_keepsName block false s.file.buff s
  split at hFlush
  · exact (hData.trans (.setFileInode _)).trans
      (.of_file (ext2InodeWrite_diskOnly hFlush).file)
  · cases hFlush
    exact hData

theorem loadBlock_keepsName
    (hLoad : loadBlock s = some t) :
    KeepsName s t := by
  simp only [loadBlock, Option.bind_eq_bind,
    Option.bind_eq_some_iff] at hLoad
  rcases hLoad with ⟨block, -, hLoad⟩
  have hRead := ext2ReadBlock_untouched block s
  cases hLoad
  exact (KeepsName.of_file hRead.file).trans (.setBuff _)

theorem seekGrowing_keepsName
    {err : UInt8}
    (hSeek : seekGrowing s = some (err, t)) :
    KeepsName s t := by
  simp only [seekGrowing, Option.bind_eq_bind,
    Option.bind_eq_some_iff] at hSeek
  rcases hSeek with ⟨⟨code, block, u⟩, hGrow, hSeek⟩
  have hGrown := growFile_keepsName hGrow
  split at hSeek
  · cases hSeek
    exact hGrown
  · simp only [Option.bind_eq_some_iff] at hSeek
    rcases hSeek with ⟨buff, -, v, hWrite, hSeek⟩
    have hRead := ext2ReadBlock_untouched block u
    cases hSeek
    exact (((hGrown.trans (.of_file hRead.file)).trans
      (.setBuff buff)).trans (.setFileInode _)).trans
        (.of_file (ext2InodeWrite_diskOnly hWrite).file)

theorem seekExisting_keepsName
    {newPos : UInt32}
    {err : UInt8}
    (hSeek : seekExisting newPos s = some (err, t)) :
    KeepsName s t := by
  have hMoved (u : Fs) (hFlushed : KeepsName s u) :
      KeepsName s (u.setFile { u.file with
        pos := newPos
        newBytesCount := 0
        dirty := false }) :=
    hFlushed.trans
      (.setFile rfl rfl (fun _ => rfl) fun _ => rfl)
  -- what follows the flush, whether it ran or not
  have hRest (u : Fs) (hFlushed : KeepsName s u)
      (hTail : (if allocatedBlocks (u.setFile { u.file with
            pos := newPos
            newBytesCount := 0
            dirty := false }) <
              newPos / ext2GetBlockSize s + 1 then
          seekGrowing (u.setFile { u.file with
            pos := newPos
            newBytesCount := 0
            dirty := false })
        else (loadBlock (u.setFile { u.file with
            pos := newPos
            newBytesCount := 0
            dirty := false })).bind fun s => some (0, s)) =
          some (err, t)) :
      KeepsName s t := by
    split at hTail
    · exact (hMoved u hFlushed).trans
        (seekGrowing_keepsName hTail)
    · simp only [Option.bind_eq_some_iff] at hTail
      rcases hTail with ⟨v, hLoad, hTail⟩
      cases hTail
      exact (hMoved u hFlushed).trans
        (loadBlock_keepsName hLoad)
  simp only [seekExisting, Option.bind_eq_bind] at hSeek
  split at hSeek
  · rcases Option.bind_eq_some_iff.mp hSeek with
      ⟨u, hFlush, hSeek⟩
    exact hRest u (flush_keepsName hFlush) hSeek
  · exact hRest s (.of_file rfl) hSeek

end

end Ext2

end Ester
