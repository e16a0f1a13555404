import Ester.Ext2.Session.Calls

/-
  The code over two disks that agree on what it looks at.

  Two states have the same memory, and their disks may differ
  on blocks of a given set as long as the session has not
  written them.  The metadata and the leading blocks of the
  directories are not in the set.  Then every function of the
  file interface does the same on both states, as long as it
  does not load such a block itself, and what it writes is
  the same on both disks.

  Key definitions include:
    * `Fs.withDisk`, `Fs.Stale`
    * `Agrees`
    * `DirsKnown`, `LoadsKnown`

  Key theorems include:
    * `Agrees.claim`, `Agrees.freeAlloc`
    * `Agrees.inodeFind`
    * `Agrees.ensureExists`
    * `Agrees.fwrite`, `Agrees.fseek`, `Agrees.fread`
    * `Agrees.fopen`
-/

------------------------------------------------------------
-- Two Disks
------------------------------------------------------------

namespace Ester

namespace Ext2

namespace Fs

/- The same memory over another disk. -/
def withDisk
    (s : Fs)
    (disk : UInt32 → Block) : Fs :=
  { s with disk := disk }

/- A block of a set that the session has not written. -/
def Stale
    (s : Fs)
    (old : UInt32 → Prop)
    (b : UInt32) : Prop :=
  old b ∧ ∀ w ∈ s.dataWrites, w.block ≠ b

variable (s : Fs) (disk : UInt32 → Block)

@[simp] theorem withDisk_disk :
    (s.withDisk disk).disk = disk := rfl

@[simp] theorem withDisk_sb :
    (s.withDisk disk).sb = s.sb := rfl

@[simp] theorem withDisk_bgdt :
    (s.withDisk disk).bgdt = s.bgdt := rfl

@[simp] theorem withDisk_file :
    (s.withDisk disk).file = s.file := rfl

@[simp] theorem withDisk_self :
    s.withDisk s.disk = s := rfl

@[simp] theorem withDisk_layout :
    (s.withDisk disk).layout = s.layout := rfl

end Fs

/-
  The disk holds what the state's own disk holds, except on
  stale blocks, and no metadata block can be stale.
-/
structure Agrees
    (old : UInt32 → Prop)
    (s : Fs)
    (disk : UInt32 → Block) : Prop where
  faults : s.faults = []
  layout : s.layout.Ok
  metadata : ∀ b, s.layout.IsMeta b → ¬ old b
  same : ∀ b, ¬ s.Stale old b → disk b = s.disk b

namespace Agrees

variable {old : UInt32 → Prop} {s t : Fs}
variable {disk : UInt32 → Block}

section

variable (h : Agrees old s disk)
include h

theorem steady : s.Steady :=
  ⟨h.faults, h.layout.blockSize⟩

theorem steady' : (s.withDisk disk).Steady :=
  ⟨h.faults, h.layout.blockSize⟩

theorem of_known
    {b : UInt32}
    (hb : ¬ old b) :
    disk b = s.disk b :=
  h.same b fun hStale => hb hStale.1

theorem of_meta
    {b : UInt32}
    (hb : s.layout.IsMeta b) :
    disk b = s.disk b :=
  h.of_known (h.metadata b hb)

theorem setFile
    (f : File) :
    Agrees old (s.setFile f) disk :=
  ⟨h.faults, h.layout, h.metadata, h.same⟩

theorem setFileInode
    (inode : Inode) :
    Agrees old (s.setFileInode inode) disk :=
  h.setFile _

theorem setBuff
    (buff : ByteBuffer buffSize) :
    Agrees old (s.setBuff buff) disk :=
  h.setFile _

theorem setCurrentInode
    (inode : Inode) :
    Agrees old (s.setCurrentInode inode) disk :=
  ⟨h.faults, h.layout, h.metadata, h.same⟩

/- The same content in the same block of both disks. -/
theorem putBlock
    (b : UInt32)
    (content : Block) :
    Agrees old (s.putBlock b content)
      (Function.update disk b content) where
  faults := h.faults
  layout := h.layout
  metadata := h.metadata
  same b' hb' := by
    rw [Fs.putBlock_disk, Function.update_apply]
    split
    · rfl
    · exact h.same b' hb'

end

/- What a session writes is no longer stale. -/
theorem wrote
    (h : Agrees old s disk)
    (b : UInt32)
    (spilled : Bool)
    (content : Block) :
    Agrees old (s.wrote b spilled content)
      (Function.update disk b content) where
  faults := h.faults
  layout := h.layout
  metadata := h.metadata
  same b' hb' := by
    by_cases hEq : b' = b
    · subst hEq
      rw [Fs.wrote_disk_self, Function.update_self]
    · rw [Fs.wrote_disk_of_ne _ _ _ _ hEq,
        Function.update_of_ne hEq]
      refine h.same b' fun hStale => hb' ⟨hStale.1, ?_⟩
      intro w hw
      rw [Fs.wrote_dataWrites, List.mem_append,
        List.mem_singleton] at hw
      rcases hw with hw | rfl
      · exact hStale.2 w hw
      · exact fun hBlock => hEq hBlock.symm

------------------------------------------------------------
-- Inodes
------------------------------------------------------------

section

variable (h : Agrees old s disk)
variable {n : UInt32} (hn : s.layout.ValidInode n)
include h hn

theorem inodeAt :
    (s.withDisk disk).inodeAt n = s.inodeAt n :=
  congrArg
    (fun content : Block => inodeCodec.decode
      (content.slice (s.layout.slotOffset n)))
    (h.of_meta (h.layout.slotBlock_meta hn))

theorem extractInode :
    ext2ExtractInode n (s.withDisk disk) =
      some ((s.setCurrentInode (s.inodeAt n)).withDisk
        disk) := by
  rw [ext2ExtractInode_eq h.steady' h.layout hn,
    h.inodeAt hn]
  rfl

theorem putInode
    (inode : Inode) :
    ∃ disk',
      (s.withDisk disk).putInode n inode =
        (s.putInode n inode).withDisk disk' ∧
      Agrees old (s.putInode n inode) disk' := by
  have hSlot := h.of_meta (h.layout.slotBlock_meta hn)
  refine ⟨_, ?_, h.putBlock (s.layout.slotBlock n) _⟩
  rw [← hSlot]
  rfl

theorem inodeWrite
    {inode : Inode}
    (hWrite : ext2InodeWrite n inode s = some t) :
    ∃ disk',
      ext2InodeWrite n inode (s.withDisk disk) =
        some (t.withDisk disk') ∧
      Agrees old t disk' := by
  rw [ext2InodeWrite_eq h.steady h.layout hn] at hWrite
  cases hWrite
  rcases h.putInode hn inode with ⟨disk', hPut, hAgrees⟩
  refine ⟨disk', ?_, hAgrees⟩
  rw [ext2InodeWrite_eq h.steady' h.layout hn, hPut]

end

------------------------------------------------------------
-- Allocations
------------------------------------------------------------

section

variable {r : Resource} {g : Fin maxGroups}

theorem nextFree
    (h : Agrees old s disk)
    (hg : g < s.layout.groups) :
    (s.withDisk disk).nextFree r g = s.nextFree r g :=
  congrArg
    (fun content : Block =>
      content.firstClear s.layout.inodesPerGroup)
    (h.of_meta (.bitmap r g hg))

theorem claim
    (h : Agrees old s disk)
    (hg : g < s.layout.groups)
    (i : Nat) :
    ∃ disk',
      (s.withDisk disk).claim r g i =
        (s.claim r g i).withDisk disk' ∧
      Agrees old (s.claim r g i) disk' := by
  have hBitmap : disk (r.bitmap (s.bgdt g)) =
      s.disk (r.bitmap (s.bgdt g)) :=
    h.of_meta (.bitmap r g hg)
  have hTable := h.of_meta .groupTable
  have hSuper := h.of_meta .superBlock
  refine ⟨((s.withDisk disk).claim r g i).disk, rfl,
    h.faults, ?_, ?_, ?_⟩
  · rw [Fs.claim_layout]
    exact h.layout
  · rw [Fs.claim_layout]
    exact h.metadata
  · intro b hb
    have hOld := h.same b hb
    simp only [Fs.claim, Fs.putBlock_disk, Fs.setSb_disk,
      Fs.setBgdt_disk, Fs.putBlock_bgdt, Fs.setBgdt_bgdt,
      Fs.putBlock_sb, Fs.setBgdt_sb, Fs.setSb_sb,
      Fs.withDisk_disk, Fs.withDisk_bgdt, Fs.withDisk_sb,
      hOld, hTable, hSuper, hBitmap]

/- Both allocators find the same bit. -/
theorem freeAlloc
    (h : Agrees old s disk)
    {n num : UInt32}
    (hn : s.layout.ValidInode n)
    (hAlloc : ext2FreeAlloc r
      ((n - 1) / s.sb.sInodesPerGroup) s = some (num, t)) :
    t.layout = s.layout ∧
      (r = .inode → num ≠ 0 → s.layout.ValidInode num) ∧
      ∃ disk',
        ext2FreeAlloc r ((n - 1) / s.sb.sInodesPerGroup)
          (s.withDisk disk) = some (num, t.withDisk disk') ∧
        Agrees old t disk' := by
  have hg := h.layout.slotGroup_lt hn
  have hOther : ext2FreeAlloc r
      ((n - 1) / s.sb.sInodesPerGroup) (s.withDisk disk) = _ :=
    ext2FreeAlloc_of_valid h.steady' h.layout hn r
  rw [ext2FreeAlloc_of_valid h.steady h.layout hn] at hAlloc
  rw [Fs.withDisk_layout, h.nextFree hg] at hOther
  cases hNext : s.nextFree r (s.layout.slotGroup n) with
  | none =>
      rw [hNext] at hAlloc hOther
      cases hAlloc
      exact ⟨rfl, fun _ h0 => absurd rfl h0, disk, hOther, h⟩
  | some i =>
      rw [hNext] at hAlloc hOther
      cases hAlloc
      rcases h.claim hg i with ⟨disk', hClaim, hAgrees⟩
      refine ⟨Fs.claim_layout _ _ _ _, ?_, disk', ?_, hAgrees⟩
      · rintro rfl -
        exact (FreeBit.of_nextFree hg hNext).validInode h.layout
      · rw [hOther]
        exact congrArg (fun v => some (_, v)) hClaim

end

------------------------------------------------------------
-- Directories
------------------------------------------------------------

/- Reading the blocks of a listing. -/
theorem listBlocks
    (h : Agrees old s disk)
    {blocks : List UInt32}
    (hBlocks : LeadingOk (fun b => ¬ old b) blocks)
    {room room' : Nat}
    {entries entries' : DirEntries}
    (hList : Ext2.listBlocks blocks room entries s =
      some (room', entries', t)) :
    t = s ∧
      Ext2.listBlocks blocks room entries (s.withDisk disk) =
        some (room', entries', s.withDisk disk) := by
  induction blocks generalizing room entries with
  | nil =>
      cases hList
      exact ⟨rfl, rfl⟩
  | cons b blocks ih =>
      rw [Ext2.listBlocks] at hList ⊢
      split at hList
      · next hb =>
          cases hList
          rw [if_pos hb]
          exact ⟨rfl, rfl⟩
      · next hb =>
          rcases hBlocks hb with ⟨hKnown, hRest⟩
          rw [readLocal_of_steady h.steady] at hList
          rw [if_neg hb, readLocal_of_steady h.steady',
            Fs.withDisk_disk, h.of_known hKnown]
          simp only [Option.bind_eq_bind, Option.bind_some,
            Option.bind_eq_some_iff] at hList
          rcases hList with
            ⟨⟨full, room₁, entries₁⟩, hBlock, hList⟩
          simp only [Option.bind_eq_bind, Option.bind_some,
            hBlock]
          split at hList
          · next hFull =>
              cases hList
              rw [if_pos hFull]
              exact ⟨rfl, rfl⟩
          · next hFull =>
              rw [if_neg hFull]
              exact ih hRest hList

end Agrees

/-
  The image is well formed, and no live directory of it has a
  block of the set.
-/
structure DirsKnown
    (old : UInt32 → Prop)
    (owners : Owners)
    (s : Fs) : Prop where
  image : ImageOk owners s
  known :
    ∀ n, LiveInode s.layout owners n → (s.inodeAt n).isDir →
      LeadingOk (fun b => ¬ old b) (s.inodeAt n).directBlocks

theorem DirsKnown.setCurrentInode
    {old : UInt32 → Prop}
    {owners : Owners}
    {s : Fs}
    (h : DirsKnown old owners s)
    (inode : Inode) :
    DirsKnown old owners (s.setCurrentInode inode) :=
  ⟨h.image.setCurrentInode inode, h.known⟩

namespace Agrees

variable {old : UInt32 → Prop} {owners : Owners} {s t : Fs}
variable {disk : UInt32 → Block}

section

variable (h : Agrees old s disk)
variable (hDirs : DirsKnown old owners s)
include h hDirs

theorem listDirectory
    {n : UInt32}
    (hn : LiveInode s.layout owners n)
    {entries entries' : DirEntries}
    {count : Nat}
    (hList : ext2ListDirectory n entries s =
      some (count, entries', t)) :
    ext2ListDirectory n entries (s.withDisk disk) =
      some (count, entries', t.withDisk disk) := by
  rw [ext2ListDirectory,
    ext2ExtractInode_eq h.steady h.layout hn.valid] at hList
  rw [ext2ListDirectory, h.extractInode hn.valid]
  simp only [Option.bind_eq_bind, Option.bind_some]
    at hList ⊢
  split at hList
  · next hDir =>
      simp only [Option.bind_eq_some_iff] at hList
      rcases hList with ⟨⟨room, entries₁, u⟩, hBlocks, hList⟩
      cases hList
      rcases (h.setCurrentInode (s.inodeAt n)).listBlocks
          (hDirs.known n hn hDir) hBlocks with ⟨rfl, hOther⟩
      refine (if_pos hDir).trans ?_
      change (Ext2.listBlocks (s.inodeAt n).directBlocks _ _
        _).bind _ = _
      rw [hOther]
      rfl
  · next hDir =>
      cases hList
      exact if_neg hDir

theorem walkLoop
    {rows : UnpackedPath}
    {remaining i : Nat}
    {n m : UInt32}
    (hn : LiveInode s.layout owners n)
    {entries : DirEntries}
    {inode : Inode}
    (hWalk : Ext2.walkLoop ext2ListDirectory rows remaining i
      n entries (s.setCurrentInode inode) = some (m, t)) :
    Ext2.walkLoop ext2ListDirectory rows remaining i n entries
        ((s.setCurrentInode inode).withDisk disk) =
      some (m, t.withDisk disk) := by
  induction remaining generalizing i n entries inode with
  | zero =>
      cases hWalk
      rfl
  | succ remaining ih =>
      simp only [Ext2.walkLoop, Option.bind_eq_bind,
        Option.bind_eq_some_iff] at hWalk
      rcases hWalk with ⟨⟨count, entries₁, u⟩, hList,
        found, hMatch, hWalk⟩
      have hSet := h.setCurrentInode inode
      have hKnown := hDirs.setCurrentInode inode
      have hOther := hSet.listDirectory hKnown hn hList
      rcases ext2ListDirectory_delivers hKnown.image hn hList
        with ⟨rfl, hOk⟩
      simp only [Ext2.walkLoop, hOther, Option.bind_eq_bind,
        Option.bind_some, hMatch]
      split at hWalk
      · next hStop =>
          cases hWalk
          rw [if_pos hStop]
      · next hStop =>
          rw [if_neg hStop]
          refine ih ?_ hWalk
          cases found with
          | none => exact hn
          | some k => exact matchEntry_live hOk hMatch

/- The lookup of a path. -/
theorem inodeFind
    {pathname : List UInt8}
    {stack : FindStack}
    {n : UInt32}
    (hFind : ext2InodeFind pathname stack s = some (n, t)) :
    ext2InodeFind pathname stack (s.withDisk disk) =
      some (n, t.withDisk disk) := by
  simp only [ext2InodeFind, inodeFindWith,
    Option.bind_eq_bind, Option.bind_eq_some_iff] at hFind
  rcases hFind with ⟨⟨depth, rows⟩, hUnpack, cmp, hCmp, hFind⟩
  simp only [ext2InodeFind, inodeFindWith, hUnpack, hCmp,
    Option.bind_eq_bind, Option.bind_some]
  split at hFind
  · next hRoot =>
      cases hFind
      rw [if_pos hRoot]
  · next hRoot =>
      rw [if_neg hRoot]
      exact h.walkLoop hDirs (.root h.layout owners)
        (show Ext2.walkLoop _ _ _ _ _ _
          (s.setCurrentInode s.currentInode) = _ from hFind)

end

------------------------------------------------------------
-- Creation
------------------------------------------------------------

/- Adding an entry to a directory outside the set. -/
theorem addInBlocks
    (h : Agrees old s disk)
    {blocks : List UInt32}
    (hBlocks : LeadingOk (fun b => ¬ old b) blocks)
    {n : UInt32}
    {name : List UInt8}
    {room : Nat}
    {err : UInt8}
    (hAdd : Ext2.addInBlocks n name blocks room s =
      some (err, t)) :
    ∃ disk',
      Ext2.addInBlocks n name blocks room (s.withDisk disk) =
        some (err, t.withDisk disk') ∧
      Agrees old t disk' := by
  induction blocks generalizing room with
  | nil =>
      cases hAdd
      exact ⟨disk, rfl, h⟩
  | cons b blocks ih =>
      rw [Ext2.addInBlocks] at hAdd ⊢
      split at hAdd
      · next hb =>
          cases hAdd
          rw [if_pos hb]
          exact ⟨disk, rfl, h⟩
      · next hb =>
          rcases hBlocks hb with ⟨hKnown, hRest⟩
          rw [readLocal_of_steady h.steady] at hAdd
          rw [if_neg hb, readLocal_of_steady h.steady',
            Fs.withDisk_disk, h.of_known hKnown]
          simp only [Option.bind_eq_bind, Option.bind_some,
            Option.bind_eq_some_iff] at hAdd
          rcases hAdd with ⟨result, hBlock, hAdd⟩
          simp only [Option.bind_eq_bind, Option.bind_some,
            hBlock]
          cases result with
          | full =>
              cases hAdd
              exact ⟨disk, rfl, h⟩
          | passed room₁ => exact ih hRest hAdd
          | added content =>
              simp only [ext2WriteBlock_of_steady h.steady]
                at hAdd
              cases hAdd
              refine ⟨_, ?_, h.putBlock b content⟩
              simp only [ext2WriteBlock_of_steady h.steady']
              rfl

theorem commitNew
    (h : Agrees old s disk)
    {parentInode newInode : Inode}
    (hParent : parentInode.isDir →
      LeadingOk (fun b => ¬ old b) parentInode.directBlocks)
    {n : UInt32}
    (hn : s.layout.ValidInode n)
    {name : List UInt8}
    {err : UInt8}
    (hCommit : Ext2.commitNew parentInode n newInode name s =
      some (err, t)) :
    ∃ disk',
      Ext2.commitNew parentInode n newInode name
        (s.withDisk disk) = some (err, t.withDisk disk') ∧
      Agrees old t disk' := by
  simp only [Ext2.commitNew, Option.bind_eq_bind,
    Option.bind_eq_some_iff] at hCommit
  rcases hCommit with ⟨u, hWrite, ⟨code, v⟩, hAdd, hCommit⟩
  have hSet := h.setFile { s.file with
    inodeNum := n
    inode := newInode }
  rcases hSet.inodeWrite hn hWrite with ⟨disk₁, hWrite', h₁⟩
  have hEntry : ∃ disk',
      ext2AddDirEntry parentInode n name (u.withDisk disk₁) =
        some (code, v.withDisk disk') ∧
      Agrees old v disk' := by
    rw [ext2AddDirEntry] at hAdd ⊢
    split at hAdd
    · next hDir =>
        rw [if_pos hDir]
        exact h₁.addInBlocks (hParent hDir) hAdd
    · next hDir =>
        cases hAdd
        rw [if_neg hDir]
        exact ⟨disk₁, rfl, h₁⟩
  rcases hEntry with ⟨disk₂, hAdd', h₂⟩
  have hRun : Ext2.commitNew parentInode n newInode name
      (s.withDisk disk) =
        (if code ≠ 0 then some (1, v.withDisk disk₂)
        else some (0, (v.setFile { v.file with
          exist := true }).withDisk disk₂)) := by
    rw [Ext2.commitNew]
    refine (congrArg (fun x => Option.bind x _) hWrite').trans
      ?_
    refine (congrArg (fun x => Option.bind x _) hAdd').trans ?_
    rfl
  rw [hRun]
  split at hCommit
  · next hCode =>
      cases hCommit
      rw [if_pos hCode]
      exact ⟨disk₂, rfl, h₂⟩
  · next hCode =>
      cases hCommit
      rw [if_neg hCode]
      exact ⟨disk₂, rfl, h₂.setFile _⟩

/- Creating in a directory, without the checks it passes. -/
theorem createIn_of_dir
    (hDir : s.currentInode.isDir)
    (hGroup : s.sb.sInodesPerGroup ≠ 0)
    (parent : UInt32)
    (garbage : Inode)
    (name : List UInt8) :
    Ext2.createIn parent garbage name s =
      (ext2FreeAlloc .inode
        ((parent - 1) / s.sb.sInodesPerGroup) s).bind fun p =>
          if p.1 = 0 then some (1, p.2)
          else (ext2FreeAlloc .block
            ((parent - 1) / s.sb.sInodesPerGroup) p.2).bind
              fun q =>
                if q.1 = 0 then some (1, q.2)
                else Ext2.commitNew s.currentInode p.1
                  (initInode garbage q.1 q.2) name q.2 := by
  rw [Ext2.createIn, if_neg (not_not.mpr hDir)]
  exact if_neg hGroup

/- Creating in an extracted parent. -/
theorem createIn
    (h : Agrees old s disk)
    {parent : UInt32}
    (hn : s.layout.ValidInode parent)
    (hParent : s.currentInode.isDir →
      LeadingOk (fun b => ¬ old b)
        s.currentInode.directBlocks)
    {garbage : Inode}
    {name : List UInt8}
    {err : UInt8}
    (hCreate : Ext2.createIn parent garbage name s =
      some (err, t)) :
    ∃ disk',
      Ext2.createIn parent garbage name (s.withDisk disk) =
        some (err, t.withDisk disk') ∧
      Agrees old t disk' := by
  have hGroup := (group_of_validInode h.layout hn).1
  by_cases hDir : s.currentInode.isDir
  · rw [createIn_of_dir hDir hGroup,
      Option.bind_eq_some_iff] at hCreate
    rcases hCreate with ⟨⟨num, u⟩, hInode, hCreate⟩
    rcases h.freeAlloc hn hInode with
      ⟨hLayout, hNum, disk₁, hInode', h₁⟩
    have hPer : u.sb.sInodesPerGroup = s.sb.sInodesPerGroup :=
      UInt32.toNat_inj.mp
        (congrArg Layout.inodesPerGroup hLayout)
    have hRun := createIn_of_dir (s := s.withDisk disk) hDir
      hGroup parent garbage name
    rw [Fs.withDisk_sb, hInode', Option.bind_some] at hRun
    rw [hRun]
    dsimp only at hCreate ⊢
    split at hCreate
    · next hZero =>
        cases hCreate
        rw [if_pos hZero]
        exact ⟨disk₁, rfl, h₁⟩
    · next hZero =>
        rw [if_neg hZero]
        rw [Option.bind_eq_some_iff] at hCreate
        rcases hCreate with ⟨⟨block, v⟩, hBlock, hCreate⟩
        rw [← hPer] at hBlock
        rcases h₁.freeAlloc (hLayout.symm ▸ hn) hBlock with
          ⟨hLayout', -, disk₂, hBlock', h₂⟩
        rw [← hPer, hBlock', Option.bind_some]
        dsimp only at hCreate ⊢
        split at hCreate
        · next hZero' =>
            cases hCreate
            rw [if_pos hZero']
            exact ⟨disk₂, rfl, h₂⟩
        · next hZero' =>
            rw [if_neg hZero']
            refine h₂.commitNew hParent ?_ hCreate
            rw [hLayout', hLayout]
            exact hNum rfl hZero
  · rw [Ext2.createIn, if_pos hDir] at hCreate
    cases hCreate
    exact ⟨disk, if_pos hDir, h⟩

section

variable (h : Agrees old s disk)
include h

/- Creating the open file. -/
theorem fileCreate
    (hDirs : DirsKnown old owners s)
    {stack : CreateStack}
    {err : UInt8}
    (hCreate : ext2FileCreate stack s = some (err, t)) :
    ∃ disk',
      ext2FileCreate stack (s.withDisk disk) =
        some (err, t.withDisk disk') ∧
      Agrees old t disk' := by
  simp only [ext2FileCreate, Option.bind_eq_bind,
    Option.bind_eq_some_iff] at hCreate
  rcases hCreate with ⟨len, hLen, hCreate⟩
  simp only [ext2FileCreate, Fs.withDisk_file, hLen,
    Option.bind_eq_bind, Option.bind_some]
  split at hCreate
  · next hLong =>
      cases hCreate
      rw [if_pos hLong]
      exact ⟨disk, rfl, h⟩
  · next hLong =>
      rw [if_neg hLong]
      simp only [Option.bind_eq_some_iff] at hCreate
      rcases hCreate with ⟨⟨depth, rows⟩, hUnpack, hCreate⟩
      simp only [hUnpack, Option.bind_some]
      split at hCreate
      · next hDeep =>
          cases hCreate
          rw [if_pos hDeep]
          exact ⟨disk, rfl, h⟩
      · next hDeep =>
          rw [if_neg hDeep]
          simp only [Option.bind_eq_some_iff] at hCreate
          rcases hCreate with ⟨path, hGlue, ⟨parent, u⟩,
            hFind, v, hExtract, hCreate⟩
          rcases ext2InodeFind_live hDirs.image hFind with
            ⟨hLive, inode, rfl⟩
          have hSet := h.setCurrentInode inode
          rw [ext2ExtractInode_eq hSet.steady hSet.layout
            hLive.valid] at hExtract
          cases hExtract
          simp only [hGlue, h.inodeFind hDirs hFind,
            hSet.extractInode hLive.valid, Option.bind_some]
          exact (h.setCurrentInode (s.inodeAt parent)).createIn
            hLive.valid (hDirs.known parent hLive) hCreate

/- Creating the open file if it does not exist. -/
theorem ensureExists
    (hDirs :
      s.file.exist = false → ∃ owners, DirsKnown old owners s)
    {stack : CreateStack}
    {err : UInt8}
    (hEnsure : Ext2.ensureExists stack s = some (err, t)) :
    ∃ disk',
      Ext2.ensureExists stack (s.withDisk disk) =
        some (err, t.withDisk disk') ∧
      Agrees old t disk' := by
  rw [Ext2.ensureExists] at hEnsure ⊢
  split at hEnsure
  · next hExist =>
      cases hEnsure
      exact ⟨disk, if_pos hExist, h⟩
  · next hExist =>
      rcases hDirs (Bool.eq_false_iff.mpr hExist) with
        ⟨owners, hKnown⟩
      rcases h.fileCreate hKnown hEnsure with
        ⟨disk', hCreate, hAgrees⟩
      exact ⟨disk', (if_neg hExist).trans hCreate, hAgrees⟩

end

------------------------------------------------------------
-- Writing
------------------------------------------------------------

theorem writeData
    (h : Agrees old s disk)
    (b : UInt32)
    (spilled : Bool)
    (content : Block) :
    ∃ disk',
      Ext2.writeData b spilled content (s.withDisk disk) =
        (s.wrote b spilled content).withDisk disk' ∧
      Agrees old (s.wrote b spilled content) disk' :=
  ⟨_, writeData_of_steady h.steady' b spilled content,
    h.wrote b spilled content⟩

/- Growing the open file takes the same block. -/
theorem growFile
    (h : Agrees old s disk)
    (hn : s.layout.ValidInode s.file.inodeNum)
    {err : UInt8}
    {num : UInt32}
    (hGrow : Ext2.growFile s = some (err, num, t)) :
    t.layout.ValidInode t.file.inodeNum ∧
      ∃ disk',
        Ext2.growFile (s.withDisk disk) =
          some (err, num, t.withDisk disk') ∧
        Agrees old t disk' := by
  have hGroup := (group_of_validInode h.layout hn).1
  have hRun : ∀ v : Fs, v.sb = s.sb → v.file = s.file →
      Ext2.growFile v =
        (ext2FreeAlloc .block ((s.file.inodeNum - 1) /
          s.sb.sInodesPerGroup) v).bind fun p =>
            if p.1 = 0 then some (1, 0, p.2)
            else if hFew : (allocatedBlocks v).toNat <
                ext2NdirBlocks then
              some (0, p.1, p.2.setFileInode
                { p.2.file.inode.setBlock
                    ⟨(allocatedBlocks v).toNat,
                      Nat.lt_trans hFew (by decide)⟩ p.1 with
                  iDiskSectorsCount :=
                    p.2.file.inode.iDiskSectorsCount +
                      ext2BlocksToSectors 1 p.2 })
            else some (1, 0, p.2) := by
    intro v hSb hFile
    rw [Ext2.growFile, ext2GetInodesPerGroup, hSb, hFile]
    exact if_neg hGroup
  rw [hRun s rfl rfl, Option.bind_eq_some_iff] at hGrow
  rcases hGrow with ⟨⟨block, u⟩, hAlloc, hGrow⟩
  rcases h.freeAlloc hn hAlloc with
    ⟨hLayout, -, disk', hAlloc', hAgrees⟩
  have hValid : u.layout.ValidInode u.file.inodeNum := by
    rwa [hLayout, ext2FreeAlloc_file hAlloc]
  rw [hRun (s.withDisk disk) rfl rfl, hAlloc',
    Option.bind_some]
  dsimp only at hGrow ⊢
  split at hGrow
  · next hZero =>
      cases hGrow
      rw [if_pos hZero]
      exact ⟨hValid, disk', rfl, hAgrees⟩
  · next hZero =>
      rw [if_neg hZero]
      split at hGrow
      · next hFew =>
          cases hGrow
          exact ⟨hValid, disk', dif_pos hFew,
            hAgrees.setFileInode _⟩
      · next hFew =>
          cases hGrow
          exact ⟨hValid, disk', dif_neg hFew, hAgrees⟩

/- The block a spilling write goes on in. -/
theorem nextBlock
    (h : Agrees old s disk)
    (hn : s.layout.ValidInode s.file.inodeNum)
    {err : UInt8}
    {num : UInt32}
    (hNext : Ext2.nextBlock s = some (err, num, t)) :
    t.layout.ValidInode t.file.inodeNum ∧
      ∃ disk',
        Ext2.nextBlock (s.withDisk disk) =
          some (err, num, t.withDisk disk') ∧
        Agrees old t disk' := by
  simp only [Ext2.nextBlock] at hNext
  split at hNext
  · next hGrows =>
      rcases h.growFile hn hNext with
        ⟨hValid, disk', hGrow, hAgrees⟩
      exact ⟨hValid, disk', (if_pos hGrows).trans hGrow,
        hAgrees⟩
  · next hGrows =>
      simp only [Option.bind_eq_bind,
        Option.bind_eq_some_iff] at hNext
      rcases hNext with ⟨ptr, hPtr, hNext⟩
      cases hNext
      refine ⟨hn, disk, (if_neg hGrows).trans ?_, h⟩
      exact congrArg (fun x => Option.bind x _) hPtr

theorem commitSize
    (h : Agrees old s disk)
    (hn : s.layout.ValidInode s.file.inodeNum)
    {size : UInt32}
    (hCommit : Ext2.commitSize size s = some t) :
    ∃ disk',
      Ext2.commitSize size (s.withDisk disk) =
        some (t.withDisk disk') ∧
      Agrees old t disk' := by
  refine (h.setFileInode _).inodeWrite ?_ hCommit
  exact hn

theorem writeInside
    (h : Agrees old s disk)
    (hn : s.layout.ValidInode s.file.inodeNum)
    {b size : UInt32}
    {data : Nat → UInt8}
    {err : UInt8}
    (hWrite : Ext2.writeInside b data size s =
      some (err, t)) :
    ∃ disk',
      Ext2.writeInside b data size (s.withDisk disk) =
        some (err, t.withDisk disk') ∧
      Agrees old t disk' := by
  simp only [Ext2.writeInside, Option.bind_eq_bind,
    Option.bind_eq_some_iff] at hWrite
  rcases hWrite with ⟨buff, hCopy, u, hCommit, hWrite⟩
  cases hWrite
  rw [writeData_of_steady (h.setBuff buff).steady] at hCommit
  rcases (h.setBuff buff).writeData b false buff with
    ⟨disk₁, hData, h₁⟩
  rcases h₁.commitSize hn hCommit with ⟨disk₂, hCommit', h₂⟩
  refine ⟨disk₂, ?_, h₂⟩
  refine (congrArg (fun x => Option.bind x _) hCopy).trans ?_
  change (Ext2.commitSize size (Ext2.writeData b false buff
    ((s.setBuff buff).withDisk disk))).bind _ = _
  rw [hData, hCommit']
  rfl

theorem writeSpilling
    (h : Agrees old s disk)
    (hn : s.layout.ValidInode s.file.inodeNum)
    {b size : UInt32}
    {data : Nat → UInt8}
    {err : UInt8}
    (hWrite : Ext2.writeSpilling b data size s =
      some (err, t)) :
    ∃ disk',
      Ext2.writeSpilling b data size (s.withDisk disk) =
        some (err, t.withDisk disk') ∧
      Agrees old t disk' := by
  simp only [Ext2.writeSpilling, Option.bind_eq_bind,
    Option.bind_eq_some_iff] at hWrite
  rcases hWrite with
    ⟨buff, hCopy, ⟨code, num, u⟩, hNext, hWrite⟩
  rw [writeData_of_steady (h.setBuff buff).steady] at hNext
  rcases (h.setBuff buff).writeData b false buff with
    ⟨disk₁, hData, h₁⟩
  rcases h₁.nextBlock hn hNext with
    ⟨hValid, disk₂, hNext', h₂⟩
  have hStart : (Ext2.nextBlock (Ext2.writeData b false buff
      ((s.setBuff buff).withDisk disk))) =
        some (code, num, u.withDisk disk₂) := by
    rw [hData, hNext']
  split at hWrite
  · next hCode =>
      cases hWrite
      refine ⟨disk₂, ?_, h₂⟩
      refine (congrArg (fun x => Option.bind x _) hCopy).trans
        ?_
      refine (congrArg (fun x => Option.bind x _) hStart).trans
        ?_
      exact if_pos hCode
  · next hCode =>
      simp only [Option.bind_eq_some_iff] at hWrite
      rcases hWrite with ⟨rest, hRest, v, hCommit, hWrite⟩
      cases hWrite
      rw [writeData_of_steady h₂.steady] at hCommit
      rcases h₂.writeData num true rest with
        ⟨disk₃, hData', h₃⟩
      rcases h₃.commitSize hValid hCommit with
        ⟨disk₄, hCommit', h₄⟩
      refine ⟨disk₄, ?_, h₄⟩
      refine (congrArg (fun x => Option.bind x _) hCopy).trans
        ?_
      refine (congrArg (fun x => Option.bind x _) hStart).trans
        ?_
      refine (if_neg hCode).trans ?_
      refine (congrArg (fun x => Option.bind x _) hRest).trans
        ?_
      change (Ext2.commitSize size (Ext2.writeData num true rest
        (u.withDisk disk₂))).bind _ = _
      rw [hData', hCommit']
      rfl

/- Writing to an open file that exists. -/
theorem writeExisting
    (h : Agrees old s disk)
    (hn : s.layout.ValidInode s.file.inodeNum)
    {size : UInt32}
    {data : Nat → UInt8}
    {err : UInt8}
    (hWrite : Ext2.writeExisting data size s =
      some (err, t)) :
    ∃ disk',
      Ext2.writeExisting data size (s.withDisk disk) =
        some (err, t.withDisk disk') ∧
      Agrees old t disk' := by
  simp only [Ext2.writeExisting] at hWrite
  split at hWrite
  · next hBig =>
      cases hWrite
      exact ⟨disk, if_pos hBig, h⟩
  · next hSmall =>
      split at hWrite
      · cases hWrite
      · next hSize =>
          simp only [Option.bind_eq_bind,
            Option.bind_eq_some_iff] at hWrite
          rcases hWrite with ⟨b, hPtr, hWrite⟩
          have hRun : Ext2.writeExisting data size
              (s.withDisk disk) =
                (if s.file.pos % ext2GetBlockSize s + size >
                    ext2GetBlockSize s then
                  Ext2.writeSpilling b data size
                    (s.withDisk disk)
                else Ext2.writeInside b data size
                  (s.withDisk disk)) := by
            refine (if_neg hSmall).trans
              ((if_neg hSize).trans ?_)
            exact congrArg (fun x => Option.bind x _) hPtr
          rw [hRun]
          split at hWrite
          · next hSpill =>
              rw [if_pos hSpill]
              exact h.writeSpilling hn hWrite
          · next hFits =>
              rw [if_neg hFits]
              exact h.writeInside hn hWrite

/- Writing to an open file. -/
theorem fwrite
    (h : Agrees old s disk)
    (hDirs :
      s.file.exist = false → ∃ owners, DirsKnown old owners s)
    {stack : CreateStack}
    (hValid : ∀ u, Ext2.ensureExists stack s = some (0, u) →
      u.layout.ValidInode u.file.inodeNum)
    {size : UInt32}
    {data : Nat → UInt8}
    {err : UInt8}
    (hWrite : ext2Fwrite data size stack s = some (err, t)) :
    ∃ disk',
      ext2Fwrite data size stack (s.withDisk disk) =
        some (err, t.withDisk disk') ∧
      Agrees old t disk' := by
  rw [ext2Fwrite] at hWrite ⊢
  split at hWrite
  · next hOpen =>
      cases hWrite
      exact ⟨disk, if_pos hOpen, h⟩
  · next hOpen =>
      simp only [Option.bind_eq_bind,
        Option.bind_eq_some_iff] at hWrite
      rcases hWrite with ⟨⟨code, u⟩, hEnsure, hWrite⟩
      rcases h.ensureExists hDirs hEnsure with
        ⟨disk₁, hEnsure', h₁⟩
      refine Exists.imp (fun _ => And.imp_left
        ((if_neg hOpen).trans ∘ (congrArg
          (fun x => Option.bind x _) hEnsure').trans)) ?_
      split at hWrite
      · next hCode =>
          cases hWrite
          exact ⟨disk₁, if_pos hCode, h₁⟩
      · next hCode =>
          have hZero : code = 0 := not_not.mp hCode
          subst hZero
          exact h₁.writeExisting (hValid u hEnsure) hWrite

------------------------------------------------------------
-- Seeking and Reading
------------------------------------------------------------

end Agrees

/-
  The position is in a block the file has, and its content is
  not stale.
-/
structure LoadsKnown
    (old : UInt32 → Prop)
    (s : Fs)
    (newPos : UInt32) : Prop where
  inside : newPos.toNat / 4096 < s.file.inode.allocated
  known :
    ∀ b, s.file.inode.blockPtr (newPos.toNat / 4096) =
      some b → ¬ s.Stale old b

namespace Agrees

variable {old : UInt32 → Prop} {owners : Owners} {s t : Fs}
variable {disk : UInt32 → Block}

theorem seekExisting
    (h : Agrees old s disk)
    (hClean : s.file.dirty = false)
    {newPos : UInt32}
    (hLoads : LoadsKnown old s newPos)
    {err : UInt8}
    (hSeek : Ext2.seekExisting newPos s = some (err, t)) :
    ∃ disk',
      Ext2.seekExisting newPos (s.withDisk disk) =
        some (err, t.withDisk disk') ∧
      Agrees old t disk' := by
  have hInside := Nat.not_le.mpr hLoads.inside
  rw [seekExisting_of_clean h.steady hClean, if_neg hInside,
    Option.bind_eq_some_iff] at hSeek
  rcases hSeek with ⟨ptr, hPtr, hSeek⟩
  cases hSeek
  refine ⟨disk, ?_, h.setFile _⟩
  have hOther : Ext2.seekExisting newPos (s.withDisk disk) =
      _ := seekExisting_of_clean h.steady' hClean newPos
  rw [hOther, Fs.withDisk_file, if_neg hInside, hPtr,
    Option.bind_some, Fs.withDisk_disk,
    h.same ptr (hLoads.known ptr hPtr)]
  rfl

/- Seeking in an open file. -/
theorem fseek
    (h : Agrees old s disk)
    (hDirs :
      s.file.exist = false → ∃ owners, DirsKnown old owners s)
    (hClean : s.file.dirty = false)
    {newPos : UInt32}
    {stack : CreateStack}
    (hLoads : s.file.pos ≠ newPos →
      ∀ u, Ext2.ensureExists stack s = some (0, u) →
        LoadsKnown old u newPos)
    {err : UInt8}
    (hSeek : ext2Fseek newPos stack s = some (err, t)) :
    ∃ disk',
      ext2Fseek newPos stack (s.withDisk disk) =
        some (err, t.withDisk disk') ∧
      Agrees old t disk' := by
  rw [ext2Fseek] at hSeek ⊢
  split at hSeek
  · next hOpen =>
      cases hSeek
      exact ⟨disk, if_pos hOpen, h⟩
  · next hOpen =>
      split at hSeek
      · next hThere =>
          cases hSeek
          exact ⟨disk, (if_neg hOpen).trans (if_pos hThere), h⟩
      · next hMoves =>
          simp only [Option.bind_eq_bind,
            Option.bind_eq_some_iff] at hSeek
          rcases hSeek with ⟨⟨code, u⟩, hEnsure, hSeek⟩
          rcases h.ensureExists hDirs hEnsure with
            ⟨disk₁, hEnsure', h₁⟩
          refine Exists.imp (fun _ => And.imp_left
            ((if_neg hOpen).trans ∘ (if_neg hMoves).trans ∘
              (congrArg (fun x => Option.bind x _)
                hEnsure').trans)) ?_
          split at hSeek
          · next hCode =>
              cases hSeek
              exact ⟨disk₁, if_pos hCode, h₁⟩
          · next hCode =>
              have hZero : code = 0 := not_not.mp hCode
              subst hZero
              exact h₁.seekExisting
                ((ensureExists_keepsName hEnsure).clean hClean)
                (hLoads hMoves u hEnsure) hSeek

/- Reading from an open file. -/
theorem fread
    (h : Agrees old s disk)
    {size : UInt32}
    (hLoads : size.toNat ≤ 4096 →
      4096 < s.file.off + size.toNat →
        ∀ b, s.file.inode.blockPtr (s.file.block + 1) =
          some b → ¬ s.Stale old b)
    {out out' : Nat → UInt8}
    {err : UInt8}
    (hRead : ext2Fread out size s = some (err, out', t)) :
    ext2Fread out size (s.withDisk disk) =
        some (err, out', t.withDisk disk) ∧
      Agrees old t disk := by
  obtain rfl := ext2Fread_same h.steady hRead
  refine ⟨?_, h⟩
  by_cases hOpen : t.file.isOpen
  · by_cases hSize : size.toNat ≤ 4096
    · by_cases hFits : t.file.off + size.toNat ≤ 4096
      · rw [ext2Fread_of_inside h.steady hOpen hFits] at hRead
        cases hRead
        exact ext2Fread_of_inside h.steady' hOpen hFits
      · have hSpill := Nat.not_le.mp hFits
        rw [ext2Fread_of_spilling h.steady hOpen hSize hSpill,
          Option.bind_eq_some_iff] at hRead
        rcases hRead with ⟨b, hPtr, hRead⟩
        cases hRead
        have hOther : ext2Fread out size (t.withDisk disk) =
            _ :=
          ext2Fread_of_spilling h.steady' hOpen hSize hSpill
        rw [hOther, Fs.withDisk_file, hPtr, Option.bind_some,
          Fs.withDisk_disk,
          h.same b (hLoads hSize hSpill b hPtr)]
    · have hBig := Nat.not_le.mp hSize
      rw [ext2Fread_of_big h.steady hBig] at hRead
      cases hRead
      exact ext2Fread_of_big h.steady' hBig out
  · rw [ext2Fread, if_pos hOpen] at hRead
    cases hRead
    exact if_pos hOpen

------------------------------------------------------------
-- Opening
------------------------------------------------------------

theorem openFile
    (h : Agrees old s disk)
    {pathname : List UInt8}
    {mode : UInt8}
    {n : UInt32}
    {exist : Bool}
    (hOpen : Ext2.openFile pathname mode n exist s = some t) :
    Ext2.openFile pathname mode n exist (s.withDisk disk) =
        some (t.withDisk disk) ∧
      Agrees old t disk := by
  simp only [Ext2.openFile, Option.bind_eq_bind,
    Option.bind_eq_some_iff] at hOpen
  rcases hOpen with ⟨len, hLen, name, hName, hOpen⟩
  cases hOpen
  refine ⟨?_, h.setFile _⟩
  simp only [Ext2.openFile, hLen, Fs.withDisk_file, hName,
    Option.bind_eq_bind, Option.bind_some]
  rfl

/- Opening a path. -/
theorem fopen
    (h : Agrees old s disk)
    (hDirs : DirsKnown old owners s)
    {pathname : List UInt8}
    {mode : UInt8}
    {stack : FindStack}
    (hOpen : ext2Fopen pathname mode stack s = some t) :
    ext2Fopen pathname mode stack (s.withDisk disk) =
        some (t.withDisk disk) ∧
      Agrees old t disk := by
  simp only [ext2Fopen, fopenWith, Option.bind_eq_bind,
    Option.bind_eq_some_iff] at hOpen
  rcases hOpen with ⟨len, hLen, hOpen⟩
  simp only [ext2Fopen, fopenWith, hLen, Option.bind_eq_bind,
    Option.bind_some]
  split at hOpen
  · next hLong =>
      cases hOpen
      exact ⟨if_pos hLong, h⟩
  · next hLong =>
      rw [if_neg hLong]
      split at hOpen
      · next hAlready =>
          cases hOpen
          exact ⟨if_pos hAlready, h⟩
      · next hClosed =>
          simp only [Option.bind_eq_some_iff] at hOpen
          rcases hOpen with ⟨⟨n, u⟩, hFind, v, hExtract, hOpen⟩
          rcases ext2InodeFind_live hDirs.image hFind with
            ⟨hLive, inode, rfl⟩
          have hSet := h.setCurrentInode inode
          rw [ext2ExtractInode_eq hSet.steady hSet.layout
            hLive.valid] at hExtract
          cases hExtract
          simp only [h.inodeFind hDirs hFind,
            hSet.extractInode hLive.valid, Option.bind_some]
          have hRead := h.setCurrentInode (s.inodeAt n)
          refine And.imp_left (if_neg hClosed).trans ?_
          split at hOpen
          · next hNotFile =>
              split at hOpen
              · next hMode =>
                  cases hOpen
                  exact ⟨(if_pos hNotFile).trans
                    (if_pos hMode), hRead⟩
              · next hMode =>
                  exact (hRead.openFile hOpen).imp_left
                    ((if_pos hNotFile).trans ∘
                      (if_neg hMode).trans)
          · next hFile =>
              exact (hRead.openFile hOpen).imp_left
                (if_neg hFile).trans

end Agrees

end Ext2

end Ester
