import Ester.Ext2.Allocation.Answers
import Ester.Ext2.Directory.Split
import Ester.Ext2.Lookup.Glued
import Ester.Ext2.Session.Growing

/-
  Creation on a device that may fail.

  As long as the paths stay inside their arrays, failed reads
  can make creation fail and they can make it succeed: the
  lookup, both bitmaps and the directory are what the arrays
  happened to hold, and nothing is stored.

  Key definitions include:
    * `ParentSplits`, `NameFits`
    * `CanCreate`
    * `CreatedFile`

  Key theorems include:
    * `ext2FileCreate_refusing`
    * `ext2FileCreate_failing`
    * `ext2FileCreate_succeeds`
-/

------------------------------------------------------------
-- Paths That Stay Inside
------------------------------------------------------------

namespace Ester

namespace Ext2

/-
  The path of the open file is split, the path of its parent
  is glued and split again, all inside the arrays, and the
  last row shows the name of the file.
-/
def ParentSplits
    (stack : CreateStack)
    (s : Fs)
    (name : List UInt8) : Prop :=
  ∃ len depth rows path,
    strlen (s.file.pathname.bytesFrom 0) = some len ∧
      unpackDirPath (s.file.pathname.bytesFrom 0)
        stack.unpackedPath = some (depth, rows) ∧
      glueRows rows (depth.toNat - 1) 0
        stack.parentPathname = some path ∧
      (unpackDirPath (path.bytesFrom 0)
        stack.find.unpackedPath).isSome ∧
      rows.row (depth.toNat - 1) = name

/- The name fits twice into a block behind an empty entry. -/
def NameFits
    (name : List UInt8) : Prop :=
  ∃ len, strlen name = some len ∧
    roundFour (8 + len) + 8 + len ≤ 4096

/- Some answers of the device let creation succeed. -/
def CanCreate
    (stack : CreateStack)
    (s : Fs) : Prop :=
  ∃ name, ParentSplits stack s name ∧ NameFits name

section

variable {s t : Fs} {stack : CreateStack}
variable {name : List UInt8}

/- The name that is stored fits its array. -/
theorem strlen_pathname_le
    {len : Nat}
    (hLen : strlen (s.file.pathname.bytesFrom 0) = some len) :
    len ≤ maxPathLen := by
  rcases (strlen_eq_some_iff _ _).mp hLen with ⟨hTerm, rfl⟩
  have hInside := (showsText_of_terminated hTerm).inside
  omega

------------------------------------------------------------
-- Looking Up the Parent
------------------------------------------------------------

/-
  A lookup whose first read fails with an array of zeros ends
  at the root directory.
-/
theorem ext2InodeFind_failing
    (hL : s.layout.Ok)
    {path : List UInt8}
    {find : FindStack}
    (hSplit : (unpackDirPath path find.unpackedPath).isSome) :
    ∃ faults inode, ∀ rest,
      ext2InodeFind path find (s.answering (faults ++ rest)) =
        some (2, (s.setCurrentInode inode).answering rest) := by
  rcases Option.isSome_iff_exists.mp hSplit with
    ⟨⟨depth, rows⟩, hUnpack⟩
  rcases Option.isSome_iff_exists.mp (strcmp_isSome
    (terminated_of_unpackDirPath hUnpack)
    (show Terminated [slash, 0] by decide)) with
    ⟨cmp, hCmp⟩
  have hStays : s = s.setCurrentInode s.currentInode := rfl
  by_cases hRoot : cmp = 0
  · refine ⟨[], s.currentInode, fun rest => ?_⟩
    rw [← hStays]
    simp only [ext2InodeFind, inodeFindWith, hUnpack, hCmp,
      Option.bind_eq_bind, Option.bind_some, if_pos hRoot,
      List.nil_append]
  · cases hRows : depth.toNat - 1 with
    | zero =>
        refine ⟨[], s.currentInode, fun rest => ?_⟩
        rw [← hStays]
        simp only [ext2InodeFind, inodeFindWith, hUnpack, hCmp,
          Option.bind_eq_bind, Option.bind_some,
          if_neg hRoot, hRows, walkLoop, List.nil_append]
    | succ remaining =>
        -- the inode of the root reads as no directory
        refine ⟨[some (.fill _ 0)], Inode.zero,
          fun rest => ?_⟩
        have hSlot := Fs.SlotInside.of_valid hL hL.valid_root
        have hNotDir : Inode.zero.isDir = false := by decide
        have hList : ext2ListDirectory 2 find.dirEntries
            (s.answering (some (.fill _ 0) :: rest)) =
              some (0, find.dirEntries,
                (s.setCurrentInode Inode.zero).answering
                  rest) := by
          rw [ext2ListDirectory,
            ext2ExtractInode_failing hL.blockSize hSlot]
          simp only [Option.bind_eq_bind, Option.bind_some]
          exact if_neg (Bool.eq_false_iff.mp hNotDir)
        simp only [ext2InodeFind, inodeFindWith, hUnpack, hCmp,
          Option.bind_eq_bind, Option.bind_some,
          if_neg hRoot, hRows, walkLoop, List.cons_append,
          List.nil_append, hList]
        rfl

/-
  Lookup and extraction of the parent both fail: the root is
  the parent, and its inode is what the array held.
-/
theorem ext2FileCreate_root
    (hL : s.layout.Ok)
    (hSplit : ParentSplits stack s name)
    (v : UInt8) :
    ∃ faults, ∀ rest,
      ext2FileCreate stack (s.answering
          (faults ++ some (.fill _ v) :: rest)) =
        createIn 2 stack.newInode name
          ((s.setCurrentInode
            (inodeCodec.decode fun _ => v)).answering rest) := by
  rcases hSplit with
    ⟨len, depth, rows, path, hLen, hUnpack, hGlue, hParent,
      rfl⟩
  rcases ext2InodeFind_failing hL hParent with
    ⟨faults, inode, hFind⟩
  have hSlot : (s.setCurrentInode inode).SlotInside 2 :=
    Fs.SlotInside.of_valid hL hL.valid_root
  refine ⟨faults, fun rest => ?_⟩
  have hShort := strlen_pathname_le hLen
  have hDepth := unpackDirPath_depth_le hUnpack
  simp only [ext2FileCreate, Fs.answering_file, hLen, hUnpack,
    hGlue, hFind, Option.bind_eq_bind, Option.bind_some,
    if_neg (Nat.not_lt.mpr hShort),
    if_neg (Nat.not_lt.mpr hDepth),
    ext2ExtractInode_failing (s := s.setCurrentInode inode)
      hL.blockSize hSlot]
  rfl

/- Creation fails when the root reads as no directory. -/
theorem ext2FileCreate_refusing
    (hL : s.layout.Ok)
    (hSplit : ParentSplits stack s name) :
    ∃ faults t, ∀ rest,
      ext2FileCreate stack (s.answering (faults ++ rest)) =
        some (1, (t : Fs).answering rest) := by
  rcases ext2FileCreate_root hL hSplit 0 with
    ⟨faults, hCreate⟩
  have hNotDir : ¬ Inode.zero.isDir := by decide
  refine ⟨faults ++ [some (.fill _ 0)],
    s.setCurrentInode Inode.zero, fun rest => ?_⟩
  rw [List.append_assoc]
  refine (hCreate rest).trans ?_
  rw [createIn]
  exact if_pos hNotDir

------------------------------------------------------------
-- Placing the File
------------------------------------------------------------

/- The inode that an array of ones shows. -/
def onesInode : Inode :=
  inodeCodec.decode fun _ => 255

theorem onesInode_isDir :
    onesInode.isDir = true := by
  decide

theorem onesInode_directBlocks :
    ∃ blocks, onesInode.directBlocks =
      0xFFFFFFFF :: blocks :=
  ⟨_, rfl⟩

/- A block of ones is one entry that ends behind the block. -/
theorem addInBlock_ones
    (hFits : NameFits name)
    (n : UInt32) :
    ∃ content, addInBlock (.fill logicalBlockSize 255) n name
      maxSubdirs 0 = some (.added content) := by
  rcases hFits with ⟨len, hLen, hFits⟩
  have hSize : (entryAt (.fill logicalBlockSize 255)
      0).dirEntrySize.toNat = 65535 := by
    decide
  have hRoom : 0 + splitSize 0 len + 8 + len ≤ 4096 := by
    simpa [splitSize] using hFits
  have hSplit : splitLast (.fill logicalBlockSize 255) 0 n
      name = some (placeEntry (.fill logicalBlockSize 255) 0 n
        name len) :=
    (splitLast_eq_some_iff (by decide) hLen).mpr ⟨hRoom, rfl⟩
  refine ⟨placeEntry (.fill logicalBlockSize 255) 0 n name len,
    ?_⟩
  rw [show maxSubdirs = 127 + 1 from rfl, addInBlock,
    if_neg (by decide), if_neg (by decide)]
  dsimp only
  rw [if_pos (by rw [hSize]; decide), hSplit]
  rfl

/- The entry of the file goes into a block that is lost. -/
theorem ext2AddDirEntry_failing
    (hBlock : ext2GetBlockSize s = 4096)
    (hFits : NameFits name)
    (n : UInt32)
    (junk : Block)
    (rest : List Fault) :
    ext2AddDirEntry onesInode n name (s.answering
        (some (.fill _ 255) :: some junk :: rest)) =
      some (0, s.answering rest) := by
  rcases onesInode_directBlocks with ⟨blocks, hBlocks⟩
  rcases addInBlock_ones hFits n with ⟨content, hAdd⟩
  rw [ext2AddDirEntry, if_pos onesInode_isDir, hBlocks,
    addInBlocks, if_neg (by decide)]
  simp only [readLocal_failing hBlock, hAdd,
    Option.bind_eq_bind, Option.bind_some,
    ext2WriteBlock_failing]

/- The group of the root directory has a block to offer. -/
theorem offers_root
    (hL : s.layout.Ok) :
    Offers .block ((2 - 1) / s.sb.sInodesPerGroup) s := by
  have hPos : 0 < s.sb.sInodesPerGroup.toNat := hL.inodes_pos
  have hLe : s.sb.sInodesPerGroup.toNat ≤
      s.sb.sBlocksPerGroup.toNat := hL.inodes_le
  by_cases hOne : s.sb.sInodesPerGroup = 1
  · -- the root is alone in group 1
    refine ⟨0, hL.inodes_pos, ?_⟩
    rw [hOne] at hLe ⊢
    intro h0
    have hBlocks : s.sb.sBlocksPerGroup = 0 := by
      simpa [Resource.number] using h0
    rw [hBlocks] at hLe
    exact absurd hLe (by decide)
  · have hTwo : 1 < s.sb.sInodesPerGroup.toNat := by
      refine Nat.lt_of_le_of_ne hPos fun h1 => hOne ?_
      exact UInt32.toNat_inj.mp h1.symm
    by_cases h0 : Resource.number .block s.sb
        ((2 - 1) / s.sb.sInodesPerGroup) (UInt32.ofNat 0) = 0
    · refine ⟨1, hTwo, fun h1 => ?_⟩
      have hSame := number_inj .block s.sb _ (by decide)
        (by decide) (h0.trans h1.symm)
      exact absurd hSame (by decide)
    · exact ⟨0, hL.inodes_pos, h0⟩

/- The first inode of the root's group is one of the image. -/
theorem valid_rootGroup
    (hL : s.layout.Ok) :
    s.sb.sInodesPerGroup ≠ 0 ∧
      ∃ g, ext2GetBgd ((2 - 1) / s.sb.sInodesPerGroup) =
          some g ∧
        s.layout.ValidInode (Resource.number .inode s.sb
          ((2 - 1) / s.sb.sInodesPerGroup)
            (UInt32.ofNat 0)) := by
  rcases group_of_validInode hL hL.valid_root with
    ⟨hPos, hGroup⟩
  have hLt : ((2 - 1) / s.sb.sInodesPerGroup).toNat <
      maxGroups := by
    rw [hGroup]
    exact (s.layout.slotGroup 2).isLt
  refine ⟨hPos, _, ext2GetBgd_of_lt hLt, ?_⟩
  rw [number_eq_ofNat s .inode _ 0 hLt]
  refine validInode_numberOf hL ?_ hL.inodes_pos
  change ((2 - 1) / s.sb.sInodesPerGroup).toNat < _
  rw [hGroup]
  exact hL.slotGroup_lt hL.valid_root

/- Neither the inode nor its entry reaches the disk. -/
theorem commitNew_failing
    (hBlock : ext2GetBlockSize s = 4096)
    {n : UInt32}
    (hSlot : s.SlotInside n)
    (hFits : NameFits name)
    (inode : Inode)
    (junk : Block)
    (rest : List Fault) :
    commitNew onesInode n inode name (s.answering
        (some junk :: some junk :: some (.fill _ 255) ::
          some junk :: rest)) =
      some (0, (s.setFile { s.file with
        inodeNum := n
        inode := inode
        exist := true }).answering rest) := by
  let v := s.setFile { s.file with
    inodeNum := n
    inode := inode }
  have hStore := ext2InodeWrite_failing (s := v) hBlock
    (hSlot.congr rfl) inode junk junk
  have hEnter := ext2AddDirEntry_failing (s := v) hBlock
    hFits n junk
  simp only [commitNew, Fs.answering_file,
    Fs.answering_setFile, Option.bind_eq_bind]
  simp only [v] at hStore hEnter
  simp only [hStore, hEnter, Option.bind_some]
  rfl

/-
  With both bitmaps, the slot and the directory lost, the
  file is created in the root directory.
-/
theorem createIn_failing
    (hL : s.layout.Ok)
    (hDir : s.currentInode = onesInode)
    (hFits : NameFits name)
    (garbage : Inode) :
    ∃ faults t, HasFailure faults ∧ ∀ rest,
      createIn 2 garbage name (s.answering (faults ++ rest)) =
        some (0, (t : Fs).answering rest) := by
  rcases valid_rootGroup hL with ⟨hPos, g, hBgd, hValid⟩
  have hMax : s.layout.inodesPerGroup ≤ 8 * logicalBlockSize :=
    hL.inodes_max
  rcases ext2FreeAlloc_failing hL.blockSize .inode hBgd
      hL.inodes_pos (by decide) with ⟨faults₁, hFails, hInode⟩
  generalize Resource.number .inode s.sb
    ((2 - 1) / s.sb.sInodesPerGroup) (UInt32.ofNat 0) = n
      at hInode hValid
  have hnNe : n ≠ 0 := by
    rintro rfl
    exact absurd hValid.1 (by decide)
  rcases offers_root hL with ⟨j, hj, hBlockNe⟩
  have hSize : ext2GetBlockSize (s.counted .inode g) = 4096 := by
    rw [Fs.counted_blockSize]
    exact hL.blockSize
  rcases ext2FreeAlloc_failing hSize .block hBgd
      (by rwa [Fs.counted_layout]) (by omega) with
    ⟨faults₂, -, hBlock⟩
  have hSb : (s.counted .inode g).sb =
      Resource.decSb .inode s.sb := rfl
  rw [hSb, Resource.number_decSb] at hBlock
  generalize Resource.number .block s.sb
    ((2 - 1) / s.sb.sInodesPerGroup) (UInt32.ofNat j) = block
      at hBlock hBlockNe
  -- the state in which the inode is to be stored
  let u := (s.counted .inode g).counted .block g
  have hLayout : u.layout = s.layout := by
    rw [Fs.counted_layout, Fs.counted_layout]
  have hCommit := commitNew_failing
    ((congrArg Layout.blockSize hLayout).trans hL.blockSize)
    ((Fs.SlotInside.of_valid hL hValid).congr hLayout) hFits
  let junk : Block := .fill _ 255
  refine ⟨faults₁ ++ (faults₂ ++
    [some junk, some junk, some junk, some junk]),
    u.setFile { u.file with
      inodeNum := n
      inode := initInode garbage block u
      exist := true },
    hFails.append _, fun rest => ?_⟩
  have hIsDir (faults : List Fault) :
      (s.answering faults).currentInode = onesInode := hDir
  have hPerGroup (faults : List Fault) :
      ext2GetInodesPerGroup (s.answering faults) =
        s.sb.sInodesPerGroup := rfl
  simp only [List.append_assoc, createIn, hIsDir,
    onesInode_isDir, not_true, if_false, hPerGroup, hPos,
    ext2FreeInodeAlloc, ext2FreeBlockAlloc, hInode, hBlock,
    Option.bind_eq_bind, Option.bind_some, hnNe, hBlockNe,
    List.cons_append, List.nil_append]
  exact hCommit _ junk rest

/- Answers with which creation succeeds and stores nothing. -/
theorem ext2FileCreate_failing
    (hL : s.layout.Ok)
    (hCan : CanCreate stack s) :
    ∃ faults t, HasFailure faults ∧ ∀ rest,
      ext2FileCreate stack (s.answering (faults ++ rest)) =
        some (0, (t : Fs).answering rest) := by
  rcases hCan with ⟨name, hSplit, hFits⟩
  rcases ext2FileCreate_root hL hSplit 255 with
    ⟨faults₁, hRoot⟩
  rcases createIn_failing (s := s.setCurrentInode onesInode)
    hL rfl hFits stack.newInode with
    ⟨faults₂, t, -, hCreate⟩
  refine ⟨faults₁ ++ some (.fill _ 255) :: faults₂, t,
    ⟨_, List.mem_append_right _ List.mem_cons_self⟩,
    fun rest => ?_⟩
  rw [List.append_assoc, List.cons_append]
  exact (hRoot _).trans (hCreate rest)

------------------------------------------------------------
-- Whatever the Device Answers
------------------------------------------------------------

/- A block takes an entry only where its name fits twice. -/
theorem nameFits_of_addInBlock
    {buffer content : Block}
    {n : UInt32}
    {room offset : Nat}
    (hAdd : addInBlock buffer n name room offset =
      some (.added content)) :
    NameFits name := by
  induction room generalizing offset with
  | zero =>
      rw [addInBlock] at hAdd
      split at hAdd <;> cases hAdd
  | succ room ih =>
      rw [addInBlock] at hAdd
      split at hAdd
      · cases hAdd
      · next hIn =>
          split at hAdd
          · cases hAdd
          · dsimp only at hAdd
            split at hAdd
            · rcases Option.map_eq_some_iff.mp hAdd with
                ⟨content', hSplit, -⟩
              cases hName : strlen name with
              | none => simp [splitLast, hName] at hSplit
              | some len =>
                  have hFits := ((splitLast_eq_some_iff
                    (Nat.not_le.mp hIn) hName).mp hSplit).1
                  refine ⟨len, hName, ?_⟩
                  unfold splitSize at hFits
                  omega
            · exact ih hAdd

theorem nameFits_of_addInBlocks
    {n : UInt32}
    {blocks : List UInt32}
    {room : Nat}
    (hAdd : addInBlocks n name blocks room s =
      some (0, t)) :
    NameFits name := by
  induction blocks generalizing room s with
  | nil => cases hAdd
  | cons block blocks ih =>
      rw [addInBlocks] at hAdd
      split at hAdd
      · cases hAdd
      · simp only [Option.bind_eq_bind,
          Option.bind_eq_some_iff] at hAdd
        rcases hAdd with
          ⟨⟨code, content, u⟩, -, result, hResult, hAdd⟩
        cases result with
        | full => cases hAdd
        | passed room' => exact ih hAdd
        | added content' => exact nameFits_of_addInBlock hResult

/- The group of a number is the group it was taken from. -/
theorem group_of_number
    (hL : s.layout.Ok)
    {group : UInt32}
    {g : Fin maxGroups}
    (hGroup : ext2GetBgd group = some g)
    {i : Nat}
    (hi : i < s.layout.inodesPerGroup) :
    (Resource.number .inode s.sb group (UInt32.ofNat i) - 1) /
      s.sb.sInodesPerGroup = group := by
  have hLt : group.toNat < 128 := by
    unfold ext2GetBgd at hGroup
    split at hGroup
    · next hLt => exact hLt
    · cases hGroup
  have hMax : s.sb.sInodesPerGroup.toNat ≤ 32768 :=
    hL.inodes_max
  have hIndex : i < s.sb.sInodesPerGroup.toNat := hi
  have hMul : group.toNat * s.sb.sInodesPerGroup.toNat ≤
      127 * 32768 :=
    Nat.mul_le_mul (by omega) hMax
  have hOf : (UInt32.ofNat i).toNat = i :=
    UInt32.toNat_ofNat_of_lt' (by
      simp only [UInt32.size]
      omega)
  have hPred : Resource.number .inode s.sb group
      (UInt32.ofNat i) - 1 =
        group * s.sb.sInodesPerGroup + UInt32.ofNat i := by
    rw [Resource.number, UInt32.add_sub_cancel]
  apply UInt32.toNat_inj.mp
  rw [hPred, UInt32.toNat_div, UInt32.toNat_add,
    UInt32.toNat_mul, hOf, Nat.mod_eq_of_lt (by omega),
    Nat.mod_eq_of_lt (by omega), Nat.mul_comm,
    Nat.mul_add_div (by omega), Nat.div_eq_of_lt hIndex,
    Nat.add_zero]

/- The descriptor of a file that was created a moment ago. -/
structure CreatedFile
    (s t : Fs) : Prop where
  layout : t.layout = s.layout
  exist : t.file.exist = true
  pos : t.file.pos = s.file.pos
  dirty : t.file.dirty = s.file.dirty
  newBytesCount : t.file.newBytesCount = s.file.newBytesCount
  allocated : allocatedBlocks t = 1
  slot : t.SlotInside t.file.inodeNum
  offers :
    Offers .block
      ((t.file.inodeNum - 1) / t.sb.sInodesPerGroup) t

/- Committing only sets the descriptor's new fields. -/
theorem commitNew_succeeds
    {parent inode : Inode}
    {n : UInt32}
    (hDir : parent.isDir = true)
    (hCommit : commitNew parent n inode name s =
      some (0, t)) :
    NameFits name ∧ s.SlotInside n ∧ t.sb = s.sb ∧
      t.bgdt = s.bgdt ∧ t.file = { s.file with
        inodeNum := n
        inode := inode
        exist := true } := by
  simp only [commitNew, Option.bind_eq_bind,
    Option.bind_eq_some_iff] at hCommit
  rcases hCommit with
    ⟨u, hWrite, ⟨code, v⟩, hAdd, hCommit⟩
  have hSlot := slotInside_of_write hWrite
  have hSame := (ext2InodeWrite_diskOnly hWrite).trans
    (ext2AddDirEntry_diskOnly hAdd)
  split at hCommit
  · cases hCommit
  · next hCode =>
      cases hCommit
      have hCode : code = 0 := not_not.mp hCode
      rw [ext2AddDirEntry, if_pos hDir, hCode] at hAdd
      refine ⟨nameFits_of_addInBlocks hAdd, hSlot, hSame.sb,
        hSame.bgdt, ?_⟩
      rw [Fs.setFile_file, hSame.file]
      rfl

/- Both allocations and the commit together. -/
theorem createdFile_of_claims
    {u v : Fs}
    {group n block : UInt32}
    {g g' : Fin maxGroups}
    {i j : Nat}
    {garbage : Inode}
    (hL : s.layout.Ok)
    (hInode : Claims .inode group s n u g i)
    (hBlock : Claims .block group u block v g' j)
    (hNe : block ≠ 0)
    (hFile : v.file = s.file)
    (hSlot : v.SlotInside n)
    (hSb : t.sb = v.sb)
    (hBgdt : t.bgdt = v.bgdt)
    (hSet : t.file = { v.file with
      inodeNum := n
      inode := initInode garbage block v
      exist := true }) :
    CreatedFile s t := by
  have hvLayout : v.layout = s.layout :=
    hBlock.layout.trans hInode.layout
  have htLayout : t.layout = v.layout :=
    Fs.layout_congr hSb hBgdt
  have hvSize : ext2GetBlockSize v = 4096 :=
    (congrArg Layout.blockSize hvLayout).trans hL.blockSize
  have htSize : ext2GetBlockSize t = 4096 :=
    (congrArg Layout.blockSize htLayout).trans hvSize
  have hPerGroup : t.sb.sInodesPerGroup = s.sb.sInodesPerGroup :=
    UInt32.toNat_inj.mp (congrArg Layout.inodesPerGroup
      (htLayout.trans hvLayout))
  have hNum : t.file.inodeNum = n := by rw [hSet]
  refine ⟨htLayout.trans hvLayout, by rw [hSet],
    by rw [hSet, hFile], by rw [hSet, hFile],
    by rw [hSet, hFile], ?_, ?_, ?_⟩
  · have hSectors : t.file.inode.iDiskSectorsCount =
        ext2BlocksToSectors 1 v := by
      rw [hSet]
      rfl
    rw [allocatedBlocks, ext2SectorsToBlocks, hSectors,
      ext2BlocksToSectors, hvSize, htSize]
    decide
  · rw [hNum]
    exact hSlot.congr htLayout
  · have hOwn := group_of_number hL hInode.bgd hInode.lt
    rw [← hInode.number] at hOwn
    rw [hNum, hPerGroup, hOwn]
    refine ⟨j, ?_, ?_⟩
    · rw [htLayout, hBlock.layout]
      exact hBlock.lt
    · rw [hSb, hBlock.counted.1]
      change Resource.number .block
        (Resource.decSb .block u.sb) group _ ≠ 0
      rw [Resource.number_decSb, ← hBlock.number]
      exact hNe

/- A creation in a directory that succeeds, on any device. -/
theorem createIn_succeeds
    (hL : s.layout.Ok)
    {parent : UInt32}
    {garbage : Inode}
    (hCreate : createIn parent garbage name s =
      some (0, t)) :
    NameFits name ∧ CreatedFile s t := by
  rw [createIn] at hCreate
  split at hCreate
  · cases hCreate
  · next hDir =>
      dsimp only at hCreate
      split at hCreate
      · cases hCreate
      · simp only [Option.bind_eq_bind,
          Option.bind_eq_some_iff] at hCreate
        rcases hCreate with ⟨⟨n, u⟩, hInode, hCreate⟩
        split at hCreate
        · cases hCreate
        · next hn =>
            simp only [Option.bind_eq_some_iff] at hCreate
            rcases hCreate with ⟨⟨block, v⟩, hBlock, hCreate⟩
            split at hCreate
            · cases hCreate
            · next hb =>
                rcases (ext2FreeAlloc_claims hInode).resolve_left
                  (fun h => hn h.1) with ⟨g, i, hClaimI⟩
                rcases (ext2FreeAlloc_claims hBlock).resolve_left
                  (fun h => hb h.1) with ⟨g', j, hClaimB⟩
                have hFile : v.file = s.file :=
                  (ext2FreeAlloc_file hBlock).trans
                    (ext2FreeAlloc_file hInode)
                rcases commitNew_succeeds (not_not.mp hDir)
                  hCreate with
                  ⟨hFits, hSlot, hSb, hBgdt, hSet⟩
                exact ⟨hFits, createdFile_of_claims hL hClaimI
                  hClaimB hb hFile hSlot hSb hBgdt hSet⟩

/- A creation that returns keeps its paths in the arrays. -/
theorem ext2FileCreate_splits
    {err : UInt8}
    (hCreate : ext2FileCreate stack s = some (err, t)) :
    ∃ parent v name, ParentSplits stack s name ∧
      Untouched s v ∧
      createIn parent stack.newInode name v =
        some (err, t) := by
  simp only [ext2FileCreate, Option.bind_eq_bind,
    Option.bind_eq_some_iff] at hCreate
  rcases hCreate with ⟨len, hLen, hCreate⟩
  rw [if_neg (Nat.not_lt.mpr (strlen_pathname_le hLen))]
    at hCreate
  simp only [Option.bind_eq_some_iff] at hCreate
  rcases hCreate with ⟨⟨depth, rows⟩, hUnpack, hCreate⟩
  rw [if_neg (Nat.not_lt.mpr
    (unpackDirPath_depth_le hUnpack))] at hCreate
  simp only [Option.bind_eq_some_iff] at hCreate
  rcases hCreate with ⟨path, hGlue, ⟨parent, u⟩, hFind, v,
    hExtract, hCreate⟩
  have hParent : (unpackDirPath (path.bytesFrom 0)
      stack.find.unpackedPath).isSome := by
    simp only [ext2InodeFind, inodeFindWith,
      Option.bind_eq_bind, Option.bind_eq_some_iff] at hFind
    rcases hFind with ⟨_, hUnpack', -⟩
    rw [hUnpack']
    rfl
  exact ⟨parent, v, _,
    ⟨len, depth, rows, path, hLen, hUnpack, hGlue, hParent,
      rfl⟩,
    (ext2InodeFind_untouched hFind).trans
      (ext2ExtractInode_untouched hExtract), hCreate⟩

/- A creation that succeeds, whatever the device answered. -/
theorem ext2FileCreate_succeeds
    (hL : s.layout.Ok)
    (hCreate : ext2FileCreate stack s = some (0, t)) :
    CanCreate stack s ∧ CreatedFile s t := by
  rcases ext2FileCreate_splits hCreate with
    ⟨parent, v, name, hSplit, hSame, hCreate⟩
  have hLayout : v.layout = s.layout :=
    Fs.layout_congr hSame.sb hSame.bgdt
  rcases createIn_succeeds (hLayout ▸ hL) hCreate with
    ⟨hFits, hFile⟩
  refine ⟨⟨name, hSplit, hFits⟩, ?_⟩
  have hSameFile := hSame.file
  exact
    { layout := hFile.layout.trans hLayout
      exist := hFile.exist
      pos := hFile.pos.trans (congrArg File.pos hSameFile)
      dirty := hFile.dirty.trans
        (congrArg File.dirty hSameFile)
      newBytesCount := hFile.newBytesCount.trans
        (congrArg File.newBytesCount hSameFile)
      allocated := hFile.allocated
      slot := hFile.slot
      offers := hFile.offers }

end

end Ext2

end Ester
