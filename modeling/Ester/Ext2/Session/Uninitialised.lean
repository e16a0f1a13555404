import Ester.Ext2.SampleImage
import Ester.Ext2.Lookup.Glued
import Ester.Ext2.Session.Creating

/-
  What creation reads of its uninitialised arrays.

  The path of the parent is appended to an array that nothing
  has set: without a zero in it the append runs off its end,
  and a string in it becomes part of the path.  The inode that
  is stored holds whatever the structure held, apart from its
  five set fields and its first pointer.

  Key definitions include:
    * `IgnoresStack`
    * `noisyStack`

  Key theorems include:
    * `ext2FileCreate_noisy`
    * `ext2FileCreate_newInode`
    * `create_stores_garbage`
    * `create_ignores_stack_iff`
    * `create_depends_on_stack`
-/

------------------------------------------------------------
-- An Array Without a Zero
------------------------------------------------------------

namespace Ester

namespace Ext2

/-
  Whatever the local arrays hold, the same value is returned
  and the same disk is left, and a new file has no pointer
  but its first one.
-/
structure IgnoresStack (s : Fs) : Prop where
  same :
    ∀ stack stack',
      (ext2FileCreate stack s).map
          (fun r => (r.1, r.2.disk)) =
        (ext2FileCreate stack' s).map
          fun r => (r.1, r.2.disk)
  pointers :
    ∀ stack t, ext2FileCreate stack s = some (0, t) →
      ∀ k : Fin ext2NBlocks, k ≠ 0 →
        (t.inodeAt t.file.inodeNum).iBlock k = 0

/- Local arrays with no zero in the parent's path. -/
def noisyStack : CreateStack :=
  { CreateStack.zero with
    parentPathname := .fill maxPathLen 1 }

theorem noisyStack_not_terminated :
    ¬ Terminated (noisyStack.parentPathname.bytesFrom 0) := by
  intro hTerm
  have hShows := showsText_of_terminated hTerm
  have hInside := hShows.inside
  have hStop := hShows.stop
  have hByte : noisyStack.parentPathname.get (0 +
      (cString
        (noisyStack.parentPathname.bytesFrom 0)).length) =
          1 := ByteBuffer.get_fill 1 hInside
  rw [hByte] at hStop
  exact absurd hStop (by decide)

section

variable {owners : Owners} {s t : Fs} {stack : CreateStack}

/- Without that zero creation leaves its arrays. -/
theorem ext2FileCreate_noisy
    (s : Fs) :
    ext2FileCreate noisyStack s = none := by
  by_contra hSome
  rcases Option.ne_none_iff_exists'.mp hSome with
    ⟨r, hCreate⟩
  simp only [ext2FileCreate, Option.bind_eq_bind,
    Option.bind_eq_some_iff] at hCreate
  rcases hCreate with ⟨len, hLen, hCreate⟩
  split at hCreate
  · next hLong =>
      -- the pathname is a string of its array
      rcases (strlen_eq_some_iff _ _).mp hLen with ⟨hTerm, rfl⟩
      have hInside := (showsText_of_terminated hTerm).inside
      omega
  · simp only [Option.bind_eq_some_iff] at hCreate
    rcases hCreate with ⟨⟨depth, rows⟩, hUnpack, hCreate⟩
    split at hCreate
    · next hDeep =>
        exact absurd (unpackDirPath_depth_le hUnpack)
          (Nat.not_le.mpr hDeep)
    · simp only [Option.bind_eq_some_iff] at hCreate
      rcases hCreate with ⟨path, hGlue, r', hFind, -⟩
      simp only [ext2InodeFind, inodeFindWith,
        Option.bind_eq_bind, Option.bind_eq_some_iff] at hFind
      rcases hFind with ⟨_, hParent, -⟩
      exact noisyStack_not_terminated (terminated_of_glueRows
        hGlue (terminated_of_unpackDirPath hParent))

------------------------------------------------------------
-- The Inode That Is Stored
------------------------------------------------------------

/-
  Creation in the same directory with another structure for
  the new inode.
-/
theorem ext2FileCreate_newInode
    {err : UInt8}
    {parent : UInt32}
    {v : Fs}
    (hParent : ResolvesParent stack s parent v)
    (hCreate : ext2FileCreate stack s = some (err, t)) :
    ∃ name,
      createIn parent stack.newInode name v = some (err, t) ∧
      ∀ inode, ext2FileCreate
          { stack with newInode := inode } s =
        createIn parent inode name v := by
  rcases hParent with ⟨len, depth, rows, path, u, hLen, hShort,
    hUnpack, hDepth, hGlue, hFind, hExtract⟩
  have hSame : ∀ inode,
      ext2FileCreate { stack with newInode := inode } s =
        createIn parent inode
          (rows.row (depth.toNat - 1)) v := by
    intro inode
    simp only [ext2FileCreate, hLen, hUnpack, hGlue, hFind,
      hExtract, Option.bind_eq_bind, Option.bind_some,
      if_neg (Nat.not_lt.mpr hShort),
      if_neg (Nat.not_lt.mpr hDepth)]
  exact ⟨_, (hSame stack.newInode).symm.trans hCreate, hSame⟩

/- Blocks that are the same take the new entry alike. -/
theorem addInBlocks_other
    {s' : Fs}
    (hSteady : s.Steady)
    (hSteady' : s'.Steady)
    {n : UInt32}
    {name : List UInt8}
    {blocks : List UInt32}
    (hSame : LeadingOk (fun b => s'.disk b = s.disk b) blocks)
    {room : Nat}
    {err : UInt8}
    (hAdd : addInBlocks n name blocks room s =
      some (err, t)) :
    ∃ t', addInBlocks n name blocks room s' =
      some (err, t') := by
  induction blocks generalizing room with
  | nil =>
      cases hAdd
      exact ⟨s', rfl⟩
  | cons b blocks ih =>
      rw [addInBlocks] at hAdd ⊢
      split at hAdd
      · next hb =>
          cases hAdd
          exact ⟨s', if_pos hb⟩
      · next hb =>
          rcases hSame hb with ⟨hBlock, hRest⟩
          simp only [readLocal_of_steady hSteady,
            Option.bind_eq_bind, Option.bind_some,
            Option.bind_eq_some_iff] at hAdd
          rcases hAdd with ⟨result, hResult, hAdd⟩
          simp only [if_neg hb, readLocal_of_steady hSteady',
            hBlock, hResult, Option.bind_eq_bind,
            Option.bind_some]
          cases result with
          | full =>
              cases hAdd
              exact ⟨s', rfl⟩
          | passed room => exact ih hRest hAdd
          | added content =>
              simp only [ext2WriteBlock_of_steady hSteady]
                at hAdd
              simp only [ext2WriteBlock_of_steady hSteady']
              cases hAdd
              exact ⟨_, rfl⟩

section

variable {parent : UInt32} {garbage : Inode}
variable {name : List UInt8}

/- What a successful creation stores, and where. -/
theorem CreateOutcome.stored
    {err : UInt8}
    (hOut :
      CreateOutcome owners parent garbage name s err t)
    (hErr : err = 0)
    (h : ImageOk owners s)
    (hn : s.layout.ValidInode parent) :
    ∃ i j,
      s.nextFree .inode (s.layout.slotGroup parent) =
        some i ∧
      t.file.inodeNum = s.newNumber parent i ∧
      t.layout = s.layout ∧
      t.inodeAt (s.newNumber parent i) =
        s.newInode parent garbage i j := by
  cases hOut with
  | refused => exact absurd hErr (by decide)
  | noBlock => exact absurd hErr (by decide)
  | unlinked => exact absurd hErr (by decide)
  | created i j u hDir hInode hBlock hAdd hLink =>
      have hValid := Fs.newNumber_valid h hn hInode
      rcases h.placed hn hInode hBlock garbage with
        ⟨hImage, hStored⟩
      refine ⟨i, j, hInode, ?_, ?_, ?_⟩
      · rw [Fs.setFile_file, hLink.file]
        rfl
      · rw [Fs.setFile_layout, hLink.layout,
          Fs.placed_layout]
      · rw [Fs.setFile_inodeAt, hLink.inodeAt hImage
          (by rwa [Fs.placed_layout]), hStored]

/- Another structure for the inode is stored as well. -/
theorem createIn_other
    (h : ImageOk owners s)
    (hn : s.layout.ValidInode parent)
    (hParent : SlotOk s.layout owners s.disk parent
      s.currentInode)
    (hCreate : createIn parent garbage name s = some (0, t))
    (garbage' : Inode) :
    ∃ t', createIn parent garbage' name s = some (0, t') := by
  have hOut := createIn_outcome h hn hParent hCreate
  generalize hErr : (0 : UInt8) = err at hOut
  cases hOut with
  | refused => exact absurd hErr (by decide)
  | noBlock => exact absurd hErr (by decide)
  | unlinked => exact absurd hErr (by decide)
  | created i j u hDir hInode hBlock hAdd hLink =>
      have hValid := Fs.newNumber_valid h hn hInode
      have hTaken := (h.taken hn hInode hBlock).1
      have hValid' : (s.taken parent i j).layout.ValidInode
          (s.newNumber parent i) := by
        rwa [Fs.taken_layout]
      -- the directory's blocks hold no inodes
      have hSame : LeadingOk
          (fun b => (s.placed parent garbage' i j).disk b =
            (s.placed parent garbage i j).disk b)
          s.currentInode.directBlocks := by
        refine (hParent.leadingOk hDir).mono ?_
        rintro b ⟨⟨k, hOwned⟩, -⟩
        have hNe : b ≠ (s.taken parent i j).layout.slotBlock
            (s.newNumber parent i) := by
          rw [Fs.taken_layout]
          exact (h.ne_slotBlock hOwned hValid).symm
        exact (Fs.putInode_disk_of_ne _ _ _ hNe).trans
          (Fs.putInode_disk_of_ne _ _ _ hNe).symm
      have hImage := (h.placed hn hInode hBlock garbage).1
      have hImage' := (h.placed hn hInode hBlock garbage').1
      rw [ext2AddDirEntry, if_pos hDir] at hAdd
      rcases addInBlocks_other hImage.steady hImage'.steady
        hSame hAdd with ⟨u', hAdd'⟩
      have hSteady : ((s.taken parent i j).setFile
          { (s.taken parent i j).file with
            inodeNum := s.newNumber parent i
            inode := s.newInode parent garbage' i j }).Steady :=
        (hTaken.setFile _).steady
      rw [createIn_placing h hn hInode hDir hBlock, commitNew]
      simp only [ext2InodeWrite_eq hSteady hTaken.layout
        hValid', Option.bind_eq_bind, Option.bind_some]
      refine ⟨u'.setFile { u'.file with exist := true }, ?_⟩
      change (ext2AddDirEntry s.currentInode
        (s.newNumber parent i) name
          (s.placed parent garbage' i j)).bind _ = _
      rw [ext2AddDirEntry, if_pos hDir, hAdd']
      rfl

end

/-
  A creation that succeeds stores the pointers the structure
  held: another content gives another disk.
-/
theorem create_stores_garbage
    (h : ImageOk owners s)
    (hCreate : ext2FileCreate stack s = some (0, t)) :
    ∃ inode t',
      ext2FileCreate { stack with newInode := inode } s =
          some (0, t') ∧
        t'.disk ≠ t.disk ∧
        (t'.inodeAt t'.file.inodeNum).iBlock 1 ≠ 0 := by
  rcases ext2FileCreate_cases hCreate with
    ⟨hErr, -⟩ | ⟨parent, v, name, hParent, -⟩
  · exact absurd hErr (by decide)
  rcases ext2FileCreate_newInode hParent hCreate with
    ⟨name, hIn, hOther⟩
  rcases hParent.live h with ⟨hLive, rfl⟩
  have hValid := hLive.valid
  have hImage := h.setCurrentInode (s.inodeAt parent)
  have hSlot := h.slot hLive
  -- a pointer that is neither zero nor the one that was held
  let pointer : UInt32 :=
    if stack.newInode.iBlock 1 = 1 then 2 else 1
  have hPointer : pointer ≠ 0 ∧
      pointer ≠ stack.newInode.iBlock 1 := by
    simp only [pointer]
    split
    · next hHeld => exact ⟨by decide, hHeld ▸ by decide⟩
    · next hHeld => exact ⟨by decide, Ne.symm hHeld⟩
  let inode : Inode :=
    { stack.newInode with iBlock := fun _ => pointer }
  rcases createIn_other hImage hValid hSlot hIn inode with
    ⟨t', hIn'⟩
  rcases (createIn_outcome hImage hValid hSlot hIn).stored
    rfl hImage hValid with ⟨i, j, hFree, -, hLayout, hStored⟩
  rcases (createIn_outcome hImage hValid hSlot hIn').stored
    rfl hImage hValid with
    ⟨i', j', hFree', hNum, hLayout', hStored'⟩
  cases hFree.symm.trans hFree'
  refine ⟨inode, t', (hOther inode).trans hIn', ?_, ?_⟩
  · intro hDisk
    have hInodes := hStored'.symm.trans
      ((Fs.inodeAt_congr (hLayout'.trans hLayout.symm)
        (congrFun hDisk _)).trans hStored)
    exact hPointer.2 (congrArg (fun n => n.iBlock 1) hInodes)
  · rw [hNum, hStored']
    exact hPointer.1

/-
  The arrays do not matter only where creation returns for no
  content of them, and every success could have left another
  disk and another pointer.
-/
theorem create_ignores_stack_iff
    (s : Fs) :
    (IgnoresStack s ↔ ∀ stack, ext2FileCreate stack s = none) ∧
      ∀ owners, ImageOk owners s → ∀ stack t,
        ext2FileCreate stack s = some (0, t) →
          ∃ inode t',
            ext2FileCreate { stack with newInode := inode } s =
                some (0, t') ∧
              t'.disk ≠ t.disk ∧
              (t'.inodeAt t'.file.inodeNum).iBlock 1 ≠ 0 := by
  refine ⟨⟨fun hIgnores stack => ?_, fun hNone => ?_⟩,
    fun owners h stack t hCreate =>
      create_stores_garbage h hCreate⟩
  · have hSame := hIgnores.same stack noisyStack
    rw [ext2FileCreate_noisy] at hSame
    exact Option.map_eq_none_iff.mp hSame
  · refine ⟨fun stack stack' => ?_, fun stack t hCreate => ?_⟩
    · rw [hNone stack, hNone stack']
    · rw [hNone stack] at hCreate
      cases hCreate

end

------------------------------------------------------------
-- Three Contents
------------------------------------------------------------

/- The array of the parent's path holds the string `/f`. -/
def namedStack : CreateStack :=
  { CreateStack.zero with
    parentPathname := .ofFn maxPathLen fun i =>
      [slash, 102].getD i 0 }

/- The structure of the inode holds pointers to block 7. -/
def pointingStack : CreateStack :=
  { CreateStack.zero with
    newInode :=
      { Inode.zero with iBlock := fun _ => 7 } }

/-
  Creating `/g` succeeds with a stack of zeros.  The string
  `/f` in the parent's path is looked up, and creation fails.
  The pointers in the inode are committed: they name a block
  of `/f`.
-/
theorem create_depends_on_stack :
    ImageOk fileSampleOwners fileSample ∧
      ∃ s, ext2Fopen [47, 103, 0] 119 .zero fileSample =
          some s ∧
        (ext2FileCreate namedStack s).map Prod.fst = some 1 ∧
        (∃ t t', ext2FileCreate .zero s = some (0, t) ∧
          ext2FileCreate pointingStack s = some (0, t') ∧
          t'.disk ≠ t.disk ∧
          (t'.inodeAt t'.file.inodeNum).iBlock 1 = 7) ∧
        ¬ IgnoresStack s := by
  have hFacts :
      ((ext2Fopen [47, 103, 0] 119 .zero fileSample).bind
        fun s => (ext2FileCreate namedStack s).bind fun p =>
          (ext2FileCreate .zero s).bind fun r =>
            (ext2FileCreate pointingStack s).map fun q =>
              ((p.1, r.1, (r.2.disk 4).get 2092),
                q.1, (q.2.disk 4).get 2092,
                (q.2.inodeAt q.2.file.inodeNum).iBlock 1)) =
        some ((1, 0, 0), 0, 7, 7) := by
    decide +kernel
  rcases Option.bind_eq_some_iff.mp hFacts with
    ⟨s, hOpen, hFacts⟩
  rcases Option.bind_eq_some_iff.mp hFacts with
    ⟨⟨errNamed, u⟩, hNamed, hFacts⟩
  rcases Option.bind_eq_some_iff.mp hFacts with
    ⟨⟨errZero, t⟩, hZero, hFacts⟩
  rcases Option.map_eq_some_iff.mp hFacts with
    ⟨⟨errPointing, t'⟩, hPointing, hFacts⟩
  simp only [Prod.mk.injEq] at hFacts
  rcases hFacts with
    ⟨⟨rfl, rfl, hByte⟩, rfl, hByte', hPointer⟩
  refine ⟨fileSample_imageOk, s, hOpen,
    by rw [hNamed, Option.map_some],
    ⟨t, t', hZero, hPointing, ?_, hPointer⟩, ?_⟩
  · intro hDisk
    rw [hDisk, hByte] at hByte'
    exact absurd hByte' (by decide)
  · intro hIgnores
    have hClear :=
      hIgnores.pointers pointingStack t' hPointing 1 (by decide)
    exact absurd (hClear.symm.trans hPointer) (by decide)

end Ext2

end Ester
