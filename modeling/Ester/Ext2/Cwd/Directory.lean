import Ester.Ext2.Cwd.Name
import Ester.Ext2.Lookup.Resolution

/-
  The inode of the current working directory.

  Changing the directory walks the tree like a lookup but has
  no way to stop: behind a component that no entry matches it
  looks for the next one in the same directory.  Over the
  same splitter and lister a lookup is a `walk` and a change
  is a `drift`, and the two end at the same inode exactly
  when the components behind the stop lead back to it.

  Key definitions include:
    * `StoresFound`

  Key theorems include:
    * `changeLoop_eq`
    * `changeCwdWith_eq`
    * `cwd_inode_iff`
-/

------------------------------------------------------------
-- Drifting
------------------------------------------------------------

namespace Ester

namespace Ext2

section

variable {s : Fs} {T : DirTree s}
variable {unpack : UnpackFn} {list : ListFn}

/- The loop of the change is a drift through the tree. -/
theorem changeLoop_eq
    (hList : Lists list T)
    {rows : UnpackedPath}
    {cs : List (List UInt8)}
    {i : Nat}
    (hRows : ∀ k (hk : k < cs.length),
      Terminated (rows.row (i + k)) ∧
        cString (rows.row (i + k)) = cs[k])
    {n : UInt32}
    (hn : s.layout.ValidInode n)
    (slots : DirEntries)
    (inode : Inode) :
    ∃ inode', changeLoop list rows cs.length i n slots
        (s.setCurrentInode inode) =
      some (drift T.look n cs, s.setCurrentInode inode') := by
  induction cs generalizing i n slots inode with
  | nil => exact ⟨inode, rfl⟩
  | cons c cs ih =>
      rcases hList n hn slots inode with
        ⟨slots₁, inode₁, hRun, hShow⟩
      rcases hRows 0 (by simp) with ⟨hTerm, hText⟩
      rw [Nat.add_zero] at hTerm hText
      have hMatch := matchEntry_eq hTerm hShow
      rw [hText, List.getElem_cons_zero] at hMatch
      change matchEntry _ _ _ = some (T.look n c) at hMatch
      have hRest : ∀ k (hk : k < cs.length),
          Terminated (rows.row (i + 1 + k)) ∧
            cString (rows.row (i + 1 + k)) = cs[k] := by
        intro k hk
        have hNext := hRows (k + 1) (Nat.succ_lt_succ hk)
        rwa [List.getElem_cons_succ, ← Nat.add_assoc,
          Nat.add_right_comm] at hNext
      simp only [List.length_cons, changeLoop, hRun, hMatch,
        Option.bind_eq_bind, Option.bind_some]
      cases hLook : T.look n c with
      | none =>
          rw [drift_cons_of_none hLook]
          exact ih hRest hn slots₁ inode₁
      | some m =>
          rw [drift_cons_of_some hLook]
          exact ih hRest (T.look_valid hn hLook) slots₁ inode₁

/- The new directory of a split path is where it drifts. -/
theorem newCwdInode_splits
    (hL : s.layout.Ok)
    {path : List UInt8}
    {cs : List (List UInt8)}
    {rows rows' : UnpackedPath}
    {pathDepth : UInt16}
    (hSplit : SplitsInto unpack path cs rows)
    (hUnpack : unpack path rows = some (pathDepth, rows'))
    (hList : Lists list T)
    (slots : DirEntries) :
    ∃ inode', newCwdInode list path pathDepth rows' slots s =
      some (drift T.look 2 cs, s.setCurrentInode inode') := by
  rcases hSplit.split with ⟨shown, hRun, hRows⟩
  rw [hUnpack] at hRun
  cases hRun
  have hSlash : Terminated [slash, 0] := by decide
  have hSome := strcmp_isSome hSplit.terminated hSlash
  rcases Option.isSome_iff_exists.mp hSome with ⟨cmp, hCmp⟩
  have hZero := strcmp_eq_zero_iff hSplit.terminated hSlash
  rw [hCmp, Option.some.injEq] at hZero
  simp only [newCwdInode, hCmp, Option.bind_eq_bind,
    Option.bind_some, hSplit.remaining]
  by_cases hRoot : cmp = 0
  · have hComps := hSplit.root (hZero.mp hRoot)
    rw [if_pos hRoot, hComps, drift_nil]
    exact ⟨s.currentInode, rfl⟩
  · rw [if_neg hRoot]
    refine changeLoop_eq hList ?_ hL.valid_root slots
      s.currentInode
    intro k hk
    rw [Nat.add_comm]
    exact hRows k hk

/- A non-empty name that fits the array is stored. -/
theorem storeName_isSome
    {path : List UInt8}
    (hTerm : Terminated path)
    (hPos : 0 < (cString path).length)
    (hLe : (cString path).length ≤ maxPathLen)
    (buff : ByteBuffer maxPathLen) :
    ∃ name, storeName path buff = some name := by
  have hSlash : Terminated [slash, 0] := by decide
  have hLen := strlen_of_terminated hTerm
  have hSome := strcmp_isSome hTerm hSlash
  rcases Option.isSome_iff_exists.mp hSome with ⟨cmp, hCmp⟩
  have hCopy : memcpy buff 0 (fun i => path.getD i 0)
      (cString path).length = some _ :=
    memcpy_of_le (by rwa [Nat.zero_add])
  have hNe : (cString path).length ≠ 0 := Nat.ne_of_gt hPos
  simp only [storeName, hLen, hCmp, hCopy,
    Option.bind_eq_bind, Option.bind_some, if_neg hNe]
  split
  · split <;> exact ⟨_, rfl⟩
  · exact ⟨_, rfl⟩

/- Changing the directory stores where the path drifts. -/
theorem changeCwdWith_eq
    (hL : s.layout.Ok)
    {path : List UInt8}
    {cs : List (List UInt8)}
    {stack : FindStack}
    (hSplit : SplitsInto unpack path cs stack.unpackedPath)
    (hList : Lists list T)
    (hPos : 0 < (cString path).length)
    (hLe : (cString path).length ≤ maxPathLen)
    (cwd : Cwd) :
    ∃ cwd' t, changeCwdWith unpack list path stack cwd s =
        some (cwd', t) ∧
      cwd'.cwdInodeNumber = drift T.look 2 cs := by
  rcases hSplit.split with ⟨rows, hRun, -⟩
  rcases newCwdInode_splits hL hSplit hRun hList
    stack.dirEntries with ⟨inode', hNew⟩
  rcases storeName_isSome hSplit.terminated hPos hLe
    cwd.cwdName with ⟨name, hStore⟩
  simp only [changeCwdWith, hRun, hNew, hStore,
    Option.bind_eq_bind, Option.bind_some]
  exact ⟨_, _, rfl, rfl⟩

------------------------------------------------------------
-- Where Changes and Lookups Agree
------------------------------------------------------------

/- The change stores the inode that the lookup finds. -/
def StoresFound
    (unpack : UnpackFn)
    (list : ListFn)
    (path : List UInt8)
    (stack stack' : FindStack)
    (cwd : Cwd)
    (s : Fs) : Prop :=
  ∃ num t cwd' t',
    inodeFindWith unpack list path stack s = some (num, t) ∧
    changeCwdWith unpack list path stack' cwd s =
      some (cwd', t') ∧
    cwd'.cwdInodeNumber = num

/-
  Over the same splitter and lister, a change stores what a
  lookup finds exactly when behind the first component that
  is missing, or leads from a directory to itself, those of
  the components that are found lead back to that directory.
-/
theorem cwd_inode_iff
    (hL : s.layout.Ok)
    {path : List UInt8}
    {cs : List (List UInt8)}
    {stack stack' : FindStack}
    (hFind : SplitsInto unpack path cs stack.unpackedPath)
    (hChange : SplitsInto unpack path cs stack'.unpackedPath)
    (hList : Lists list T)
    (hAbsolute : (cString path).head? = some slash)
    (hLe : (cString path).length ≤ maxPathLen)
    (cwd : Cwd) :
    StoresFound unpack list path stack stack' cwd s ↔
      ∀ d post, Halts T.look 2 cs d post →
        Reaches T.look d post d := by
  have hPos := List.length_pos_of_mem
    (List.mem_of_mem_head? hAbsolute)
  rcases inodeFindWith_splits hL hFind hList with
    ⟨inode', hWalk⟩
  rcases changeCwdWith_eq hL hChange hList hPos hLe cwd with
    ⟨cwd', t, hDrift, hStored⟩
  rw [← drift_eq_walk_iff]
  constructor
  · rintro ⟨num, u, cwd'', u', hRun, hRun', hSame⟩
    rw [hWalk] at hRun
    rw [hDrift] at hRun'
    cases hRun
    cases hRun'
    rw [← hStored, hSame]
  · intro hSame
    exact ⟨_, _, cwd', t, hWalk, hDrift, hStored.trans hSame⟩

end

------------------------------------------------------------
-- Two Changes in the Sample Image
------------------------------------------------------------

/- The path `/x/f`; the root has no entry `x`. -/
def missingPath : AbsPath where
  comps := [[120], [102]]
  names := by simp [isName_iff, slash, ext2NameLen]
  depth := by decide

/- Changing to `/f` stores the inode of `/f`. -/
theorem cwd_inode_sample :
    StoresFound unpackDirPath zeroedList filePath.bytes .zero
      .zero rootCwd fileSample := by
  rcases fileSampleTree_look with ⟨hFile, -, -⟩
  have hSplit := (deliversComps_unpackDirPath filePath
    zeroFrom_zero).splitsInto
  refine (cwd_inode_iff fileSample_imageOk.layout hSplit
    hSplit zeroedList_fileSample (by decide) (by decide)
    rootCwd).mpr ?_
  intro d post hHalts
  cases hHalts with
  | here hStay =>
      rw [hFile] at hStay
      exact absurd hStay (by decide)
  | step _ _ hRest => cases hRest

/-
  A lookup of `/x/f` stops at the root, inode 2; changing the
  directory to `/x/f` goes on to `f` and stores inode 12.
-/
theorem cwd_inode_drifts :
    Lists zeroedList fileSampleTree ∧
      SplitsInto unpackDirPath missingPath.bytes
        missingPath.comps FindStack.zero.unpackedPath ∧
      resolve fileSampleTree.look 2 missingPath.comps =
        none ∧
      (ext2InodeFind missingPath.bytes .zero fileSample).map
        Prod.fst = some 2 ∧
      (ext2ChangeCwd missingPath.bytes .zero rootCwd
        fileSample).map (fun r => r.1.cwdInodeNumber) =
          some 12 ∧
      ¬ StoresFound unpackDirPath zeroedList
        missingPath.bytes .zero .zero rootCwd fileSample := by
  have hSplit := (deliversComps_unpackDirPath missingPath
    zeroFrom_zero).splitsInto
  have hLook : fileSampleTree.look 2 [120] = none := by
    decide +kernel
  rcases fileSampleTree_look with ⟨hFile, -, -⟩
  refine ⟨zeroedList_fileSample, hSplit,
    resolve_cons_of_none hLook, by decide +kernel,
    by decide +kernel, ?_⟩
  rintro ⟨num, t, cwd', t', hFind, hChange, hSame⟩
  rcases inodeFindWith_splits fileSample_imageOk.layout
    hSplit zeroedList_fileSample with ⟨inode', hWalk⟩
  rcases changeCwdWith_eq fileSample_imageOk.layout hSplit
    zeroedList_fileSample (by decide) (by decide) rootCwd with
    ⟨cwd'', t'', hDrift, hStored⟩
  rw [hFind] at hWalk
  rw [hChange] at hDrift
  cases hWalk
  cases hDrift
  -- the walk stays at the root, the drift goes on to `f`
  have hStay : walk fileSampleTree.look 2 missingPath.comps =
      2 := walk_cons_of_none hLook
  have hMove : drift fileSampleTree.look 2 missingPath.comps =
      12 := (drift_cons_of_none hLook).trans
    (drift_cons_of_some hFile)
  rw [hSame, hStay, hMove] at hStored
  exact absurd hStored (by decide)

end Ext2

end Ester
