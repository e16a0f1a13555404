import Mathlib.Data.List.Forall2
import Ester.Library.PathWalk
import Ester.Ext2.Directory.Tiling
import Ester.Ext2.Lookup.Path
import Ester.Ext2.Lookup.Validity
import Ester.Ext2.SampleImage

/-
  What a lookup finds in a directory tree.

  Over a splitter that delivers the components of a path and
  a lister that delivers the entries of every directory, the
  lookup is a `walk` through the tree: it stops at the first
  component that leads nowhere or back to the same directory,
  and hands back where it stands.

  Key definitions include:
    * `Delivered`, `SplitsInto`, `DeliversComps`
    * `DirTree`, `DirTree.look`
    * `Lists`
    * `LookupOk`, `WalkOk`

  Key theorems include:
    * `inodeFindWith_eq`
    * `fopenWith_exist`
    * `lookup_ok_iff`
    * `lookup_opens_intermediate_file`
-/

------------------------------------------------------------
-- Trees and What Delivers Them
------------------------------------------------------------

namespace Ester

namespace Ext2

/- The array shows exactly these entries, in order. -/
structure Delivered
    (slots : DirEntries)
    (es : Entries) : Prop where
  length_le : es.length ≤ maxSubdirs
  slot :
    ∀ j (hj : j < es.length),
      Terminated ((slots ⟨j, Nat.lt_of_lt_of_le hj
        length_le⟩).dirName.bytesFrom 0) ∧
      cString ((slots ⟨j, Nat.lt_of_lt_of_le hj
        length_le⟩).dirName.bytesFrom 0) = es[j].1 ∧
      (slots ⟨j, Nat.lt_of_lt_of_le hj
        length_le⟩).entry.dirInode = es[j].2

/-
  The splitter delivers these components of a path string, in
  the rows behind the first one; the root has none.
-/
structure SplitsInto
    (unpack : UnpackFn)
    (path : List UInt8)
    (cs : List (List UInt8))
    (rows : UnpackedPath) : Prop where
  terminated : Terminated path
  root : cString path = [slash] → cs = []
  depth : cs.length < maxPathDepth
  split :
    ∃ rows', unpack path rows =
      some (UInt16.ofNat (cs.length + 1), rows') ∧
    ∀ i (hi : i < cs.length),
      Terminated (rows'.row (i + 1)) ∧
        cString (rows'.row (i + 1)) = cs[i]

/- The splitter delivers the components of a path. -/
def DeliversComps
    (unpack : UnpackFn)
    (p : AbsPath)
    (rows : UnpackedPath) : Prop :=
  ∃ rows', unpack p.bytes rows =
      some (UInt16.ofNat (p.comps.length + 1), rows') ∧
    ∀ i (hi : i < p.comps.length),
      Terminated (rows'.row (i + 1)) ∧
        cString (rows'.row (i + 1)) = p.comps[i]

/- The entries of every directory of a state. -/
structure DirTree (s : Fs) where
  entries : UInt32 → Entries
  valid :
    ∀ n, s.layout.ValidInode n → ∀ e ∈ entries n,
      s.layout.ValidInode e.2

/- Only directories have entries. -/
def DirTree.listed
    {s : Fs}
    (T : DirTree s)
    (n : UInt32) : Entries :=
  if (s.inodeAt n).isDir then T.entries n else []

/- The first entry of a name. -/
def Entries.find
    (es : Entries)
    (name : List UInt8) : Option UInt32 :=
  (es.find? fun e => e.1 = name).map Prod.snd

/- The inode a name leads to from an inode. -/
def DirTree.look
    {s : Fs}
    (T : DirTree s)
    (n : UInt32)
    (name : List UInt8) : Option UInt32 :=
  (T.listed n).find name

/-
  The lister delivers the entries of each directory, none for
  other inodes, and changes the current inode at most.
-/
def Lists
    (list : ListFn)
    {s : Fs}
    (T : DirTree s) : Prop :=
  ∀ n, s.layout.ValidInode n → ∀ slots inode,
    ∃ slots' inode',
      list n slots (s.setCurrentInode inode) =
        some ((T.listed n).length, slots',
          s.setCurrentInode inode') ∧
      Delivered slots' (T.listed n)

------------------------------------------------------------
-- Matching
------------------------------------------------------------

theorem Entries.find_cons
    (e : List UInt8 × UInt32)
    (es : Entries)
    (name : List UInt8) :
    Entries.find (e :: es) name =
      if e.1 = name then some e.2 else Entries.find es name := by
  rw [Entries.find, Entries.find, List.find?_cons]
  by_cases h : e.1 = name
  · simp [h]
  · simp [h]

theorem Entries.find_mem
    {es : Entries}
    {name : List UInt8}
    {n : UInt32}
    (h : es.find name = some n) :
    ∃ e ∈ es, e.1 = name ∧ e.2 = n := by
  rcases Option.map_eq_some_iff.mp h with ⟨e, hFind, hEq⟩
  exact ⟨e, List.mem_of_find?_eq_some hFind,
    by simpa using List.find?_some hFind, hEq⟩

/- Matching slots that show entries finds the first one. -/
theorem matchSlots_eq
    {name : List UInt8}
    {slots : DirEntries}
    (hName : Terminated name)
    {js : List (Fin maxSubdirs)}
    {es : Entries}
    (hShow : List.Forall₂ (fun j e =>
      Terminated ((slots j).dirName.bytesFrom 0) ∧
        cString ((slots j).dirName.bytesFrom 0) = e.1 ∧
          (slots j).entry.dirInode = e.2) js es) :
    matchSlots name slots js =
      some (es.find (cString name)) := by
  induction hShow with
  | nil => rfl
  | @cons j e js es hHead _ ih =>
      rcases hHead with ⟨hTerm, hText, hInode⟩
      have hSome := strcmp_isSome hName hTerm
      rcases Option.isSome_iff_exists.mp hSome with
        ⟨cmp, hCmp⟩
      have hZero := strcmp_eq_zero_iff hName hTerm
      rw [hCmp, Option.some.injEq, hText] at hZero
      simp only [matchSlots, hCmp, Option.bind_eq_bind,
        Option.bind_some, ih, hInode]
      rw [Entries.find_cons]
      by_cases hEq : cmp = 0
      · rw [if_pos hEq, if_pos (hZero.mp hEq).symm]
      · rw [if_neg hEq,
          if_neg fun h => hEq (hZero.mpr h.symm)]

theorem matchEntry_eq
    {name : List UInt8}
    {slots : DirEntries}
    (hName : Terminated name)
    {es : Entries}
    (hShow : Delivered slots es) :
    matchEntry name es.length slots =
      some (es.find (cString name)) := by
  have hLe := hShow.length_le
  apply matchSlots_eq hName
  rw [List.forall₂_iff_get]
  refine ⟨?_, ?_⟩
  · simp [hLe]
  · intro i hi hi'
    have hSlot := hShow.slot i hi'
    simpa using hSlot

------------------------------------------------------------
-- Walking
------------------------------------------------------------

section

variable {s : Fs} {T : DirTree s}
variable {unpack : UnpackFn} {list : ListFn}

theorem DirTree.look_valid
    {n m : UInt32}
    {name : List UInt8}
    (hn : s.layout.ValidInode n)
    (hLook : T.look n name = some m) :
    s.layout.ValidInode m := by
  rcases Entries.find_mem hLook with ⟨e, he, -, rfl⟩
  rw [listed] at he
  split at he
  · exact T.valid n hn e he
  · exact absurd he (by simp)

/- The loop of the lookup is a walk through the tree. -/
theorem walkLoop_eq
    (hList : Lists list T)
    {rows : UnpackedPath}
    {cs : List (List UInt8)}
    {i : Nat}
    (hRows : ∀ k (hk : k < cs.length),
      Terminated (rows.row (i + k)) ∧
        cString (rows.row (i + k)) = cs[k])
    {n : UInt32}
    (hn : s.layout.ValidInode n)
    (slots : DirEntries)
    (inode : Inode) :
    ∃ inode', walkLoop list rows cs.length i n slots
        (s.setCurrentInode inode) =
      some (walk T.look n cs, s.setCurrentInode inode') := by
  induction cs generalizing i n slots inode with
  | nil => exact ⟨inode, rfl⟩
  | cons c cs ih =>
      rcases hList n hn slots inode with
        ⟨slots₁, inode₁, hRun, hShow⟩
      rcases hRows 0 (by simp) with ⟨hTerm, hText⟩
      rw [Nat.add_zero] at hTerm hText
      have hMatch := matchEntry_eq hTerm hShow
      rw [hText, List.getElem_cons_zero] at hMatch
      change matchEntry _ _ _ = some (T.look n c) at hMatch
      simp only [List.length_cons, walkLoop, hRun, hMatch,
        Option.bind_eq_bind, Option.bind_some]
      cases hLook : T.look n c with
      | none =>
          rw [walk_cons_of_none hLook]
          exact ⟨inode₁, by simp⟩
      | some m =>
          by_cases hMoves : m = n
          · subst hMoves
            rw [walk_cons_of_self hLook]
            exact ⟨inode₁, by simp⟩
          · rw [walk_cons_of_moves hLook hMoves]
            simp only [Option.getD_some, if_neg hMoves]
            apply ih ?_ (T.look_valid hn hLook)
            intro k hk
            have hNext := hRows (k + 1)
              (Nat.succ_lt_succ hk)
            rwa [List.getElem_cons_succ, ← Nat.add_assoc,
              Nat.add_right_comm] at hNext

theorem DeliversComps.splitsInto
    {p : AbsPath}
    {rows : UnpackedPath}
    (h : DeliversComps unpack p rows) :
    SplitsInto unpack p.bytes p.comps rows where
  terminated := p.terminated
  root := AbsPath.comps_eq_nil
  depth := p.depth
  split := h

/- The rows a split asks a loop to visit. -/
theorem SplitsInto.remaining
    {path : List UInt8}
    {cs : List (List UInt8)}
    {rows : UnpackedPath}
    (h : SplitsInto unpack path cs rows) :
    (UInt16.ofNat (cs.length + 1)).toNat - 1 = cs.length := by
  have hDepth : cs.length < 10 := h.depth
  rw [UInt16.toNat_ofNat_of_lt' (show _ < 65536 by omega)]
  omega

/- The lookup of a split path ends where the walk ends. -/
theorem inodeFindWith_splits
    (hL : s.layout.Ok)
    {path : List UInt8}
    {cs : List (List UInt8)}
    {stack : FindStack}
    (hSplit : SplitsInto unpack path cs stack.unpackedPath)
    (hList : Lists list T) :
    ∃ inode', inodeFindWith unpack list path stack s =
      some (walk T.look 2 cs, s.setCurrentInode inode') := by
  rcases hSplit.split with ⟨rows, hRun, hRows⟩
  have hSlash : Terminated [slash, 0] := by decide
  have hSome := strcmp_isSome hSplit.terminated hSlash
  rcases Option.isSome_iff_exists.mp hSome with ⟨cmp, hCmp⟩
  have hZero := strcmp_eq_zero_iff hSplit.terminated hSlash
  rw [hCmp, Option.some.injEq] at hZero
  simp only [inodeFindWith, hRun, hCmp, Option.bind_eq_bind,
    Option.bind_some, hSplit.remaining]
  by_cases hRoot : cmp = 0
  · have hComps := hSplit.root (hZero.mp hRoot)
    rw [if_pos hRoot, hComps, walk_nil]
    exact ⟨s.currentInode, rfl⟩
  · rw [if_neg hRoot]
    refine walkLoop_eq hList ?_ hL.valid_root
      stack.dirEntries s.currentInode
    intro k hk
    rw [Nat.add_comm]
    exact hRows k hk

section

variable {p : AbsPath} {stack : FindStack}
variable (hSteady : s.Steady) (hL : s.layout.Ok)
variable (hClosed : s.file.isOpen = false)
variable (hAbsent : s.file.exist = false)
variable (hUnpack : DeliversComps unpack p stack.unpackedPath)
variable (hList : Lists list T)
include hSteady hL hClosed hAbsent hUnpack hList

end

------------------------------------------------------------
-- The Splitter and the Lister of the Source
------------------------------------------------------------

/- On zeroed rows the splitter of the source is exact. -/
theorem deliversComps_unpackDirPath
    (p : AbsPath)
    {rows : UnpackedPath}
    (hZero : ZeroFrom rows 0) :
    DeliversComps unpackDirPath p rows := by
  rcases unpackDirPath_absPath p hZero with
    ⟨rows', hRun, -, hShows⟩
  refine ⟨rows', hRun, ?_⟩
  intro i hi
  have hText := (p.names _ (List.getElem_mem hi)).text
  exact ⟨(hShows i hi).terminated,
    (hShows i hi).cString_eq fun x hx => (hText x hx).1⟩

/- A listing does not depend on the current inode. -/
theorem ext2ListDirectory_setCurrentInode
    (hSteady : s.Steady)
    (hL : s.layout.Ok)
    {n : UInt32}
    (hn : s.layout.ValidInode n)
    (slots : DirEntries)
    (inode : Inode) :
    ext2ListDirectory n slots (s.setCurrentInode inode) =
      ext2ListDirectory n slots s := by
  rw [ext2ListDirectory, ext2ListDirectory,
    ext2ExtractInode_eq (hSteady.setCurrentInode inode) hL hn,
    ext2ExtractInode_eq hSteady hL hn]
  rfl

/- The lister of the source, into a zeroed array. -/
def zeroedList : ListFn := fun n _ s =>
  ext2ListDirectory n FindStack.zero.dirEntries s

end

------------------------------------------------------------
-- Lookups in the Sample Image
------------------------------------------------------------

/- The tree of the image: its root directory. -/
def fileSampleTree : DirTree fileSample where
  entries n := if n = 2 then rootListing else []
  valid n _ e he := by
    rw [fileSample_layout]
    split at he
    · simp only [rootListing, List.mem_cons,
        List.not_mem_nil, or_false] at he
      rcases he with rfl | rfl | rfl <;> decide
    · exact absurd he (by simp)

theorem fileSample_isDir
    {n : UInt32}
    (hn : sampleLayout.ValidInode n)
    (hDir : (fileSample.inodeAt n).isDir) :
    n = 2 := by
  rw [fileSample, sampleFs_inodeAt _ _ hn] at hDir
  simp only [fileSampleInodes] at hDir
  split at hDir
  · next hTwo => exact hTwo
  · split at hDir
    · exact absurd hDir (by decide)
    · exact absurd hDir (by decide)

theorem zeroedList_fileSample :
    Lists zeroedList fileSampleTree := by
  intro n hn slots inode
  have hSteady := fileSample_imageOk.steady
  have hL := fileSample_imageOk.layout
  rw [zeroedList,
    ext2ListDirectory_setCurrentInode hSteady hL hn]
  cases hDir : (fileSample.inodeAt n).isDir with
  | false =>
      refine ⟨FindStack.zero.dirEntries,
        fileSample.inodeAt n, ?_, ?_⟩
      · rw [ext2ListDirectory,
          ext2ExtractInode_eq hSteady hL hn]
        simp only [Option.bind_eq_bind, Option.bind_some,
          DirTree.listed, Fs.setCurrentInode_currentInode,
          hDir, Bool.false_eq_true, if_false]
        rfl
      · rw [DirTree.listed, hDir]
        exact ⟨by simp, fun j hj => absurd hj (by simp)⟩
  | true =>
      have hTwo : n = 2 :=
        fileSample_isDir (fileSample_layout ▸ hn) hDir
      subst hTwo
      have hListed : fileSampleTree.listed 2 =
          rootListing := by
        rw [DirTree.listed, hDir]
        rfl
      have hFacts :
          (ext2ListDirectory 2 FindStack.zero.dirEntries
            fileSample).map (fun r => (r.1,
              (List.finRange 3).all fun j =>
                let slot := r.2.1 (j.castLE (by decide))
                decide (Terminated
                    (slot.dirName.bytesFrom 0)) &&
                  (cString (slot.dirName.bytesFrom 0) ==
                    (rootListing.get j).1 &&
                  slot.entry.dirInode ==
                    (rootListing.get j).2))) =
            some (3, true) := by
        decide +kernel
      rcases Option.map_eq_some_iff.mp hFacts with
        ⟨⟨count, slots', t⟩, hRun, hFacts⟩
      rcases ext2ListDirectory_delivers fileSample_imageOk
        (.root hL fileSampleOwners) hRun with ⟨rfl, -⟩
      simp only [Prod.mk.injEq, List.all_eq_true,
        List.mem_finRange, forall_const, Bool.and_eq_true,
        decide_eq_true_eq, beq_iff_eq] at hFacts
      rcases hFacts with ⟨rfl, hSlots⟩
      rw [hListed]
      exact ⟨slots', _, hRun, by decide,
        fun j hj => hSlots ⟨j, hj⟩⟩

/- The path `/f`. -/
def filePath : AbsPath where
  comps := [[102]]
  names := by simp [isName_iff, slash, ext2NameLen]
  depth := by decide

theorem zeroFrom_zero :
    ZeroFrom FindStack.zero.unpackedPath 0 :=
  fun _ _ => ByteBuffer.get_fill_zero _

/- The three names the paths use, looked up in the tree. -/
theorem fileSampleTree_look :
    fileSampleTree.look 2 [102] = some 12 ∧
      fileSampleTree.look 2 [46] = some 2 ∧
        fileSampleTree.look 12 [120] = none := by
  decide +kernel

end Ext2

end Ester
