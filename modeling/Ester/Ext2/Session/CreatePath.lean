import Mathlib.Logic.Equiv.Basic
import Ester.Ext2.Session.Lifecycle
import Ester.Ext2.Session.NewEntry
import Ester.Ext2.Session.Secrecy

/-
  Creating a file by its path.

  Creation splits the path, glues the components before the
  last one together without the slashes between them, and
  looks the result up.  The entry goes to the right directory
  only when that lookup ends there, the directory keeps its
  other entries only when the split leaves room for the last
  name, and the path finds the new file only when the lookup,
  which lists all directories into the same slots, sees every
  name on the way.

  Key definitions include:
    * `CreateStack.Zeroed`, `Fs.OpenedAt`
    * `CreatedAt`
    * `CreatesRight`

  Key theorems include:
    * `ext2FileCreate_path`
    * `TreeOk.arrives_entered`
    * `create_path_iff`
    * `create_misses_parent`
-/

------------------------------------------------------------
-- Starting a Creation
------------------------------------------------------------

namespace Ester

namespace Ext2

open StaleSlots (slotWalk Arrives)

/- The local arrays of a lookup start zeroed. -/
structure FindStack.Zeroed
    (stack : FindStack) : Prop where
  unpackedPath : ZeroFrom stack.unpackedPath 0
  dirName :
    ∀ j k, (stack.dirEntries j).dirName.get k = 0

/- The local arrays of a creation start zeroed. -/
structure CreateStack.Zeroed
    (stack : CreateStack) : Prop where
  unpackedPath : ZeroFrom stack.unpackedPath 0
  parentPathname : ∀ k, stack.parentPathname.get k = 0
  find : stack.find.Zeroed

/- The open file was opened at this path. -/
structure Fs.OpenedAt
    (s : Fs)
    (p : AbsPath) : Prop where
  terminated : Terminated (s.file.pathname.bytesFrom 0)
  pathname :
    cString (s.file.pathname.bytesFrom 0) = cString p.bytes

theorem FindStack.zeroed_zero :
    FindStack.zero.Zeroed where
  unpackedPath := fun _ _ => ByteBuffer.get_fill_zero _
  dirName _ _ := ByteBuffer.get_fill_zero _

theorem CreateStack.zeroed_zero :
    CreateStack.zero.Zeroed where
  unpackedPath := fun _ _ => ByteBuffer.get_fill_zero _
  parentPathname _ := ByteBuffer.get_fill_zero _
  find := FindStack.zeroed_zero

/- Zeroed slots show nothing. -/
theorem FindStack.Zeroed.listed
    {stack : FindStack}
    (h : stack.Zeroed) :
    Listed StaleSlots.empty ([] : Entries)
      stack.dirEntries where
  length_le := Nat.zero_le _
  names j k := by
    rw [StaleSlots.after_nil, h.dirName]
    rfl
  inodes j hj := absurd hj (Nat.not_lt_zero j)

section

variable {owners : Owners} {s t : Fs}
variable {recs : UInt32 → List Entries} {parent : UInt32}
variable {way : List (List UInt8)} {name : List UInt8}

/- Names on the way fill a bounded part of the path. -/
theorem length_flatten_le
    (hNames : ∀ c ∈ way, IsName c) :
    way.flatten.length ≤ 255 * way.length := by
  induction way with
  | nil => simp
  | cons c way ih =>
      have hc : c.length ≤ 255 :=
        (hNames c (by simp)).length_le
      have hRest := ih fun d hd => hNames d (by simp [hd])
      rw [List.flatten_cons, List.length_append,
        List.length_cons]
      omega

theorem TreeOk.gluedTarget_used
    (h : TreeOk s recs)
    (way : List (List UInt8)) :
    s.InodeUsed (gluedTarget recs way) := by
  unfold gluedTarget
  cases hFind :
      StaleSlots.find (Seen recs 2) way.flatten with
  | none => exact h.root
  | some n =>
      rcases StaleSlots.mem_of_find hFind with
        ⟨e, hMem, -, rfl⟩
      exact h.seen_used hMem

/- The rows before the last show the root and the way. -/
theorem wayRows_show
    {p : AbsPath}
    (hComps : p.comps = way ++ [name])
    {rows : UnpackedPath}
    (hRoot : rows.ShowsText 0 [slash])
    (hShows : ∀ i (hi : i < p.comps.length),
      rows.ShowsText ((i + 1) * rowLen) p.comps[i])
    (k : Nat)
    (hk : k < ([slash] :: way).length) :
    Terminated (rows.row (0 + k)) ∧
      cString (rows.row (0 + k)) = ([slash] :: way)[k] := by
  cases k with
  | zero =>
      have hZero : rows.row (0 + 0) = rows.bytesFrom 0 := by
        rw [UnpackedPath.row, Nat.add_zero, Nat.zero_mul]
      rw [hZero]
      refine ⟨hRoot.terminated, hRoot.cString_eq ?_⟩
      intro x hx
      rw [List.mem_singleton.mp hx]
      decide
  | succ k =>
      have hk' : k < way.length := by simpa using hk
      have hAll : k < p.comps.length := by
        rw [hComps, List.length_append]
        omega
      have hRow := hShows k hAll
      have hComp : p.comps[k] = way[k] := by
        simp only [hComps, List.getElem_append_left hk']
      rw [hComp] at hRow
      rw [Nat.zero_add, List.getElem_cons_succ]
      have hText := (p.names way[k] (by simp [hComps])).text
      exact ⟨hRow.terminated,
        hRow.cString_eq fun x hx => (hText x hx).1⟩

/- No row before the last holds a zero. -/
theorem wayRows_ne_zero
    (hNames : ∀ c ∈ way, IsName c) :
    ∀ c ∈ [slash] :: way, ∀ x ∈ c, x ≠ 0 := by
  intro c hc x hx
  rcases List.mem_cons.mp hc with rfl | hc
  · rw [List.mem_singleton.mp hx]
    decide
  · exact ((hNames c hc).text x hx).1

/-
  A creation at a path creates its last component in the
  directory that the glued path of the others leads to.
-/
theorem ext2FileCreate_path
    (h : ImageOk owners s)
    (hTree : TreeOk s recs)
    {stack : CreateStack}
    (hStack : stack.Zeroed)
    {p : AbsPath}
    (hOpened : s.OpenedAt p)
    (hComps : p.comps = way ++ [name]) :
    ∃ row, Terminated row ∧ cString row = name ∧
      ext2FileCreate stack s =
        createIn (gluedTarget recs way) stack.newInode row
          (s.setCurrentInode
            (s.inodeAt (gluedTarget recs way))) := by
  have hDepth : p.comps.length < 10 := p.depth
  have hLength : p.comps.length = way.length + 1 := by
    rw [hComps, List.length_append, List.length_singleton]
  have hNames : ∀ c ∈ way, IsName c := fun c hc =>
    p.names c (by simp [hComps, hc])
  have hFlat := length_flatten_le hNames
  have hLen := strlen_of_terminated hOpened.terminated
  rw [hOpened.pathname] at hLen
  rcases unpackDirPath_absPath p hStack.unpackedPath with
    ⟨rows, hRun, hRoot, hShows⟩
  rw [← unpackDirPath_congr hOpened.terminated p.terminated
    hOpened.pathname] at hRun
  have hPathDepth :
      (UInt16.ofNat (p.comps.length + 1)).toNat =
        way.length + 2 := by
    rw [UInt16.toNat_ofNat_of_lt' (show _ < 65536 by omega),
      hLength]
  have hRows := wayRows_show hComps hRoot hShows
  have hTexts := wayRows_ne_zero hNames
  have hStart : stack.parentPathname.ShowsText 0 [] :=
    ⟨fun k hk => absurd hk (Nat.not_lt_zero k),
      hStack.parentPathname _, by decide⟩
  rcases glueRows_showsText hRows hTexts hStart (by simp) (by
      rw [List.flatten_cons, List.length_append]
      show 0 + (1 + way.flatten.length) < 4096
      omega) with ⟨path, hGlue, hPath⟩
  rw [List.length_cons] at hGlue
  have hText : ∀ x ∈ [] ++ ([slash] :: way).flatten,
      x ≠ 0 := by
    intro x hx
    rcases List.mem_flatten.mp hx with ⟨c, hc, hx⟩
    exact hTexts c hc x hx
  rcases ext2InodeFind_glued h.steady h.layout hTree
      hStack.find.listed hStack.find.unpackedPath hNames
      (by omega) hPath.terminated (hPath.cString_eq hText)
    with ⟨inode, hFind⟩
  have hValid := (hTree.gluedTarget_used way).valid
  have hSet := h.setCurrentInode inode
  have hExtract := ext2ExtractInode_eq hSet.steady hSet.layout
    hValid
  -- the row of the last component
  have hEnd : way.length < p.comps.length := by omega
  have hLast := hShows way.length (by omega)
  have hName : p.comps[way.length] = name := by
    simp [hComps]
  rw [hName] at hLast
  have hIsName := p.names name (by simp [hComps])
  refine ⟨rows.row (way.length + 1), hLast.terminated,
    hLast.cString_eq fun x hx => (hIsName.text x hx).1, ?_⟩
  unfold ext2FileCreate
  simp only [hLen, Option.bind_eq_bind, Option.bind_some,
    if_neg (Nat.not_lt.mpr p.length_le), hRun, hPathDepth]
  rw [if_neg (by
    show ¬ 10 < way.length + 2
    omega)]
  simp only [show way.length + 2 - 1 = way.length + 1 from rfl,
    hGlue, hFind, hExtract, Option.bind_some]
  rfl

------------------------------------------------------------
-- Any Unused Number
------------------------------------------------------------

/- Renaming inodes, zero apart, renames what is delivered. -/
theorem visible_map
    {f : UInt32 → UInt32}
    (hZero : ∀ z, f z = 0 ↔ z = 0)
    (recs : List Entries) :
    visible (recs.map (List.map (Prod.map id f))) =
      (visible recs).map (Prod.map id f) := by
  have hLead (es : Entries) :
      leading (es.map (Prod.map id f)) =
        (leading es).map (Prod.map id f) := by
    unfold leading
    rw [List.takeWhile_map]
    congr 2
    funext e
    simp [hZero]
  unfold visible
  rw [List.flatMap_map, List.map_take, List.map_flatMap]
  simp only [hLead]

/- A renaming that fixes the inodes in use fixes records. -/
theorem TreeOk.map_records
    (h : TreeOk s recs)
    {f : UInt32 → UInt32}
    (hZero : f 0 = 0)
    (hFix : ∀ n, s.InodeUsed n → f n = n)
    (n : UInt32) :
    (recs n).map (List.map (Prod.map id f)) = recs n := by
  have hEntry : ∀ es ∈ recs n, ∀ e ∈ es,
      Prod.map id f e = id e := by
    intro es hEs e he
    have hGoal : f e.2 = e.2 := by
      by_cases h0 : e.2 = 0
      · rw [h0, hZero]
      · apply hFix
        apply h.used n e
        exact List.mem_filter.mpr
          ⟨List.mem_flatten.mpr ⟨es, hEs, he⟩, by simpa⟩
    exact Prod.ext rfl hGoal
  have hBlock : ∀ es ∈ recs n,
      es.map (Prod.map id f) = id es := fun es hEs =>
    (List.map_congr_left (hEntry es hEs)).trans
      (List.map_id es)
  exact (List.map_congr_left hBlock).trans (List.map_id _)

/-
  The path leads to the new entry under one unused number if
  it does under another.
-/
theorem TreeOk.arrives_entered
    (h : TreeOk s recs)
    (hUsed : s.InodeUsed parent)
    {m m' : UInt32}
    (hm : s.layout.ValidInode m)
    (hm' : s.layout.ValidInode m')
    (hFree : ¬ s.InodeUsed m)
    (hFree' : ¬ s.InodeUsed m')
    {cs : List (List UInt8)}
    (hArrives : Arrives (Seen (entered recs parent name m)) m
      StaleSlots.empty 2 cs) :
    Arrives (Seen (entered recs parent name m')) m'
      StaleSlots.empty 2 cs := by
  let f : UInt32 → UInt32 := Equiv.swap m m'
  have hNe {k n : UInt32} (hk : s.InodeUsed k)
      (hn : ¬ s.InodeUsed n) : k ≠ n := by
    rintro rfl
    exact hn hk
  have hFix : ∀ n, s.InodeUsed n → f n = n := fun n hn =>
    Equiv.swap_apply_of_ne_of_ne (hNe hn hFree)
      (hNe hn hFree')
  have hPos {k : UInt32} (hk : s.layout.ValidInode k) :
      (0 : UInt32) ≠ k := by
    rintro rfl
    exact absurd hk.1 (by decide)
  have hZero : f 0 = 0 :=
    Equiv.swap_apply_of_ne_of_ne (hPos hm) (hPos hm')
  have hZero' (z : UInt32) : f z = 0 ↔ z = 0 := by
    constructor
    · intro hz
      exact (Equiv.swap m m').injective (hz.trans hZero.symm)
    · rintro rfl
      exact hZero
  have hSwap : f m = m' := Equiv.swap_apply_left m m'
  have hMap : ∀ n, Seen (entered recs parent name m') (f n) =
      (Seen (entered recs parent name m) n).map
        (Prod.map id f) := by
    intro n
    unfold Seen entered
    rw [← visible_map hZero']
    by_cases hEq : n = parent
    · subst hEq
      rw [hFix n hUsed, Function.update_self,
        Function.update_self]
      have hSame := h.map_records hZero hFix n
      cases hRecs : recs n with
      | nil => rfl
      | cons es rest =>
          rw [hRecs, List.map_cons, List.cons.injEq] at hSame
          simp only [enter, List.map_cons, List.map_append,
            hSame.1, hSame.2, List.map_nil, Prod.map_apply,
            id_eq, hSwap]
    · rw [Function.update_of_ne hEq, h.map_records hZero hFix n]
      by_cases hOld : s.InodeUsed n
      · rw [hFix n hOld, Function.update_of_ne hEq]
      · -- numbers that are not in use have no records
        have hNot : ¬ s.InodeUsed (f n) := by
          intro hIs
          have hBack := hFix (f n) hIs
          have hSelf : f (f n) = n := Equiv.swap_apply_self m m' n
          rw [hSelf] at hBack
          exact hOld (hBack.symm ▸ hIs)
        rw [Function.update_of_ne (hNe hUsed hNot).symm,
          h.unused _ hNot, h.unused _ hOld]
  have hMoved := hArrives.map f (Equiv.swap m m').injective
    hMap
  rwa [hSwap, hFix 2 h.root] at hMoved

------------------------------------------------------------
-- Creating Where the Path Says
------------------------------------------------------------

/- Where a component leads from an inode. -/
def lookPresent
    (recs : UInt32 → List Entries)
    (n : UInt32)
    (c : List UInt8) : Option UInt32 :=
  StaleSlots.find (present (recs n)) c

/-
  The file was created where its path says: the tree is well
  formed and has one entry more, the last component in the
  parent, the path finds the number of the open file, and the
  inode stored there is an empty file of one block.
-/
structure CreatedAt
    (s t : Fs)
    (recs : UInt32 → List Entries)
    (p : AbsPath)
    (parent : UInt32)
    (name : List UInt8) : Prop where
  entry :
    ∃ recs', TreeOk t recs' ∧
      (present (recs' parent)).Perm
        ((name, t.file.inodeNum) :: present (recs parent)) ∧
      ∀ n, s.InodeUsed n → n ≠ parent →
        present (recs' n) = present (recs n)
  found :
    ∀ stack : FindStack, stack.Zeroed →
      ∃ u, ext2InodeFind p.bytes stack t =
        some (t.file.inodeNum, u)
  stored :
    ∃ u, ext2ExtractInode t.file.inodeNum t = some u ∧
      u.currentInode.isFile ∧
      u.currentInode.iLowerSize = 0 ∧
      u.currentInode.allocated = 1 ∧
      t.BlockUsed (u.currentInode.direct 0 (by decide))

/-
  The glued path leads to the parent, the last name of the
  parent's first block stays in front of the split, and with
  the new entry under an unused number the slots of the
  lookup show every name on the way to it.
-/
structure CreatesRight
    (s : Fs)
    (recs : UInt32 → List Entries)
    (p : AbsPath)
    (parent : UInt32)
    (way : List (List UInt8))
    (name : List UInt8) : Prop where
  glued : gluedTarget recs way = parent
  fits : SplitFits s parent name.length
  arrives :
    ∀ m, s.layout.ValidInode m → ¬ s.InodeUsed m →
      Arrives (Seen (entered recs parent name m)) m
        StaleSlots.empty 2 p.comps

theorem TreeOk.resolve_used
    (h : TreeOk s recs)
    {n m : UInt32}
    (hn : s.InodeUsed n)
    (hResolve : resolve (lookPresent recs) n way = some m) :
    s.InodeUsed m := by
  induction way generalizing n with
  | nil =>
      cases hResolve
      exact hn
  | cons c way ih =>
      cases hLook : lookPresent recs n c with
      | none =>
          rw [resolve_cons_of_none hLook] at hResolve
          cases hResolve
      | some k =>
          rw [resolve_cons_of_some hLook] at hResolve
          rcases StaleSlots.mem_of_find hLook with
            ⟨e, hMem, -, rfl⟩
          exact ih (h.used n e hMem) hResolve

/- Only disk and in-memory metadata matter for the tree. -/
theorem TreeOk.congr
    (h : TreeOk s recs)
    (hDisk : t.disk = s.disk)
    (hSb : t.sb = s.sb)
    (hBgdt : t.bgdt = s.bgdt) :
    TreeOk t recs := by
  rcases s with ⟨disk, faults, sb, bgdt, cur, file, log⟩
  rcases t with ⟨disk', faults', sb', bgdt', cur', file', log'⟩
  simp only at hDisk hSb hBgdt
  subst hDisk hSb hBgdt
  exact
    { root := h.root
      records := fun n hn =>
        ⟨(h.records n hn).tiled, (h.records n hn).leaf⟩
      unused := h.unused
      used := h.used
      names := h.names }

/- The current inode is not part of the tree. -/
theorem NewEntry.of_setCurrentInode
    {inode : Inode}
    {row : List UInt8}
    {recs : List Entries}
    (h : NewEntry owners (s.setCurrentInode inode) parent recs
      row t) :
    NewEntry owners s parent recs row t where
  layout := h.layout
  fresh := h.fresh
  used := h.used
  inodes := h.inodes
  notDir := h.notDir
  blocks := h.blocks
  isDir := h.isDir
  first := h.first
  split := h.split

/- An inode has one list of records. -/
theorem RecordsOf.unique
    {n : UInt32}
    {recs recs' : List Entries}
    (h : RecordsOf s n recs)
    (h' : RecordsOf s n recs') :
    recs = recs' := by
  cases hDir : (s.inodeAt n).isDir with
  | false => rw [h.leaf hDir, h'.leaf hDir]
  | true => exact (h.tiled hDir).unique (h'.tiled hDir)

/- A created file is stored as an empty file of one block. -/
theorem Created.stored_empty
    {owners' : Owners}
    (h : Created owners s 0 owners' t)
    (hSize : t.file.inode.iLowerSize = 0) :
    ∃ u, ext2ExtractInode t.file.inodeNum t = some u ∧
      u.currentInode.isFile ∧
      u.currentInode.iLowerSize = 0 ∧
      u.currentInode.allocated = 1 ∧
      t.BlockUsed (u.currentInode.direct 0 (by decide)) := by
  have hValid := (h.live rfl).valid
  have hStored := h.stored rfl
  have hFile := h.isFile rfl
  have hOne := h.allocated rfl
  refine ⟨_, ext2ExtractInode_eq h.image.steady
    h.image.layout hValid, ?_⟩
  rw [Fs.setCurrentInode_currentInode, hStored]
  exact ⟨hFile, hSize, hOne,
    h.image.owned_used _ _ (h.first rfl)⟩

/- What is known after a creation at a path succeeded. -/
theorem ext2FileCreate_entry
    (h : ImageOk owners s)
    (hLive : UsedLive owners s)
    (hTree : TreeOk s recs)
    {stack : CreateStack}
    (hStack : stack.Zeroed)
    {p : AbsPath}
    (hOpened : s.OpenedAt p)
    (hComps : p.comps = way ++ [name])
    (hCreate : ext2FileCreate stack s = some (0, t)) :
    ∃ row owners', Terminated row ∧ cString row = name ∧
      NewEntry owners s (gluedTarget recs way)
        (recs (gluedTarget recs way)) row t ∧
      Created owners s 0 owners' t ∧
      t.file.inode.iLowerSize = 0 := by
  rcases ext2FileCreate_path h hTree hStack hOpened hComps
    with ⟨row, hRow, hName, hRun⟩
  rw [hRun] at hCreate
  have hUsed := hTree.gluedTarget_used way
  have hSet := h.setCurrentInode
    (s.inodeAt (gluedTarget recs way))
  have hTarget : LiveInode s.layout owners _ :=
    ⟨hUsed.valid, hLive _ hUsed⟩
  have hOut := createIn_outcome hSet hUsed.valid
    (h.slot hTarget) hCreate
  have hRecs := hTree.records _ hUsed
  have hNew := hOut.newEntry hSet hTarget rfl
    ⟨hRecs.tiled, hRecs.leaf⟩ hRow
  rcases hOut.created_of_image hSet hUsed.valid with
    ⟨owners', hCreated⟩
  exact ⟨row, owners', hRow, hName, hNew.of_setCurrentInode,
    hCreated.of_start (.refl owners) rfl rfl rfl, hOut.size⟩

section

variable (h : ImageOk owners s) (hLive : UsedLive owners s)
variable (hTree : TreeOk s recs)
variable {owners' : Owners} {row : List UInt8} {p : AbsPath}
variable (hUsed : s.InodeUsed parent) (hRow : Terminated row)
variable (hName : cString row = name)
variable (hCreated : Created owners s 0 owners' t)
include h hLive hTree hUsed hRow hName hCreated

/- Looking up the path in the tree with the new entry. -/
theorem NewEntry.found_iff
    (hNew : NewEntry owners s parent (recs parent) row t)
    (hIsName : IsName name)
    (hFits : SplitFits s parent name.length)
    {stack : FindStack}
    (hStack : stack.Zeroed) :
    (∃ u, ext2InodeFind p.bytes stack t =
      some (t.file.inodeNum, u)) ↔
    Arrives (Seen (entered recs parent name t.file.inodeNum))
      t.file.inodeNum StaleSlots.empty 2 p.comps := by
  subst hName
  have hTree' :=
    hNew.treeOk h hLive hTree hUsed hRow hIsName hFits
  rcases ext2InodeFind_slots hCreated.image.steady
      hCreated.image.layout hTree' hStack.listed
      hStack.unpackedPath p with ⟨inode, hFind⟩
  have hNe {n : UInt32} (hn : s.InodeUsed n) :
      n ≠ t.file.inodeNum := by
    rintro rfl
    exact hNew.fresh hn
  have hLeaf : Seen (entered recs parent (cString row)
      t.file.inodeNum) t.file.inodeNum = [] := by
    unfold Seen entered
    rw [Function.update_of_ne (hNe hUsed).symm,
      hTree.unused _ hNew.fresh]
    rfl
  rw [← StaleSlots.slotWalk_eq_iff hLeaf (hNe hTree.root)]
  constructor
  · rintro ⟨u, hRun⟩
    rw [hFind] at hRun
    exact congrArg Prod.fst (Option.some.inj hRun)
  · intro hWalk
    rw [hWalk] at hFind
    exact ⟨_, hFind⟩

end

/- A path created elsewhere has no entry in its parent. -/
theorem NewEntry.glued_of_entry
    {row : List UInt8}
    {target : UInt32}
    (hNew : NewEntry owners s target (recs target) row t)
    (h : ImageOk owners s)
    (hLive : UsedLive owners s)
    (hTree : TreeOk s recs)
    (hTarget : s.InodeUsed target)
    (hUsed : s.InodeUsed parent)
    {recs' : UInt32 → List Entries}
    (hTree' : TreeOk t recs')
    {e : List UInt8 × UInt32}
    (hPerm : (present (recs' parent)).Perm
      (e :: present (recs parent))) :
    target = parent := by
  by_contra hNe
  have hOld := hNew.recordsOf h
    ⟨hTarget.valid, hLive _ hTarget⟩ hUsed
    (fun _ => hLive _ hUsed) (Ne.symm hNe)
    (hTree.records parent hUsed)
  have hSame := hOld.unique (hTree'.records parent
    ((hNew.used parent).mpr (.inl hUsed)))
  rw [← hSame] at hPerm
  have hLength := hPerm.length_eq
  rw [List.length_cons] at hLength
  omega

/-
  A creation at a path that succeeds does what it should, in
  every well-formed image, if and only if the glued path of
  the components before the last one leads to the parent, the
  split keeps the last name of its first block, and stale
  slots hide no name on the way.
-/
theorem create_path_iff
    (h : ImageOk owners s)
    (hLive : UsedLive owners s)
    (hTree : TreeOk s recs)
    {stack : CreateStack}
    (hStack : stack.Zeroed)
    {p : AbsPath}
    (hOpened : s.OpenedAt p)
    (hComps : p.comps = way ++ [name])
    (hParent :
      resolve (lookPresent recs) 2 way = some parent)
    (hCreate : ext2FileCreate stack s = some (0, t)) :
    CreatedAt s t recs p parent name ↔
      CreatesRight s recs p parent way name := by
  have hUsed := hTree.resolve_used hTree.root hParent
  have hIsName := p.names name (by simp [hComps])
  rcases ext2FileCreate_entry h hLive hTree hStack hOpened
      hComps hCreate with
    ⟨row, owners', hRow, hName, hNew, hCreated, hSize⟩
  have hValid : s.layout.ValidInode t.file.inodeNum := by
    have hValid := (hCreated.live rfl).valid
    rwa [hCreated.layout] at hValid
  constructor
  · intro hAt
    rcases hAt.entry with ⟨recs', hTree', hPerm, -⟩
    have hGlued := hNew.glued_of_entry h hLive hTree
      (hTree.gluedTarget_used way) hUsed hTree' hPerm
    rw [hGlued] at hNew
    have hFits : SplitFits s parent name.length := by
      have hFits := hNew.splitFits hUsed (hTree'.records
        parent ((hNew.used parent).mpr (.inl hUsed)))
      rwa [hName] at hFits
    refine ⟨hGlued, hFits, ?_⟩
    intro m hm hFree
    apply hTree.arrives_entered hUsed hValid hm hNew.fresh
      hFree
    exact (hNew.found_iff h hLive hTree hUsed hRow hName
      hCreated hIsName hFits FindStack.zeroed_zero).mp
      (hAt.found .zero FindStack.zeroed_zero)
  · rintro ⟨hGlued, hFits, hArrives⟩
    rw [hGlued] at hNew
    have hNumUsed := (hNew.used t.file.inodeNum).mpr (.inr rfl)
    have hFirst : recs parent ≠ [] := by
      rcases hNew.split with ⟨es, rest, last, hEq, -⟩
      rw [hEq]
      exact List.cons_ne_nil _ _
    refine ⟨⟨entered recs parent name t.file.inodeNum,
      ?_, ?_, ?_⟩, ?_, hCreated.stored_empty hSize⟩
    · subst hName
      exact hNew.treeOk h hLive hTree hUsed hRow hIsName hFits
    · unfold entered
      rw [Function.update_self]
      exact present_enter_perm hFirst name hNumUsed.ne_zero
    · intro n _ hNe
      unfold entered
      rw [Function.update_of_ne hNe]
    · intro find hFind
      exact (hNew.found_iff h hLive hTree hUsed hRow hName
        hCreated hIsName hFits hFind).mpr
        (hArrives _ hValid hNew.fresh)

end

------------------------------------------------------------
-- Creations in Sample Images
------------------------------------------------------------

/- The first sixteen inodes of a sample image are in use. -/
theorem sampleFs_inodeUsed
    (inodes : UInt32 → Inode)
    (content : UInt32 → Block)
    {n : UInt32}
    (hPos : 1 ≤ n.toNat)
    (hLe : n.toNat ≤ 16) :
    (sampleFs inodes content).InodeUsed n := by
  unfold Fs.InodeUsed
  rw [sampleFs_layout]
  refine ⟨0, n.toNat - 1, by decide, ?_, ?_, ?_⟩
  · show n.toNat - 1 < 32
    omega
  · simp only [Layout.numberOf, Fin.val_zero, Nat.zero_mul,
      Nat.zero_add]
    omega
  · unfold Fs.bitmapBlock
    rw [sampleFs_layout]
    change sampleBitmap.bit (n.toNat - 1) = true
    rw [sampleBitmap_bit (by omega), decide_eq_true]
    omega

/- A sample tree: which inodes are directories of one block. -/
theorem sampleFs_treeOk
    {inodes : UInt32 → Inode}
    {content : UInt32 → Block}
    {recs : UInt32 → List Entries}
    (hRecs : ∀ n, sampleLayout.ValidInode n →
      RecordsOf (sampleFs inodes content) n (recs n))
    (hSmall : ∀ n, recs n ≠ [] →
      1 ≤ n.toNat ∧ n.toNat ≤ 16)
    (hEntries : ∀ n, ∀ e ∈ present (recs n),
      (1 ≤ e.2.toNat ∧ e.2.toNat ≤ 16) ∧ IsName e.1) :
    TreeOk (sampleFs inodes content) recs where
  root := sampleFs_inodeUsed _ _ (by decide) (by decide)
  records n hn := hRecs n (by
    have hValid := hn.valid
    rwa [sampleFs_layout] at hValid)
  unused n hn := by
    by_contra hSome
    rcases hSmall n hSome with ⟨hPos, hLe⟩
    exact hn (sampleFs_inodeUsed _ _ hPos hLe)
  used n e he :=
    sampleFs_inodeUsed _ _ (hEntries n e he).1.1
      (hEntries n e he).1.2
  names n e he := (hEntries n e he).2

/- A directory of one block has the records of the block. -/
theorem RecordsOf.of_one
    {s : Fs}
    {n block : UInt32}
    (hInode : s.inodeAt n = sampleDir block)
    (hBlock : block ≠ 0)
    {last : Nat}
    {es : Entries}
    (hTiled : Tiled (s.disk block) 0 last es) :
    RecordsOf s n [es] := by
  have hBlocks : (sampleDir block).directBlocks =
      block :: 0 :: List.replicate 10 0 := rfl
  constructor
  · intro _
    rw [hInode, hBlocks]
    exact .block hBlock hTiled .stop
  · intro hNot
    rw [hInode] at hNot
    exact absurd hNot (by
      change ¬ decide ((0x41ED : UInt16) &&& 0x4000 ≠ 0) = false
      decide)

/- The records of the image with the file `/f`. -/
def fileSampleRecs
    (n : UInt32) : List Entries :=
  if n = 2 then [rootListing] else []

theorem fileSample_treeOk :
    TreeOk fileSample fileSampleRecs := by
  apply sampleFs_treeOk
  · intro n hn
    unfold fileSampleRecs
    split
    · next hTwo =>
        subst hTwo
        have hInode : fileSample.inodeAt 2 = sampleDir 5 :=
          (sampleFs_inodeAt _ _ hn).trans (if_pos rfl)
        exact .of_one hInode (by decide)
          rootListing_firstTiled.tiled
    · next hNot =>
        refine ⟨fun hDir => ?_, fun _ => rfl⟩
        exact absurd (fileSample_isDir hn hDir) hNot
  · intro n hSome
    unfold fileSampleRecs at hSome
    split at hSome
    · next hTwo =>
        subst hTwo
        decide
    · exact absurd rfl hSome
  · intro n e he
    unfold fileSampleRecs at he
    split at he
    · have hAll : present [rootListing] = rootListing := by
        decide
      rw [hAll] at he
      simp only [rootListing, List.mem_cons, List.not_mem_nil,
        or_false] at he
      rcases he with rfl | rfl | rfl
      · exact ⟨by decide, by decide⟩
      · exact ⟨by decide, by decide⟩
      · exact ⟨by decide, by decide⟩
    · exact absurd he (by simp [present])

/- The path `/g`. -/
def gPath : AbsPath where
  comps := [[103]]
  names := by simp [isName_iff, slash, ext2NameLen]
  depth := by decide

/- An opening leaves image and tree. -/
theorem ext2Fopen_tree
    {owners : Owners}
    {s t : Fs}
    {recs : UInt32 → List Entries}
    (h : ImageOk owners s)
    (hTree : TreeOk s recs)
    {pathname : List UInt8}
    {mode : UInt8}
    {stack : FindStack}
    (hRun : ext2Fopen pathname mode stack s = some t) :
    ImageOk owners t ∧ TreeOk t recs ∧ t.disk = s.disk ∧
      t.layout = s.layout := by
  rcases ext2Fopen_cases h hRun with
    ⟨inode, rfl⟩ | ⟨-, n, u, mode', name, -, -, rfl⟩
  · exact ⟨h.congr rfl rfl rfl rfl, hTree.congr rfl rfl rfl,
      rfl, rfl⟩
  · exact ⟨h.congr rfl rfl rfl rfl, hTree.congr rfl rfl rfl,
      rfl, rfl⟩

/-
  Opening a path for writing and creating it: the facts of
  the run that evaluation delivers.
-/
theorem opened_created
    {owners : Owners}
    {img : Fs}
    {recs : UInt32 → List Entries}
    (h : ImageOk owners img)
    (hTree : TreeOk img recs)
    (p : AbsPath)
    (hFacts :
      ((ext2Fopen p.bytes 119 .zero img).bind fun s =>
        (ext2FileCreate .zero s).map fun r =>
          (r.1, decide (Terminated
              (s.file.pathname.bytesFrom 0)),
            cString (s.file.pathname.bytesFrom 0) ==
              cString p.bytes)) = some (0, true, true)) :
    ∃ s t, ext2Fopen p.bytes 119 .zero img = some s ∧
      ext2FileCreate .zero s = some (0, t) ∧
      s.OpenedAt p ∧ ImageOk owners s ∧ TreeOk s recs ∧
      s.disk = img.disk ∧ s.layout = img.layout := by
  rcases Option.bind_eq_some_iff.mp hFacts with
    ⟨s, hOpen, hFacts⟩
  rcases Option.map_eq_some_iff.mp hFacts with
    ⟨⟨err, t⟩, hCreate, hFacts⟩
  simp only [Prod.mk.injEq, decide_eq_true_eq, beq_iff_eq]
    at hFacts
  rcases hFacts with ⟨rfl, hTerm, hName⟩
  rcases ext2Fopen_tree h hTree hOpen with
    ⟨hImage, hTree', hDisk, hLayout⟩
  exact ⟨s, t, hOpen, hCreate, ⟨hTerm, hName⟩, hImage,
    hTree', hDisk, hLayout⟩

/- Creating `/g` next to `/f` does what it should. -/
theorem create_path_sample :
    ∃ s t, ext2FileCreate .zero s = some (0, t) ∧
      CreatedAt s t fileSampleRecs gPath 2 [103] := by
  rcases opened_created fileSample_imageOk fileSample_treeOk
      gPath (by decide +kernel) with
    ⟨s, t, -, hCreate, hOpened, h, hTree, hDisk, hLayout⟩
  have hInode : s.inodeAt 2 = sampleDir 5 :=
    (Fs.inodeAt_congr hLayout (by rw [hDisk])).trans
      ((sampleFs_inodeAt _ _ (by decide)).trans (if_pos rfl))
  have hComps : gPath.comps = [] ++ [[103]] := rfl
  have hParent : resolve (lookPresent fileSampleRecs) 2 [] =
      some 2 := rfl
  refine ⟨s, t, hCreate, (create_path_iff h
    (fun _ _ => trivial) hTree CreateStack.zeroed_zero hOpened
    hComps hParent hCreate).mpr ⟨by decide, ?_, ?_⟩⟩
  · intro last es hTiled
    rw [hInode, hDisk] at hTiled ⊢
    have hHere := rootListing_firstTiled
    rcases hHere.tiled.unique hTiled with ⟨rfl, -⟩
    rw [hHere.nameLen]
    decide
  · intro m hm hFree
    have hZero : m ≠ 0 := by
      rintro rfl
      exact absurd hm.1 (by decide)
    have hRoot : m ≠ 2 := by
      rintro rfl
      exact hFree hTree.root
    have hSeen : Seen (entered fileSampleRecs 2 [103] m) 2 =
        rootListing ++ [([103], m)] := by
      unfold Seen entered
      rw [Function.update_self]
      simp [fileSampleRecs, enter, visible, leading,
        rootListing, hZero, maxSubdirs]
    refine .step ?_ hRoot .here
    rw [StaleSlots.shown_empty, hSeen]
    simp [StaleSlots.find, rootListing]

/- The entries `.`, `..` and one more of a directory. -/
def dirEntries
    (self up child : UInt8)
    (name : UInt8) : List UInt8 :=
  [self, 0, 0, 0, 12, 0, 1, 2, 46, 0, 0, 0,
   up, 0, 0, 0, 12, 0, 2, 2, 46, 46, 0, 0,
   child, 0, 0, 0, 232, 15, 1, 2, name, 0, 0, 0]

/- The entries `.` and `..` of an empty directory. -/
def emptyDirEntries
    (self up : UInt8) : List UInt8 :=
  [self, 0, 0, 0, 12, 0, 1, 2, 46, 0, 0, 0,
   up, 0, 0, 0, 244, 15, 2, 2, 46, 46, 0, 0]

/- The directories `/`, `/a` and `/a/b`. -/
def deepSample : Fs :=
  sampleFs
    (fun n => if n = 2 then sampleDir 5
      else if n = 12 then sampleDir 6
      else if n = 13 then sampleDir 7
      else Inode.zero)
    fun b => if b = 5 then bytesBlock (dirEntries 2 2 12 97)
      else if b = 6 then bytesBlock (dirEntries 12 2 13 98)
      else bytesBlock (emptyDirEntries 13 12)

def deepSampleOwners : Owners where
  label b :=
    if b = 5 then some (.data 2 0)
    else if b = 6 then some (.data 12 0)
    else if b = 7 then some (.data 13 0)
    else none
  live _ := True
  root := trivial

def deepSampleRecs
    (n : UInt32) : List Entries :=
  if n = 2 then [[([46], 2), ([46, 46], 2), ([97], 12)]]
  else if n = 12 then
    [[([46], 12), ([46, 46], 2), ([98], 13)]]
  else if n = 13 then [[([46], 13), ([46, 46], 12)]]
  else []

/- The path `/a/b/c`. -/
def deepPath : AbsPath where
  comps := [[97], [98], [99]]
  names := by simp [isName_iff, slash, ext2NameLen]
  depth := by decide

/- The blocks of the three directories are tiled. -/
theorem deepSample_tiled :
    Tiled (deepSample.disk 5) 0 24
        [([46], 2), ([46, 46], 2), ([97], 12)] ∧
      Tiled (deepSample.disk 6) 0 24
        [([46], 12), ([46, 46], 2), ([98], 13)] ∧
      Tiled (deepSample.disk 7) 0 12
        [([46], 13), ([46, 46], 12)] :=
  ⟨tiled_of_readTiling
      (show readTiling _ 3 0 = _ by decide +kernel),
    tiled_of_readTiling
      (show readTiling _ 3 0 = _ by decide +kernel),
    tiled_of_readTiling
      (show readTiling _ 3 0 = _ by decide +kernel)⟩

/- A tiled block of live numbers is a directory block. -/
theorem Tiled.entriesOk
    {L : Layout}
    {owners : Owners}
    {b : Block}
    {o last : Nat}
    {es : Entries}
    (h : Tiled b o last es)
    (hLive : ∀ e ∈ es, LiveInode L owners e.2) :
    EntriesOk L owners b o := by
  induction h with
  | @last o hRecord hEnd =>
      have hSize := hRecord.size_ge
      have hInode := hLive (nameAt b o, (entryAt b o).dirInode)
        (List.mem_singleton_self _)
      exact .entry (by omega) (by omega) (.inr hInode)
        (.done (Nat.le_of_eq hEnd.symm))
  | @entry o last es hRecord hRest ih =>
      have hSize := hRecord.size_ge
      have hLe := hRest.le_last
      have hLt := hRest.last_lt
      have hInode := hLive (nameAt b o, (entryAt b o).dirInode)
        List.mem_cons_self
      exact .entry (by omega) (by omega) (.inr hInode)
        (ih fun e he => hLive e (List.mem_cons_of_mem _ he))

theorem deepSample_live
    {es : Entries}
    (hValid : ∀ e ∈ es, sampleLayout.ValidInode e.2) :
    ∀ e ∈ es, LiveInode sampleLayout deepSampleOwners e.2 :=
  fun e he => ⟨hValid e he, trivial⟩

theorem deepSample_imageOk :
    ImageOk deepSampleOwners deepSample := by
  rcases deepSample_tiled with ⟨hRoot, hA, hB⟩
  apply sampleFs_imageOk
  · intro b o hb
    simp only [deepSampleOwners] at hb
    split at hb
    · next h => subst h; decide
    · split at hb
      · next h => subst h; decide
      · split at hb
        · next h => subst h; decide
        · cases hb
  · intro n _ _ _
    split
    · next h =>
        subst h
        exact slotOk_sampleDir rfl
          (hRoot.entriesOk (deepSample_live (by decide)))
    · split
      · next h =>
          subst h
          exact slotOk_sampleDir rfl
            (hA.entriesOk (deepSample_live (by decide)))
      · split
        · next h =>
            subst h
            exact slotOk_sampleDir rfl
              (hB.entriesOk (deepSample_live (by decide)))
        · exact .of_unused (by decide) (by decide)

theorem deepSample_treeOk :
    TreeOk deepSample deepSampleRecs := by
  rcases deepSample_tiled with ⟨hRoot, hA, hB⟩
  apply sampleFs_treeOk
  · intro n hn
    have hInode := sampleFs_inodeAt
      (fun n => if n = 2 then sampleDir 5
        else if n = 12 then sampleDir 6
        else if n = 13 then sampleDir 7
        else Inode.zero)
      (fun b => if b = 5 then bytesBlock (dirEntries 2 2 12 97)
        else if b = 6 then bytesBlock (dirEntries 12 2 13 98)
        else bytesBlock (emptyDirEntries 13 12)) hn
    unfold deepSampleRecs
    split
    · next h =>
        subst h
        exact .of_one hInode (by decide) hRoot
    · next hNot =>
        rw [if_neg hNot] at hInode
        split
        · next h =>
            subst h
            exact .of_one hInode (by decide) hA
        · next hNot =>
            rw [if_neg hNot] at hInode
            split
            · next h =>
                subst h
                exact .of_one hInode (by decide) hB
            · next hNot =>
                rw [if_neg hNot] at hInode
                refine ⟨fun hDir => ?_, fun _ => rfl⟩
                rw [hInode] at hDir
                exact absurd hDir (by decide)
  · intro n hSome
    unfold deepSampleRecs at hSome
    split at hSome
    · next h => subst h; decide
    · split at hSome
      · next h => subst h; decide
      · split at hSome
        · next h => subst h; decide
        · exact absurd rfl hSome
  · intro n e he
    have hList : e ∈ present (deepSampleRecs n) →
        e = ([46], 2) ∨ e = ([46, 46], 2) ∨ e = ([97], 12) ∨
          e = ([46], 12) ∨ e = ([98], 13) ∨ e = ([46], 13) ∨
            e = ([46, 46], 12) := by
      intro he
      have he := List.mem_of_mem_filter he
      unfold deepSampleRecs at he
      split at he
      · simp at he
        rcases he with rfl | rfl | rfl <;> simp
      · split at he
        · simp at he
          rcases he with rfl | rfl | rfl <;> simp
        · split at he
          · simp at he
            rcases he with rfl | rfl <;> simp
          · simp at he
    rcases hList he with
      rfl | rfl | rfl | rfl | rfl | rfl | rfl <;>
      exact ⟨by decide, by decide⟩

/-
  Creating `/a/b/c` enters `c` in the root directory: the
  parent `/a/b` is looked up as `/ab`, which does not exist,
  and the path of the new file leads to `/a/b` afterwards.
-/
theorem create_misses_parent :
    ImageOk deepSampleOwners deepSample ∧
      TreeOk deepSample deepSampleRecs ∧
      resolve (lookPresent deepSampleRecs) 2 [[97], [98]] =
        some 13 ∧
      (deepSample.inodeAt 13).isDir ∧
      lookPresent deepSampleRecs 13 [99] = none ∧
      ((present (deepSampleRecs 13)).length < maxSubdirs ∧
        roundFour (8 + 2) + roundFour (8 + 1) ≤
          (entryAt (deepSample.disk 7)
            12).dirEntrySize.toNat) ∧
      ∃ s t, ext2Fopen deepPath.bytes 119 .zero deepSample =
          some s ∧
        ext2FileCreate .zero s = some (0, t) ∧
        (s.OpenedAt deepPath ∧ ImageOk deepSampleOwners s ∧
          UsedLive deepSampleOwners s ∧
          TreeOk s deepSampleRecs) ∧
        ¬ CreatedAt s t deepSampleRecs deepPath 13 [99] := by
  have hParent : resolve (lookPresent deepSampleRecs) 2
      [[97], [98]] = some 13 := by decide
  refine ⟨deepSample_imageOk, deepSample_treeOk, hParent,
    by decide +kernel, by decide,
    ⟨by decide, by decide +kernel⟩, ?_⟩
  rcases opened_created deepSample_imageOk deepSample_treeOk
      deepPath (by decide +kernel) with
    ⟨s, t, hOpen, hCreate, hOpened, h, hTree, -, -⟩
  have hLive : UsedLive deepSampleOwners s :=
    fun _ _ => trivial
  refine ⟨s, t, hOpen, hCreate, ⟨hOpened, h, hLive, hTree⟩, ?_⟩
  intro hAt
  have hComps : deepPath.comps = [[97], [98]] ++ [[99]] := rfl
  have hUsed := hTree.resolve_used hTree.root hParent
  rcases hAt.entry with ⟨recs', hTree', hPerm, -⟩
  rcases ext2FileCreate_entry h hLive hTree
      CreateStack.zeroed_zero hOpened hComps hCreate with
    ⟨row, owners', -, -, hNew, -⟩
  have hGlued := hNew.glued_of_entry h hLive hTree
    (hTree.gluedTarget_used _) hUsed hTree' hPerm
  exact absurd hGlued (by decide)

end Ext2

end Ester
