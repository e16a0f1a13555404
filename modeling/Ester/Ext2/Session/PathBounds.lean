import Ester.Ext2.Directory.Bounds
import Ester.Ext2.Lookup.Glued
import Ester.Ext2.Session.Lifecycle

/-
  The arrays that a session fills from its path.

  Opening splits the path into rows and stores it in the
  descriptor; creating splits it again, glues the path of the
  parent and splits that.  No length but the total one is
  checked before.  All stores stay inside their arrays exactly
  when the path and the glued path of its parent have few
  enough and short enough segments.

  Key definitions include:
    * `storedName`
    * `sessionStores`, `StaysInside`
    * `parentText`, `PathFits`

  Key theorems include:
    * `glueRows_isSome_iff`
    * `ext2FileCreate_of_inside`
    * `staysInside_iff`
    * `session_leaves_arrays`
-/

------------------------------------------------------------
-- The Stores of a Session
------------------------------------------------------------

namespace Ester

namespace Ext2

/- The pathname that opening stores in a closed descriptor. -/
def storedName
    (path : List UInt8) :
    Option (ByteBuffer maxPathLen) := do
  let len ← strlen path
  memcpy File.closed.pathname 0 (fun i => path.getD i 0) len

/-
  What opening, creating and closing store from a path, every
  access checked: the rows of the lookup, the pathname, the
  rows of the creation, the parent's path and its rows.
-/
def sessionStores
    (path : List UInt8)
    (find : FindStack)
    (stack : CreateStack) : Option UnpackedPath := do
  let _ ← splitInside path find.unpackedPath
  let name ← storedName path
  let (depth, rows) ←
    splitInside (name.bytesFrom 0) stack.unpackedPath
  let parent ← glueRows rows (depth.toNat - 1) 0
    stack.parentPathname
  let (_, rows) ←
    splitInside (parent.bytesFrom 0) stack.find.unpackedPath
  some rows

/- All accesses of the session stay inside the arrays. -/
def StaysInside
    (path : List UInt8)
    (find : FindStack)
    (stack : CreateStack) : Prop :=
  (sessionStores path find stack).isSome

/- What the rows before the last one show. -/
def parentRows
    (text : List UInt8) : List (List UInt8) :=
  (slashRows 0 (text.splitOn slash)).take
    (rowCount (text.splitOn slash) - 1)

/- The rows before the last one, glued together. -/
def parentText
    (text : List UInt8) : List UInt8 :=
  (parentRows text).flatten

/-
  The path fits its rows and the pathname array, the array of
  the parent's path holds a string with room for the parent
  behind it, and the two together fit the rows again.
-/
structure PathFits
    (path : List UInt8)
    (parentPathname : List UInt8) : Prop where
  text : TextFits (cString path)
  short : (cString path).length < maxPathLen
  clean : Terminated parentPathname
  room :
    (cString parentPathname).length +
      (parentText (cString path)).length < maxPathLen
  parent :
    TextFits
      (cString parentPathname ++ parentText (cString path))

------------------------------------------------------------
-- What the Session Computes
------------------------------------------------------------

section

variable {path : List UInt8} {s t : Fs}
variable {stack : CreateStack}

/- The pathname of a descriptor that was just opened. -/
theorem ext2Fopen_storedName
    {mode : UInt8}
    {find : FindStack}
    (hClosed : s.file = File.closed)
    (hOpen : ext2Fopen path mode find s = some t)
    (hOpened : t.file.isOpen = true) :
    storedName path = some t.file.pathname := by
  cases ext2Fopen_touches hOpen with
  | untouched hSame =>
      rw [hSame.file, hClosed] at hOpened
      cases hOpened
  | kept hStayed _ =>
      rw [hClosed] at hStayed
      cases hStayed
  | closed _ hReset =>
      rw [hReset] at hOpened
      cases hOpened
  | opened _ _ _ len hCall _ _ _ _ hLen hName =>
      cases hCall
      rw [hClosed] at hName
      rw [storedName, hLen]
      exact hName

/-
  Where the checked accesses succeed, creation splits, glues
  and looks up just these strings.
-/
theorem ext2FileCreate_of_inside
    {len : Nat}
    {depth : UInt16}
    {rows : UnpackedPath}
    {parent : ByteBuffer maxPathLen}
    (hLen : strlen (s.file.pathname.bytesFrom 0) = some len)
    (hShort : len ≤ maxPathLen)
    (hSplit : splitInside (s.file.pathname.bytesFrom 0)
      stack.unpackedPath = some (depth, rows))
    (hGlue : glueRows rows (depth.toNat - 1) 0
      stack.parentPathname = some parent) :
    ext2FileCreate stack s =
      (ext2InodeFind (parent.bytesFrom 0) stack.find s).bind
        fun r => (ext2ExtractInode r.1 r.2).bind fun u =>
          createIn r.1 stack.newInode
            (rows.row (depth.toNat - 1)) u := by
  simp only [ext2FileCreate, hLen, splitInside_refines hSplit,
    hGlue, Option.bind_eq_bind, Option.bind_some,
    if_neg (Nat.not_lt.mpr hShort),
    if_neg (Nat.not_lt.mpr (unpackDirPath_depth_le
      (splitInside_refines hSplit)))]

end

------------------------------------------------------------
-- Gluing the Parent
------------------------------------------------------------

section

variable {segs : List (List UInt8)} {text : List UInt8}

theorem length_slashRows
    (j : Nat)
    (segs : List (List UInt8)) :
    (slashRows j segs).length = segs.length - 1 := by
  induction segs generalizing j with
  | nil => rfl
  | cons seg segs ih =>
      cases segs with
      | nil => rfl
      | cons next segs =>
          rw [slashRows, List.length_cons, ih]
          rfl

/- The rows of a segmented text hold characters only. -/
theorem Segmented.slashRows_ne_zero
    (h : Segmented text segs)
    {j : Nat} :
    ∀ row ∈ slashRows j segs, ∀ x ∈ row, x ≠ 0 := by
  induction h generalizing j with
  | last =>
      intro row hRow
      exact absurd hRow List.not_mem_nil
  | @more seg rest next segs hSeg _ ih =>
      intro row hRow x hx
      rw [slashRows, List.mem_cons] at hRow
      rcases hRow with rfl | hRow
      · unfold slashRow at hx
        split at hx
        · rcases List.mem_append.mp hx with hx | hx
          · exact (hSeg x hx).1
          · rw [List.mem_singleton.mp hx]
            decide
        · exact (hSeg x hx).1
      · exact ih row hRow x hx

/- Rows are glued exactly when all of them have room. -/
theorem glueRows_isSome_iff
    {rows : UnpackedPath}
    {cs : List (List UInt8)}
    {i : Nat}
    (hRows : ∀ k (hk : k < cs.length),
      Terminated (rows.row (i + k)) ∧
        cString (rows.row (i + k)) = cs[k])
    (hNames : ∀ c ∈ cs, ∀ x ∈ c, x ≠ 0)
    {path : ByteBuffer maxPathLen}
    (h : path.ShowsText 0 text)
    (hText : ∀ x ∈ text, x ≠ 0) :
    (glueRows rows cs.length i path).isSome ↔
      text.length + cs.flatten.length < maxPathLen := by
  constructor
  · induction cs generalizing i path text with
    | nil =>
        intro _
        have hInside := h.inside
        rwa [Nat.zero_add] at hInside
    | cons c cs ih =>
        intro hSome
        rcases hRows 0 (by simp) with ⟨hTerm, hRow⟩
        rw [Nat.add_zero] at hTerm hRow
        rw [List.getElem_cons_zero] at hRow
        have hLen := strlen_of_terminated hTerm
        have hDst := strlen_of_terminated h.terminated
        rw [h.cString_eq hText] at hDst
        have hRoom : text.length + c.length < maxPathLen := by
          by_contra hNot
          have hNone : strncat path (rows.row i)
              (cString (rows.row i)).length = none := by
            rw [hRow]
            unfold strncat
            rw [hDst]
            exact if_neg fun hIf => hNot hIf.2
          simp [glueRows, hLen, hNone] at hSome
        rw [hRow] at hLen
        rcases strncat_showsText h hText hLen hRoom with
          ⟨path₁, hRun, hShows⟩
        rw [hRow] at hShows
        simp only [List.length_cons, glueRows, hLen, hRun,
          Option.bind_eq_bind, Option.bind_some] at hSome
        have hNext : ∀ k (hk : k < cs.length),
            Terminated (rows.row (i + 1 + k)) ∧
              cString (rows.row (i + 1 + k)) = cs[k] := by
          intro k hk
          have hRest := hRows (k + 1) (Nat.succ_lt_succ hk)
          rwa [List.getElem_cons_succ, ← Nat.add_assoc,
            Nat.add_right_comm] at hRest
        have hAll : ∀ x ∈ text ++ c, x ≠ 0 := by
          intro x hx
          rcases List.mem_append.mp hx with hx | hx
          · exact hText x hx
          · exact hNames c (by simp) x hx
        have hLt := ih hNext
          (fun d hd => hNames d (by simp [hd])) hShows hAll
          hSome
        rw [List.length_append] at hLt
        rw [List.flatten_cons, List.length_append]
        omega
  · intro hRoom
    rcases glueRows_showsText hRows hNames h hText hRoom with
      ⟨path', hRun, -⟩
    rw [hRun]
    rfl

end

------------------------------------------------------------
-- Paths That Stay Inside
------------------------------------------------------------

section

variable {path : List UInt8}
variable {find : FindStack} {stack : CreateStack}

/- The stored path is a string exactly if it is short. -/
theorem storedName_shows
    (hPath : Terminated path)
    (hShort : (cString path).length < maxPathLen) :
    ∃ name, storedName path = some name ∧
      Terminated (name.bytesFrom 0) ∧
        cString (name.bytesFrom 0) = cString path := by
  have hLen := strlen_of_terminated hPath
  have hRoom : 0 + (cString path).length ≤ maxPathLen := by
    rw [Nat.zero_add]
    exact Nat.le_of_lt hShort
  have hCopy : memcpy (.fill maxPathLen 0) 0
      (fun i => path.getD i 0) (cString path).length =
        some _ := memcpy_of_le hRoom
  have hShows := showsText_of_zeros hLen hShort hCopy
  refine ⟨_, ?_, hShows.terminated, hShows.cString_eq
    fun x hx => ne_zero_of_mem_cString hx⟩
  rw [storedName, hLen]
  exact hCopy

/- A stored path that is a string was short. -/
theorem storedName_short
    {name : ByteBuffer maxPathLen}
    (hPath : Terminated path)
    (hName : storedName path = some name)
    (hTerm : Terminated (name.bytesFrom 0)) :
    (cString path).length < maxPathLen := by
  have hLen := strlen_of_terminated hPath
  have hInside := (showsText_of_terminated hTerm).inside
  have hStop := get_length_cString hTerm
  rw [storedName, hLen] at hName
  rcases memcpy_eq_some_iff.mp hName with ⟨hRoom, rfl⟩
  generalize (cString (ByteBuffer.bytesFrom _ 0)).length = m
    at hInside hStop
  by_contra hLong
  have hIn : m < (cString path).length := by omega
  rw [ByteBuffer.get_splice _ _ _ _ (by omega),
    if_pos ⟨Nat.zero_le m, by omega⟩, Nat.sub_zero,
    getD_eq_cString path hIn] at hStop
  exact ne_zero_of_mem_cString (List.getElem_mem hIn) hStop

/- Splitting a path that fits shows the rows of its parent. -/
theorem splitInside_parentRows
    (hPath : Terminated path)
    (hFits : TextFits (cString path))
    (rows : UnpackedPath) :
    ∃ depth rows', splitInside path rows =
        some (depth, rows') ∧
      (parentRows (cString path)).length = depth.toNat - 1 ∧
      ∀ k (hk : k < (parentRows (cString path)).length),
        Terminated (rows'.row (0 + k)) ∧
          cString (rows'.row (0 + k)) =
            (parentRows (cString path))[k] := by
  rcases splitInside_shows hPath hFits rows with
    ⟨rows', hRun, hShows⟩
  have hText : ∀ c ∈ cString path, c ≠ 0 :=
    fun c hc => ne_zero_of_mem_cString hc
  have hChars :=
    (segmented_splitOn hText).slashRows_ne_zero (j := 0)
  have hDepth := hFits.rows.depth
  have hLen := length_slashRows 0
    ((cString path).splitOn slash)
  have hLe : rowCount ((cString path).splitOn slash) ≤
      ((cString path).splitOn slash).length := by
    unfold rowCount
    split
    · exact Nat.sub_le _ _
    · exact Nat.le_refl _
  unfold parentRows
  generalize (cString path).splitOn slash = segs at *
  have hCount : (UInt16.ofNat (rowCount segs)).toNat =
      rowCount segs := by
    have hTen : 0 + rowCount segs ≤ 10 := hDepth
    exact UInt16.toNat_ofNat_of_lt'
      (show _ < 65536 by omega)
  refine ⟨_, rows', hRun, ?_, ?_⟩
  · rw [hCount, List.length_take, hLen]
    omega
  · intro k hk
    rw [List.length_take] at hk
    have hIn : k < (slashRows 0 segs).length := by omega
    have hRow := hShows k hIn
    rw [Nat.zero_add, List.getElem_take]
    exact ⟨hRow.terminated, hRow.cString_eq
      (hChars _ (List.getElem_mem hIn))⟩

/- The glued path of the parent, as far as it has room. -/
theorem glueRows_parent
    {rows : UnpackedPath}
    {buff : ByteBuffer maxPathLen}
    {text : List UInt8}
    {n : Nat}
    (hText : ∀ c ∈ text, c ≠ 0)
    (hCount : (parentRows text).length = n)
    (hRows : ∀ k (hk : k < (parentRows text).length),
      Terminated (rows.row (0 + k)) ∧
        cString (rows.row (0 + k)) = (parentRows text)[k])
    (hClean : Terminated (buff.bytesFrom 0)) :
    ((glueRows rows n 0 buff).isSome ↔
        (cString (buff.bytesFrom 0)).length +
          (parentText text).length < maxPathLen) ∧
      ∀ parent, glueRows rows n 0 buff = some parent →
        Terminated (parent.bytesFrom 0) ∧
          cString (parent.bytesFrom 0) =
            cString (buff.bytesFrom 0) ++ parentText text := by
  have hBuff := showsText_of_terminated hClean
  have hChars : ∀ c ∈ cString (buff.bytesFrom 0), c ≠ 0 :=
    fun c hc => ne_zero_of_mem_cString hc
  have hNames : ∀ c ∈ parentRows text, ∀ x ∈ c, x ≠ 0 :=
    fun c hc => (segmented_splitOn hText).slashRows_ne_zero c
      (List.mem_of_mem_take hc)
  have hIff := glueRows_isSome_iff hRows hNames hBuff hChars
  rw [hCount] at hIff
  refine ⟨hIff, ?_⟩
  intro parent hGlue
  have hRoom := hIff.mp (by rw [hGlue]; rfl)
  rcases glueRows_showsText hRows hNames hBuff hChars hRoom
    with ⟨parent', hRun, hShows⟩
  rw [hCount, hGlue] at hRun
  cases hRun
  refine ⟨hShows.terminated, hShows.cString_eq ?_⟩
  intro x hx
  rcases List.mem_append.mp hx with hx | hx
  · exact hChars x hx
  · rcases List.mem_flatten.mp hx with ⟨c, hc, hx⟩
    exact hNames c hc x hx

/- A session that stays inside has a path that fits. -/
theorem StaysInside.fits
    (hPath : Terminated path)
    (h : StaysInside path find stack) :
    PathFits path (stack.parentPathname.bytesFrom 0) := by
  have hText : ∀ c ∈ cString path, c ≠ 0 :=
    fun c hc => ne_zero_of_mem_cString hc
  rcases Option.isSome_iff_exists.mp h with ⟨rows', hRun⟩
  simp only [sessionStores, Option.bind_eq_bind,
    Option.bind_eq_some_iff] at hRun
  rcases hRun with ⟨r₁, hOpen, name, hName, ⟨depth, rows⟩,
    hSplit, parent, hGlue, ⟨d₂, r₂⟩, hParent, -⟩
  have hFits := (splitInside_isSome_iff hPath _).mp
    (Option.isSome_iff_exists.mpr ⟨r₁, hOpen⟩)
  -- the pathname and the parent's path have to be strings
  have hTerm := terminated_of_unpackDirPath
    (splitInside_refines hSplit)
  have hClean := terminated_of_glueRows hGlue
    (terminated_of_unpackDirPath
      (splitInside_refines hParent))
  have hShort := storedName_short hPath hName hTerm
  rcases storedName_shows hPath hShort with
    ⟨name', hStored, -, hSame⟩
  rw [hName] at hStored
  cases hStored
  rcases splitInside_parentRows hTerm (hSame ▸ hFits)
    stack.unpackedPath with
    ⟨d, rows', hRun, hCount, hRows⟩
  rw [hSplit] at hRun
  cases hRun
  rw [hSame] at hCount hRows
  rcases glueRows_parent hText hCount hRows hClean with
    ⟨hRoom, hGlued⟩
  rcases hGlued parent hGlue with ⟨hEnd, hJoined⟩
  refine ⟨hFits, hShort, hClean, hRoom.mp ?_, ?_⟩
  · rw [hGlue]
    rfl
  · rw [← hJoined]
    exact (splitInside_isSome_iff hEnd _).mp
      (Option.isSome_iff_exists.mpr ⟨_, hParent⟩)

/- A path that fits is split, stored and glued inside. -/
theorem PathFits.staysInside
    (hPath : Terminated path)
    (h : PathFits path (stack.parentPathname.bytesFrom 0)) :
    StaysInside path find stack := by
  have hText : ∀ c ∈ cString path, c ≠ 0 :=
    fun c hc => ne_zero_of_mem_cString hc
  rcases splitInside_shows hPath h.text find.unpackedPath
    with ⟨rows₁, hOpen, -⟩
  rcases storedName_shows hPath h.short with
    ⟨name, hName, hTerm, hSame⟩
  rcases splitInside_parentRows hTerm (hSame ▸ h.text)
    stack.unpackedPath with
    ⟨depth, rows, hSplit, hCount, hRows⟩
  rw [hSame] at hCount hRows
  rcases glueRows_parent hText hCount hRows h.clean with
    ⟨hRoom, hGlued⟩
  rcases Option.isSome_iff_exists.mp (hRoom.mpr h.room) with
    ⟨parent, hGlue⟩
  rcases hGlued parent hGlue with ⟨hEnd, hJoined⟩
  have hParent := (splitInside_isSome_iff hEnd
    stack.find.unpackedPath).mpr (hJoined ▸ h.parent)
  rcases Option.isSome_iff_exists.mp hParent with
    ⟨⟨d₂, r₂⟩, hParent⟩
  simp only [StaysInside, sessionStores, hOpen, hName, hSplit,
    hGlue, hParent, Option.bind_eq_bind, Option.bind_some,
    Option.isSome_some]

/-
  For every path and any contents of the stack: the session
  stays inside its arrays exactly when the path fits, the
  uninitialised array of the parent's path holds a string,
  and that string with the parent behind it fits as well.
-/
theorem staysInside_iff
    (hPath : Terminated path) :
    StaysInside path find stack ↔
      PathFits path (stack.parentPathname.bytesFrom 0) :=
  ⟨StaysInside.fits hPath, PathFits.staysInside hPath⟩

end

------------------------------------------------------------
-- Some Paths
------------------------------------------------------------

/- The path `/f` stays inside when the stack is zero. -/
theorem staysInside_sample :
    StaysInside [47, 102, 0] .zero .zero :=
  (staysInside_iff (by decide)).mpr
    ⟨by decide, by decide, by decide +kernel,
      by decide +kernel, by decide +kernel⟩

/- The path `/a/a/...` of ten components. -/
def elevenRowsPath : List UInt8 :=
  (List.replicate 10 [slash, 97]).flatten ++ [0]

/- A component of 300 characters. -/
def widePath : List UInt8 :=
  slash :: (List.replicate 300 97 ++ [0])

/- A file under two directories with names of 200 characters. -/
def gluedPath : List UInt8 :=
  (List.replicate 2 (slash :: List.replicate 200 97)).flatten ++
    [slash, 102, 0]

/-
  Paths that pass the length check and leave an array: the
  empty one, one of eleven rows, and one with a component of
  300 characters.  The components of the last path all fit,
  but its two directories are glued to one of 400.
-/
theorem session_leaves_arrays :
    (∀ path ∈ [[0], elevenRowsPath, widePath, gluedPath],
      Terminated path ∧
        (cString path).length ≤ maxPathLen ∧
          ¬ StaysInside path .zero .zero) ∧
      (∀ path ∈ [[0], elevenRowsPath, widePath],
        splitInside path FindStack.zero.unpackedPath =
          none) ∧
      (splitInside gluedPath
        FindStack.zero.unpackedPath).isSome := by
  have hEmpty : cString
      (CreateStack.zero.parentPathname.bytesFrom 0) = [] := by
    decide +kernel
  refine ⟨fun path hPath => ?_, fun path hPath => ?_, ?_⟩
  · have hTexts : Terminated path ∧
        (cString path).length ≤ maxPathLen ∧
          ¬ (TextFits (cString path) ∧
            TextFits (parentText (cString path))) := by
      revert path
      decide +kernel
    refine ⟨hTexts.1, hTexts.2.1, fun hInside => ?_⟩
    have hFits := hInside.fits hTexts.1
    have hParent := hFits.parent
    rw [hEmpty, List.nil_append] at hParent
    exact hTexts.2.2 ⟨hFits.text, hParent⟩
  · have hText : Terminated path ∧
        ¬ TextFits (cString path) := by
      revert path
      decide +kernel
    rw [← Option.not_isSome_iff_eq_none,
      splitInside_isSome_iff hText.1]
    exact hText.2
  · exact (splitInside_isSome_iff (by decide +kernel) _).mpr
      (by decide +kernel)

end Ext2

end Ester
