import Ester.Ext2.File
import Ester.Ext2.Lookup.Path

/-
  The path of the parent, as creation glues it together.

  The rows before the last one are appended to each other,
  the slash of the root first.  No row but that one has a
  slash, so the glued path has a single component: the names
  of all directories on the way, one behind the other.

  Key theorems include:
    * `unpackDirPath_congr`
    * `glueRows_showsText`
    * `unpackDirPath_glued`
-/

------------------------------------------------------------
-- Paths With Bytes Behind Them
------------------------------------------------------------

namespace Ester

namespace Ext2

/- The splitter stops at the end of the string. -/
theorem unpackLoop_cString
    {path : List UInt8}
    (hPath : Terminated path)
    (last : Option UInt8)
    (j k : Nat)
    (rows : UnpackedPath) :
    unpackLoop path last j k rows =
      unpackLoop (cString path ++ [0]) last j k rows := by
  induction path generalizing last j k rows with
  | nil => simp [Terminated] at hPath
  | cons c path ih =>
      by_cases hc : c = 0
      · subst hc
        simp [unpackLoop]
      · have hRest := (terminated_cons_of_ne hc).mp hPath
        rw [cString_cons_of_ne hc, List.cons_append]
        simp only [unpackLoop, if_neg hc, ih hRest]

/- Paths with the same characters are split alike. -/
theorem unpackDirPath_congr
    {path path' : List UInt8}
    (hPath : Terminated path)
    (hPath' : Terminated path')
    (hSame : cString path = cString path')
    (rows : UnpackedPath) :
    unpackDirPath path rows = unpackDirPath path' rows := by
  rw [unpackDirPath_eq, unpackDirPath_eq,
    unpackLoop_cString hPath, unpackLoop_cString hPath', hSame]

------------------------------------------------------------
-- Gluing Rows
------------------------------------------------------------

/- Gluing rows appends what they show. -/
theorem glueRows_showsText
    {rows : UnpackedPath}
    {cs : List (List UInt8)}
    {i : Nat}
    (hRows : ∀ k (hk : k < cs.length),
      Terminated (rows.row (i + k)) ∧
        cString (rows.row (i + k)) = cs[k])
    (hNames : ∀ c ∈ cs, ∀ x ∈ c, x ≠ 0)
    {path : ByteBuffer maxPathLen}
    {text : List UInt8}
    (h : path.ShowsText 0 text)
    (hText : ∀ x ∈ text, x ≠ 0)
    (hRoom :
      text.length + cs.flatten.length < maxPathLen) :
    ∃ path', glueRows rows cs.length i path = some path' ∧
      path'.ShowsText 0 (text ++ cs.flatten) := by
  induction cs generalizing i path text with
  | nil =>
      rw [List.flatten_nil, List.append_nil]
      exact ⟨path, rfl, h⟩
  | cons c cs ih =>
      rcases hRows 0 (by simp) with ⟨hTerm, hRow⟩
      rw [Nat.add_zero, List.getElem_cons_zero] at hRow
      rw [Nat.add_zero] at hTerm
      have hLen := strlen_of_terminated hTerm
      rw [List.flatten_cons, List.length_append] at hRoom
      rw [hRow] at hLen
      rcases strncat_showsText h hText hLen (by omega) with
        ⟨path₁, hRun, hShows⟩
      rw [hRow] at hShows
      have hNext : ∀ k (hk : k < cs.length),
          Terminated (rows.row (i + 1 + k)) ∧
            cString (rows.row (i + 1 + k)) = cs[k] := by
        intro k hk
        have hRest := hRows (k + 1) (Nat.succ_lt_succ hk)
        rwa [List.getElem_cons_succ, ← Nat.add_assoc,
          Nat.add_right_comm] at hRest
      rcases ih hNext (fun d hd => hNames d (by simp [hd]))
          hShows (by
            intro x hx
            rcases List.mem_append.mp hx with hx | hx
            · exact hText x hx
            · exact hNames c (by simp) x hx) (by
            rw [List.length_append]
            omega) with ⟨path', hRun', hShows'⟩
      refine ⟨path', ?_, ?_⟩
      · simp only [List.length_cons, glueRows, hLen, hRun,
          Option.bind_eq_bind, Option.bind_some, hRun']
      · rwa [List.append_assoc, ← List.flatten_cons]
          at hShows'

/- Rows are appended to a string, none without one. -/
theorem terminated_of_glueRows
    {rows : UnpackedPath}
    {n : Nat}
    {buff path : ByteBuffer maxPathLen}
    (hGlue : glueRows rows n 0 buff = some path)
    (hTerm : Terminated (path.bytesFrom 0)) :
    Terminated (buff.bytesFrom 0) := by
  cases n with
  | zero =>
      cases hGlue
      exact hTerm
  | succ n =>
      simp only [glueRows, Option.bind_eq_bind,
        Option.bind_eq_some_iff] at hGlue
      rcases hGlue with ⟨len, -, buff', hCat, -⟩
      unfold strncat at hCat
      split at hCat
      · cases hCat
      · next dstI hLen =>
          exact ((strlen_eq_some_iff _ _).mp hLen).1

------------------------------------------------------------
-- Splitting the Glued Path
------------------------------------------------------------

/- A long component runs into the rows behind its own. -/
theorem unpackDirPath_glued
    {path text : List UInt8}
    (hPath : Terminated path)
    (hSame : cString path = slash :: text)
    (hText : IsText text)
    (hRoom : text.length ≤ 2040)
    {rows : UnpackedPath}
    (hZero : ZeroFrom rows 0) :
    ∃ depth rows', unpackDirPath path rows =
        some (depth, rows') ∧
      (text ≠ [] → depth.toNat = 2 ∧
        Terminated (rows'.row 1) ∧
          cString (rows'.row 1) = text) := by
  have hClean : cString (slash :: (text ++ [0])) =
      slash :: text := by
    have hRest := cString_append_zero
      (fun c hc => (hText c hc).1) []
    rw [cString_cons_of_ne (by decide), hRest]
  have hEnd : Terminated (slash :: (text ++ [0])) := by
    simp [Terminated]
  rw [unpackDirPath_congr hPath hEnd (hSame.trans hClean.symm),
    unpackDirPath_eq]
  rcases unpackLoop_root (text ++ [0]) none rows hZero with
    ⟨rows₁, hRun, hZero₁, -⟩
  rw [hRun]
  by_cases hNe : text = []
  · subst hNe
    exact ⟨1, rows₁, rfl, fun hNot => absurd rfl hNot⟩
  · rcases unpackLast (Nat.one_mul rowLen) hText hNe
        (some slash) hZero₁ (by
          show 257 + text.length + 1 ≤ 2569
          omega) with ⟨rows', hLast, -, hShows⟩
    change rows'.ShowsText (1 * rowLen) text at hShows
    exact ⟨_, rows', hLast, fun _ => ⟨rfl, hShows.terminated,
      hShows.cString_eq fun x hx => (hText x hx).1⟩⟩

end Ext2

end Ester
