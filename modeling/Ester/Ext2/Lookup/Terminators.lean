import Ester.Ext2.Directory.Bounds

/-
  Where the splitter of a path puts the terminators.

  A row that a slash ends is terminated right behind its
  text, whatever the rows held before.  The row of a last
  component without a slash behind it gets its zero one byte
  further on, and shows the component only when the byte in
  between was zero already.

  Key definitions include:
    * `joined`, `AbsPath.text`
    * `UnpacksTo`

  Key theorems include:
    * `unpackDirPath_segments`
    * `FilledRow.showsText_iff`
    * `unpackDirPath_unpacksTo_iff`
-/

namespace Ester

namespace Ext2

------------------------------------------------------------
-- Paths and Their Segments
------------------------------------------------------------

/- Components with a slash between any two. -/
def joined : List (List UInt8) → List UInt8
  | [] => []
  | [c] => c
  | c :: d :: cs => c ++ slash :: joined (d :: cs)

/- A path, possibly with one more slash at its end. -/
def AbsPath.text
    (p : AbsPath)
    (trailing : Bool) : List UInt8 :=
  slash :: (joined p.comps ++ if trailing then [slash] else [])

theorem isText_nil :
    IsText [] :=
  fun _ h => absurd h List.not_mem_nil

/- The components are the segments between the slashes. -/
theorem segmented_joined
    {cs : List (List UInt8)}
    (hText : ∀ c ∈ cs, IsText c)
    (hNe : cs ≠ []) :
    Segmented (joined cs) cs := by
  induction cs with
  | nil => exact absurd rfl hNe
  | cons c cs ih =>
      have hc := hText c (by simp)
      cases cs with
      | nil => exact .last hc
      | cons d cs =>
          exact .more hc (ih (fun e he => hText e (by simp [he]))
            (by simp))

/- A slash at the end adds an empty segment. -/
theorem Segmented.concat_slash
    {text : List UInt8}
    {segs : List (List UInt8)}
    (h : Segmented text segs) :
    Segmented (text ++ [slash]) (segs ++ [[]]) := by
  induction h with
  | last hSeg => exact .more hSeg (.last isText_nil)
  | @more seg rest next segs hSeg _ ih =>
      rw [List.append_assoc, List.cons_append]
      exact .more hSeg ih

/- A slash at the start adds an empty segment. -/
theorem Segmented.cons_slash
    {text : List UInt8}
    {segs : List (List UInt8)}
    (h : Segmented text segs) :
    Segmented (slash :: text) ([] :: segs) := by
  cases h with
  | last hSeg => exact .more isText_nil (.last hSeg)
  | more hSeg hRest => exact .more isText_nil (.more hSeg hRest)

section

variable (init : List (List UInt8)) (last : List UInt8)

/- Every segment but the last gets a row with a slash. -/
theorem slashRows_concat :
    slashRows 0 ([] :: (init ++ [last])) = [slash] :: init := by
  have hLater : ∀ j, slashRows (j + 1) (init ++ [last]) =
      init := by
    induction init with
    | nil =>
        intro j
        rfl
    | cons c init ih =>
        intro j
        have hRow : slashRow (j + 1) c = c :=
          if_neg (Nat.succ_ne_zero j)
        cases init with
        | nil => rw [← hRow]; rfl
        | cons d init =>
            have hRest := ih (j + 1)
            rw [List.cons_append, List.cons_append, slashRows,
              hRow]
            rw [List.cons_append] at hRest
            rw [hRest]
  cases init with
  | nil => rfl
  | cons c init =>
      have hRest := hLater 0
      rw [List.cons_append] at hRest ⊢
      rw [slashRows, hRest]
      rfl

theorem lastSegment_concat :
    lastSegment ([] :: (init ++ [last])) = last := by
  rw [lastSegment, List.getLastD_cons, List.getLastD_concat]

end

------------------------------------------------------------
-- The Rows of a Path
------------------------------------------------------------

/-
  The rows behind a slash show their segments, and the last
  segment fills its row up to its last byte.
-/
theorem unpackDirPath_segments
    {text : List UInt8}
    {init : List (List UInt8)}
    {last : List UInt8}
    (hText : Segmented text ([] :: (init ++ [last])))
    (hInit : ∀ c ∈ init, c.length < rowLen)
    (hLast : last.length + 1 < rowLen)
    {count : Nat}
    (hCount : count = if last = [] then init.length + 1
      else init.length + 2)
    (hDepth : count ≤ maxPathDepth)
    (rest : List UInt8)
    (rows : UnpackedPath) :
    ∃ rows', unpackDirPath (text ++ 0 :: rest) rows =
        some (UInt16.ofNat count, rows') ∧
      FilledRow rows rows' ((init.length + 1) * rowLen) last ∧
      ∀ i name, ([slash] :: init)[i]? = some name →
        rows'.ShowsText (i * rowLen) name := by
  have hRows := slashRows_concat init last
  have hLastIs := lastSegment_concat init last
  have hLength : ([] :: (init ++ [last])).length =
      init.length + 2 := by simp
  have hRowCount : rowCount ([] :: (init ++ [last])) = count := by
    rw [rowCount, hLastIs, hLength, hCount]
    rfl
  have hFits : RowsFit 0 ([] :: (init ++ [last])) := by
    refine ⟨by rwa [Nat.zero_add, hRowCount], ?_, ?_⟩
    · rw [hRows]
      intro row hRow
      rcases List.mem_cons.mp hRow with rfl | hRow
      · decide
      · exact hInit row hRow
    · rwa [hLastIs]
  have hNe : text = [] → (none : Option UInt8) = some slash := by
    intro hNil
    have hSome : init ++ [last] ≠ [] := by simp
    rcases List.exists_cons_of_ne_nil hSome with
      ⟨seg, segs, hEq⟩
    rw [hEq] at hText
    cases hText with
    | more => exact absurd hNil (by simp)
  rcases (hText.split (Nat.zero_le _) hNe rest rows).1 hFits with
    ⟨rows', hRun, -, hFilled, hShows⟩
  simp only [Nat.zero_add, hRowCount] at hRun hShows hFilled
  rw [hLastIs, hLength] at hFilled
  refine ⟨rows', splitInside_refines hRun, hFilled, ?_⟩
  intro i name hName
  rcases List.getElem?_eq_some_iff.mp hName with ⟨hi, rfl⟩
  have hRow := hShows i (by rwa [hRows])
  simpa only [hRows] using hRow

/- The text of a filled row ends where a zero was before. -/
theorem FilledRow.showsText_iff
    {rows rows' : UnpackedPath}
    {off : Nat}
    {seg : List UInt8}
    (h : FilledRow rows rows' off seg)
    (hInside : off + seg.length < maxPathDepth * rowLen) :
    rows'.ShowsText off seg ↔
      rows.get (off + seg.length) = 0 := by
  rw [← h.behind]
  exact ⟨fun hShows => hShows.stop,
    fun hStop => ⟨h.bytes, hStop, hInside⟩⟩

/-
  Splitting a path gives these names: their number, and in
  each row the name as a string.
-/
def UnpacksTo
    (path : List UInt8)
    (rows : UnpackedPath)
    (names : List (List UInt8)) : Prop :=
  ∃ rows', unpackDirPath path rows =
      some (UInt16.ofNat names.length, rows') ∧
    ∀ i (hi : i < names.length),
      Terminated (rows'.row i) ∧ cString (rows'.row i) = names[i]

/- Rows read as names when they show them. -/
theorem reads_iff_showsText
    {rows : UnpackedPath}
    {i : Nat}
    {name : List UInt8}
    (hName : ∀ c ∈ name, c ≠ 0) :
    (Terminated (rows.row i) ∧ cString (rows.row i) = name) ↔
      rows.ShowsText (i * rowLen) name :=
  ⟨fun h => .of_cString h.1 h.2,
    fun h => ⟨h.terminated, h.cString_eq hName⟩⟩

/- The root and the components have no zero inside. -/
theorem AbsPath.names_clean
    (p : AbsPath) :
    ∀ name ∈ [slash] :: p.comps, ∀ c ∈ name, c ≠ 0 := by
  intro name hName c hc
  rcases List.mem_cons.mp hName with rfl | hName
  · rw [List.mem_singleton] at hc
    subst hc
    decide
  · exact ((p.names name hName).text c hc).1

theorem AbsPath.comps_isText
    (p : AbsPath) :
    ∀ c ∈ p.comps, IsText c :=
  fun c hc => (p.names c hc).text

theorem AbsPath.comps_length
    (p : AbsPath) :
    ∀ c ∈ p.comps, c.length + 1 < rowLen :=
  fun c hc => Nat.succ_lt_succ
    (Nat.lt_succ_of_le (p.names c hc).length_le)

/- With a slash at its end every row of a path is complete. -/
theorem unpacksTo_trailing
    (p : AbsPath)
    (hNe : p.comps ≠ [])
    (rest : List UInt8)
    (rows : UnpackedPath) :
    UnpacksTo (p.text true ++ 0 :: rest) rows
      ([slash] :: p.comps) := by
  have hText : Segmented (p.text true)
      ([] :: (p.comps ++ [[]])) :=
    ((segmented_joined p.comps_isText hNe).concat_slash
      ).cons_slash
  rcases unpackDirPath_segments hText
    (fun c hc => Nat.lt_of_succ_lt (p.comps_length c hc))
    (by decide) (if_pos rfl).symm p.depth rest rows with
    ⟨rows', hRun, -, hShows⟩
  refine ⟨rows', hRun, fun i hi => ?_⟩
  exact (reads_iff_showsText (p.names_clean _
    (List.getElem_mem hi))).mpr
      (hShows i _ (List.getElem?_eq_getElem hi))

/- The root alone is complete as well. -/
theorem unpacksTo_root
    (p : AbsPath)
    (hNil : p.comps = [])
    (rest : List UInt8)
    (rows : UnpackedPath) :
    UnpacksTo (p.text false ++ 0 :: rest) rows
      ([slash] :: p.comps) := by
  have hText : Segmented (p.text false) ([] :: ([] ++ [[]])) := by
    rw [AbsPath.text, hNil]
    exact (Segmented.last isText_nil).cons_slash
  rcases unpackDirPath_segments hText
    (fun c hc => absurd hc List.not_mem_nil)
    (by decide) (if_pos rfl).symm (by decide) rest rows with
    ⟨rows', hRun, -, hShows⟩
  rw [hNil]
  refine ⟨rows', hRun, fun i hi => ?_⟩
  refine (reads_iff_showsText fun c hc => ?_).mpr
    (hShows i _ (List.getElem?_eq_getElem hi))
  have hClean := p.names_clean
  rw [hNil] at hClean
  exact hClean _ (List.getElem_mem hi) c hc

/- The root with one more slash gives an empty component. -/
theorem not_unpacksTo_double
    (p : AbsPath)
    (hNil : p.comps = [])
    (rest : List UInt8)
    (rows : UnpackedPath) :
    ¬ UnpacksTo (p.text true ++ 0 :: rest) rows
      ([slash] :: p.comps) := by
  have hText : Segmented (p.text true)
      ([] :: ([[]] ++ [[]])) := by
    rw [AbsPath.text, hNil]
    exact ((Segmented.last isText_nil).concat_slash).cons_slash
  rcases unpackDirPath_segments hText (by simp)
    (by decide) (if_pos rfl).symm (by decide) rest rows with
    ⟨rows', hRun, -, -⟩
  rintro ⟨rows'', hRun', -⟩
  rw [hRun, hNil] at hRun'
  have hCount : (2 : UInt16) = 1 :=
    congrArg Prod.fst (Option.some.inj hRun')
  exact absurd hCount (by decide)

/- The last component may run into what its row held. -/
theorem unpacksTo_open_iff
    (p : AbsPath)
    {init : List (List UInt8)}
    {last : List UInt8}
    (hComps : p.comps = init ++ [last])
    (rest : List UInt8)
    (rows : UnpackedPath) :
    UnpacksTo (p.text false ++ 0 :: rest) rows
        ([slash] :: p.comps) ↔
      rows.get (p.comps.length * rowLen + last.length) = 0 := by
  have hDepth := p.depth
  have hNe : p.comps ≠ [] := by
    rw [hComps]
    simp
  have hLast := p.names last (by simp [hComps])
  have hText : Segmented (p.text false)
      ([] :: (init ++ [last])) := by
    have hJoined := segmented_joined p.comps_isText hNe
    rw [AbsPath.text, ← hComps]
    simp only [Bool.false_eq_true, if_false, List.append_nil]
    exact hJoined.cons_slash
  have hLength : p.comps.length = init.length + 1 := by
    rw [hComps, List.length_append, List.length_singleton]
  have hCount : ([slash] :: p.comps).length = if last = [] then
      init.length + 1 else init.length + 2 := by
    rw [if_neg hLast.ne_nil, List.length_cons, hLength]
  have hLastLen := p.comps_length last (by simp [hComps])
  rcases unpackDirPath_segments hText
    (fun c hc => Nat.lt_of_succ_lt (p.comps_length c (by
      rw [hComps]
      exact List.mem_append_left _ hc)))
    hLastLen hCount (by rw [List.length_cons]; omega) rest rows
    with ⟨rows', hRun, hFilled, hShows⟩
  rw [← hLength] at hFilled
  have hInside : p.comps.length * rowLen + last.length <
      maxPathDepth * rowLen :=
    Nat.lt_of_lt_of_le
      (Nat.add_lt_add_left (Nat.lt_of_succ_lt hLastLen) _)
      (row_end_le hDepth)
  rw [← hFilled.showsText_iff hInside]
  have hLt : p.comps.length < ([slash] :: p.comps).length :=
    Nat.lt_succ_self _
  have hLastName : ([slash] :: p.comps)[p.comps.length] =
      last := by
    simp [hComps]
  have hClean := p.names_clean
  constructor
  · rintro ⟨rows'', hRun', hReads⟩
    cases hRun.symm.trans hRun'
    have hRow := hReads p.comps.length hLt
    rw [hLastName] at hRow
    exact (reads_iff_showsText fun c hc =>
      (hLast.text c hc).1).mp hRow
  · intro hLastShows
    refine ⟨rows', hRun, fun i hi => ?_⟩
    refine (reads_iff_showsText (hClean _
      (List.getElem_mem hi))).mpr ?_
    by_cases hEnd : i = p.comps.length
    · subst hEnd
      rwa [hLastName]
    · have hEarlier : i < ([slash] :: init).length := by
        rw [List.length_cons] at hi ⊢
        omega
      apply hShows
      rw [← @List.getElem?_append_left _ _ [last] _ hEarlier,
        List.cons_append, ← hComps,
        List.getElem?_eq_getElem hi]

/-
  A path of up to nine components is split into the root and
  its components exactly when it ends with a single slash,
  or the byte behind the last one was zero in its row.
-/
theorem unpackDirPath_unpacksTo_iff
    (p : AbsPath)
    (trailing : Bool)
    (rest : List UInt8)
    (rows : UnpackedPath) :
    UnpacksTo (p.text trailing ++ 0 :: rest) rows
        ([slash] :: p.comps) ↔
      if trailing then p.comps ≠ []
      else ∀ last, p.comps.getLast? = some last →
        rows.get (p.comps.length * rowLen + last.length) = 0 := by
  rcases List.eq_nil_or_concat p.comps with hNil |
    ⟨init, last, hComps⟩
  · cases trailing with
    | true =>
        simp only [hNil, if_true, ne_eq, not_true_eq_false,
          iff_false]
        have hDouble := not_unpacksTo_double p hNil rest rows
        rwa [hNil] at hDouble
    | false =>
        have hRoot := unpacksTo_root p hNil rest rows
        refine iff_of_true hRoot ?_
        intro last hLast
        rw [hNil] at hLast
        cases hLast
  · rw [List.concat_eq_append] at hComps
    have hNe : p.comps ≠ [] := by
      rw [hComps]
      simp
    cases trailing with
    | true =>
        exact iff_of_true (unpacksTo_trailing p hNe rest rows) hNe
    | false =>
        rw [unpacksTo_open_iff p hComps]
        have hLast : p.comps.getLast? = some last := by
          rw [hComps, List.getLast?_append]
          rfl
        simp only [Bool.false_eq_true, if_false, hLast,
          Option.some.injEq, forall_eq']

/- The path `/a`. -/
def shortPath : AbsPath where
  comps := [[97]]
  names := by simp [isName_iff, slash, ext2NameLen]
  depth := by decide

/-
  Rows full of the letter `x`: the component `a` is read
  back as `ax`.
-/
theorem unpackDirPath_stale :
    (∃ rows', unpackDirPath (shortPath.text false ++ [0])
        (.fill _ 120) = some (2, rows') ∧
      cString (rows'.row 1) = [97, 120]) ∧
    ¬ UnpacksTo (shortPath.text false ++ [0]) (.fill _ 120)
      [[slash], [97]] := by
  constructor
  · have hRow : (unpackDirPath (shortPath.text false ++ [0])
        (.fill _ 120)).map (fun r => (r.1, cString (r.2.row 1))) =
        some (2, [97, 120]) := by
      decide +kernel
    rcases Option.map_eq_some_iff.mp hRow with
      ⟨⟨depth, rows'⟩, hRun, hEq⟩
    cases congrArg Prod.fst hEq
    exact ⟨rows', hRun, congrArg Prod.snd hEq⟩
  · intro hUnpacks
    have hZero := (unpacksTo_open_iff shortPath
      (show shortPath.comps = [] ++ [[97]] from rfl)
      [] (.fill _ 120)).mp hUnpacks
    exact absurd hZero (by decide +kernel)

end Ext2

end Ester
