import Ester.Ext2.Lookup.Path

/-
  Splitting a path inside the rows.

  The rows are one block of memory, and the splitter of the
  source may run from one row into the next.  Here it is
  written once more with every store checked against the row
  and the column it names.  The checked splitter succeeds
  exactly on paths with few enough rows that are all short
  enough, and then does what the unchecked one does.

  Key definitions include:
    * `splitLoop`, `splitInside`
    * `slashRows`, `rowCount`
    * `RowsFit`
    * `Segmented`

  Key theorems include:
    * `splitInside_refines`
    * `Segmented.split`
    * `splitInside_isSome_iff`
    * `splitInside_shows`
-/

------------------------------------------------------------
-- The Checked Splitter
------------------------------------------------------------

namespace Ester

namespace Ext2

/- Store inside row `j` of the array or not at all. -/
def UnpackedPath.putInside
    (rows : UnpackedPath)
    (j k : Nat)
    (c : UInt8) : Option UnpackedPath :=
  if j < maxPathDepth ∧ k < rowLen then
    some (rows.store (j * rowLen + k) c)
  else none

/- The loop of `unpack_dir_path` with checked stores. -/
def splitLoop :
    (path : List UInt8) → (last : Option UInt8) →
      (j k : Nat) → UnpackedPath →
        Option (Option UInt8 × Nat × Nat × UnpackedPath)
  | [], _, _, _, _ => none
  | c :: path, last, j, k, rows =>
      if c = 0 then some (last, j, k, rows)
      else do
        let rows ← rows.putInside j k c
        if c = slash then do
          let rows ←
            if j = 0 then rows.putInside j (k + 1) 0
            else rows.putInside j k 0
          splitLoop path (some c) (j + 1) 0 rows
        else splitLoop path (some c) j (k + 1) rows

/- What `unpack_dir_path` does after its loop. -/
def splitEnd
    (r : Option UInt8 × Nat × Nat × UnpackedPath) :
    Option (UInt16 × UnpackedPath) := do
  let c ← r.1
  if c ≠ slash then do
    let rows ← r.2.2.2.putInside r.2.1 (r.2.2.1 + 1) 0
    some (UInt16.ofNat (r.2.1 + 1), rows)
  else some (UInt16.ofNat r.2.1, r.2.2.2)

/-
  `unpack_dir_path` with every access checked: no result when
  a store leaves its row or the array, or a read the path.
-/
def splitInside
    (path : List UInt8)
    (rows : UnpackedPath) : Option (UInt16 × UnpackedPath) :=
  (splitLoop path none 0 0 rows).bind splitEnd

section

variable {rows rows' : UnpackedPath} {j k : Nat} {c : UInt8}

theorem putInside_refines
    (hPut : rows.putInside j k c = some rows') :
    rows.put j k c = some rows' := by
  unfold UnpackedPath.putInside at hPut
  split at hPut
  · next hIn =>
      rcases hIn with ⟨hRow, hCol⟩
      have hNext : (j + 1) * rowLen ≤ maxPathDepth * rowLen :=
        Nat.mul_le_mul_right _ hRow
      have hLt : j * rowLen + k < maxPathDepth * rowLen := by
        rw [Nat.add_mul, Nat.one_mul] at hNext
        omega
      rw [← hPut]
      exact if_pos hLt
  · cases hPut

theorem splitLoop_refines
    {path : List UInt8}
    {last : Option UInt8}
    {r : Option UInt8 × Nat × Nat × UnpackedPath}
    (hRun : splitLoop path last j k rows = some r) :
    unpackLoop path last j k rows = some r := by
  induction path generalizing last j k rows with
  | nil => cases hRun
  | cons c path ih =>
      rw [splitLoop] at hRun
      rw [unpackLoop]
      split at hRun
      · next hZero => rwa [if_pos hZero]
      · next hNe =>
          rw [if_neg hNe]
          simp only [Option.bind_eq_bind,
            Option.bind_eq_some_iff] at hRun ⊢
          rcases hRun with ⟨rows₁, hPut, hRun⟩
          refine ⟨rows₁, putInside_refines hPut, ?_⟩
          split at hRun
          · next hSlash =>
              rw [if_pos hSlash]
              split at hRun
              · next hFirst =>
                  rw [if_pos hFirst]
                  simp only [Option.bind_eq_some_iff] at hRun ⊢
                  rcases hRun with ⟨rows₂, hStop, hRun⟩
                  exact ⟨rows₂, putInside_refines hStop,
                    ih hRun⟩
              · next hLater =>
                  rw [if_neg hLater]
                  simp only [Option.bind_eq_some_iff] at hRun ⊢
                  rcases hRun with ⟨rows₂, hStop, hRun⟩
                  exact ⟨rows₂, putInside_refines hStop,
                    ih hRun⟩
          · next hSlash =>
              rw [if_neg hSlash]
              exact ih hRun

/- Where the checked splitter succeeds, both agree. -/
theorem splitInside_refines
    {path : List UInt8}
    {r : UInt16 × UnpackedPath}
    (hRun : splitInside path rows = some r) :
    unpackDirPath path rows = some r := by
  rcases Option.bind_eq_some_iff.mp hRun with
    ⟨⟨last, j, k, rows₁⟩, hLoop, hEnd⟩
  rw [unpackDirPath_eq, splitLoop_refines hLoop,
    Option.bind_some]
  simp only [splitEnd, finishUnpack, Option.bind_eq_bind,
    Option.bind_eq_some_iff] at hEnd ⊢
  rcases hEnd with ⟨c, hLast, hEnd⟩
  refine ⟨c, hLast, ?_⟩
  split at hEnd
  · next hSlash =>
      rw [if_pos hSlash]
      simp only [Option.bind_eq_some_iff] at hEnd ⊢
      rcases hEnd with ⟨rows₂, hPut, hEnd⟩
      exact ⟨rows₂, putInside_refines hPut, hEnd⟩
  · next hSlash =>
      rwa [if_neg hSlash]

end

------------------------------------------------------------
-- Segments
------------------------------------------------------------

/- What row `j` shows of a segment that a slash follows. -/
def slashRow
    (j : Nat)
    (seg : List UInt8) : List UInt8 :=
  if j = 0 then seg ++ [slash] else seg

/- The rows from `j` on that a slash follows. -/
def slashRows :
    (j : Nat) → List (List UInt8) → List (List UInt8)
  | j, seg :: next :: segs =>
      slashRow j seg :: slashRows (j + 1) (next :: segs)
  | _, _ => []

/- What stands behind the last slash. -/
abbrev lastSegment
    (segs : List (List UInt8)) : List UInt8 :=
  segs.getLastD []

/- The rows used: none for an empty last segment. -/
def rowCount
    (segs : List (List UInt8)) : Nat :=
  if lastSegment segs = [] then segs.length - 1
  else segs.length

/-
  Segments that fit into the rows from `j` on: enough rows,
  and room for a zero behind each text, one byte further on
  behind the last one.
-/
structure RowsFit
    (j : Nat)
    (segs : List (List UInt8)) : Prop where
  depth : j + rowCount segs ≤ maxPathDepth
  rows : ∀ row ∈ slashRows j segs, row.length < rowLen
  last : (lastSegment segs).length + 1 < rowLen

theorem rowsFit_iff
    (j : Nat)
    (segs : List (List UInt8)) :
    RowsFit j segs ↔
      j + rowCount segs ≤ maxPathDepth ∧
        (∀ row ∈ slashRows j segs, row.length < rowLen) ∧
          (lastSegment segs).length + 1 < rowLen :=
  ⟨fun h => ⟨h.depth, h.rows, h.last⟩,
    fun ⟨hDepth, hRows, hLast⟩ => ⟨hDepth, hRows, hLast⟩⟩

instance
    (j : Nat)
    (segs : List (List UInt8)) :
    Decidable (RowsFit j segs) :=
  decidable_of_iff _ (rowsFit_iff j segs).symm

/- A text and its segments. -/
inductive Segmented :
    List UInt8 → List (List UInt8) → Prop
  | last
      {seg : List UInt8}
      (hSeg : IsText seg) :
      Segmented seg [seg]
  | more
      {seg rest next : List UInt8}
      {segs : List (List UInt8)}
      (hSeg : IsText seg)
      (hRest : Segmented rest (next :: segs)) :
      Segmented (seg ++ slash :: rest) (seg :: next :: segs)

/- Splitting at the slashes gives the segments. -/
theorem segmented_splitOn
    {text : List UInt8}
    (hText : ∀ c ∈ text, c ≠ 0) :
    Segmented text (text.splitOn slash) := by
  induction text with
  | nil =>
      rw [List.splitOn_nil]
      exact .last fun _ h => absurd h List.not_mem_nil
  | cons c text ih =>
      have hRest := ih fun d hd => hText d (by simp [hd])
      have hc := hText c (by simp)
      rw [List.splitOn_cons_eq_if_modifyHead]
      generalize text.splitOn slash = segs at hRest ⊢
      by_cases hSlash : c = slash
      · subst hSlash
        rw [if_pos (by decide)]
        cases segs with
        | nil => cases hRest
        | cons next segs =>
            have hNil : IsText [] :=
              fun _ h => absurd h List.not_mem_nil
            exact Segmented.more hNil hRest
      · rw [if_neg (by simpa using hSlash)]
        have hCons {seg : List UInt8}
            (hSeg : IsText seg) :
            IsText (c :: seg) := by
          intro x hx
          rcases List.mem_cons.mp hx with rfl | hx
          · exact ⟨hc, hSlash⟩
          · exact hSeg x hx
        cases hRest with
        | last hSeg => exact .last (hCons hSeg)
        | more hSeg hMore => exact .more (hCons hSeg) hMore

section

variable {j : Nat} {seg next : List UInt8}
variable {segs : List (List UInt8)}

theorem rowCount_cons_cons
    (seg next : List UInt8)
    (segs : List (List UInt8)) :
    rowCount (seg :: next :: segs) =
      rowCount (next :: segs) + 1 := by
  unfold rowCount lastSegment
  rw [List.getLastD_cons, List.getLastD_cons,
    List.getLastD_cons]
  split <;> simp

theorem rowsFit_last
    (hj : j ≤ maxPathDepth) :
    RowsFit j [seg] ↔
      seg = [] ∨
        (j < maxPathDepth ∧ seg.length + 1 < rowLen) := by
  have hNone : ∀ row ∈ slashRows j [seg],
      row.length < rowLen := by
    intro row hRow
    exact absurd hRow (by simp [slashRows])
  have hLast : lastSegment [seg] = seg := rfl
  by_cases hSeg : seg = []
  · have hCount : rowCount [seg] = 0 := by
      rw [rowCount, hLast, if_pos hSeg]
      rfl
    refine iff_of_true ⟨?_, hNone, ?_⟩ (.inl hSeg)
    · rwa [hCount]
    · rw [hLast, hSeg]
      decide
  · have hCount : rowCount [seg] = 1 := by
      rw [rowCount, hLast, if_neg hSeg]
      rfl
    rw [or_iff_right hSeg]
    constructor
    · intro h
      have hDepth := h.depth
      rw [hCount] at hDepth
      exact ⟨hDepth, h.last⟩
    · rintro ⟨hRow, hLen⟩
      exact ⟨by rwa [hCount], hNone, hLen⟩

theorem rowsFit_more :
    RowsFit j (seg :: next :: segs) ↔
      (slashRow j seg).length < rowLen ∧
        RowsFit (j + 1) (next :: segs) := by
  have hCount := rowCount_cons_cons seg next segs
  have hLast : lastSegment (seg :: next :: segs) =
      lastSegment (next :: segs) := rfl
  constructor
  · intro h
    have hDepth := h.depth
    rw [hCount] at hDepth
    refine ⟨h.rows _ (by simp [slashRows]), by omega, ?_,
      h.last⟩
    intro row hRow
    exact h.rows row (by simp [slashRows, hRow])
  · rintro ⟨hRow, h⟩
    have hDepth := h.depth
    refine ⟨by omega, ?_, h.last⟩
    intro row hMem
    rw [slashRows, List.mem_cons] at hMem
    rcases hMem with rfl | hMem
    · exact hRow
    · exact h.rows row hMem

end

------------------------------------------------------------
-- Filling the Rows
------------------------------------------------------------

section

variable {j : Nat} {seg : List UInt8}

/- The loop copies a text without slashes into a row. -/
theorem splitLoop_text
    {text : List UInt8}
    (hText : IsText text)
    (rest : List UInt8)
    (last : Option UInt8)
    (j k : Nat)
    (rows : UnpackedPath) :
    splitLoop (text ++ rest) last j k rows =
      if text = [] ∨
          (j < maxPathDepth ∧ k + text.length ≤ rowLen) then
        splitLoop rest (text.getLast?.or last) j
          (k + text.length)
          (rows.splice (j * rowLen + k) text.length
            fun i => text.getD i 0)
      else none := by
  induction text generalizing last k rows with
  | nil => simp
  | cons x text ih =>
      have hx := hText x (by simp)
      have hRest : IsText text :=
        fun y hy => hText y (by simp [hy])
      rw [List.cons_append, splitLoop, if_neg hx.1]
      by_cases hIn : j < maxPathDepth ∧ k < rowLen
      · have hIff : (text = [] ∨ (j < maxPathDepth ∧
            k + 1 + text.length ≤ rowLen)) ↔
              (x :: text = [] ∨ (j < maxPathDepth ∧
                k + (x :: text).length ≤ rowLen)) := by
          rw [List.length_cons]
          constructor
          · rintro (rfl | ⟨hRow, hLen⟩)
            · refine .inr ⟨hIn.1, ?_⟩
              rw [List.length_nil]
              omega
            · exact .inr ⟨hRow, by omega⟩
          · rintro (hNil | ⟨hRow, hLen⟩)
            · cases hNil
            · exact .inr ⟨hRow, by omega⟩
        simp only [UnpackedPath.putInside, if_pos hIn,
          Option.bind_eq_bind, Option.bind_some, if_neg hx.2]
        rw [ih hRest, if_congr hIff rfl rfl, Nat.add_assoc k,
          Nat.add_comm 1, ← Nat.add_assoc (j * rowLen),
          splice_store_succ, List.length_cons]
        congr 2
        cases text with
        | nil => rfl
        | cons y text =>
            rw [List.getLast?_cons_cons,
              List.getLast?_eq_some_getLast (by simp)]
            rfl
      · have hOut : ¬ (x :: text = [] ∨ (j < maxPathDepth ∧
            k + (x :: text).length ≤ rowLen)) := by
          rw [List.length_cons]
          rintro (hNil | ⟨hRow, hLen⟩)
          · cases hNil
          · exact hIn ⟨hRow, by omega⟩
        simp only [UnpackedPath.putInside, if_neg hIn,
          if_neg hOut, Option.bind_eq_bind, Option.bind_none]

/- The end of row `j` lies inside the array. -/
theorem row_end_le
    (hj : j < maxPathDepth) :
    j * rowLen + rowLen ≤ maxPathDepth * rowLen := by
  have hNext : (j + 1) * rowLen ≤ maxPathDepth * rowLen :=
    Nat.mul_le_mul_right _ hj
  rwa [Nat.add_mul, Nat.one_mul] at hNext

/- A segment before a slash fills its row. -/
theorem splitLoop_row
    (hSeg : IsText seg)
    (hj : j < maxPathDepth)
    (hLen : (slashRow j seg).length < rowLen)
    (rest : List UInt8)
    (last : Option UInt8)
    (rows : UnpackedPath) :
    ∃ rows', splitLoop (seg ++ slash :: rest) last j 0 rows =
        splitLoop rest (some slash) (j + 1) 0 rows' ∧
      (∀ x, x < j * rowLen ∨ (j + 1) * rowLen ≤ x →
        rows'.get x = rows.get x) ∧
        rows'.ShowsText (j * rowLen) (slashRow j seg) := by
  have hEnd := row_end_le hj
  have hNext : (j + 1) * rowLen = j * rowLen + rowLen :=
    Nat.succ_mul j rowLen
  have hSegLen : seg.length < rowLen := by
    unfold slashRow at hLen
    split at hLen
    · rw [List.length_append] at hLen
      omega
    · exact hLen
  have hFits : seg = [] ∨
      (j < maxPathDepth ∧ 0 + seg.length ≤ rowLen) :=
    .inr ⟨hj, by omega⟩
  rw [splitLoop_text hSeg, if_pos hFits, splitLoop,
    if_neg (by decide), Nat.zero_add, Nat.add_zero]
  simp only [UnpackedPath.putInside, if_pos (And.intro hj
    hSegLen), Option.bind_eq_bind, Option.bind_some, if_true]
  by_cases hFirst : j = 0
  · -- the row of the root keeps its slash
    have hRow : slashRow j seg = seg ++ [slash] :=
      if_pos hFirst
    rw [hRow, List.length_append, List.length_singleton]
      at hLen
    rw [if_pos hFirst, if_pos (And.intro hj hLen), hRow]
    refine ⟨_, rfl, ?_, ?_⟩
    · intro x hx
      rw [ByteBuffer.get_store_of_ne _ _ (by omega),
        ByteBuffer.get_store_of_ne _ _ (by omega),
        ByteBuffer.get_splice_of_outside _ _ (by omega)]
    · constructor
      · intro k hk
        rw [List.length_append, List.length_singleton] at hk
        rw [ByteBuffer.get_store_of_ne _ _ (by omega)]
        by_cases hLast : k = seg.length
        · subst hLast
          rw [ByteBuffer.get_store_self _ _ (by omega)]
          simp
        · have hIn : k < seg.length := by omega
          rw [ByteBuffer.get_store_of_ne _ _ (by omega),
            ByteBuffer.get_splice_of_inside _ _ hIn
              (by omega), List.getD_eq_getElem _ _ hIn,
            List.getElem_append_left hIn]
      · rw [List.length_append, List.length_singleton]
        exact ByteBuffer.get_store_self _ _ (by omega)
      · rw [List.length_append, List.length_singleton]
        omega
  · have hRow : slashRow j seg = seg := if_neg hFirst
    rw [if_neg hFirst, hRow]
    refine ⟨_, rfl, ?_, ?_⟩
    · intro x hx
      rw [ByteBuffer.get_store_of_ne _ _ (by omega),
        ByteBuffer.get_store_of_ne _ _ (by omega),
        ByteBuffer.get_splice_of_outside _ _ (by omega)]
    · constructor
      · intro k hk
        rw [ByteBuffer.get_store_of_ne _ _ (by omega),
          ByteBuffer.get_store_of_ne _ _ (by omega),
          ByteBuffer.get_splice_of_inside _ _ hk (by omega),
          List.getD_eq_getElem _ _ hk]
      · exact ByteBuffer.get_store_self _ _ (by omega)
      · omega

/- A segment that is too long leaves its row. -/
theorem splitLoop_row_leaves
    (hSeg : IsText seg)
    (hOut : ¬ (j < maxPathDepth ∧
      (slashRow j seg).length < rowLen))
    (rest : List UInt8)
    (last : Option UInt8)
    (rows : UnpackedPath) :
    splitLoop (seg ++ slash :: rest) last j 0 rows = none := by
  rw [splitLoop_text hSeg]
  split
  · rw [splitLoop, if_neg (by decide), Nat.zero_add,
      Nat.add_zero]
    unfold UnpackedPath.putInside
    by_cases hIn : j < maxPathDepth ∧ seg.length < rowLen
    · rw [if_pos hIn]
      simp only [Option.bind_eq_bind, Option.bind_some,
        if_true]
      by_cases hFirst : j = 0
      · have hRow : slashRow j seg = seg ++ [slash] :=
          if_pos hFirst
        rw [hRow, List.length_append, List.length_singleton]
          at hOut
        rw [if_pos hFirst, if_neg hOut, Option.bind_none]
      · have hRow : slashRow j seg = seg := if_neg hFirst
        rw [hRow] at hOut
        exact absurd hIn hOut
    · rw [if_neg hIn]
      rfl
  · rfl

/-
  A row that was filled with a text; the byte behind the
  text is the one that was there before.
-/
structure FilledRow
    (rows rows' : UnpackedPath)
    (off : Nat)
    (seg : List UInt8) : Prop where
  bytes :
    ∀ k (hk : k < seg.length), rows'.get (off + k) = seg[k]
  behind :
    rows'.get (off + seg.length) = rows.get (off + seg.length)

/- The last segment, with a zero one byte behind its end. -/
theorem splitLoop_last
    (hSeg : IsText seg)
    (rest : List UInt8)
    {last : Option UInt8}
    (hLast : seg = [] → last = some slash)
    (rows : UnpackedPath) :
    (seg = [] ∨
        (j < maxPathDepth ∧ seg.length + 1 < rowLen) →
      ∃ rows', (splitLoop (seg ++ 0 :: rest) last j 0
          rows).bind splitEnd =
            some (UInt16.ofNat (j + rowCount [seg]), rows') ∧
        (∀ x, x < j * rowLen → rows'.get x = rows.get x) ∧
        FilledRow rows rows' (j * rowLen) seg) ∧
    (¬ (seg = [] ∨
        (j < maxPathDepth ∧ seg.length + 1 < rowLen)) →
      (splitLoop (seg ++ 0 :: rest) last j 0 rows).bind
        splitEnd = none) := by
  by_cases hNil : seg = []
  · subst hNil
    rw [hLast rfl]
    refine ⟨fun _ => ⟨rows, rfl, fun _ _ => rfl, ?_, rfl⟩,
      fun hNot => absurd (.inl rfl) hNot⟩
    intro k hk
    exact absurd hk (Nat.not_lt_zero k)
  · rcases hSeg.getLast?_ne hNil with ⟨c, hChar, hSlash⟩
    have hCount : rowCount [seg] = 1 := if_neg hNil
    rw [splitLoop_text hSeg, hChar, hCount]
    constructor
    · intro hFits
      rcases hFits.resolve_left hNil with ⟨hj, hLen⟩
      have hCopy : seg = [] ∨
          (j < maxPathDepth ∧ 0 + seg.length ≤ rowLen) :=
        .inr ⟨hj, by omega⟩
      rw [if_pos hCopy, Nat.zero_add]
      simp only [splitLoop, if_true, Option.some_or,
        Option.bind_some, splitEnd, Option.bind_eq_bind,
        if_pos hSlash, UnpackedPath.putInside,
        if_pos (And.intro hj hLen)]
      have hEnd := row_end_le hj
      refine ⟨_, rfl, ?_, ?_, ?_⟩
      · intro x hx
        rw [ByteBuffer.get_store_of_ne _ _ (by omega),
          ByteBuffer.get_splice_of_outside _ _ (by omega)]
      · intro k hk
        rw [ByteBuffer.get_store_of_ne _ _ (by omega),
          Nat.add_zero, ByteBuffer.get_splice_of_inside _ _ hk
            (by omega), List.getD_eq_getElem _ _ hk]
      · rw [ByteBuffer.get_store_of_ne _ _ (by omega),
          ByteBuffer.get_splice_of_outside _ _ (by omega)]
    · intro hNot
      have hOut := fun h => hNot (.inr h)
      split
      · rw [Nat.zero_add]
        simp only [splitLoop, if_true, Option.some_or,
          Option.bind_some, splitEnd, Option.bind_eq_bind,
          if_pos hSlash, UnpackedPath.putInside, if_neg hOut,
          Option.bind_none]
      · rfl

/-
  Rows from row `j` on that were filled with segments: those
  before a slash are shown in their rows, the last one fills
  its row, and the rows below `j` are as before.
-/
structure FilledRows
    (j : Nat)
    (segs : List (List UInt8))
    (rows rows' : UnpackedPath) : Prop where
  low : ∀ x, x < j * rowLen → rows'.get x = rows.get x
  last : FilledRow rows rows'
    ((j + (segs.length - 1)) * rowLen) (lastSegment segs)
  shows : ∀ i (hi : i < (slashRows j segs).length),
    rows'.ShowsText ((j + i) * rowLen) (slashRows j segs)[i]

/- A row is shown, and the rows behind it are filled. -/
theorem FilledRows.more
    {next : List UInt8}
    {segs : List (List UInt8)}
    {rows rows₁ rows' : UnpackedPath}
    (hLen : (slashRow j seg).length < rowLen)
    (hOther : ∀ x, x < j * rowLen ∨ (j + 1) * rowLen ≤ x →
      rows₁.get x = rows.get x)
    (hShows : rows₁.ShowsText (j * rowLen) (slashRow j seg))
    (h : FilledRows (j + 1) (next :: segs) rows₁ rows') :
    FilledRows j (seg :: next :: segs) rows rows' := by
  have hBelow : ∀ x, x < j * rowLen + rowLen →
      rows'.get x = rows₁.get x := by
    intro x hx
    apply h.low
    rwa [Nat.add_mul, Nat.one_mul]
  constructor
  · intro x hx
    rw [hBelow x (Nat.lt_add_right _ hx), hOther x (.inl hx)]
  · have hRow : j + ((seg :: next :: segs).length - 1) =
        j + 1 + ((next :: segs).length - 1) := by
      simp only [List.length_cons]
      omega
    have hLast : lastSegment (seg :: next :: segs) =
        lastSegment (next :: segs) := rfl
    have hAbove : (j + 1) * rowLen ≤
        (j + 1 + ((next :: segs).length - 1)) * rowLen :=
      Nat.mul_le_mul_right _ (Nat.le_add_right _ _)
    rw [hRow, hLast]
    exact ⟨h.last.bytes, h.last.behind.trans
      (hOther _ (.inr (Nat.le_add_right_of_le hAbove)))⟩
  · intro i hi
    cases i with
    | zero =>
        apply hShows.congr
        intro k hk
        apply hBelow
        exact Nat.add_lt_add_left (Nat.lt_of_le_of_lt hk hLen) _
    | succ i =>
        have hRow := h.shows i (by
          simpa [slashRows] using hi)
        rwa [Nat.add_right_comm, Nat.add_assoc] at hRow

/-
  Segments that fit are all stored inside their rows, and no
  others succeed.
-/
theorem Segmented.split
    {text : List UInt8}
    {segs : List (List UInt8)}
    (h : Segmented text segs)
    (hj : j ≤ maxPathDepth)
    {last : Option UInt8}
    (hLast : text = [] → last = some slash)
    (rest : List UInt8)
    (rows : UnpackedPath) :
    (RowsFit j segs → ∃ rows',
      (splitLoop (text ++ 0 :: rest) last j 0 rows).bind
          splitEnd =
        some (UInt16.ofNat (j + rowCount segs), rows') ∧
      FilledRows j segs rows rows') ∧
    (¬ RowsFit j segs →
      (splitLoop (text ++ 0 :: rest) last j 0 rows).bind
        splitEnd = none) := by
  induction h generalizing j last rows with
  | last hSeg =>
      rcases splitLoop_last hSeg rest hLast rows with
        ⟨hFits, hLeaves⟩
      rw [rowsFit_last hj]
      refine ⟨fun h => ?_, hLeaves⟩
      rcases hFits h with ⟨rows', hRun, hLow, hFilled⟩
      exact ⟨rows', hRun, hLow, hFilled,
        fun i hi => absurd hi (Nat.not_lt_zero i)⟩
  | @more seg text next segs hSeg hRest ih =>
      rw [rowsFit_more, List.append_assoc, List.cons_append]
      by_cases hIn : j < maxPathDepth ∧
          (slashRow j seg).length < rowLen
      · rcases splitLoop_row hSeg hIn.1 hIn.2
          (text ++ 0 :: rest) last rows with
          ⟨rows₁, hRow, hOther, hShows⟩
        rw [hRow]
        have hNext : j + 1 ≤ maxPathDepth := hIn.1
        rcases ih hNext (fun _ => rfl) rows₁ with
          ⟨hFits, hLeaves⟩
        refine ⟨?_, fun hNot =>
          hLeaves fun h => hNot ⟨hIn.2, h⟩⟩
        rintro ⟨-, hFit⟩
        rcases hFits hFit with ⟨rows', hRun, hFilled⟩
        refine ⟨rows', ?_, hFilled.more hIn.2 hOther hShows⟩
        rw [hRun, rowCount_cons_cons, Nat.add_assoc,
          Nat.add_comm 1]
      · have hNone := splitLoop_row_leaves hSeg hIn
          (text ++ 0 :: rest) last rows
        rw [hNone, Option.bind_none]
        refine ⟨?_, fun _ => rfl⟩
        rintro ⟨hLen, hFit⟩
        have hDepth := hFit.depth
        exact absurd ⟨by omega, hLen⟩ hIn

------------------------------------------------------------
-- Paths That Fit
------------------------------------------------------------

/- The path is not empty and its segments fit the rows. -/
structure TextFits
    (text : List UInt8) : Prop where
  ne_nil : text ≠ []
  rows : RowsFit 0 (text.splitOn slash)

theorem textFits_iff
    (text : List UInt8) :
    TextFits text ↔
      text ≠ [] ∧ RowsFit 0 (text.splitOn slash) :=
  ⟨fun h => ⟨h.ne_nil, h.rows⟩,
    fun ⟨hNe, hRows⟩ => ⟨hNe, hRows⟩⟩

instance
    (text : List UInt8) :
    Decidable (TextFits text) :=
  decidable_of_iff _ (textFits_iff text).symm

section

variable {path : List UInt8} (hPath : Terminated path)
include hPath

/- A path that fits is split inside the rows. -/
theorem splitInside_shows
    (hFits : TextFits (cString path))
    (rows : UnpackedPath) :
    ∃ rows', splitInside path rows =
        some (UInt16.ofNat (rowCount
          ((cString path).splitOn slash)), rows') ∧
      ∀ i (hi : i < (slashRows 0
          ((cString path).splitOn slash)).length),
        rows'.ShowsText (i * rowLen)
          (slashRows 0 ((cString path).splitOn slash))[i] := by
  rcases terminated_split hPath with ⟨rest, hSplit⟩
  have hText : ∀ c ∈ cString path, c ≠ 0 :=
    fun c hc => ne_zero_of_mem_cString hc
  have hFirst : cString path = [] →
      (none : Option UInt8) = some slash :=
    fun hNil => absurd hNil hFits.ne_nil
  have hRun := (segmented_splitOn hText).split
    (Nat.zero_le _) hFirst rest rows
  rw [← hSplit] at hRun
  rcases hRun.1 hFits.rows with ⟨rows', hRun, -, -, hShows⟩
  simp only [Nat.zero_add] at hRun hShows
  exact ⟨rows', hRun, hShows⟩

/- The splitter stays inside exactly on paths that fit. -/
theorem splitInside_isSome_iff
    (rows : UnpackedPath) :
    (splitInside path rows).isSome ↔
      TextFits (cString path) := by
  constructor
  · intro hSome
    rcases terminated_split hPath with ⟨rest, hSplit⟩
    have hText : ∀ c ∈ cString path, c ≠ 0 :=
      fun c hc => ne_zero_of_mem_cString hc
    have hNe : cString path ≠ [] := by
      intro hNil
      rw [hSplit, hNil] at hSome
      cases hSome
    refine ⟨hNe, ?_⟩
    by_contra hNot
    have hFirst : cString path = [] →
        (none : Option UInt8) = some slash :=
      fun hNil => absurd hNil hNe
    have hRun := ((segmented_splitOn hText).split
      (Nat.zero_le _) hFirst rest rows).2 hNot
    rw [← hSplit] at hRun
    rw [splitInside, hRun] at hSome
    cases hSome
  · intro hFits
    rcases splitInside_shows hPath hFits rows with
      ⟨rows', hRun, -⟩
    rw [hRun]
    rfl

end

end

end Ext2

end Ester
