import Mathlib.Algebra.GroupWithZero.Nat
import Ester.Drivers.Vga.Screen

/-
  Lines of text on the screen.

  A newline goes to the row behind that of the cell before
  the pointer.  At the start of a row that cell belongs to
  the row above, so a newline printed there does not move.
  Printing a text puts every line at the start of its row
  exactly when no line between the first and the last is
  blank.

  Key definitions include:
    * `nextCell`
    * `rowsOf`, `totalRows`
    * `StartsRows`

  Key theorems include:
    * `txtAddr_vgaPrintChar`
    * `nextCell_newline_iff`
    * `startsRows_iff`
-/

------------------------------------------------------------
-- The Pointer
------------------------------------------------------------

namespace Ester

namespace Vga

/- Where a character moves the pointer. -/
def nextCell
    (p : Nat)
    (c : UInt8) : Nat :=
  if c = 10 then ((p - 1) / vgaTxtWidth + 1) * vgaTxtWidth
  else if p = screenCells then 1921
  else p + 1

theorem txtAddr_vgaPrintChar
    {s : Device}
    (h : s.txtAddr ≤ screenCells)
    (c background foreground : UInt8) :
    (vgaPrintChar c background foreground s).txtAddr =
      nextCell s.txtAddr c := by
  change (putChar c background foreground s).txtAddr = _
  unfold nextCell
  by_cases hChar : c = 10
  · rw [if_pos hChar, putChar, if_pos hChar,
      Device.goto_txtAddr, toNat_currentLine h]
  · rw [if_neg hChar]
    have hPrinted := printed_putChar hChar background
      foreground h
    split
    · next hFull => exact (hPrinted.full hFull).2.2.2.2
    · next hNot =>
        exact (hPrinted.below
          (Nat.lt_of_le_of_ne h hNot)).2

theorem nextCell_le
    {p : Nat}
    (h : p ≤ screenCells)
    (c : UInt8) :
    nextCell p c ≤ screenCells := by
  unfold nextCell
  simp only [screenCells, vgaTxtWidth, vgaTxtHeight] at h ⊢
  split
  · omega
  · split <;> omega

/- The characters of a text, one call after the other. -/
def printChars
    (background foreground : UInt8)
    (text : List UInt8)
    (s : Device) : Device :=
  text.foldl
    (fun s c => vgaPrintChar c background foreground s) s

theorem txtAddr_printChars
    {s : Device}
    (h : s.txtAddr ≤ screenCells)
    (background foreground : UInt8)
    (text : List UInt8) :
    (printChars background foreground text s).txtAddr =
      text.foldl nextCell s.txtAddr := by
  induction text generalizing s with
  | nil => rfl
  | cons c text ih =>
      have hNext := txtAddr_vgaPrintChar h c background
        foreground
      change (printChars background foreground text
        (vgaPrintChar c background foreground s)).txtAddr = _
      rw [ih (hNext ▸ nextCell_le h c), hNext]
      rfl

------------------------------------------------------------
-- One Line
------------------------------------------------------------

/- The rows that a line takes; a blank one takes a row. -/
def rowsOf
    (line : List UInt8) : Nat :=
  max 1 ((line.length + 79) / vgaTxtWidth)

/- A line that ends on the screen moves on by its length. -/
theorem foldl_nextCell
    {line : List UInt8}
    (hLine : 10 ∉ line)
    {p : Nat}
    (hEnd : p + line.length ≤ screenCells) :
    line.foldl nextCell p = p + line.length := by
  induction line generalizing p with
  | nil => rfl
  | cons c line ih =>
      rw [List.mem_cons, not_or] at hLine
      rw [List.length_cons] at hEnd ⊢
      have hStep : nextCell p c = p + 1 := by
        unfold nextCell
        rw [if_neg (Ne.symm hLine.1), if_neg (by omega)]
      rw [List.foldl_cons, hStep, ih hLine.2 (by omega)]
      omega

/-
  Behind a line that started a row, a newline goes to the
  row behind the line's rows, unless the line is blank and
  the row is not the first one.
-/
theorem nextCell_newline_iff
    (line : List UInt8)
    (row : Nat) :
    nextCell (vgaTxtWidth * row + line.length) 10 =
        vgaTxtWidth * (row + rowsOf line) ↔
      line ≠ [] ∨ row = 0 := by
  have hBlank : line = [] ↔ line.length = 0 :=
    List.length_eq_zero_iff.symm
  unfold nextCell rowsOf
  rw [if_pos rfl, ne_eq, hBlank]
  simp only [vgaTxtWidth]
  omega

theorem line_fits
    {line : List UInt8}
    {row : Nat}
    (h : row + rowsOf line ≤ vgaTxtHeight) :
    vgaTxtWidth * row + line.length ≤ screenCells := by
  unfold rowsOf at h
  simp only [screenCells, vgaTxtWidth, vgaTxtHeight] at h ⊢
  omega

------------------------------------------------------------
-- Lines of a Text
------------------------------------------------------------

/- The rows that some lines take together. -/
def totalRows
    (lines : List (List UInt8)) : Nat :=
  (lines.map rowsOf).sum

/- The first lines, each with its newline. -/
def linesBefore
    (lines : List (List UInt8))
    (i : Nat) : List UInt8 :=
  (lines.take i).flatMap fun line => line ++ [10]

/- A newline starts a new line, others extend the first. -/
theorem splitOn_cons
    (c : UInt8)
    (text : List UInt8) :
    (c :: text).splitOn 10 =
      if c = 10 then [] :: text.splitOn 10
      else (text.splitOn 10).modifyHead (c :: ·) := by
  simpa using
    List.splitOn_cons_eq_if_modifyHead (a := 10) c text

/- Lines hold no newline. -/
theorem not_mem_of_mem_splitOn
    {text line : List UInt8}
    (h : line ∈ text.splitOn 10) :
    10 ∉ line := by
  induction text generalizing line with
  | nil =>
      rw [List.splitOn_nil, List.mem_singleton] at h
      rw [h]
      exact List.not_mem_nil
  | cons c text ih =>
      rw [splitOn_cons] at h
      split at h
      · rcases List.mem_cons.mp h with rfl | hTail
        · exact List.not_mem_nil
        · exact ih hTail
      · next hChar =>
          cases hLines : text.splitOn 10 with
          | nil => exact absurd hLines (List.splitOn_ne_nil 10 text)
          | cons first rest =>
              rw [hLines] at h ih
              rcases List.mem_cons.mp h with rfl | hTail
              · rw [List.mem_cons, not_or]
                exact ⟨Ne.symm hChar,
                  ih List.mem_cons_self⟩
              · exact ih (List.mem_cons_of_mem _ hTail)

------------------------------------------------------------
-- Where Lines Start
------------------------------------------------------------

/-
  From a row on, each line starts its row: the rows before
  it are those of the lines before it.
-/
def StartsFrom
    (row : Nat)
    (lines : List (List UInt8)) : Prop :=
  ∀ i < lines.length,
    (linesBefore lines i).foldl nextCell (vgaTxtWidth * row) =
      vgaTxtWidth * (row + totalRows (lines.take i))

/- No line but the first and the last is blank. -/
def NoBlankLine
    (lines : List (List UInt8)) : Prop :=
  ∀ i, 0 < i → i + 1 < lines.length → lines[i]? ≠ some []

/-
  Between its first and its last line: a text may start at
  the top of the screen with a blank one.
-/
def NoBlankFrom
    (row : Nat)
    (lines : List (List UInt8)) : Prop :=
  ∀ i, 0 < i + row → i + 1 < lines.length →
    lines[i]? ≠ some []

theorem noBlankFrom_cons
    (row : Nat)
    (line next : List UInt8)
    (rest : List (List UInt8))
    {row' : Nat}
    (hRow : 0 < row') :
    NoBlankFrom row (line :: next :: rest) ↔
      (line ≠ [] ∨ row = 0) ∧
        NoBlankFrom row' (next :: rest) := by
  unfold NoBlankFrom
  constructor
  · intro h
    refine ⟨?_, fun i _ hi => ?_⟩
    · by_cases hZero : row = 0
      · exact .inr hZero
      · refine .inl fun hBlank => ?_
        exact h 0 (by omega) (by simp) (by simp [hBlank])
    · exact h (i + 1) (by omega) (by simpa using hi)
  · rintro ⟨hFirst, hRest⟩ i hPos hi
    cases i with
    | zero =>
        have hLine : line ≠ [] :=
          hFirst.resolve_right (by omega)
        simpa using hLine
    | succ i =>
        exact hRest i (by omega) (by simpa using hi)

/- Printing a line with its newline from the start of a row. -/
theorem foldl_line
    {line : List UInt8}
    (hLine : 10 ∉ line)
    {row : Nat}
    (hFits : row + rowsOf line ≤ vgaTxtHeight) :
    (line ++ [10]).foldl nextCell (vgaTxtWidth * row) =
      nextCell (vgaTxtWidth * row + line.length) 10 := by
  rw [List.foldl_append, foldl_nextCell hLine (line_fits hFits)]
  rfl

/- Lines start their rows when none in between is blank. -/
theorem startsFrom_iff
    {row : Nat}
    {lines : List (List UInt8)}
    (hLines : ∀ line ∈ lines, 10 ∉ line)
    (hFits : row + totalRows lines ≤ vgaTxtHeight) :
    StartsFrom row lines ↔ NoBlankFrom row lines := by
  induction lines generalizing row with
  | nil =>
      exact iff_of_true (fun i hi => absurd hi (by simp))
        (fun i _ hi => absurd hi (by simp))
  | cons line rest ih =>
      have hSum : totalRows (line :: rest) =
          rowsOf line + totalRows rest := List.sum_cons
      have hPos : 0 < rowsOf line := Nat.le_max_left 1 _
      rw [List.forall_mem_cons] at hLines
      have hFirst := foldl_line hLines.1
        (show row + rowsOf line ≤ vgaTxtHeight by omega)
      have hNewline := nextCell_newline_iff line row
      cases rest with
      | nil =>
          refine iff_of_true ?_
            (fun i _ hi => absurd hi (by simp))
          intro i hi
          have hZero : i = 0 := by simpa using hi
          subst hZero
          rfl
      | cons next rest =>
          rw [noBlankFrom_cons row line next rest
            (show 0 < row + rowsOf line by omega),
            ← ih hLines.2 (by omega), ← hNewline]
          have hNext : ∀ i,
              (linesBefore (line :: next :: rest)
                (i + 1)).foldl nextCell (vgaTxtWidth * row) =
              (linesBefore (next :: rest) i).foldl nextCell
                (nextCell
                  (vgaTxtWidth * row + line.length) 10) := by
            intro i
            rw [← hFirst, ← List.foldl_append]
            rfl
          have hRows : ∀ i, row + totalRows
              ((line :: next :: rest).take (i + 1)) =
              row + rowsOf line +
                totalRows ((next :: rest).take i) := by
            intro i
            rw [Nat.add_assoc]
            exact congrArg (row + ·) List.sum_cons
          constructor
          · intro h
            have hMoves :
                nextCell (vgaTxtWidth * row + line.length)
                  10 = vgaTxtWidth * (row + rowsOf line) := by
              have hSecond := h 1 (by simp)
              rw [hNext 0, hRows 0] at hSecond
              exact hSecond
            refine ⟨hMoves, fun i hi => ?_⟩
            have hLater := h (i + 1) (by simpa using hi)
            rwa [hNext, hRows, hMoves] at hLater
          · rintro ⟨hMoves, h⟩ i hi
            cases i with
            | zero => rfl
            | succ i =>
                rw [hNext, hRows, hMoves]
                exact h i (by simpa using hi)

/-
  Printed on a fresh screen, each line of a text starts at
  the first column of the row behind those before it.
-/
def StartsRows
    (background foreground : UInt8)
    (text : List UInt8)
    (s : Device) : Prop :=
  ∀ i < (text.splitOn 10).length,
    (printChars background foreground
        (linesBefore (text.splitOn 10) i) s).txtAddr =
      vgaTxtWidth * totalRows ((text.splitOn 10).take i)

/-
  On a text of 25 rows at most this is so exactly when no
  line between the first and the last one is blank.
-/
theorem startsRows_iff
    {s : Device}
    (hStart : s.txtAddr = 0)
    (background foreground : UInt8)
    {text : List UInt8}
    (hRows : totalRows (text.splitOn 10) ≤ 25) :
    StartsRows background foreground text s ↔
      NoBlankLine (text.splitOn 10) := by
  have hFrom := @startsFrom_iff 0 (text.splitOn 10)
    (fun line hMem => not_mem_of_mem_splitOn hMem)
    (by rwa [Nat.zero_add])
  have hLe : s.txtAddr ≤ screenCells := by
    rw [hStart]
    exact Nat.zero_le _
  unfold StartsFrom at hFrom
  unfold StartsRows
  simp only [txtAddr_printChars hLe, hStart]
  simpa [NoBlankFrom, NoBlankLine] using hFrom

/- The start of a screen. -/
def freshScreen : Device :=
  ⟨fun _ => blank, 0, []⟩

/- Two newlines in a row: the second one does not move. -/
theorem startsRows_blank :
    totalRows (([10, 10] : List UInt8).splitOn 10) ≤ 25 ∧
      ¬ StartsRows black white [10, 10] freshScreen := by
  refine ⟨by decide, fun h => ?_⟩
  have hLast := h 2 (by decide)
  rw [txtAddr_printChars (by decide)] at hLast
  exact absurd hLast (by decide)

/- Two lines with a newline before and between them. -/
theorem startsRows_plain :
    StartsRows black white [10, 65, 10, 66] freshScreen :=
  (startsRows_iff rfl black white (by decide)).mpr (by
    intro i hPos hi
    change i + 1 < 3 at hi
    have hOne : i = 1 := by omega
    subst hOne
    decide)

end Vga

end Ester
