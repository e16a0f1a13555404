import Mathlib.Data.Nat.Find
import Ester.Drivers.Vga

/-
  What printing does to the text screen.

  A character goes to the cell of the pointer, and at the end
  of the screen the rows move up first.  The test for the end
  compares a quotient by the bytes of a column with the cells
  of a row; in every state that printing reaches it holds at
  the end of the screen and nowhere else, so no store leaves
  the screen.

  Key definitions include:
    * `Filled`
    * `Sound`
    * `Printed`
    * `Reached`

  Key theorems include:
    * `scroll_eq`
    * `atEnd_iff`
    * `printed_putChar`
    * `printLoop_eq`
    * `vgaPrint_returns_iff`
    * `vga_reached`
-/

namespace Ester

namespace Vga

------------------------------------------------------------
-- Clearing and Scrolling
------------------------------------------------------------

/- The cells of the screen. -/
abbrev screenCells : Nat :=
  vgaTxtWidth * vgaTxtHeight

/- Every store so far went to a cell of the screen. -/
def OnScreen
    (s : Device) : Prop :=
  ∀ k d, .store k d ∈ s.effects → k < screenCells

theorem OnScreen.store
    {s : Device}
    (h : OnScreen s)
    (d : UInt16)
    (hLt : s.txtAddr < screenCells) :
    OnScreen (s.store d) := by
  intro k d' hMem
  rcases List.mem_cons.mp hMem with hNew | hOld
  · cases hNew
    exact hLt
  · exact h k d' hOld

/- What a loop over `left` cells from the pointer on does. -/
structure Filled
    (cell : Nat → UInt16)
    (left : Nat)
    (s out : Device) : Prop where
  cells : ∀ j, out.cells j =
    if s.txtAddr ≤ j ∧ j < s.txtAddr + left then cell j
    else s.cells j
  pointer : out.txtAddr = s.txtAddr + left
  onScreen : OnScreen s → s.txtAddr + left ≤ screenCells →
    OnScreen out

theorem Filled.zero
    (cell : Nat → UInt16)
    (s : Device) :
    Filled cell 0 s s := by
  refine ⟨fun j => ?_, rfl, fun h _ => h⟩
  rw [if_neg (by omega)]

/- One round stores to the pointer and moves it on. -/
theorem Filled.succ
    {cell cell' : Nat → UInt16}
    {left : Nat}
    {s out : Device}
    (h : Filled cell' left (s.store (cell s.txtAddr)).advance out)
    (hSame : ∀ j, s.txtAddr < j → cell' j = cell j) :
    Filled cell (left + 1) s out := by
  refine ⟨fun j => ?_, ?_, fun hOn hLt => ?_⟩
  · rw [h.cells, Device.advance_txtAddr, Device.advance_cells,
      Device.store_txtAddr, Device.store_cells]
    by_cases hFirst : j = s.txtAddr
    · rw [if_neg (by omega), if_pos hFirst, if_pos (by omega),
        hFirst]
    · rw [if_neg hFirst]
      by_cases hIn : s.txtAddr + 1 ≤ j ∧
          j < s.txtAddr + 1 + left
      · rw [if_pos hIn, if_pos (by omega), hSame j (by omega)]
      · rw [if_neg hIn, if_neg (by omega)]
  · rw [h.pointer, Device.advance_txtAddr, Device.store_txtAddr]
    omega
  · apply h.onScreen (hOn.store _ (by omega))
    rw [Device.advance_txtAddr, Device.store_txtAddr]
    omega

theorem filled_clearCells
    (left : Nat)
    (s : Device) :
    Filled (fun _ => blank) left s (clearCells left s) := by
  induction left generalizing s with
  | zero => exact Filled.zero _ s
  | succ left ih => exact (ih _).succ fun _ _ => rfl

/- The cells ahead are not yet overwritten when copied. -/
theorem filled_copyCells
    {gap : Nat}
    (hGap : 0 < gap)
    (left : Nat)
    (s : Device) :
    Filled (fun j => s.cells (j + gap)) left s
      (copyCells left (s.txtAddr + gap) s) := by
  induction left generalizing s with
  | zero => exact Filled.zero _ s
  | succ left ih =>
      have hTmp : s.txtAddr + gap + 1 =
          (s.store (s.cells (s.txtAddr + gap))).advance.txtAddr +
            gap := by
        simp only [Device.advance_txtAddr, Device.store_txtAddr]
        omega
      rw [copyCells, hTmp]
      apply (ih _).succ
      intro j hj
      rw [Device.advance_cells, Device.store_cells,
        if_neg (by omega)]

/- The rows of the screen one row up, over a blank row. -/
def scrolled
    (cells : Nat → UInt16)
    (j : Nat) : UInt16 :=
  if j < 24 * vgaTxtWidth then cells (j + vgaTxtWidth)
  else if j < screenCells then blank
  else cells j

/- Clearing a line changes its cells and not the pointer. -/
theorem clearLine_eq
    (line : Nat)
    (s : Device) :
    (∀ j, (clearLine line s).cells j =
        if line * vgaTxtWidth ≤ j ∧
            j < line * vgaTxtWidth + vgaTxtWidth then blank
        else s.cells j) ∧
      (clearLine line s).txtAddr = s.txtAddr ∧
      (OnScreen s → line < vgaTxtHeight →
        OnScreen (clearLine line s)) := by
  have hClear := filled_clearCells vgaTxtWidth
    (s.goto (line * vgaTxtWidth))
  refine ⟨hClear.cells, rfl, fun h hLine => hClear.onScreen h ?_⟩
  change line * 80 + 80 ≤ 80 * 25
  change line < 25 at hLine
  omega

/- Scrolling moves the rows up and clears the last one. -/
theorem scroll_eq
    (s : Device) :
    (scroll s).cells = scrolled s.cells ∧
      (scroll s).txtAddr = 24 * vgaTxtWidth ∧
      (OnScreen s → OnScreen (scroll s)) := by
  have hCopy := filled_copyCells (show 0 < vgaTxtWidth by decide)
    (vgaTxtWidth * (vgaTxtHeight - 1)) (s.goto 0)
  have hLine := clearLine_eq (vgaTxtHeight - 1)
    (copyCells (vgaTxtWidth * (vgaTxtHeight - 1))
      ((s.goto 0).txtAddr + vgaTxtWidth) (s.goto 0))
  refine ⟨funext fun j => ?_, ?_, fun h => ?_⟩
  · rw [scroll, hLine.1, hCopy.cells, scrolled]
    simp only [Device.goto_txtAddr, Device.goto_cells,
      vgaTxtWidth, vgaTxtHeight, screenCells, Nat.zero_le,
      true_and, Nat.zero_add]
    by_cases hUp : j < 24 * 80
    · rw [if_neg (by omega), if_pos (by omega), if_pos hUp]
    · by_cases hLast : j < 80 * 25
      · rw [if_pos (by omega), if_neg hUp, if_pos hLast]
      · rw [if_neg (by omega), if_neg (by omega), if_neg hUp,
          if_neg hLast]
  · rw [scroll, hLine.2.1, hCopy.pointer, Device.goto_txtAddr]
    rfl
  · apply hLine.2.2 (hCopy.onScreen h _) (by decide)
    simp only [Device.goto_txtAddr, vgaTxtWidth, vgaTxtHeight,
      screenCells]
    omega

------------------------------------------------------------
-- One Character
------------------------------------------------------------

/- The pointer is on the screen or right behind it. -/
structure Sound
    (s : Device) : Prop where
  pointer : s.txtAddr ≤ screenCells
  onScreen : OnScreen s

/- The row of the cell before the pointer. -/
theorem toNat_currentLine
    {s : Device}
    (h : s.txtAddr ≤ screenCells) :
    (currentLine s).toNat = (s.txtAddr - 1) / vgaTxtWidth := by
  simp only [screenCells, vgaTxtWidth, vgaTxtHeight] at h
  rw [currentLine]
  split
  · next hZero =>
      rw [hZero]
      rfl
  · rw [UInt16.toNat_ofNat_of_lt' (by
      simp only [UInt16.size, vgaTxtWidth]
      omega)]
    simp only [vgaTxtWidth]
    omega

/- The test holds at the end of the screen only. -/
theorem atEnd_iff
    {s : Device}
    (h : s.txtAddr ≤ screenCells) :
    atEnd s = true ↔ s.txtAddr = screenCells := by
  have hLine := toNat_currentLine h
  simp only [screenCells, vgaTxtWidth, vgaTxtHeight] at h hLine ⊢
  have hColumn : (UInt16.ofNat (2 * s.txtAddr / (25 * 2))).toNat =
      s.txtAddr / 25 := by
    rw [UInt16.toNat_ofNat_of_lt' (by
      simp only [UInt16.size]
      omega)]
    omega
  rw [atEnd, Bool.and_eq_true, decide_eq_true_eq, beq_iff_eq,
    UInt16.le_iff_toNat_le, ← UInt16.toNat_inj, hLine, hColumn]
  simp only [UInt16.reduceToNat]
  omega

/- What a character that is not a newline does. -/
structure Printed
    (d : UInt16)
    (s out : Device) : Prop where
  below : s.txtAddr < screenCells →
    out.cells = Function.update s.cells s.txtAddr d ∧
      out.txtAddr = s.txtAddr + 1
  full : s.txtAddr = screenCells →
    (∀ row column, row < 24 → column < vgaTxtWidth →
      out.cells (row * vgaTxtWidth + column) =
        s.cells ((row + 1) * vgaTxtWidth + column)) ∧
    out.cells (24 * vgaTxtWidth) = d ∧
    (∀ column, 0 < column → column < vgaTxtWidth →
      out.cells (24 * vgaTxtWidth + column) = blank) ∧
    (∀ j, screenCells ≤ j → out.cells j = s.cells j) ∧
    out.txtAddr = 1921

theorem printed_putChar
    {c : UInt8}
    (hChar : c ≠ 10)
    (background foreground : UInt8)
    {s : Device}
    (h : s.txtAddr ≤ screenCells) :
    Printed (cellOf c background foreground) s
      (putChar c background foreground s) := by
  rw [putChar, if_neg hChar]
  constructor
  · intro hBelow
    have hNot : ¬ atEnd s = true := by
      rw [atEnd_iff h]
      omega
    rw [if_neg hNot]
    exact ⟨rfl, rfl⟩
  · intro hFull
    rw [if_pos ((atEnd_iff h).mpr hFull)]
    rcases scroll_eq s with ⟨hCells, hPointer, -⟩
    have hOut : ∀ j, (printC c background foreground
        (scroll s)).advance.cells j =
          if j = 24 * vgaTxtWidth then
            cellOf c background foreground
          else scrolled s.cells j := by
      intro j
      rw [Device.advance_cells, printC, Device.store_cells,
        hPointer, hCells]
    simp only [hOut, scrolled, screenCells, vgaTxtWidth,
      vgaTxtHeight]
    refine ⟨fun row column hRow hColumn => ?_, ?_,
      fun column hPos hColumn => ?_, fun j hj => ?_, ?_⟩
    · have hIdx : row * 80 + column + 80 =
          (row + 1) * 80 + column := by omega
      rw [if_neg (by omega), if_pos (by omega), hIdx]
    · rw [if_true]
    · rw [if_neg (by omega), if_neg (by omega),
        if_pos (by omega)]
    · rw [if_neg (by omega), if_neg (by omega),
        if_neg (by omega)]
    · rw [Device.advance_txtAddr, printC, Device.store_txtAddr,
        hPointer]
      rfl

/- A character keeps the state sound. -/
theorem Sound.putChar
    {s : Device}
    (h : Sound s)
    (c background foreground : UInt8) :
    Sound (Vga.putChar c background foreground s) := by
  by_cases hChar : c = 10
  · have hLine := toNat_currentLine h.pointer
    have hPointer := h.pointer
    rw [Vga.putChar, if_pos hChar]
    refine ⟨?_, h.onScreen⟩
    simp only [Device.goto_txtAddr, hLine, screenCells,
      vgaTxtWidth, vgaTxtHeight] at hPointer ⊢
    omega
  · rw [Vga.putChar, if_neg hChar]
    -- the cell that is stored to is one of the screen
    have hStore : ∀ t : Device, OnScreen t →
        t.txtAddr < screenCells →
          Sound (printC c background foreground t).advance :=
      fun t hOn hLt => ⟨hLt, hOn.store _ hLt⟩
    rcases Nat.lt_or_eq_of_le h.pointer with hBelow | hFull
    · rw [if_neg (by rw [atEnd_iff h.pointer]; omega)]
      exact hStore s h.onScreen hBelow
    · rw [if_pos ((atEnd_iff h.pointer).mpr hFull)]
      rcases scroll_eq s with ⟨-, hPointer, hOn⟩
      apply hStore _ (hOn h.onScreen)
      rw [hPointer]
      decide

------------------------------------------------------------
-- Calls
------------------------------------------------------------

/- The hardware cursor takes port outputs only. -/
theorem Sound.showCursor
    {s : Device}
    (h : Sound s) :
    Sound (Vga.showCursor s) := by
  refine ⟨h.pointer, fun k d hMem => h.onScreen k d ?_⟩
  simpa [Vga.showCursor, updateCursor, outb] using hMem

theorem Printed.showCursor
    {d : UInt16}
    {s out : Device}
    (h : Printed d s out) :
    Printed d s (Vga.showCursor out) :=
  ⟨h.below, h.full⟩

theorem Sound.printLoop
    {s : Device}
    (h : Sound s)
    (txt : Nat → UInt8)
    (background foreground : UInt8)
    (rounds : Nat)
    (i : UInt16) :
    Sound (Vga.printLoop txt background foreground rounds i
      s).1 := by
  induction rounds generalizing i s with
  | zero => exact h
  | succ rounds ih =>
      rw [Vga.printLoop]
      split
      · exact h
      · exact ih (h.putChar _ _ _) (i + 1)

theorem Sound.vgaPrint
    {s : Device}
    (h : Sound s)
    (txt : Nat → UInt8)
    (background foreground : UInt8)
    (rounds : Nat) :
    Sound (Vga.vgaPrint txt background foreground rounds
      s).1 := by
  have hLoop := h.printLoop txt background foreground rounds 0
  rw [Vga.vgaPrint]
  split
  · exact hLoop.showCursor
  · exact hLoop

/- A text that ends is printed up to its end. -/
theorem printLoop_eq
    {txt : Nat → UInt8}
    (background foreground : UInt8)
    {rounds : Nat}
    {i left : Nat}
    {s : Device}
    (hText : ∀ j, j < left → txt (i + j) ≠ 0)
    (hEnd : txt (i + left) = 0)
    (hShort : i + left < UInt16.size)
    (hRounds : left < rounds) :
    printLoop txt background foreground rounds (UInt16.ofNat i) s =
      ((List.range' i left).foldl
        (fun s j => putChar (txt j) background foreground s) s,
        true) := by
  induction left generalizing i s rounds with
  | zero =>
      cases rounds with
      | zero => omega
      | succ rounds =>
          rw [printLoop, UInt16.toNat_ofNat_of_lt' (by
            omega), if_pos (show txt i = 0 from hEnd)]
          rfl
  | succ left ih =>
      cases rounds with
      | zero => omega
      | succ rounds =>
          have hNext : UInt16.ofNat i + 1 =
              UInt16.ofNat (i + 1) := by
            rw [UInt16.ofNat_add]
            rfl
          have hRest := @ih rounds (i + 1)
            (putChar (txt i) background foreground s)
            (fun j hj => by
              have hByte := hText (j + 1) (by omega)
              rwa [← Nat.add_assoc, Nat.add_right_comm] at hByte)
            (by rwa [Nat.add_right_comm, Nat.add_assoc])
            (by omega) (by omega)
          rw [printLoop, UInt16.toNat_ofNat_of_lt' (by
            omega), if_neg (show txt i ≠ 0 from
              hText 0 (by omega)), hNext, hRest,
            List.range'_succ, List.foldl_cons]

/- Without an end in 2^16 bytes the loop goes on for ever. -/
theorem printLoop_not_ended
    {txt : Nat → UInt8}
    (hText : ∀ j, j < UInt16.size → txt j ≠ 0)
    (background foreground : UInt8)
    (rounds : Nat)
    (i : UInt16)
    (s : Device) :
    (printLoop txt background foreground rounds i s).2 =
      false := by
  induction rounds generalizing i s with
  | zero => rfl
  | succ rounds ih =>
      rw [printLoop, if_neg (hText _ i.toNat_lt)]
      exact ih (i + 1) _

/- A call returns exactly on texts of fewer than 2^16 bytes. -/
theorem vgaPrint_returns_iff
    (txt : Nat → UInt8)
    (background foreground : UInt8)
    (s : Device) :
    (∃ rounds, (vgaPrint txt background foreground rounds
        s).2 = true) ↔
      ∃ j, j < UInt16.size ∧ txt j = 0 := by
  constructor
  · rintro ⟨rounds, hReturns⟩
    by_contra hNone
    have hText : ∀ j, j < UInt16.size → txt j ≠ 0 :=
      fun j hj hByte => hNone ⟨j, hj, hByte⟩
    have hLoop := printLoop_not_ended hText background foreground
      rounds 0 s
    rw [vgaPrint, hLoop, if_neg Bool.false_ne_true, hLoop]
      at hReturns
    cases hReturns
  · intro hEnd
    classical
    have hFirst := Nat.find_spec hEnd
    refine ⟨Nat.find hEnd + 1, ?_⟩
    have hLoop := @printLoop_eq txt background foreground
      (Nat.find hEnd + 1) 0 (Nat.find hEnd) s
      (fun j hj hByte => Nat.find_min hEnd hj
        ⟨by omega, by rwa [Nat.zero_add] at hByte⟩)
      (by rw [Nat.zero_add]; exact hFirst.2)
      (by omega) (Nat.lt_succ_self _)
    rw [vgaPrint, show (0 : UInt16) = UInt16.ofNat 0 from rfl,
      hLoop, if_pos rfl]

------------------------------------------------------------
-- Reachable Screens
------------------------------------------------------------

/-
  The states that printing reaches from the first cell over
  any memory, calls of `vga_print` cut off after any number
  of rounds included.
-/
inductive Reached : Device → Prop where
  | start (cells : Nat → UInt16) : Reached ⟨cells, 0, []⟩
  | printChar
      {s : Device}
      (c background foreground : UInt8) :
      Reached s → Reached (vgaPrintChar c background foreground s)
  | print
      {s : Device}
      (txt : Nat → UInt8)
      (background foreground : UInt8)
      (rounds : Nat) :
      Reached s →
        Reached (vgaPrint txt background foreground rounds s).1

theorem Reached.sound
    {s : Device}
    (h : Reached s) :
    Sound s := by
  induction h with
  | start cells =>
      exact ⟨Nat.zero_le _, fun k d hMem =>
        absurd hMem List.not_mem_nil⟩
  | printChar c background foreground _ ih =>
      exact (ih.putChar c background foreground).showCursor
  | print txt background foreground rounds _ ih =>
      exact ih.vgaPrint txt background foreground rounds

/-
  In every reachable state the pointer is at cell 0 to 2000
  and no store went past the screen, and a character that is
  not a newline goes to the cell of the pointer, after the
  rows have moved up if the screen is full.
-/
theorem vga_reached
    {s : Device}
    (h : Reached s) :
    s.txtAddr ≤ 2000 ∧
      (∀ k d, .store k d ∈ s.effects → k < 2000) ∧
      ∀ c background foreground, c ≠ 10 →
        Printed (cellOf c background foreground) s
            (vgaPrintChar c background foreground s) ∧
          Printed (cellOf c background foreground) s
            (putChar c background foreground s) := by
  have hSound := h.sound
  refine ⟨hSound.pointer, hSound.onScreen,
    fun c background foreground hChar => ?_⟩
  have hPrinted := printed_putChar hChar background foreground
    hSound.pointer
  exact ⟨hPrinted.showCursor, hPrinted⟩

/- A screen that fills up reaches every pointer. -/
theorem exists_reached
    {n : Nat}
    (hLe : n ≤ screenCells) :
    ∃ s, Reached s ∧ s.txtAddr = n := by
  induction n with
  | zero => exact ⟨_, .start fun _ => 0, rfl⟩
  | succ n ih =>
      rcases ih (by omega) with ⟨s, hReached, hPointer⟩
      have hPrinted := printed_putChar
        (show (65 : UInt8) ≠ 10 by decide) 0 15
        (show s.txtAddr ≤ screenCells by omega)
      refine ⟨_, hReached.printChar 65 0 15, ?_⟩
      rw [← hPointer]
      exact (hPrinted.showCursor.below (by omega)).2

/- A full screen, where the next character moves the rows. -/
theorem vga_reached_full :
    ∃ s : Device, s.txtAddr = 2000 ∧
      s.txtAddr ≤ 2000 ∧
      (∀ k d, .store k d ∈ s.effects → k < 2000) ∧
      ∀ c background foreground, c ≠ 10 →
        Printed (cellOf c background foreground) s
            (vgaPrintChar c background foreground s) ∧
          Printed (cellOf c background foreground) s
            (putChar c background foreground s) := by
  rcases exists_reached (Nat.le_refl screenCells) with
    ⟨s, hReached, hPointer⟩
  exact ⟨s, hPointer, vga_reached hReached⟩

end Vga

end Ester
