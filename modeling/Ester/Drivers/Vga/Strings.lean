import Ester.Drivers.Vga.Rows
import Ester.Library.Loop

/-
  Printing a string at once and character by character.

  `vga_print` has the body of `vga_print_char` in its loop,
  with the line and the column carried along, and sets the
  hardware cursor once at the end.  Screen, pointer and the
  controller of the hardware cursor are left the same by
  both.

  Key definitions include:
    * `vgaPrintRound`
    * `Crtc`, `crtcAfter`

  Key theorems include:
    * `loop_vgaPrintRound`
    * `crtcAfter_printChars`
    * `vgaPrint_eq_chars`
-/

------------------------------------------------------------
-- The Loop of a String
------------------------------------------------------------

namespace Ester

namespace Vga

/- The variables of `vga_print` and the device. -/
structure PrintState where
  i : UInt16
  cLine : UInt16
  cColumn : UInt16
  device : Device

/- One round of the loop of `vga_print`, or its end. -/
def vgaPrintRound
    (txt : Nat → UInt8)
    (background foreground : UInt8)
    (s : PrintState) : Option (Round PrintState Device) :=
  let c := txt s.i.toNat
  let p := s.device.txtAddr
  if c ≠ 0 then
    let cLine :=
      if p = 0 then UInt16.ofNat (2 * p / (vgaTxtWidth * 2))
      else UInt16.ofNat (2 * (p - 1) / (vgaTxtWidth * 2))
    if c = 10 then
      some (.again
        { i := s.i + 1
          cLine := cLine
          cColumn := s.cColumn
          device :=
            s.device.goto ((cLine.toNat + 1) * vgaTxtWidth) })
    else
      let cColumn := UInt16.ofNat (2 * p / (vgaTxtHeight * 2))
      let device :=
        if 24 ≤ cLine ∧ cColumn = 80 then scroll s.device
        else s.device
      some (.again
        { i := s.i + 1
          cLine := cLine
          cColumn := cColumn
          device :=
            (printC c background foreground device).advance })
  else some (.done (showCursor s.device))

/- A round that goes on prints one character. -/
theorem vgaPrintRound_putChar
    {txt : Nat → UInt8}
    {s : PrintState}
    (hChar : txt s.i.toNat ≠ 0)
    (background foreground : UInt8) :
    ∃ t, vgaPrintRound txt background foreground s =
        some (.again t) ∧
      t.i = s.i + 1 ∧
      t.device = putChar (txt s.i.toNat) background foreground
        s.device := by
  have hEnd :
      (24 ≤ currentLine s.device ∧
        UInt16.ofNat (2 * s.device.txtAddr /
          (vgaTxtHeight * 2)) = 80) ↔
      atEnd s.device = true := by
    rw [atEnd, Bool.and_eq_true, decide_eq_true_eq,
      beq_iff_eq]
  by_cases hNewline : txt s.i.toNat = 10
  · have hPut : putChar (txt s.i.toNat) background foreground
        s.device = s.device.goto
          (((currentLine s.device).toNat + 1) *
            vgaTxtWidth) := if_pos hNewline
    rw [hPut]
    exact ⟨⟨s.i + 1, currentLine s.device, s.cColumn, _⟩,
      (if_pos hChar).trans (if_pos hNewline), rfl, rfl⟩
  · have hPut : putChar (txt s.i.toNat) background foreground
        s.device = (printC (txt s.i.toNat) background foreground
          (if atEnd s.device then scroll s.device
            else s.device)).advance := if_neg hNewline
    rw [hPut]
    simp only [← hEnd]
    exact ⟨⟨s.i + 1, currentLine s.device, UInt16.ofNat
        (2 * s.device.txtAddr / (vgaTxtHeight * 2)), _⟩,
      (if_pos hChar).trans (if_neg hNewline), rfl, rfl⟩

/- The loop is that of the shared body, cursor included. -/
theorem loop_vgaPrintRound
    (txt : Nat → UInt8)
    (background foreground : UInt8)
    (rounds : Nat)
    (s : PrintState) :
    loop (vgaPrintRound txt background foreground) rounds s =
      let out :=
        printLoop txt background foreground rounds s.i s.device
      if out.2 then some (showCursor out.1) else none := by
  induction rounds generalizing s with
  | zero => rfl
  | succ rounds ih =>
      rw [printLoop]
      by_cases hChar : txt s.i.toNat = 0
      · have hDone :
            vgaPrintRound txt background foreground s =
              some (.done (showCursor s.device)) :=
          if_neg (not_not_intro hChar)
        rw [loop_done rounds hDone, if_pos hChar]
        rfl
      · rcases vgaPrintRound_putChar hChar background foreground
          with ⟨t, hAgain, hIndex, hDevice⟩
        rw [loop_again rounds hAgain, ih, if_neg hChar, hIndex,
          hDevice]

------------------------------------------------------------
-- Cells and Pointer
------------------------------------------------------------

/- Two devices show the same and point to the same cell. -/
structure SameScreen
    (s t : Device) : Prop where
  cells : s.cells = t.cells
  pointer : s.txtAddr = t.txtAddr

theorem SameScreen.scroll
    {s t : Device}
    (h : SameScreen s t) :
    SameScreen (Vga.scroll s) (Vga.scroll t) where
  cells := by
    rw [(scroll_eq s).1, (scroll_eq t).1, h.cells]
  pointer := by
    rw [(scroll_eq s).2.1, (scroll_eq t).2.1]

theorem SameScreen.printed
    {s t : Device}
    (h : SameScreen s t)
    (c background foreground : UInt8) :
    SameScreen (printC c background foreground s).advance
      (printC c background foreground t).advance where
  cells := by
    change Function.update s.cells s.txtAddr _ =
      Function.update t.cells t.txtAddr _
    rw [h.cells, h.pointer]
  pointer := congrArg (· + 1) h.pointer

/- A character does the same to both. -/
theorem SameScreen.putChar
    {s t : Device}
    (h : SameScreen s t)
    (c background foreground : UInt8) :
    SameScreen (Vga.putChar c background foreground s)
      (Vga.putChar c background foreground t) := by
  have hLine : currentLine s = currentLine t := by
    unfold currentLine
    rw [h.pointer]
  have hEnd : atEnd s = atEnd t := by
    unfold atEnd
    rw [hLine, h.pointer]
  unfold Vga.putChar
  by_cases hNewline : c = 10
  · rw [if_pos hNewline, if_pos hNewline, hLine]
    exact ⟨h.cells, rfl⟩
  · rw [if_neg hNewline, if_neg hNewline, hEnd]
    split
    · exact h.scroll.printed c background foreground
    · exact h.printed c background foreground

/- Setting the cursor in between changes neither. -/
theorem sameScreen_printChars
    (background foreground : UInt8)
    (text : List UInt8)
    {s t : Device}
    (h : SameScreen s t) :
    SameScreen
      (text.foldl
        (fun s c => putChar c background foreground s) s)
      (printChars background foreground text t) := by
  induction text generalizing s t with
  | nil => exact h
  | cons c text ih =>
      have hNext := h.putChar c background foreground
      exact ih ⟨hNext.cells, hNext.pointer⟩

------------------------------------------------------------
-- The Hardware Cursor
------------------------------------------------------------

/-
  The display controller: port 0x3D4 selects a register, and
  port 0x3D5 sets the one that is selected.
-/
structure Crtc where
  index : UInt8
  regs : UInt8 → UInt8

/- What one effect of the driver does to the controller. -/
def Crtc.after
    (k : Crtc) : Effect → Crtc
  | .store _ _ => k
  | .outb port v =>
      if port = 0x3D4 then { k with index := v }
      else if port = 0x3D5 then
        { k with regs := Function.update k.regs k.index v }
      else k

/- The controller after effects, the latest first. -/
def crtcAfter
    (k : Crtc)
    (effects : List Effect) : Crtc :=
  effects.foldr (fun e k => k.after e) k

/- The controller with a position sent to it. -/
def Crtc.setCursor
    (pos : UInt16)
    (k : Crtc) : Crtc where
  index := 0x0E
  regs := Function.update
    (Function.update k.regs 0x0F (pos &&& 0xFF).toUInt8)
    0x0E ((pos >>> 8) &&& 0xFF).toUInt8

/- The position that is sent for a pointer. -/
def cursorPos
    (p : Nat) : UInt16 :=
  let y := UInt16.ofNat (2 * p / (vgaTxtWidth * 2))
  let x := UInt16.ofNat (2 * p / 2) - y * 80
  y * 80 + x

theorem crtcAfter_showCursor
    (k : Crtc)
    (s : Device) :
    crtcAfter k (showCursor s).effects =
      (crtcAfter k s.effects).setCursor
        (cursorPos s.txtAddr) := rfl

/- Of two positions the later one counts. -/
theorem Crtc.setCursor_setCursor
    (k : Crtc)
    (p q : UInt16) :
    (k.setCursor p).setCursor q = k.setCursor q := by
  unfold setCursor
  congr 1
  funext r
  simp only [Function.update_apply]
  split
  · rfl
  · split <;> rfl

theorem crtcAfter_clearCells
    (k : Crtc)
    (left : Nat)
    (s : Device) :
    crtcAfter k (clearCells left s).effects =
      crtcAfter k s.effects := by
  induction left generalizing s with
  | zero => rfl
  | succ left ih => exact ih _

theorem crtcAfter_copyCells
    (k : Crtc)
    (left tmp : Nat)
    (s : Device) :
    crtcAfter k (copyCells left tmp s).effects =
      crtcAfter k s.effects := by
  induction left generalizing tmp s with
  | zero => rfl
  | succ left ih => exact ih _ _

theorem crtcAfter_scroll
    (k : Crtc)
    (s : Device) :
    crtcAfter k (scroll s).effects =
      crtcAfter k s.effects := by
  have hGoto : ∀ (t : Device) (p : Nat),
      (t.goto p).effects = t.effects := fun _ _ => rfl
  unfold scroll clearLine
  simp only [hGoto, crtcAfter_clearCells, crtcAfter_copyCells]

/- A character sends nothing to the controller. -/
theorem crtcAfter_putChar
    (k : Crtc)
    (c background foreground : UInt8)
    (s : Device) :
    crtcAfter k (putChar c background foreground s).effects =
      crtcAfter k s.effects := by
  unfold putChar
  split
  · rfl
  · change crtcAfter k (if atEnd s = true then scroll s
      else s).effects = _
    split
    · exact crtcAfter_scroll k s
    · rfl

theorem crtcAfter_putChars
    (k : Crtc)
    (background foreground : UInt8)
    (text : List UInt8)
    (s : Device) :
    crtcAfter k (text.foldl
      (fun s c => putChar c background foreground s)
      s).effects = crtcAfter k s.effects := by
  induction text generalizing s with
  | nil => rfl
  | cons c text ih =>
      exact (ih _).trans (crtcAfter_putChar ..)

/- Only the last character's position is left. -/
theorem crtcAfter_printChars
    (k : Crtc)
    (background foreground : UInt8)
    {text : List UInt8}
    (hText : text ≠ [])
    (s : Device) :
    crtcAfter k
        (printChars background foreground text s).effects =
      (crtcAfter k s.effects).setCursor (cursorPos
        (printChars background foreground text s).txtAddr) := by
  induction text generalizing s with
  | nil => exact absurd rfl hText
  | cons c text ih =>
      have hFirst :
          crtcAfter k
              (vgaPrintChar c background foreground s).effects =
            (crtcAfter k s.effects).setCursor (cursorPos
              (vgaPrintChar c background foreground
                s).txtAddr) := by
        unfold vgaPrintChar
        rw [crtcAfter_showCursor, crtcAfter_putChar]
        rfl
      cases text with
      | nil => exact hFirst
      | cons d text =>
          have hRest := ih (List.cons_ne_nil d text)
            (vgaPrintChar c background foreground s)
          rw [hFirst, Crtc.setCursor_setCursor] at hRest
          exact hRest

------------------------------------------------------------
-- Strings
------------------------------------------------------------

/- The characters of a text by their indices. -/
theorem foldl_range_text
    {txt : Nat → UInt8}
    {text : List UInt8}
    (hText : ∀ j (hj : j < text.length), txt j = text[j])
    (f : Device → UInt8 → Device)
    (s : Device) :
    (List.range' 0 text.length).foldl (fun s j => f s (txt j))
      s = text.foldl f s := by
  have hMap : (List.range' 0 text.length).map txt = text := by
    refine List.ext_getElem (by simp) fun j h1 h2 => ?_
    rw [List.getElem_map, List.getElem_range', Nat.zero_add,
      Nat.one_mul]
    exact hText j h2
  conv => rhs; rw [← hMap]
  exact (List.foldl_map ..).symm

/-
  A text that is not empty and ends below 2^16 bytes leaves
  the screen, the pointer and the display controller as its
  characters one by one do, from every state.
-/
theorem vgaPrint_eq_chars
    {txt : Nat → UInt8}
    {text : List UInt8}
    (hShows : ∀ j (hj : j < text.length), txt j = text[j])
    (hEnd : txt text.length = 0)
    (hChars : ∀ c ∈ text, c ≠ 0)
    (hText : text ≠ [])
    (hShort : text.length < UInt16.size)
    (background foreground : UInt8)
    (s : Device)
    {rounds : Nat}
    (hRounds : text.length < rounds) :
    ∃ out,
      loop (vgaPrintRound txt background foreground) rounds
        ⟨0, 0, 0, s⟩ = some out ∧
      out.cells =
        (printChars background foreground text s).cells ∧
      out.txtAddr =
        (printChars background foreground text s).txtAddr ∧
      ∀ k, crtcAfter k out.effects = crtcAfter k
        (printChars background foreground text s).effects := by
  have hLoop := @printLoop_eq txt background foreground rounds
    0 text.length s
    (fun j hj => by
      rw [Nat.zero_add, hShows j hj]
      exact hChars _ (List.getElem_mem hj))
    (by rwa [Nat.zero_add])
    (by rwa [Nat.zero_add]) hRounds
  rw [foldl_range_text hShows
    (fun s c => putChar c background foreground s)] at hLoop
  have hSame := sameScreen_printChars background foreground
    text (SameScreen.mk (s := s) rfl rfl)
  refine ⟨showCursor (text.foldl
    (fun s c => putChar c background foreground s) s), ?_,
    hSame.cells, hSame.pointer, fun k => ?_⟩
  · rw [loop_vgaPrintRound]
    dsimp only
    rw [show (0 : UInt16) = UInt16.ofNat 0 from rfl, hLoop]
    rfl
  · rw [crtcAfter_showCursor, crtcAfter_putChars,
      crtcAfter_printChars k background foreground hText]
    exact congrArg
      (fun p => (crtcAfter k s.effects).setCursor (cursorPos p))
      hSame.pointer

/- Two lines of a letter each on a fresh screen. -/
theorem vgaPrint_eq_chars_sample :
    ∃ out,
      loop (vgaPrintRound (fun j => [65, 10, 66].getD j 0)
          black white) 4 ⟨0, 0, 0, freshScreen⟩ = some out ∧
        out.cells = (printChars black white [65, 10, 66]
          freshScreen).cells ∧
        out.txtAddr = (printChars black white [65, 10, 66]
          freshScreen).txtAddr ∧
        ∀ k, crtcAfter k out.effects =
          crtcAfter k (printChars black white [65, 10, 66]
            freshScreen).effects :=
  vgaPrint_eq_chars
    (fun _ _ => (List.getElem_eq_getD 0).symm) rfl (by simp)
    (by decide) (by decide) black white freshScreen (by decide)

end Vga

end Ester
