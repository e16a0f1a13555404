import Mathlib.Data.List.GetD
import Ester.Drivers.Vga.Strings
import Ester.Library.PaperRoll

/-
  The text screen as a window over a roll of paper.

  The screen starts as the head of a roll.  Whatever calls
  print on it, what it shows are the last 25 rows of the roll
  with the letters of all calls typed on it, the pointer is
  at the roll's next cell, and the memory behind the screen
  stays.  The hardware cursor is at the pointer after every
  call.

  Key definitions include:
    * `Text`, `Call`
    * `Call.after`, `Call.keys`
    * `rollOf`

  Key theorems include:
    * `OnRoll.putChar`
    * `Call.after_onRoll`
    * `calls_on_roll`
-/

------------------------------------------------------------
-- Calls
------------------------------------------------------------

namespace Ester

namespace Vga

open PaperRoll

/- A string that `vga_print` comes to the end of. -/
structure Text where
  chars : List UInt8
  nonzero : ∀ c ∈ chars, c ≠ 0
  short : chars.length < UInt16.size

/- The bytes of a text in memory, with zeros behind them. -/
def Text.bytes
    (t : Text)
    (j : Nat) : UInt8 :=
  t.chars.getD j 0

/- The calls that print. -/
inductive Call where
  | char (c background foreground : UInt8)
  | text (t : Text) (background foreground : UInt8)

/- The device after a call. -/
def Call.after
    (s : Device) : Call → Device
  | .char c background foreground =>
      vgaPrintChar c background foreground s
  | .text t background foreground =>
      (vgaPrint t.bytes background foreground
        (t.chars.length + 1) s).1

/- What a character types. -/
def keyOf
    (background foreground c : UInt8) : Key UInt16 :=
  if c = 10 then .newline
  else .letter (cellOf c background foreground)

/- What a call types. -/
def Call.keys : Call → List (Key UInt16)
  | .char c background foreground =>
      [keyOf background foreground c]
  | .text t background foreground =>
      t.chars.map (keyOf background foreground)

/- The screen as the head of a roll. -/
def rollOf
    (s : Device) : Roll UInt16 where
  cells j := if j < screenCells then s.cells j else blank
  pos := s.txtAddr
  last := 0

theorem top_rollOf
    (s : Device) :
    (rollOf s).top vgaTxtWidth 24 = 0 := by
  unfold Roll.top rollOf
  rw [Nat.zero_div, Nat.zero_sub]

------------------------------------------------------------
-- One Character
------------------------------------------------------------

/- The last rows of a roll and the memory behind the screen. -/
structure OnRoll
    (behind : Nat → UInt16)
    (r : Roll UInt16)
    (s : Device) : Prop where
  window : Window vgaTxtWidth 24 blank r s.cells s.txtAddr
  behind : ∀ j, screenCells ≤ j → s.cells j = behind j

namespace OnRoll

variable {behind : Nat → UInt16} {r : Roll UInt16} {s : Device}

theorem start
    (h : s.txtAddr ≤ screenCells) :
    OnRoll s.cells (rollOf s) s where
  window := by
    constructor
    · intro j hj
      rw [top_rollOf, Nat.zero_mul, Nat.zero_add]
      exact (if_pos hj).symm
    · rw [top_rollOf, Nat.zero_mul, Nat.zero_add]
      rfl
    · exact h
    · intro k hk
      rw [top_rollOf, Nat.zero_mul, Nat.zero_add] at hk
      exact if_neg (Nat.not_lt.mpr hk)
    · intro hUp
      rw [top_rollOf] at hUp
      exact absurd hUp (Nat.lt_irrefl 0)
  behind _ _ := rfl

theorem inside
    (h : OnRoll behind r s) :
    s.txtAddr ≤ screenCells :=
  h.window.inside

theorem putChar
    (h : OnRoll behind r s)
    (background foreground c : UInt8) :
    OnRoll behind
      (r.type vgaTxtWidth (keyOf background foreground c))
      (Vga.putChar c background foreground s) := by
  have hWidth : 0 < vgaTxtWidth := by decide
  by_cases hChar : c = 10
  · have hLine := toNat_currentLine h.inside
    rw [Vga.putChar, if_pos hChar, keyOf, if_pos hChar, hLine]
    exact ⟨h.window.newline hWidth, h.behind⟩
  · have hPrinted := printed_putChar hChar background
      foreground h.inside
    rw [keyOf, if_neg hChar]
    rcases Nat.lt_or_eq_of_le h.inside with hBelow | hFull
    · rcases hPrinted.below hBelow with ⟨hCells, hNext⟩
      constructor
      · rw [hCells, hNext]
        exact h.window.letter hWidth hBelow _
      · intro j hj
        rw [hCells, Function.update_of_ne (by omega)]
        exact h.behind j hj
    · rcases hPrinted.full hFull with
        ⟨hUp, hLetter, hEmpty, hBehind, hNext⟩
      constructor
      · rw [hNext]
        refine h.window.scrolled hWidth hFull _ ?_ hLetter ?_
        · intro j hj
          simp only [vgaTxtWidth] at hUp hj ⊢
          have hRow := hUp (j / 80) (j % 80) (by omega)
            (by omega)
          rwa [Nat.succ_mul, Nat.div_add_mod',
            Nat.add_right_comm, Nat.div_add_mod'] at hRow
        · intro j hGt hLt
          simp only [vgaTxtWidth] at hEmpty hGt hLt
          have hColumn := hEmpty (j - 24 * 80) (by omega)
            (by omega)
          rwa [Nat.add_sub_cancel' (by omega)] at hColumn
      · intro j hj
        rw [hBehind j hj]
        exact h.behind j hj

theorem putChars
    (h : OnRoll behind r s)
    (background foreground : UInt8)
    (text : List UInt8) :
    OnRoll behind
      (r.typed vgaTxtWidth
        (text.map (keyOf background foreground)))
      (text.foldl
        (fun s c => Vga.putChar c background foreground s)
        s) := by
  induction text generalizing r s with
  | nil => exact h
  | cons c text ih =>
      exact ih (h.putChar background foreground c)

/- The hardware cursor is not part of the screen. -/
theorem showCursor
    (h : OnRoll behind r s) :
    OnRoll behind r (Vga.showCursor s) :=
  ⟨h.window, h.behind⟩

end OnRoll

------------------------------------------------------------
-- Runs
------------------------------------------------------------

/- A call of `vga_print` prints its characters. -/
theorem Call.after_text
    (s : Device)
    (t : Text)
    (background foreground : UInt8) :
    Call.after s (.text t background foreground) =
      Vga.showCursor (t.chars.foldl
        (fun s c => Vga.putChar c background foreground s)
        s) := by
  have hBytes : ∀ j (hj : j < t.chars.length),
      t.bytes j = t.chars[j] :=
    fun j hj => List.getD_eq_getElem _ _ hj
  have hLoop := @printLoop_eq t.bytes background foreground
    (t.chars.length + 1) 0 t.chars.length s
    (fun j hj => by
      rw [Nat.zero_add, hBytes j hj]
      exact t.nonzero _ (List.getElem_mem hj))
    (by
      rw [Nat.zero_add]
      exact List.getD_eq_default _ _ (Nat.le_refl _))
    (by rw [Nat.zero_add]; exact t.short)
    (Nat.lt_succ_self _)
  rw [foldl_range_text hBytes
    (fun s c => Vga.putChar c background foreground s)] at hLoop
  change (vgaPrint t.bytes background foreground
    (t.chars.length + 1) s).1 = _
  unfold vgaPrint
  rw [show (0 : UInt16) = UInt16.ofNat 0 from rfl, hLoop]
  rfl

theorem Call.after_onRoll
    {behind : Nat → UInt16}
    {r : Roll UInt16}
    {s : Device}
    (h : OnRoll behind r s)
    (call : Call) :
    OnRoll behind (r.typed vgaTxtWidth call.keys)
      (call.after s) := by
  cases call with
  | char c background foreground =>
      exact (h.putChar background foreground c).showCursor
  | text t background foreground =>
      rw [Call.after_text]
      exact (h.putChars background foreground
        t.chars).showCursor

theorem calls_onRoll
    {behind : Nat → UInt16}
    {r : Roll UInt16}
    {s : Device}
    (h : OnRoll behind r s)
    (calls : List Call) :
    OnRoll behind
      (r.typed vgaTxtWidth (calls.flatMap Call.keys))
      (calls.foldl Call.after s) := by
  induction calls generalizing r s with
  | nil => exact h
  | cons call calls ih =>
      rw [List.flatMap_cons, Roll.typed_append]
      exact ih (call.after_onRoll h)

/- The position that is sent is the pointer. -/
theorem cursorPos_eq
    (p : Nat) :
    cursorPos p = UInt16.ofNat p := by
  unfold cursorPos
  rw [Nat.mul_div_cancel_left _ (by decide)]
  rw [UInt16.add_comm]
  exact UInt16.sub_add_cancel _ _

/- A call sets the hardware cursor to the pointer. -/
theorem Call.crtcAfter_after
    (k : Crtc)
    (s : Device)
    (call : Call) :
    crtcAfter k (call.after s).effects =
      (crtcAfter k s.effects).setCursor
        (UInt16.ofNat (call.after s).txtAddr) := by
  cases call with
  | char c background foreground =>
      change crtcAfter k (Vga.showCursor _).effects = _
      rw [crtcAfter_showCursor, crtcAfter_putChar, cursorPos_eq]
      rfl
  | text t background foreground =>
      rw [Call.after_text, crtcAfter_showCursor,
        crtcAfter_putChars, cursorPos_eq]
      rfl

theorem crtcAfter_calls
    (k : Crtc)
    {calls : List Call}
    (hCalls : calls ≠ [])
    (s : Device) :
    crtcAfter k (calls.foldl Call.after s).effects =
      (crtcAfter k s.effects).setCursor
        (UInt16.ofNat (calls.foldl Call.after s).txtAddr) := by
  induction calls generalizing s with
  | nil => exact absurd rfl hCalls
  | cons call calls ih =>
      cases calls with
      | nil => exact call.crtcAfter_after k s
      | cons next calls =>
          have hRest := ih (List.cons_ne_nil next calls)
            (call.after s)
          rwa [call.crtcAfter_after, Crtc.setCursor_setCursor]
            at hRest

/-
  After any calls the screen shows the last 25 rows of the
  roll on which all of their letters were typed, up to the
  row of the last one, and nothing behind it has changed.
  Each letter is in the cell that it was typed in, unless its
  row has moved off, and the hardware cursor is at the next
  cell.
-/
theorem calls_on_roll
    {s : Device}
    (hPointer : s.txtAddr ≤ screenCells)
    (calls : List Call) :
    let keys := calls.flatMap Call.keys
    let roll := (rollOf s).typed vgaTxtWidth keys
    let moved := (roll.last / vgaTxtWidth - 24) * vgaTxtWidth
    let out := calls.foldl Call.after s
    ((∀ j, j < screenCells →
        out.cells j = roll.cells (moved + j)) ∧
      ∀ j, screenCells ≤ j → out.cells j = s.cells j) ∧
    (roll.pos = moved + out.txtAddr ∧
      out.txtAddr ≤ screenCells) ∧
    (∀ i d, keys[i]? = some (.letter d) →
      let cell :=
        ((rollOf s).typed vgaTxtWidth (keys.take i)).pos
      moved ≤ cell → out.cells (cell - moved) = d) ∧
    (calls ≠ [] → ∀ k, crtcAfter k out.effects =
      (crtcAfter k s.effects).setCursor
        (UInt16.ofNat out.txtAddr)) := by
  have hRoll := calls_onRoll (OnRoll.start hPointer) calls
  have hWindow := hRoll.window
  refine ⟨⟨hWindow.shows, hRoll.behind⟩,
    ⟨hWindow.next, hWindow.inside⟩,
    fun i d hKey hBelow => ?_,
    fun hCalls k => crtcAfter_calls k hCalls s⟩
  exact hWindow.letter_shown (by decide) hKey hBelow

/- Two lines of a letter each, of a string and a character. -/
theorem calls_on_roll_sample :
    let calls : List Call :=
      [.text ⟨[65, 10], by simp, by decide⟩ black white,
        .char 66 black white]
    let keys := calls.flatMap Call.keys
    let roll := (rollOf freshScreen).typed vgaTxtWidth keys
    let moved := (roll.last / vgaTxtWidth - 24) * vgaTxtWidth
    let out := calls.foldl Call.after freshScreen
    ((∀ j, j < screenCells →
        out.cells j = roll.cells (moved + j)) ∧
      ∀ j, screenCells ≤ j →
        out.cells j = freshScreen.cells j) ∧
    (roll.pos = moved + out.txtAddr ∧
      out.txtAddr ≤ screenCells) ∧
    (∀ i d, keys[i]? = some (.letter d) →
      let cell := ((rollOf freshScreen).typed vgaTxtWidth
        (keys.take i)).pos
      moved ≤ cell → out.cells (cell - moved) = d) ∧
    (calls ≠ [] → ∀ k, crtcAfter k out.effects =
      (crtcAfter k freshScreen.effects).setCursor
        (UInt16.ofNat out.txtAddr)) :=
  calls_on_roll (by decide) _

end Vga

end Ester
