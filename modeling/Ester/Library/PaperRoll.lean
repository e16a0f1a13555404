import Mathlib.Logic.Function.Basic

/-
  A screen as a window over a roll of paper.

  A roll has rows of a width and no end.  Letters are typed
  one behind the other, and a newline goes to the row behind
  that of the letter before.  What is typed stays: nothing
  goes back on a roll.  A screen that shows the last rows,
  and moves up by one when a letter is typed behind its last
  cell, keeps being a window over the roll, whatever is
  typed.

  Key definitions include:
    * `Key`
    * `Roll`, `Roll.type`, `Roll.typed`
    * `Roll.top`
    * `Window`

  Key theorems include:
    * `Roll.letter_stays`
    * `Window.letter`, `Window.scrolled`, `Window.newline`
    * `Window.letter_shown`
-/

namespace PaperRoll

------------------------------------------------------------
-- Rolls
------------------------------------------------------------

/- What is typed. -/
inductive Key (C : Type) where
  | letter (d : C)
  | newline

/-
  The cells of a roll, the next one, and the last one that a
  letter was typed in.
-/
structure Roll (C : Type) where
  cells : Nat → C
  pos : Nat
  last : Nat

namespace Roll

variable {C : Type} {w : Nat}

/- Rows have `w` cells. -/
def type
    (w : Nat)
    (r : Roll C) : Key C → Roll C
  | .letter d =>
      { cells := Function.update r.cells r.pos d
        pos := r.pos + 1
        last := r.pos }
  | .newline => { r with pos := ((r.pos - 1) / w + 1) * w }

def typed
    (w : Nat)
    (r : Roll C)
    (keys : List (Key C)) : Roll C :=
  keys.foldl (type w) r

theorem typed_append
    (r : Roll C)
    (keys more : List (Key C)) :
    r.typed w (keys ++ more) = (r.typed w keys).typed w more :=
  List.foldl_append ..

/- No key goes back. -/
theorem pos_le_type
    (hWidth : 0 < w)
    (r : Roll C)
    (key : Key C) :
    r.pos ≤ (r.type w key).pos := by
  cases key with
  | letter d => exact Nat.le_succ _
  | newline =>
      change r.pos ≤ ((r.pos - 1) / w + 1) * w
      have hRow := Nat.lt_mul_div_succ (r.pos - 1) hWidth
      rw [Nat.mul_comm] at hRow
      omega

theorem cells_type
    (r : Roll C)
    (key : Key C)
    {k : Nat}
    (hBefore : k < r.pos) :
    (r.type w key).cells k = r.cells k := by
  cases key with
  | letter d => exact Function.update_of_ne (by omega) _ _
  | newline => rfl

/- What is before the next cell stays as it is. -/
theorem cells_typed
    (hWidth : 0 < w)
    (r : Roll C)
    (keys : List (Key C))
    {k : Nat}
    (hBefore : k < r.pos) :
    (r.typed w keys).cells k = r.cells k := by
  induction keys generalizing r with
  | nil => rfl
  | cons key keys ih =>
      have hNext := Nat.lt_of_lt_of_le hBefore
        (pos_le_type hWidth r key)
      exact (ih (r.type w key) hNext).trans
        (cells_type r key hBefore)

theorem pos_le_typed
    (hWidth : 0 < w)
    (r : Roll C)
    (keys : List (Key C)) :
    r.pos ≤ (r.typed w keys).pos := by
  induction keys generalizing r with
  | nil => exact Nat.le_refl _
  | cons key keys ih =>
      exact Nat.le_trans (pos_le_type hWidth r key) (ih _)

/- The keys before a letter, the letter and those behind it. -/
theorem typed_split
    (r : Roll C)
    {keys : List (Key C)}
    {i : Nat}
    {d : C}
    (hKey : keys[i]? = some (.letter d)) :
    r.typed w keys =
      ((r.typed w (keys.take i)).type w (.letter d)).typed w
        (keys.drop (i + 1)) := by
  have hSplit := List.take_append_drop i keys
  rcases List.getElem?_eq_some_iff.mp hKey with ⟨hLt, hLetter⟩
  rw [List.drop_eq_getElem_cons hLt, hLetter] at hSplit
  conv => lhs; rw [← hSplit, typed_append]
  rfl

theorem pos_letter_lt
    (hWidth : 0 < w)
    (r : Roll C)
    {keys : List (Key C)}
    {i : Nat}
    {d : C}
    (hKey : keys[i]? = some (.letter d)) :
    (r.typed w (keys.take i)).pos < (r.typed w keys).pos := by
  rw [typed_split r hKey]
  exact pos_le_typed hWidth
    ((r.typed w (keys.take i)).type w (.letter d)) _

/- A letter stays in the cell that it was typed in. -/
theorem letter_stays
    (hWidth : 0 < w)
    (r : Roll C)
    {keys : List (Key C)}
    {i : Nat}
    {d : C}
    (hKey : keys[i]? = some (.letter d)) :
    (r.typed w keys).cells (r.typed w (keys.take i)).pos =
      d := by
  rw [typed_split r hKey,
    cells_typed hWidth _ _ (Nat.lt_succ_self _)]
  exact Function.update_self ..

/-
  The first of the last `rows + 1` rows, those up to the row
  of the last letter.
-/
def top
    (w rows : Nat)
    (r : Roll C) : Nat :=
  r.last / w - rows

end Roll

------------------------------------------------------------
-- Windows
------------------------------------------------------------

/-
  A screen of `rows + 1` rows with its next cell `p` shows
  the last rows of a roll, which is empty behind them.  Once
  rows have moved up, the last row has a letter.
-/
structure Window
    {C : Type}
    (w rows : Nat)
    (empty : C)
    (r : Roll C)
    (screen : Nat → C)
    (p : Nat) : Prop where
  shows : ∀ j, j < w * rows + w →
    screen j = r.cells (r.top w rows * w + j)
  next : r.pos = r.top w rows * w + p
  inside : p ≤ w * rows + w
  rest : ∀ k, r.top w rows * w + (w * rows + w) ≤ k →
    r.cells k = empty
  moved : 0 < r.top w rows → w * rows < p

namespace Window

variable {C : Type} {w rows : Nat} {empty : C}
variable {r : Roll C} {screen : Nat → C} {p : Nat}

/- The row of the next cell. -/
theorem row_next
    (h : Window w rows empty r screen p)
    (hWidth : 0 < w) :
    r.pos / w = r.top w rows + p / w := by
  rw [h.next, Nat.mul_comm, Nat.mul_add_div hWidth]

/- A letter in the next cell of the screen. -/
theorem letter
    (h : Window w rows empty r screen p)
    (hWidth : 0 < w)
    (hRoom : p < w * rows + w)
    (d : C) :
    Window w rows empty (r.type w (.letter d))
      (Function.update screen p d) (p + 1) := by
  have hTop : (r.type w (.letter d)).top w rows =
      r.top w rows := by
    change r.pos / w - rows = r.top w rows
    rw [h.row_next hWidth]
    have hRow : p / w ≤ rows := by
      rw [← Nat.lt_succ_iff, Nat.div_lt_iff_lt_mul hWidth,
        Nat.succ_mul, Nat.mul_comm]
      exact hRoom
    rcases Nat.eq_zero_or_pos (r.top w rows) with hZero | hPos
    · omega
    · have hLast : rows ≤ p / w := by
        rw [Nat.le_div_iff_mul_le hWidth, Nat.mul_comm]
        exact Nat.le_of_lt (h.moved hPos)
      omega
  have hNext := h.next
  constructor
  · intro j hj
    rw [hTop]
    change _ = Function.update r.cells r.pos d _
    rw [Function.update_apply, Function.update_apply,
      h.shows j hj]
    have hSame : j = p ↔ r.top w rows * w + j = r.pos := by
      omega
    simp only [hSame]
  · rw [hTop]
    change r.pos + 1 = _
    omega
  · exact hRoom
  · intro k hk
    rw [hTop] at hk
    change Function.update r.cells r.pos d k = empty
    rw [Function.update_of_ne (by omega)]
    exact h.rest k hk
  · intro hPos
    rw [hTop] at hPos
    exact Nat.lt_succ_of_lt (h.moved hPos)

/-
  A letter behind the last cell of the screen, which moves up
  by one row first.
-/
theorem scrolled
    (h : Window w rows empty r screen p)
    (hWidth : 0 < w)
    (hFull : p = w * rows + w)
    (d : C)
    {after : Nat → C}
    (hUp : ∀ j, j < w * rows → after j = screen (j + w))
    (hLetter : after (w * rows) = d)
    (hEmpty : ∀ j, w * rows < j → j < w * rows + w →
      after j = empty) :
    Window w rows empty (r.type w (.letter d)) after
      (w * rows + 1) := by
  have hTop : (r.type w (.letter d)).top w rows =
      r.top w rows + 1 := by
    change r.pos / w - rows = _
    rw [h.row_next hWidth, hFull,
      Nat.add_div_right _ hWidth, Nat.mul_div_cancel_left _ hWidth]
    omega
  have hMove : (r.top w rows + 1) * w = r.top w rows * w + w :=
    Nat.succ_mul ..
  have hNext := h.next
  constructor
  · intro j hj
    rw [hTop, hMove]
    change _ = Function.update r.cells r.pos d _
    rcases Nat.lt_trichotomy j (w * rows) with hLt | hEq | hGt
    · rw [hUp j hLt, h.shows (j + w) (by omega),
        Function.update_of_ne (by omega)]
      exact congrArg r.cells (by omega)
    · rw [hEq, hLetter, show r.top w rows * w + w + w * rows =
        r.pos by omega, Function.update_self]
    · rw [hEmpty j hGt hj, Function.update_of_ne (by omega)]
      exact (h.rest _ (by omega)).symm
  · rw [hTop, hMove]
    change r.pos + 1 = _
    omega
  · omega
  · intro k hk
    rw [hTop, hMove] at hk
    change Function.update r.cells r.pos d k = empty
    rw [Function.update_of_ne (by omega)]
    exact h.rest k (by omega)
  · exact fun _ => Nat.lt_succ_self _

/- A newline moves the next cell only. -/
theorem newline
    (h : Window w rows empty r screen p)
    (hWidth : 0 < w) :
    Window w rows empty (r.type w .newline) screen
      (((p - 1) / w + 1) * w) := by
  have hNext := h.next
  have hRow : (p - 1) / w ≤ rows := by
    rw [← Nat.lt_succ_iff, Nat.div_lt_iff_lt_mul hWidth,
      Nat.succ_mul, Nat.mul_comm]
    have hInside := h.inside
    omega
  refine ⟨h.shows, ?_, ?_, h.rest, ?_⟩
  · change ((r.pos - 1) / w + 1) * w = r.top w rows * w + _
    rcases Nat.eq_zero_or_pos p with hStart | hPos
    · -- the first cell of a screen that has not moved up
      have hZero : r.top w rows = 0 := by
        by_contra hUp
        have hMoved := h.moved (Nat.pos_of_ne_zero hUp)
        omega
      rw [hNext, hZero, hStart, Nat.zero_mul, Nat.zero_add]
      exact (Nat.zero_add _).symm
    · rw [hNext, Nat.add_sub_assoc hPos,
        Nat.mul_comm (r.top w rows), Nat.mul_add_div hWidth,
        Nat.add_assoc, Nat.add_mul, Nat.mul_comm w]
  · have hLe := Nat.mul_le_mul_right w (Nat.succ_le_succ hRow)
    rw [Nat.succ_mul rows, Nat.mul_comm rows] at hLe
    exact hLe
  · intro hUp
    have hMoved := h.moved hUp
    have hLast : rows ≤ (p - 1) / w := by
      rw [Nat.le_div_iff_mul_le hWidth, Nat.mul_comm]
      omega
    have hLe := Nat.mul_le_mul_right w (Nat.succ_le_succ hLast)
    rw [Nat.succ_mul rows, Nat.mul_comm rows] at hLe
    exact Nat.lt_of_lt_of_le (by omega) hLe

/-
  A letter is on the screen, in the cell that it was typed
  in, unless its row has moved off.
-/
theorem letter_shown
    {keys : List (Key C)}
    (h : Window w rows empty (r.typed w keys) screen p)
    (hWidth : 0 < w)
    {i : Nat}
    {d : C}
    (hKey : keys[i]? = some (.letter d))
    (hBelow : (r.typed w keys).top w rows * w ≤
      (r.typed w (keys.take i)).pos) :
    screen ((r.typed w (keys.take i)).pos -
      (r.typed w keys).top w rows * w) = d := by
  have hBefore := r.pos_letter_lt hWidth hKey
  have hNext := h.next
  have hInside := h.inside
  rw [h.shows _ (by omega), Nat.add_sub_cancel' hBelow]
  exact r.letter_stays hWidth hKey

end Window

end PaperRoll
