import Mathlib.Logic.Function.Basic

/-
  The text screen of drivers/vga/vga.c.

  The screen is 25 rows of 80 cells from `VGA_BASE_ADDRESS`
  on, and the driver keeps a pointer to the next cell.  The
  pointer is counted in cells here.  The memory behind the
  screen is part of the model, and every store and port
  output is recorded.  Clearing the whole screen is left out:
  nothing calls it.

  Key definitions include:
    * `Device`
    * `scroll`
    * `putChar`
    * `vgaPrintChar`
    * `vgaPrint`
-/

namespace Ester

namespace Vga

------------------------------------------------------------
-- The Device
------------------------------------------------------------

abbrev vgaTxtWidth : Nat := 80

abbrev vgaTxtHeight : Nat := 25

/- The colors that blank cells have. -/
abbrev black : UInt8 := 0x0

abbrev white : UInt8 := 0xF

/- What the driver does to the outside. -/
inductive Effect where
  | store (cell : Nat) (d : UInt16)
  | outb (port : UInt16) (v : UInt8)

/-
  The memory from `VGA_BASE_ADDRESS` on in cells of 16 bits,
  the pointer `txt_addr` in cells and the effects so far, the
  latest first.
-/
structure Device where
  cells : Nat → UInt16
  txtAddr : Nat
  effects : List Effect

/- Store to the cell of the pointer. -/
def Device.store
    (s : Device)
    (d : UInt16) : Device :=
  { s with
    cells := Function.update s.cells s.txtAddr d
    effects := .store s.txtAddr d :: s.effects }

/- Move the pointer to the next cell. -/
def Device.advance
    (s : Device) : Device :=
  { s with txtAddr := s.txtAddr + 1 }

/- Point to a cell. -/
def Device.goto
    (s : Device)
    (k : Nat) : Device :=
  { s with txtAddr := k }

@[simp] theorem Device.goto_txtAddr
    (s : Device)
    (k : Nat) :
    (s.goto k).txtAddr = k := rfl

@[simp] theorem Device.goto_cells
    (s : Device)
    (k : Nat) :
    (s.goto k).cells = s.cells := rfl

@[simp] theorem Device.store_txtAddr
    (s : Device)
    (d : UInt16) :
    (s.store d).txtAddr = s.txtAddr := rfl

@[simp] theorem Device.advance_txtAddr
    (s : Device) :
    s.advance.txtAddr = s.txtAddr + 1 := rfl

@[simp] theorem Device.advance_cells
    (s : Device) :
    s.advance.cells = s.cells := rfl

theorem Device.store_cells
    (s : Device)
    (d : UInt16)
    (j : Nat) :
    (s.store d).cells j =
      if j = s.txtAddr then d else s.cells j :=
  Function.update_apply ..

def outb
    (port : UInt16)
    (v : UInt8)
    (s : Device) : Device :=
  { s with effects := .outb port v :: s.effects }

/- | BLINK (1) | BACKGROUND (3) | FOREGROUND (4) | CHAR (8) | -/
def cellOf
    (c background foreground : UInt8) : UInt16 :=
  (((0x0F &&& background).toUInt16 <<< 4 |||
    (0x0F &&& foreground).toUInt16) <<< 8) ||| c.toUInt16

/- The cell of a blank. -/
def blank : UInt16 :=
  cellOf 32 black white

------------------------------------------------------------
-- Printing
------------------------------------------------------------

/- Put the hardware cursor at column `x` of row `y`. -/
def updateCursor
    (x y : UInt16)
    (s : Device) : Device :=
  let pos := y * 80 + x
  let s := outb 0x3D4 0x0F s
  let s := outb 0x3D5 (pos &&& 0xFF).toUInt8 s
  let s := outb 0x3D4 0x0E s
  outb 0x3D5 ((pos >>> 8) &&& 0xFF).toUInt8 s

/- Put the hardware cursor at the pointer. -/
def showCursor
    (s : Device) : Device :=
  let y := UInt16.ofNat (2 * s.txtAddr / (vgaTxtWidth * 2))
  let x := UInt16.ofNat (2 * s.txtAddr / 2) - y * 80
  updateCursor x y s

def printC
    (c background foreground : UInt8)
    (s : Device) : Device :=
  s.store (cellOf c background foreground)

/- Blanks in the cells from the pointer on. -/
def clearCells : (left : Nat) → Device → Device
  | 0, s => s
  | left + 1, s => clearCells left (printC 32 black white s).advance

def clearLine
    (line : Nat)
    (s : Device) : Device :=
  let oldAddr := s.txtAddr
  let s := clearCells vgaTxtWidth (s.goto (line * vgaTxtWidth))
  s.goto oldAddr

/- The loop of `__vga_scroll`, cell by cell in one memory. -/
def copyCells : (left tmp : Nat) → Device → Device
  | 0, _, s => s
  | left + 1, tmp, s =>
      copyCells left (tmp + 1) (s.store (s.cells tmp)).advance

def scroll
    (s : Device) : Device :=
  let s := s.goto 0
  let s := copyCells (vgaTxtWidth * (vgaTxtHeight - 1))
    (s.txtAddr + vgaTxtWidth) s
  clearLine (vgaTxtHeight - 1) s

/- The row of the last printed cell. -/
def currentLine
    (s : Device) : UInt16 :=
  if s.txtAddr = 0 then
    UInt16.ofNat (2 * s.txtAddr / (vgaTxtWidth * 2))
  else UInt16.ofNat (2 * (s.txtAddr - 1) / (vgaTxtWidth * 2))

/- The test for the end of the screen. -/
def atEnd
    (s : Device) : Bool :=
  let column := UInt16.ofNat (2 * s.txtAddr / (vgaTxtHeight * 2))
  decide (24 ≤ currentLine s) && column == 80

/-
  One character, as the bodies of `vga_print_char` and of the
  loop of `vga_print` have it.
-/
def putChar
    (c background foreground : UInt8)
    (s : Device) : Device :=
  if c = 10 then
    s.goto (((currentLine s).toNat + 1) * vgaTxtWidth)
  else
    let s := if atEnd s then scroll s else s
    (printC c background foreground s).advance

def vgaPrintChar
    (c background foreground : UInt8)
    (s : Device) : Device :=
  showCursor (putChar c background foreground s)

/-
  The loop of `vga_print`, for a number of rounds, and whether
  it ended.  The index has 16 bits: a text without end in its
  first 2^16 bytes is printed over and over.
-/
def printLoop
    (txt : Nat → UInt8)
    (background foreground : UInt8) :
    (rounds : Nat) → (i : UInt16) → Device → Device × Bool
  | 0, _, s => (s, false)
  | rounds + 1, i, s =>
      if txt i.toNat = 0 then (s, true)
      else
        printLoop txt background foreground rounds (i + 1)
          (putChar (txt i.toNat) background foreground s)

/- A call of `vga_print` after a number of rounds. -/
def vgaPrint
    (txt : Nat → UInt8)
    (background foreground : UInt8)
    (rounds : Nat)
    (s : Device) : Device × Bool :=
  let out := printLoop txt background foreground rounds 0 s
  if out.2 then (showCursor out.1, true) else out

end Vga

end Ester
