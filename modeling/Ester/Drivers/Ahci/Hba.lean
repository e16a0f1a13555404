import Ester.Drivers.Ahci.Layout
import Ester.Library.Contract

/-
  Bringing up the AHCI controller.

  `ahci_init` resets the controller, enables it, looks at
  every implemented port and rebases the first one: its
  command engine is stopped, the command list and the area
  of the received FIS get their addresses, and the engine is
  started again.  The addresses are read back from the
  registers before memory is cleared behind them.

  The contract says what the two sides owe one another.  The
  device promises that registers hold what was written or
  read last and that an engine that was seen to have stopped
  stays so.  The driver neither reads nor writes a port before
  the reset is over, moves no base address under a running
  engine, and starts the engine only when the addresses are
  set and it has come to rest; an engine of which nothing was
  read yet may be at rest.

  Key definitions include:
    * `Hba.stopCmd`, `Hba.startCmd`
    * `Hba.portRebase`
    * `Hba.ahciCheckType`, `Hba.ahciProbePort`
    * `Hba.ahciInit`
    * `contract`

  Key theorems include:
    * `ahciInit_follows`
-/

namespace Ester

namespace Ahci

open Polling

------------------------------------------------------------
-- Registers
------------------------------------------------------------

/- The registers of `HBA_PORT` that the bring-up accesses. -/
inductive BaseRegister where
  | clb
  | clbu
  | fb
  | fbu
  | cmd
  | sig
  | ssts
deriving DecidableEq

/- The registers of `HBA_MEM`. -/
inductive HbaRegister where
  | ghc
  | pi
  | port (i : Nat) (r : BaseRegister)
deriving DecidableEq

abbrev HbaDriver :=
  Driver Memory HbaRegister UInt32

/- The constants of the port's command register. -/
abbrev hbaPxCmdSt : UInt32 := 0x0001

abbrev hbaPxCmdFre : UInt32 := 0x0010

abbrev hbaPxCmdFr : UInt32 := 0x4000

abbrev hbaPxCmdCr : UInt32 := 0x8000

/- The constants of the global host control. -/
abbrev ahciGhcHr : UInt32 := 0x00000001

abbrev ahciGhcAe : UInt32 := 0x80000000

abbrev ahciIe : UInt32 := 0x00000002

/- The state of a port with a device. -/
abbrev hbaPortIpmActive : UInt8 := 1

abbrev hbaPortDetPresent : UInt8 := 3

/- The signatures of devices. -/
abbrev sataSigAtapi : UInt32 := 0xEB140101

abbrev sataSigSemb : UInt32 := 0xC33C0101

abbrev sataSigPm : UInt32 := 0x96690101

/- What is attached to a port, the constants `AHCI_DEV`. -/
inductive AhciDev where
  | null
  | sata
  | semb
  | pm
  | satapi
deriving DecidableEq

------------------------------------------------------------
-- The Driver
------------------------------------------------------------

namespace Hba

/- Stop the command engine of a port. -/
def stopCmd
    (i : Nat) : HbaDriver Unit := do
  let cmd ← readReg (.port i .cmd)
  writeReg (.port i .cmd) (cmd &&& ~~~hbaPxCmdSt)
  let cmd ← readReg (.port i .cmd)
  writeReg (.port i .cmd) (cmd &&& ~~~hbaPxCmdFre)
  pollWhileEither (.port i .cmd)
    (fun v => v &&& hbaPxCmdFr != 0)
    (fun v => v &&& hbaPxCmdCr != 0)

/- Start the command engine of a port. -/
def startCmd
    (i : Nat) : HbaDriver Unit := do
  pollWhile (.port i .cmd) fun v => v &&& hbaPxCmdCr != 0
  let cmd ← readReg (.port i .cmd)
  writeReg (.port i .cmd) (cmd ||| hbaPxCmdFre)
  let cmd ← readReg (.port i .cmd)
  writeReg (.port i .cmd) (cmd ||| hbaPxCmdSt)

/- Give the port at `i` the areas of port `portno`. -/
def portRebase
    (i : Nat)
    (portno : UInt32) : HbaDriver Unit := do
  stopCmd i
  writeReg (.port i .clb) (ahciBase + ((0 : UInt32) <<< 10))
  writeReg (.port i .clbu) 0
  let clb ← readReg (.port i .clb)
  modifyMemory fun m => m.fill clb.toNat 1024 0
  writeReg (.port i .fb)
    (ahciBase + ((32 : UInt32) <<< 10) + (portno <<< 8))
  writeReg (.port i .fbu) 0
  let fb ← readReg (.port i .fb)
  modifyMemory fun m => m.fill fb.toNat 256 0
  let cmdheader ← readReg (.port i .clb)
  modifyMemory (rebaseHeaders cmdheader.toNat portno 32)
  startCmd i

/- Check device type. -/
def ahciCheckType
    (i : Nat) : HbaDriver AhciDev := do
  let ssts ← readReg (.port i .ssts)
  let ipm := ((ssts >>> 8) &&& 0x0F).toUInt8
  let det := (ssts &&& 0x0F).toUInt8
  if det ≠ hbaPortDetPresent then pure .null
  else if ipm ≠ hbaPortIpmActive then pure .null
  else
    let sig ← readReg (.port i .sig)
    if sig = sataSigAtapi then pure .satapi
    else if sig = sataSigSemb then pure .semb
    else if sig = sataSigPm then pure .pm
    else pure .sata

/-
  The loop over the 32 ports, with the bits that are left.
  What is found is not used.
-/
def probeLoop : (left i : Nat) → (pi : UInt32) → HbaDriver Unit
  | 0, _, _ => pure ()
  | left + 1, i, pi => do
      if pi &&& 1 ≠ 0 then
        let _dt ← ahciCheckType i
        probeLoop left (i + 1) (pi >>> 1)
      else probeLoop left (i + 1) (pi >>> 1)

def ahciProbePort : HbaDriver Unit := do
  let pi ← readReg .pi
  probeLoop 32 0 pi

/- What `ahci_init` does once the registers are mapped. -/
def ahciInit : HbaDriver UInt8 := do
  let ghc ← readReg .ghc
  writeReg .ghc (ghc ||| ahciGhcHr)
  pollWhile .ghc fun v => v &&& ahciGhcHr != 0
  let ghc ← readReg .ghc
  writeReg .ghc (ghc ||| (ahciGhcAe ||| ahciIe))
  ahciProbePort
  portRebase 0 0
  pure 0

end Hba

------------------------------------------------------------
-- The Contract
------------------------------------------------------------

/- How far the controller is. -/
inductive Phase where
  | unknown
  | resetting
  | ready
  | enabled
deriving DecidableEq

/-
  What is known of the engine of the port: the command last
  written, or read if none was, whether the reception and the
  list were seen to have stopped since they were told to, and
  the addresses.
-/
structure Engine where
  cmd : Option UInt32
  frIdle : Bool
  crIdle : Bool
  clb : Option UInt32
  clbu : Option UInt32
  fb : Option UInt32
  fbu : Option UInt32

structure HbaState where
  phase : Phase
  engine : Engine

/- Nothing is known at first. -/
def unknownHba : HbaState where
  phase := .unknown
  engine := ⟨none, false, false, none, none, none, none⟩

/- The bits of a command that are set. -/
def commands
    (bit v : UInt32) : Bool :=
  v &&& bit != 0

/- A register holds the value that was written last. -/
def holds
    (written : Option UInt32)
    (v : UInt32) : Bool :=
  match written with
  | none => true
  | some w => v == w

namespace Engine

/-
  The engine under command `w` shows the value `v`: what was
  told to stop and is seen to have stopped is idle, and stays
  so until it is started.
-/
def seen
    (e : Engine)
    (w v : UInt32) : Engine :=
  { e with
    cmd := some w
    frIdle := e.frIdle ||
      !commands hbaPxCmdFre w && !commands hbaPxCmdFr v
    crIdle := e.crIdle ||
      !commands hbaPxCmdSt w && !commands hbaPxCmdCr v }

/-
  The command register holds the bits that start the engine,
  also those that the first read of it finds.
-/
def promiseCmd
    (e : Engine)
    (v : UInt32) : Option Engine :=
  match e.cmd with
  | none => some (e.seen v v)
  | some w =>
      if commands hbaPxCmdSt v = commands hbaPxCmdSt w ∧
          commands hbaPxCmdFre v = commands hbaPxCmdFre w then
        some (e.seen w v)
      else none

def promise
    (e : Engine)
    (v : UInt32) : BaseRegister → Option Engine
  | .cmd => e.promiseCmd v
  | .clb => if holds e.clb v then some e else none
  | .fb => if holds e.fb v then some e else none
  | _ => some e

/-
  The engine is told to start what it did not do before, or
  what it is not known to have done.
-/
def starts
    (e : Engine)
    (bit v : UInt32) : Bool :=
  commands bit v &&
    match e.cmd with
    | none => true
    | some w => !commands bit w

/-
  The list is started at rest, with both areas in place and
  the reception on; the reception is started with its area in
  place.
-/
def mayCommand
    (e : Engine)
    (v : UInt32) : Prop :=
  (e.starts hbaPxCmdFre v = true →
    e.fb.isSome ∧ e.fbu.isSome) ∧
  (e.starts hbaPxCmdSt v = true →
    e.crIdle = true ∧ e.clb.isSome ∧ e.clbu.isSome ∧
      e.fb.isSome ∧ e.fbu.isSome ∧
      commands hbaPxCmdFre v = true)

instance
    (e : Engine)
    (v : UInt32) :
    Decidable (e.mayCommand v) := by
  unfold mayCommand
  infer_instance

/- A base address is moved at rest only. -/
def duty
    (e : Engine)
    (v : UInt32) : BaseRegister → Option Engine
  | .cmd =>
      if e.mayCommand v then
        some { e with
          cmd := some v
          frIdle := e.frIdle && !commands hbaPxCmdFre v
          crIdle := e.crIdle && !commands hbaPxCmdSt v }
      else none
  | .clb =>
      if e.frIdle ∧ e.crIdle then some { e with clb := some v }
      else none
  | .clbu =>
      if e.frIdle ∧ e.crIdle then some { e with clbu := some v }
      else none
  | .fb =>
      if e.frIdle ∧ e.crIdle then some { e with fb := some v }
      else none
  | .fbu =>
      if e.frIdle ∧ e.crIdle then some { e with fbu := some v }
      else none
  | _ => none

end Engine

/- No port is read before the controller is enabled. -/
def hbaMayRead
    (s : HbaState) : HbaRegister → Bool
  | .port _ _ => s.phase == .enabled
  | _ => true

/- The reset ends by itself, and does not come back. -/
def hbaPromise
    (s : HbaState)
    (r : HbaRegister)
    (v : UInt32) : Option HbaState :=
  match r with
  | .ghc =>
      match s.phase with
      | .unknown => some s
      | .resetting =>
          if commands ahciGhcHr v then some s
          else some { s with phase := .ready }
      | _ => if commands ahciGhcHr v then none else some s
  | .pi => some s
  | .port i r =>
      if i = 0 then
        (s.engine.promise v r).map fun e =>
          { s with engine := e }
      else some s

/-
  The controller is reset and then enabled, before the first
  port is written to; no other port is.
-/
def hbaDuty
    (s : HbaState)
    (r : HbaRegister)
    (v : UInt32) : Option HbaState :=
  match r with
  | .ghc =>
      match s.phase with
      | .unknown =>
          if commands ahciGhcHr v then
            some { s with phase := .resetting }
          else none
      | .ready =>
          if commands ahciGhcAe v ∧ ¬ commands ahciGhcHr v then
            some { s with phase := .enabled }
          else none
      | _ => none
  | .pi => none
  | .port i r =>
      if i = 0 ∧ s.phase = .enabled then
        (s.engine.duty v r).map fun e => { s with engine := e }
      else none

def contract : Contract HbaState HbaRegister UInt32 :=
  ⟨hbaMayRead, hbaPromise, hbaDuty⟩

example :
    contract.duty { unknownHba with phase := .enabled }
      (.port 0 .cmd) hbaPxCmdSt = none := by
  decide

end Ahci

end Ester
