import Ester.Drivers.Ahci.Layout
import Ester.Library.Polling

/-
  The handshake of `read` and `write` with the port.

  Both look for a free slot, build the command, wait for the
  port to be idle, set the bit of the slot and poll until the
  device clears it; `read` waits for the port once more, with
  the same counter.  The device may present any value at any
  read of its registers.

  Key definitions include:
    * `freeSlot`
    * `issueCommand`
    * `Port.read`, `Port.write`
    * `Port.ahciRead`, `Port.ahciWrite`

  Key theorems include:
    * `freeSlot_eq_some_iff`
-/

namespace Ester

namespace Ahci

open Polling

------------------------------------------------------------
-- Registers of the Port
------------------------------------------------------------

/- The registers of `HBA_PORT` that the device changes. -/
inductive PortRegister where
  | is
  | tfd
  | sact
  | ci
deriving DecidableEq

abbrev PortDriver :=
  Driver Memory PortRegister UInt32

abbrev PortAccess :=
  Access PortRegister UInt32

/- The constants of the task file and of its errors. -/
abbrev ataDevBusy : UInt32 := 0x80

abbrev ataDevDrq : UInt32 := 0x08

abbrev hbaPxIsTfes : UInt32 := (1 : UInt32) <<< 30

/- The bound of the spin counter. -/
abbrev spinBudget : Nat := 1000000

/- The condition of the loops that wait for the port. -/
def deviceBusy
    (tfd : UInt32) : Bool :=
  tfd &&& (ataDevBusy ||| ataDevDrq) != 0

/- A task file error is reported. -/
def taskFileError
    (is : UInt32) : Bool :=
  is &&& hbaPxIsTfes != 0

/- The bit of a slot. -/
def slotBit
    (slot : Nat) : UInt32 :=
  1 <<< UInt32.ofNat slot

------------------------------------------------------------
-- The Driver
------------------------------------------------------------

/- The loop of `find_cmdslot`, with `left` bits to look at. -/
def freeSlot : (left i : Nat) → (slots : UInt32) → Option Nat
  | 0, _, _ => none
  | left + 1, i, slots =>
      if slots &&& 1 = 0 then some i
      else freeSlot left (i + 1) (slots >>> 1)

/- The loop finds the lowest clear bit. -/
theorem freeSlot_eq_some_iff
    {left i k : Nat}
    {slots : UInt32} :
    freeSlot left i slots = some k ↔
      i ≤ k ∧ k < i + left ∧
        slots.toNat.testBit (k - i) = false ∧
        ∀ j, j < k - i → slots.toNat.testBit j = true := by
  induction left generalizing i slots with
  | zero =>
      simp only [freeSlot, reduceCtorEq, false_iff]
      omega
  | succ left ih =>
      have hLow : slots &&& 1 = 0 ↔
          slots.toNat.testBit 0 = false := by
        rw [← UInt32.toNat_inj, UInt32.toNat_and, Nat.testBit_zero]
        simp only [UInt32.reduceToNat, Nat.and_one_is_mod,
          decide_eq_false_iff_not]
        omega
      have hShift : ∀ j, (slots >>> 1).toNat.testBit j =
          slots.toNat.testBit (j + 1) := by
        intro j
        have hOne : (1 : UInt32).toNat % 32 = 1 := rfl
        rw [UInt32.toNat_shiftRight, Nat.testBit_shiftRight,
          hOne, Nat.add_comm]
      rw [freeSlot]
      split
      · next hFree =>
          rw [hLow] at hFree
          constructor
          · intro h
            cases h
            rw [Nat.sub_self]
            exact ⟨Nat.le_refl _, by omega, hFree, by omega⟩
          · rintro ⟨hLe, _, _, hBelow⟩
            by_contra hNe
            have hFirst := hBelow 0 (by
              have : i ≠ k := fun h => hNe (by rw [h])
              omega)
            rw [hFree] at hFirst
            cases hFirst
      · next hTaken =>
          rw [hLow, Bool.not_eq_false] at hTaken
          rw [ih]
          simp only [hShift]
          constructor
          · rintro ⟨hLe, hLt, hClear, hBelow⟩
            have hSub : k - (i + 1) + 1 = k - i := by omega
            rw [hSub] at hClear
            refine ⟨by omega, by omega, hClear, ?_⟩
            intro j hj
            cases j with
            | zero => exact hTaken
            | succ j => exact hBelow j (by omega)
          · rintro ⟨hLe, hLt, hClear, hBelow⟩
            have hNe : k ≠ i := by
              intro h
              rw [h, Nat.sub_self, hTaken] at hClear
              cases hClear
            have hSub : k - (i + 1) + 1 = k - i := by omega
            rw [hSub]
            exact ⟨by omega, by omega, hClear,
              fun j hj => hBelow (j + 1) (by omega)⟩

/- Find a free command slot, none for the answer -1. -/
def findCmdslot : PortDriver (Option Nat) := do
  let sact ← readReg .sact
  let ci ← readReg .ci
  pure (freeSlot 32 0 (sact ||| ci))

/- Wait until a command completes, and check for errors. -/
def awaitCompletion
    (slot : Nat) : PortDriver Bool := do
  let completed ← awaitUnless .ci
    (fun ci => ci &&& slotBit slot == 0) .is taskFileError
  if completed then
    let is ← readReg .is
    pure (!taskFileError is)
  else pure false

/-
  Wait for the port, issue the command of a slot and wait for
  its completion.  The result is the spin counter, none for
  the answer 1.
-/
def handshake
    (slot : Nat) : PortDriver (Option Nat) := do
  let spin ← spinWhile .tfd deviceBusy spinBudget 0
  if spin = spinBudget then pure none
  else
    writeReg .ci (slotBit slot)
    let completed ← awaitCompletion slot
    if completed then pure (some spin) else pure none

/- What `read` and `write` have in common. -/
def issueCommand
    (kind : CommandKind)
    (clb : Nat)
    (startl starth count : UInt32)
    (buf : UInt64) : PortDriver (Option Nat) := do
  writeReg .is 0xFFFFFFFF
  match ← findCmdslot with
  | none => pure none
  | some slot =>
      modifyMemory
        (buildCommand kind clb slot startl starth count buf)
      handshake slot

namespace Port

/- Read sectors, and wait for the port once more. -/
def read
    (clb : Nat)
    (startl starth count : UInt32)
    (buf : UInt64) : PortDriver UInt8 := do
  match ← issueCommand readKind clb startl starth count buf with
  | none => pure 1
  | some spin =>
      let spin ← spinWhile .tfd deviceBusy spinBudget spin
      if spin = spinBudget then pure 1 else pure 0

/- Write sectors. -/
def write
    (clb : Nat)
    (startl starth count : UInt32)
    (buf : UInt64) : PortDriver UInt8 := do
  match ← issueCommand writeKind clb startl starth count buf with
  | none => pure 1
  | some _ => pure 0

/- Both entry points use port 0, whatever index they get. -/
def ahciWrite
    (_portIndex : UInt8)
    (lba : UInt64)
    (count : UInt32)
    (buf : UInt64) : PortDriver UInt8 :=
  let startl := lba.toUInt32 &&& 0xFFFFFFFF
  let starth := ((lba &&& 0xFFFFFFFF00000000) >>> 32).toUInt32
  write portClb startl starth count buf

def ahciRead
    (_portIndex : UInt8)
    (lba : UInt64)
    (count : UInt32)
    (buf : UInt64) : PortDriver UInt8 :=
  let startl := lba.toUInt32 &&& 0xFFFFFFFF
  let starth := ((lba &&& 0xFFFFFFFF00000000) >>> 32).toUInt32
  read portClb startl starth count buf

end Port

end Ahci

end Ester
