import Ester.Drivers.Ahci.Layout

/-
  Which memory a command describes.

  The entries of a command should cover the buffer of the
  caller and its FIS should carry the requested count.  The
  loop takes 16 sectors off the count for every entry but the
  last and the FIS is filled in afterwards, so no command of
  several entries carries the count.  A command of one entry
  is right for `read`; `write` takes the byte count modulo
  4096, which is too short from 8 sectors on.

  Key definitions include:
    * `Tiles`
    * `HbaCommand.Transfers`

  Key theorems include:
    * `transfers_iff_of_le`
    * `not_transfers_of_lt`
    * `buildCommand_transfers_iff`
    * `buildCommand_misdescribes`
-/

namespace Ester

namespace Ahci

------------------------------------------------------------
-- Transfers
------------------------------------------------------------

/- The entries describe the bytes from one address to another. -/
def Tiles : List PrdtFields → (start stop : Nat) → Prop
  | [], start, stop => start = stop
  | e :: es, start, stop =>
      e.dba.toNat + 2 ^ 32 * e.dbau.toNat = start ∧
        Tiles es (start + (e.dbc + 1)) stop

/- The number in the count bytes of the FIS. -/
def FisRegH2D.sectorCount
    (fis : FisRegH2D) : Nat :=
  fis.countl.toNat + 2 ^ 8 * fis.counth.toNat

/- The command moves `count` sectors from an address on. -/
structure HbaCommand.Transfers
    (command : HbaCommand)
    (buf count : Nat) : Prop where
  regions : Tiles command.prdt buf (buf + 512 * count)
  count_eq : command.fis.sectorCount = count

------------------------------------------------------------
-- Counts
------------------------------------------------------------

/- The count bytes carry a count of 16 bits. -/
theorem sectorCount_fisRegH2D
    (command : UInt8)
    (startl starth count : UInt32) :
    (fisRegH2D command startl starth count).sectorCount =
      count.toNat % 2 ^ 16 := by
  have hShift : (count >>> 8).toNat = count.toNat / 2 ^ 8 := by
    rw [UInt32.toNat_shiftRight, Nat.shiftRight_eq_div_pow]
    rfl
  have hMask : (0xFF : UInt32).toNat = 2 ^ 8 - 1 := rfl
  simp only [FisRegH2D.sectorCount, fisRegH2D,
    UInt32.toNat_toUInt8, UInt32.toNat_and, hMask,
    Nat.and_two_pow_sub_one_eq_mod, hShift]
  omega

/- Every entry but the last takes 16 sectors off the count. -/
theorem regions_left
    (kind : CommandKind)
    (more off : Nat)
    (count : UInt32) :
    (kind.regions more off count).2 =
      count - UInt32.ofNat (16 * more) := by
  unfold CommandKind.regions
  induction more generalizing off count with
  | zero => simp [prdtEntries]
  | succ more ih =>
      have hSixteen : UInt32.ofNat 16 = 16 := rfl
      rw [prdtEntries, ih, Nat.mul_succ, UInt32.ofNat_add,
        hSixteen]
      grind

/- The number of entries of a transfer. -/
theorem toNat_prdtl
    {count : UInt32}
    (hPos : 1 ≤ count.toNat)
    (hMax : count.toNat < 2 ^ 16) :
    (Ahci.prdtl count).toNat = (count.toNat - 1) / 16 + 1 := by
  have hPred : (count - 1).toNat = count.toNat - 1 :=
    UInt32.toNat_sub_of_le _ _ (by
      rw [UInt32.le_iff_toNat_le]
      exact hPos)
  have hShift : ((count - 1) >>> 4).toNat =
      (count.toNat - 1) / 16 := by
    rw [UInt32.toNat_shiftRight, Nat.shiftRight_eq_div_pow,
      hPred]
    rfl
  rw [Ahci.prdtl, UInt16.toNat_add, UInt32.toNat_toUInt16,
    hShift]
  have hOne : (1 : UInt16).toNat = 1 := rfl
  omega

/- What is left of the count for the last entry. -/
theorem toNat_regions_left
    (kind : CommandKind)
    {count : UInt32}
    (hPos : 1 ≤ count.toNat)
    (hMax : count.toNat < 2 ^ 16) :
    (kind.regions ((Ahci.prdtl count).toNat - 1) 0
      count).2.toNat =
        count.toNat - 16 * ((count.toNat - 1) / 16) := by
  rw [regions_left, toNat_prdtl hPos hMax, Nat.add_sub_cancel]
  have hTaken : (UInt32.ofNat (16 * ((count.toNat - 1) / 16))).toNat =
      16 * ((count.toNat - 1) / 16) :=
    UInt32.toNat_ofNat_of_lt' (by
      simp only [UInt32.size]
      omega)
  rw [UInt32.toNat_sub_of_le _ _ (by
    rw [UInt32.le_iff_toNat_le, hTaken]
    omega), hTaken]

------------------------------------------------------------
-- Commands of One Entry
------------------------------------------------------------

section Transfers

variable (kind : CommandKind)
variable (idx : Nat)
variable (startl starth : UInt32)
variable {count : UInt32}
variable {buf : UInt64}
variable (hPos : 1 ≤ count.toNat)
variable (hMax : count.toNat < 2 ^ 16)

include hPos hMax

/- With several entries the FIS lacks the other sectors. -/
theorem not_transfers_of_lt
    (hLong : 16 < count.toNat) :
    ¬ (kind.builds idx startl starth count buf).Transfers
      buf.toNat count.toNat := by
  intro hTransfers
  have hCount := hTransfers.count_eq
  rw [CommandKind.builds, sectorCount_fisRegH2D,
    toNat_regions_left kind hPos hMax] at hCount
  omega

/- A single entry decides by its length. -/
theorem transfers_iff_of_le
    (hShort : count.toNat ≤ 16)
    (hBuf : buf.toNat + 512 * count.toNat < 2 ^ 32) :
    (kind.builds idx startl starth count buf).Transfers
        buf.toNat count.toNat ↔
      (kind.last count).toNat % 2 ^ 22 + 1 =
        512 * count.toNat := by
  have hLen : (Ahci.prdtl count).toNat = 1 := by
    rw [toNat_prdtl hPos hMax]
    omega
  have hPrdt : (kind.builds idx startl starth count buf).prdt =
      [kind.fields buf
        ⟨0, (kind.last count).toNat % 2 ^ 22⟩] := by
    simp [CommandKind.builds, hLen, CommandKind.regions,
      prdtEntries]
  have hZero : buf + UInt64.ofNat 0 = buf := by simp
  have hLow : buf.toUInt32.toNat = buf.toNat := by
    rw [UInt64.toNat_toUInt32]
    omega
  have hHigh : ((buf >>> 32).toUInt32).toNat = 0 := by
    rw [UInt64.toNat_toUInt32, UInt64.toNat_shiftRight,
      Nat.shiftRight_eq_div_pow]
    simp only [UInt64.reduceToNat, Nat.reduceMod]
    omega
  have hDbau : (if kind.dbau = true then (buf >>> 32).toUInt32
      else 0).toNat = 0 := by
    split
    · exact hHigh
    · rfl
  have hCount : (kind.builds idx startl starth count
      buf).fis.sectorCount = count.toNat := by
    rw [CommandKind.builds, sectorCount_fisRegH2D,
      toNat_regions_left kind hPos hMax]
    omega
  have hRegions :
      Tiles (kind.builds idx startl starth count buf).prdt
          buf.toNat (buf.toNat + 512 * count.toNat) ↔
        (kind.last count).toNat % 2 ^ 22 + 1 =
          512 * count.toNat := by
    rw [hPrdt, Tiles, Tiles]
    simp only [CommandKind.fields, hZero, hLow, hDbau]
    omega
  constructor
  · intro hTransfers
    exact hRegions.mp hTransfers.regions
  · intro hLast
    exact ⟨hRegions.mpr hLast, hCount⟩

end Transfers

/- The last byte count of `read`. -/
theorem toNat_last_readKind
    {count : UInt32}
    (hPos : 1 ≤ count.toNat)
    (hShort : count.toNat ≤ 16) :
    (readKind.last count).toNat = 512 * count.toNat - 1 := by
  have hShift : (count <<< 9).toNat = 512 * count.toNat := by
    rw [UInt32.toNat_shiftLeft, Nat.shiftLeft_eq]
    simp only [UInt32.reduceToNat, Nat.reduceMod]
    omega
  have hOne : (1 : UInt32).toNat = 1 := rfl
  rw [readKind, UInt32.toNat_sub_of_le _ _ (by
    rw [UInt32.le_iff_toNat_le, hShift, hOne]
    omega), hShift, hOne]

/- The last byte count of `write`, all ones for a block. -/
theorem toNat_last_writeKind
    (count : UInt32) :
    (writeKind.last count).toNat =
      (2 ^ 32 - 1 + 512 * count.toNat % 4096) % 2 ^ 32 := by
  have hBytes : ((count * 512) % 4096).toNat =
      512 * count.toNat % 4096 := by
    rw [UInt32.toNat_mod, UInt32.toNat_mul]
    simp only [UInt32.reduceToNat]
    omega
  have hOne : (1 : UInt32).toNat = 1 := rfl
  rw [writeKind, UInt32.toNat_sub, hBytes, hOne]

------------------------------------------------------------
-- Reads and Writes
------------------------------------------------------------

/-
  A read describes the buffer up to 16 sectors, a write up
  to 7, whatever the memory held.
-/
theorem buildCommand_transfers_iff
    {mem : Memory}
    (hRebased : Rebased mem)
    {slot : Nat}
    (hSlot : slot < 32)
    (startl starth : UInt32)
    {count : UInt32}
    {buf : UInt64}
    (hPos : 1 ≤ count.toNat)
    (hMax : count.toNat < 2 ^ 16)
    (hBuf : buf.toNat + 512 * count.toNat < 2 ^ 32) :
    ((commandAt (buildCommand readKind portClb slot startl starth
        count buf mem) (headerAddr portClb 0)).Transfers
          buf.toNat count.toNat ↔ count.toNat ≤ 16) ∧
      ((commandAt (buildCommand writeKind portClb slot startl
        starth count buf mem)
        (headerAddr portClb slot)).Transfers
          buf.toNat count.toNat ↔ count.toNat ≤ 7) := by
  have hRead := commandAt_buildCommand hRebased readKind hSlot
    startl starth count buf
  have hWrite := commandAt_buildCommand hRebased writeKind hSlot
    startl starth count buf
  rw [show readKind.header slot = 0 from rfl] at hRead
  rw [show writeKind.header slot = slot from rfl] at hWrite
  rw [hRead, hWrite]
  by_cases hShort : count.toNat ≤ 16
  · rw [transfers_iff_of_le readKind 0 startl starth hPos
        hMax hShort hBuf,
      transfers_iff_of_le writeKind slot startl starth hPos
        hMax hShort hBuf,
      toNat_last_readKind hPos hShort,
      toNat_last_writeKind]
    constructor <;> omega
  · have hLong := Nat.lt_of_not_le hShort
    have hNot := fun kind idx => @not_transfers_of_lt kind idx
      startl starth count buf hPos hMax hLong
    constructor
    · exact ⟨fun h => absurd h (hNot _ _), fun h => by omega⟩
    · exact ⟨fun h => absurd h (hNot _ _), fun h => by omega⟩

/- A block of eight sectors: read as asked, written wrong. -/
theorem buildCommand_transfers_block :
    ((commandAt (buildCommand readKind portClb 3 64 0 8 0x100000
        (portRebase 0 fun _ => 0)) (headerAddr portClb 0)).Transfers
          0x100000 8 ↔ 8 ≤ 16) ∧
      ((commandAt (buildCommand writeKind portClb 3 64 0 8 0x100000
        (portRebase 0 fun _ => 0))
        (headerAddr portClb 3)).Transfers 0x100000 8 ↔ 8 ≤ 7) :=
  @buildCommand_transfers_iff _ (rebased_portRebase fun _ => 0)
    3 (by decide) 64 0 8 0x100000 (by decide) (by decide)
    (by decide)

/- The last entry of a block that is written has 4 MiB. -/
theorem buildCommand_misdescribes :
    ¬ ∀ (mem : Memory) (slot : Nat) (startl starth count : UInt32)
      (buf : UInt64), Rebased mem → slot < 32 →
      1 ≤ count.toNat → count.toNat < 2 ^ 16 →
      buf.toNat + 512 * count.toNat < 2 ^ 32 →
      (commandAt (buildCommand readKind portClb slot startl
          starth count buf mem) (headerAddr portClb 0)).Transfers
            buf.toNat count.toNat ∧
        (commandAt (buildCommand writeKind portClb slot startl
          starth count buf mem)
          (headerAddr portClb slot)).Transfers
            buf.toNat count.toNat := by
  intro hClaim
  have hRebased := rebased_portRebase fun _ => 0
  have hWrite := (hClaim _ 3 64 0 8 0x100000 hRebased (by decide)
    (by decide) (by decide) (by decide)).2
  have hBuilt := commandAt_buildCommand hRebased writeKind
    (show 3 < 32 by decide) 64 0 8 0x100000
  rw [show writeKind.header 3 = 3 from rfl] at hBuilt
  rw [hBuilt, transfers_iff_of_le writeKind 3 64 0 (by decide)
    (by decide) (by decide) (by decide),
    toNat_last_writeKind] at hWrite
  exact absurd hWrite (by decide)

end Ahci

end Ester
