import Ester.Drivers.Ahci
import Ester.Library.Bitfield
import Ester.Library.Memory

/-
  The commands that drivers/ahci/ahci.c builds in memory.

  `port_rebase` lays out 32 command headers and, one after
  the other, a command table of 256 bytes for each.  `read`
  and `write` fill in a header, clear its table and store
  the memory regions and the FIS there.  They share their
  steps and differ in the header they take, the bytes they
  clear and the constants they store.

  Key definitions include:
    * `CommandKind`, `readKind`, `writeKind`
    * `buildCommand`
    * `portRebase`
    * `commandAt`
-/

namespace Ester

namespace Ahci

open PackedCodec

------------------------------------------------------------
-- Structures in Memory
------------------------------------------------------------

/- The fields of `HBA_CMD_HEADER` that the driver fills in. -/
structure HbaCmdHeader where
  cfl : Nat
  w : Nat
  prdtl : UInt16
  ctba : UInt32
deriving DecidableEq

/- All fields of `HBA_PRDT_ENTRY`. -/
structure PrdtFields where
  dba : UInt32
  dbau : UInt32
  rsv0 : UInt32
  dbc : Nat
  rsv1 : Nat
  i : Nat
deriving DecidableEq

/- A command as the port finds it. -/
structure HbaCommand where
  header : HbaCmdHeader
  prdt : List PrdtFields
  fisType : UInt8
  c : Nat
  fis : FisRegH2D

/- The address of `cmdheader[i]`, of 32 bytes. -/
def headerAddr
    (clb i : Nat) : Nat :=
  clb + 32 * i

/- The address of `prdt_entry[i]` of a command table. -/
def prdtAddr
    (tbl i : Nat) : Nat :=
  tbl + 128 + 16 * i

def headerAt
    (mem : Memory)
    (hdr : Nat) : HbaCmdHeader where
  cfl := Bitfield.get 0 5 (mem.load word8 hdr).toNat
  w := Bitfield.get 6 1 (mem.load word8 hdr).toNat
  prdtl := mem.load word16 (hdr + 2)
  ctba := mem.load word32 (hdr + 8)

def prdtAt
    (mem : Memory)
    (addr : Nat) : PrdtFields where
  dba := mem.load word32 addr
  dbau := mem.load word32 (addr + 4)
  rsv0 := mem.load word32 (addr + 8)
  dbc := Bitfield.get 0 22 (mem.load word32 (addr + 12)).toNat
  rsv1 := Bitfield.get 22 9 (mem.load word32 (addr + 12)).toNat
  i := Bitfield.get 31 1 (mem.load word32 (addr + 12)).toNat

def fisAt
    (mem : Memory)
    (tbl : Nat) : FisRegH2D where
  command := mem (tbl + 2)
  lba0 := mem (tbl + 4)
  lba1 := mem (tbl + 5)
  lba2 := mem (tbl + 6)
  device := mem (tbl + 7)
  lba3 := mem (tbl + 8)
  lba4 := mem (tbl + 9)
  lba5 := mem (tbl + 10)
  countl := mem (tbl + 12)
  counth := mem (tbl + 13)

/- The command whose header is at an address. -/
def commandAt
    (mem : Memory)
    (hdr : Nat) : HbaCommand :=
  let header := headerAt mem hdr
  let tbl := header.ctba.toNat
  { header
    prdt := (List.range header.prdtl.toNat).map fun i =>
      prdtAt mem (prdtAddr tbl i)
    fisType := mem tbl
    c := Bitfield.get 7 1 (mem (tbl + 1)).toNat
    fis := fisAt mem tbl }

------------------------------------------------------------
-- Rebasing the Port
------------------------------------------------------------

/- The constant `AHCI_BASE`. -/
abbrev ahciBase : UInt32 := 0x40000

/- The size of `HBA_CMD_TBL`, which has room for one entry. -/
abbrev sizeofCmdTbl : Nat := 144

/- The size of `HBA_PRDT_ENTRY`. -/
abbrev sizeofPrdtEntry : Nat := 16

/- The body of the loop of `port_rebase`. -/
def rebaseHeader
    (clb : Nat)
    (portno : UInt32)
    (i : Nat)
    (mem : Memory) : Memory :=
  let hdr := headerAddr clb i
  let mem := mem.store word16 (hdr + 2) 8
  let mem := mem.store word32 (hdr + 8)
    (ahciBase + ((40 : UInt32) <<< 10) + (portno <<< 13) +
      (UInt32.ofNat i <<< 8))
  let mem := mem.store word32 (hdr + 12) 0
  mem.fill (mem.load word32 (hdr + 8)).toNat 256 0

/- The loop of `port_rebase` over the first `n` headers. -/
def rebaseHeaders
    (clb : Nat)
    (portno : UInt32) : (n : Nat) → Memory → Memory
  | 0, mem => mem
  | i + 1, mem =>
      rebaseHeader clb portno i (rebaseHeaders clb portno i mem)

/- What `port_rebase` stores in memory. -/
def portRebase
    (portno : UInt32)
    (mem : Memory) : Memory :=
  let clb := (ahciBase + ((0 : UInt32) <<< 10)).toNat
  let mem := mem.fill clb 1024 0
  let fb :=
    (ahciBase + ((32 : UInt32) <<< 10) + (portno <<< 8)).toNat
  let mem := mem.fill fb 256 0
  rebaseHeaders clb portno 32 mem

------------------------------------------------------------
-- Building a Command
------------------------------------------------------------

/-
  Where `read` and `write` differ.  Both take a header of the
  list and clear the entries that they announce.
-/
structure CommandKind where
  command : UInt8
  w : Nat
  /- The header that is filled in for a slot. -/
  header : Nat → Nat
  /- How many bytes of the table are cleared. -/
  cleared : (prdtl : Nat) → Nat
  /- Byte counts less one, of an entry and of the last one. -/
  chunk : UInt32
  last : (count : UInt32) → UInt32
  /- Whether the upper half of the address is stored. -/
  dbau : Bool
  control : Option UInt8
  w_lt : w < 2
  header_lt : ∀ slot, slot < 32 → header slot < 32
  le_cleared : ∀ n, 0 < n → 128 + 16 * n ≤ cleared n
  cleared_zero : cleared 0 ≤ sizeofCmdTbl

def readKind : CommandKind where
  command := ataCmdReadDmaEx
  w := 0
  header _ := 0
  cleared prdtl := sizeofCmdTbl + prdtl * sizeofPrdtEntry
  chunk := 8 * 1024 - 1
  last count := (count <<< 9) - 1
  dbau := false
  control := some 0x08
  w_lt := by decide
  header_lt _ _ := by decide
  le_cleared n _ := by
    simp only [sizeofCmdTbl, sizeofPrdtEntry]
    omega
  cleared_zero := by decide

def writeKind : CommandKind where
  command := ataCmdWriteDmaEx
  w := 1
  header slot := slot
  -- `prdtl - 1` is -1 for a length that wrapped to zero
  cleared prdtl :=
    sizeofCmdTbl + prdtl * sizeofPrdtEntry - sizeofPrdtEntry
  chunk := 4096 - 1
  last count := ((count * 512) % 4096) - 1
  dbau := true
  control := none
  w_lt := by decide
  header_lt _ h := h
  le_cleared n _ := by
    simp only [sizeofCmdTbl, sizeofPrdtEntry]
    omega
  cleared_zero := by decide

/- Store `prdt_entry[i]` for a buffer and a byte count. -/
def setPrdtEntry
    (kind : CommandKind)
    (addr : Nat)
    (buf : UInt64)
    (dbc : UInt32)
    (mem : Memory) : Memory :=
  let mem := mem.store word32 addr buf.toUInt32
  let mem :=
    if kind.dbau then
      mem.store word32 (addr + 4) (buf >>> 32).toUInt32
    else mem
  let mem := mem.store word32 (addr + 12)
    ((mem.load word32 (addr + 12)).setField 0 22 dbc.toNat)
  mem.store word32 (addr + 12)
    ((mem.load word32 (addr + 12)).setField 31 1 1)

/-
  The loop over the entries from `i` on and the last entry,
  with what is left of `count`.  The bound is read from the
  header in every round.
-/
def fillPrdt
    (kind : CommandKind)
    (hdr tbl i : Nat)
    (buf : UInt64)
    (count : UInt32)
    (mem : Memory) : UInt32 × Memory :=
  if i + 1 < (mem.load word16 (hdr + 2)).toNat then
    fillPrdt kind hdr tbl (i + 1) (buf + 4 * 1024) (count - 16)
      (setPrdtEntry kind (prdtAddr tbl i) buf kind.chunk mem)
  else
    (count, setPrdtEntry kind (prdtAddr tbl i) buf
      (kind.last count) mem)
termination_by 2 ^ 16 - i
decreasing_by
  have hBound := (mem.load word16 (hdr + 2)).toNat_lt
  omega

/- Fill in the FIS of a command table. -/
def fillFis
    (kind : CommandKind)
    (tbl : Nat)
    (startl starth count : UInt32)
    (mem : Memory) : Memory :=
  let mem := mem.store word8 tbl 0x27
  let mem := mem.store word8 (tbl + 1)
    ((mem (tbl + 1)).setField 7 1 1)
  let mem := mem.store word8 (tbl + 2) kind.command
  let mem :=
    match kind.control with
    | some control => mem.store word8 (tbl + 15) control
    | none => mem
  let mem := mem.store word8 (tbl + 4) startl.toUInt8
  let mem := mem.store word8 (tbl + 5) (startl >>> 8).toUInt8
  let mem := mem.store word8 (tbl + 6) (startl >>> 16).toUInt8
  let mem := mem.store word8 (tbl + 7)
    ((1 : UInt8) <<< 6)
  let mem := mem.store word8 (tbl + 8) (startl >>> 24).toUInt8
  let mem := mem.store word8 (tbl + 9) starth.toUInt8
  let mem := mem.store word8 (tbl + 10) (starth >>> 8).toUInt8
  let mem := mem.store word8 (tbl + 12)
    (count &&& 0xFF).toUInt8
  mem.store word8 (tbl + 13) ((count >>> 8) &&& 0xFF).toUInt8

/- Fill in the command header. -/
def fillHeader
    (kind : CommandKind)
    (hdr : Nat)
    (count : UInt32)
    (mem : Memory) : Memory :=
  let mem := mem.store word8 hdr
    ((mem.load word8 hdr).setField 0 5 (20 / 4))
  let mem := mem.store word8 hdr
    ((mem.load word8 hdr).setField 6 1 kind.w)
  mem.store word16 (hdr + 2) (Ahci.prdtl count)

/- What `read` and `write` store in memory for a slot. -/
def buildCommand
    (kind : CommandKind)
    (clb slot : Nat)
    (startl starth count : UInt32)
    (buf : UInt64)
    (mem : Memory) : Memory :=
  let hdr := headerAddr clb (kind.header slot)
  let mem := fillHeader kind hdr count mem
  let tbl := (mem.load word32 (hdr + 8)).toNat
  let mem := mem.fill tbl
    (kind.cleared (mem.load word16 (hdr + 2)).toNat) 0
  let regions := fillPrdt kind hdr tbl 0 buf count mem
  fillFis kind tbl startl starth regions.1 regions.2

end Ahci

end Ester
