import Ester.Library.Mask
import Ester.Kernel.Mem

/-
  The read and write commands of drivers/ahci/ahci.c and the
  block device of drivers/block/block_device.c over them.

  The driver fills in a register FIS and a table of memory
  regions; the disk executes the command in the FIS.  READ
  DMA takes a 28-bit sector address and an 8-bit count,
  WRITE DMA EXT a 48-bit address and a 16-bit count.  A
  transfer moves the sectors through the regions in order.
  The port answers every command with success, so the
  polling of its registers is left out.

  Key definitions include:
    * `FisRegH2D`
    * `FisRegH2D.execute`
    * `read`, `write`
    * `ahciReadWrapper`, `ahciWriteWrapper`
-/

namespace Ester

namespace Ahci

------------------------------------------------------------
-- The Disk
------------------------------------------------------------

/- The bytes of a disk, sector after sector. -/
abbrev Disk :=
  Nat → UInt8

/- The command and register fields of `FIS_REG_H2D`. -/
structure FisRegH2D where
  command : UInt8
  device : UInt8
  lba0 : UInt8
  lba1 : UInt8
  lba2 : UInt8
  lba3 : UInt8
  lba4 : UInt8
  lba5 : UInt8
  countl : UInt8
  counth : UInt8

/-
  A region of memory: where it starts in the caller's
  buffer, and its byte count less one.
-/
structure HbaPrdtEntry where
  dba : Nat
  dbc : Nat

namespace FisRegH2D

/- The sector address of a 28-bit command. -/
def lba28
    (fis : FisRegH2D) : Nat :=
  fis.lba0.toNat + 2 ^ 8 * fis.lba1.toNat +
    2 ^ 16 * fis.lba2.toNat +
    2 ^ 24 * (fis.device &&& 0x0F).toNat

/- The sector address of a 48-bit command. -/
def lba48
    (fis : FisRegH2D) : Nat :=
  fis.lba0.toNat + 2 ^ 8 * fis.lba1.toNat +
    2 ^ 16 * fis.lba2.toNat + 2 ^ 24 * fis.lba3.toNat +
    2 ^ 32 * fis.lba4.toNat + 2 ^ 40 * fis.lba5.toNat

/- The sector count of a 28-bit command, zero for 256. -/
def count28
    (fis : FisRegH2D) : Nat :=
  if fis.countl.toNat = 0 then 2 ^ 8 else fis.countl.toNat

/- The sector count of a 48-bit command, zero for 65536. -/
def count48
    (fis : FisRegH2D) : Nat :=
  let count := fis.countl.toNat + 2 ^ 8 * fis.counth.toNat
  if count = 0 then 2 ^ 16 else count

end FisRegH2D

/- Store a stream of `len` bytes into the regions in order. -/
def scatter
    {n : Nat} : List HbaPrdtEntry → (stream : Nat → UInt8) →
      (len : Nat) → ByteBuffer n → Option (ByteBuffer n)
  | [], _, _, buf => some buf
  | e :: es, stream, len, buf =>
      match memcpy buf e.dba stream (min (e.dbc + 1) len) with
      | none => none
      | some buf =>
          scatter es (fun j => stream (e.dbc + 1 + j))
            (len - (e.dbc + 1)) buf

/- Write `len` bytes of the regions to the disk in order. -/
def gather
    {n : Nat} : List HbaPrdtEntry → (pos len : Nat) →
      ByteBuffer n → Disk → Option Disk
  | [], _, _, _, disk => some disk
  | e :: es, pos, len, buf, disk =>
      if e.dba + min (e.dbc + 1) len ≤ n then
        gather es (pos + min (e.dbc + 1) len)
          (len - (e.dbc + 1)) buf fun j =>
            if pos ≤ j ∧ j < pos + min (e.dbc + 1) len then
              buf.get (e.dba + (j - pos))
            else disk j
      else none

/- The bytes of a sector. -/
abbrev sectorSize : Nat := 512

/- The command 0xC8 of the disk, READ DMA. -/
def FisRegH2D.readDma
    (fis : FisRegH2D)
    (prdt : List HbaPrdtEntry)
    {n : Nat}
    (buf : ByteBuffer n)
    (disk : Disk) : Option (ByteBuffer n) :=
  scatter prdt (fun j => disk (sectorSize * fis.lba28 + j))
    (sectorSize * fis.count28) buf

/- The command 0x35 of the disk, WRITE DMA EXT. -/
def FisRegH2D.writeDmaExt
    (fis : FisRegH2D)
    (prdt : List HbaPrdtEntry)
    {n : Nat}
    (buf : ByteBuffer n)
    (disk : Disk) : Option Disk :=
  gather prdt (sectorSize * fis.lba48)
    (sectorSize * fis.count48) buf disk

/-
  The disk executes a command on a buffer.  A command that
  the driver does not issue has no result.
-/
def FisRegH2D.execute
    (fis : FisRegH2D)
    (prdt : List HbaPrdtEntry)
    {n : Nat}
    (buf : ByteBuffer n)
    (disk : Disk) : Option (ByteBuffer n × Disk) :=
  if fis.command = 0xC8 then
    (fis.readDma prdt buf disk).map fun out => (out, disk)
  else if fis.command = 0x35 then
    (fis.writeDmaExt prdt buf disk).map fun out => (buf, out)
  else none

------------------------------------------------------------
-- The Driver
------------------------------------------------------------

/- The constant `ATA_CMD_READ_DMA_EX`. -/
abbrev ataCmdReadDmaEx : UInt8 := 0xC8

/- The constant `ATA_CMD_WRITE_DMA_EX`. -/
abbrev ataCmdWriteDmaEx : UInt8 := 0x35

/- The number of regions, the field `prdtl`. -/
def prdtl
    (count : UInt32) : UInt16 :=
  ((count - 1) >>> 4).toUInt16 + 1

/-
  The loop over the regions: `more` entries of byte count
  `chunk` and a last one, each 4 KiB after the one before,
  and what is left of `count`.
-/
def prdtEntries
    (chunk : Nat)
    (last : UInt32 → Nat) :
    (more off : Nat) → (count : UInt32) →
      List HbaPrdtEntry × UInt32
  | 0, off, count => ([⟨off, last count⟩], count)
  | more + 1, off, count =>
      let rest := prdtEntries chunk last more (off + 4 * 1024)
        (count - 16)
      (⟨off, chunk⟩ :: rest.1, rest.2)

/- The FIS that both commands fill in. -/
def fisRegH2D
    (command : UInt8)
    (startl starth count : UInt32) : FisRegH2D where
  command := command
  device := (1 : UInt8) <<< 6
  lba0 := startl.toUInt8
  lba1 := (startl >>> 8).toUInt8
  lba2 := (startl >>> 16).toUInt8
  lba3 := (startl >>> 24).toUInt8
  lba4 := starth.toUInt8
  lba5 := (starth >>> 8).toUInt8
  countl := (count &&& 0xFF).toUInt8
  counth := ((count >>> 8) &&& 0xFF).toUInt8

/- Read sectors into a buffer. -/
def read
    (startl starth count : UInt32)
    {n : Nat}
    (buf : ByteBuffer n)
    (disk : Disk) : Option (UInt8 × ByteBuffer n × Disk) :=
  let regions := prdtEntries (8 * 1024 - 1)
    (fun c => ((c <<< 9) - 1).toNat % 2 ^ 22)
    ((prdtl count).toNat - 1) 0 count
  ((fisRegH2D ataCmdReadDmaEx startl starth
    regions.2).execute regions.1 buf disk).map fun out => (0, out)

/- Write sectors from a buffer. -/
def write
    (startl starth count : UInt32)
    {n : Nat}
    (buf : ByteBuffer n)
    (disk : Disk) : Option (UInt8 × ByteBuffer n × Disk) :=
  let regions := prdtEntries (4096 - 1)
    (fun c => ((c * 512) % 4096 - 1).toNat % 2 ^ 22)
    ((prdtl count).toNat - 1) 0 count
  ((fisRegH2D ataCmdWriteDmaEx startl starth
    regions.2).execute regions.1 buf disk).map fun out => (0, out)

def ahciWrite
    (lba : UInt64)
    (count : UInt32)
    {n : Nat}
    (buf : ByteBuffer n)
    (disk : Disk) : Option (UInt8 × ByteBuffer n × Disk) :=
  let startl := lba.toUInt32 &&& 0xFFFFFFFF
  let starth := ((lba &&& 0xFFFFFFFF00000000) >>> 32).toUInt32
  write startl starth count buf disk

def ahciRead
    (lba : UInt64)
    (count : UInt32)
    {n : Nat}
    (buf : ByteBuffer n)
    (disk : Disk) : Option (UInt8 × ByteBuffer n × Disk) :=
  let startl := lba.toUInt32 &&& 0xFFFFFFFF
  let starth := ((lba &&& 0xFFFFFFFF00000000) >>> 32).toUInt32
  read startl starth count buf disk

------------------------------------------------------------
-- The Block Device
------------------------------------------------------------

/- The constants of the block device. -/
abbrev logicalBlockSize64 : UInt64 := 4096

abbrev logicalBlockSize32 : UInt32 := 4096

def ahciReadWrapper
    (lbn : UInt64)
    (count : UInt32)
    {n : Nat}
    (buf : ByteBuffer n)
    (disk : Disk) : Option (UInt8 × ByteBuffer n × Disk) :=
  let lba := (lbn * logicalBlockSize64) / 512
  let sectorCount := (count * logicalBlockSize32) / 512
  ahciRead lba sectorCount buf disk

def ahciWriteWrapper
    (lbn : UInt64)
    (count : UInt32)
    {n : Nat}
    (buf : ByteBuffer n)
    (disk : Disk) : Option (UInt8 × ByteBuffer n × Disk) :=
  let lba := (lbn * logicalBlockSize64) / 512
  let sectorCount := (count * logicalBlockSize32) / 512
  ahciWrite lba sectorCount buf disk

/- Read a block of the file system from the disk. -/
def ext2ReadBlock
    (blockId : UInt32)
    {n : Nat}
    (buff : ByteBuffer n)
    (disk : Disk) : Option (UInt8 × ByteBuffer n × Disk) :=
  ahciReadWrapper blockId.toUInt64 1 buff disk

/- Write a block of the file system to the disk. -/
def ext2WriteBlock
    (blockId : UInt32)
    {n : Nat}
    (buff : ByteBuffer n)
    (disk : Disk) : Option (UInt8 × ByteBuffer n × Disk) :=
  ahciWriteWrapper blockId.toUInt64 1 buff disk

end Ahci

end Ester
