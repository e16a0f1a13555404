import Mathlib.Logic.Function.Basic
import Ester.Ext2.Types

/-
  The state of the file system and the block transfers of
  fs/ext2/device.c.

  The state is the disk together with the static structures
  of the ext2 code: superblock, group descriptor table,
  current inode and open file.  The device may fail: the
  fault list says how it answers the next transfers, and
  answers all later ones with success.

  Key definitions include:
    * `Fault`
    * `DataWrite`
    * `Fs`
    * `ext2ReadBlock`, `ext2WriteBlock`
    * `ext2GetBlockSize`
    * `readLocal`
    * `Fs.Steady`

  Key theorems include:
    * `readLocal_of_steady`
    * `ext2WriteBlock_of_steady`
-/

------------------------------------------------------------
-- State
------------------------------------------------------------

namespace Ester

namespace Ext2

/-
  The device's answer to one transfer: `none` succeeds, and
  `some junk` fails, leaving `junk` in the buffer of a read
  and the disk as it was.
-/
abbrev Fault : Type :=
  Option Block

/-
  History variable: one block written as file data, with the
  file's position and inode at that moment.  `spilled` marks
  the part of a write that runs into the next block.  No
  function reads it back.
-/
structure DataWrite where
  block : UInt32
  inodeNum : UInt32
  inode : Inode
  pos : UInt32
  spilled : Bool

/- Disk, device answers and the static data of fs/ext2. -/
structure Fs where
  disk : UInt32 → Block
  faults : List Fault
  sb : SuperBlock
  bgdt : Bgdt
  currentInode : Inode
  file : File
  dataWrites : List DataWrite

namespace Fs

/- The state with another content of one block. -/
def putBlock
    (s : Fs)
    (blockId : UInt32)
    (content : Block) : Fs :=
  { s with disk := Function.update s.disk blockId content }

@[simp] theorem putBlock_disk_self
    (s : Fs)
    (blockId : UInt32)
    (content : Block) :
    (s.putBlock blockId content).disk blockId = content := by
  simp [putBlock]

theorem putBlock_disk
    (s : Fs)
    (blockId : UInt32)
    (content : Block)
    (n : UInt32) :
    (s.putBlock blockId content).disk n =
      if n = blockId then content else s.disk n := by
  simp [putBlock, Function.update_apply]

@[simp] theorem putBlock_disk_of_ne
    (s : Fs)
    {blockId n : UInt32}
    (content : Block)
    (h : n ≠ blockId) :
    (s.putBlock blockId content).disk n = s.disk n := by
  simp [putBlock, h]

/- The state with another superblock in memory. -/
def setSb
    (s : Fs)
    (sb : SuperBlock) : Fs :=
  { s with sb := sb }

/- The state with another descriptor table in memory. -/
def setBgdt
    (s : Fs)
    (bgdt : Bgdt) : Fs :=
  { s with bgdt := bgdt }

/- The state with another current inode. -/
def setCurrentInode
    (s : Fs)
    (inode : Inode) : Fs :=
  { s with currentInode := inode }

variable (s : Fs) (blockId : UInt32) (content : Block)
variable (sb : SuperBlock) (bgdt : Bgdt) (inode : Inode)

@[simp] theorem putBlock_faults :
    (s.putBlock blockId content).faults = s.faults := rfl

@[simp] theorem putBlock_sb :
    (s.putBlock blockId content).sb = s.sb := rfl

@[simp] theorem putBlock_bgdt :
    (s.putBlock blockId content).bgdt = s.bgdt := rfl

@[simp] theorem putBlock_currentInode :
    (s.putBlock blockId content).currentInode =
      s.currentInode := rfl

@[simp] theorem putBlock_file :
    (s.putBlock blockId content).file = s.file := rfl

@[simp] theorem putBlock_dataWrites :
    (s.putBlock blockId content).dataWrites =
      s.dataWrites := rfl

@[simp] theorem setSb_disk :
    (s.setSb sb).disk = s.disk := rfl

@[simp] theorem setSb_faults :
    (s.setSb sb).faults = s.faults := rfl

@[simp] theorem setSb_sb :
    (s.setSb sb).sb = sb := rfl

@[simp] theorem setSb_bgdt :
    (s.setSb sb).bgdt = s.bgdt := rfl

@[simp] theorem setSb_currentInode :
    (s.setSb sb).currentInode = s.currentInode := rfl

@[simp] theorem setSb_file :
    (s.setSb sb).file = s.file := rfl

@[simp] theorem setSb_dataWrites :
    (s.setSb sb).dataWrites = s.dataWrites := rfl

@[simp] theorem setBgdt_disk :
    (s.setBgdt bgdt).disk = s.disk := rfl

@[simp] theorem setBgdt_faults :
    (s.setBgdt bgdt).faults = s.faults := rfl

@[simp] theorem setBgdt_sb :
    (s.setBgdt bgdt).sb = s.sb := rfl

@[simp] theorem setBgdt_bgdt :
    (s.setBgdt bgdt).bgdt = bgdt := rfl

@[simp] theorem setBgdt_currentInode :
    (s.setBgdt bgdt).currentInode = s.currentInode := rfl

@[simp] theorem setBgdt_file :
    (s.setBgdt bgdt).file = s.file := rfl

@[simp] theorem setBgdt_dataWrites :
    (s.setBgdt bgdt).dataWrites = s.dataWrites := rfl

@[simp] theorem setCurrentInode_disk :
    (s.setCurrentInode inode).disk = s.disk := rfl

@[simp] theorem setCurrentInode_faults :
    (s.setCurrentInode inode).faults = s.faults := rfl

@[simp] theorem setCurrentInode_sb :
    (s.setCurrentInode inode).sb = s.sb := rfl

@[simp] theorem setCurrentInode_bgdt :
    (s.setCurrentInode inode).bgdt = s.bgdt := rfl

@[simp] theorem setCurrentInode_currentInode :
    (s.setCurrentInode inode).currentInode = inode := rfl

@[simp] theorem setCurrentInode_file :
    (s.setCurrentInode inode).file = s.file := rfl

@[simp] theorem setCurrentInode_dataWrites :
    (s.setCurrentInode inode).dataWrites = s.dataWrites := rfl

end Fs

------------------------------------------------------------
-- Transfers
------------------------------------------------------------

/- Read one block: error code, buffer content, new state. -/
def ext2ReadBlock
    (blockId : UInt32)
    (s : Fs) : UInt8 × Block × Fs :=
  match s.faults with
  | [] => (0, s.disk blockId, s)
  | none :: rest =>
      (0, s.disk blockId, { s with faults := rest })
  | some junk :: rest => (1, junk, { s with faults := rest })

/- Write one block: error code and new state. -/
def ext2WriteBlock
    (blockId : UInt32)
    (buff : Block)
    (s : Fs) : UInt8 × Fs :=
  match s.faults with
  | [] => (0, s.putBlock blockId buff)
  | none :: rest =>
      (0, { s.putBlock blockId buff with faults := rest })
  | some _ :: rest => (1, { s with faults := rest })

/- The block size the superblock announces. -/
def ext2GetBlockSize
    (s : Fs) : UInt32 :=
  1024 <<< s.sb.sLogBlockSize

def ext2GetInodesPerGroup
    (s : Fs) : UInt32 :=
  s.sb.sInodesPerGroup

def ext2GetInodeSize
    (s : Fs) : UInt16 :=
  s.sb.sInodeSize

/-
  Read a block into a local array of `ext2_get_block_size()`
  bytes.  A transfer always moves 4096 bytes, so an array of
  another size is overrun or left partly unset; both are
  outside the model.
-/
def readLocal
    (blockId : UInt32)
    (s : Fs) : Option (UInt8 × Block × Fs) :=
  if ext2GetBlockSize s = 4096 then
    some (ext2ReadBlock blockId s)
  else none

------------------------------------------------------------
-- Steady States
------------------------------------------------------------

/-
  The device answers every transfer with success and the
  superblock announces the size the device transfers.
-/
structure Fs.Steady (s : Fs) : Prop where
  faults : s.faults = []
  blockSize : ext2GetBlockSize s = 4096

theorem ext2ReadBlock_of_steady
    {s : Fs}
    (h : s.Steady)
    (blockId : UInt32) :
    ext2ReadBlock blockId s = (0, s.disk blockId, s) := by
  simp [ext2ReadBlock, h.faults]

theorem readLocal_of_steady
    {s : Fs}
    (h : s.Steady)
    (blockId : UInt32) :
    readLocal blockId s = some (0, s.disk blockId, s) := by
  simp [readLocal, h.blockSize, ext2ReadBlock_of_steady h]

theorem ext2WriteBlock_of_steady
    {s : Fs}
    (h : s.Steady)
    (blockId : UInt32)
    (buff : Block) :
    ext2WriteBlock blockId buff s =
      (0, s.putBlock blockId buff) := by
  simp [ext2WriteBlock, h.faults]

namespace Fs.Steady

variable {s : Fs} (h : s.Steady)
include h

theorem putBlock
    (blockId : UInt32)
    (content : Block) :
    (s.putBlock blockId content).Steady :=
  ⟨h.faults, h.blockSize⟩

theorem setBgdt
    (bgdt : Bgdt) :
    (s.setBgdt bgdt).Steady :=
  ⟨h.faults, h.blockSize⟩

/- The block size is the superblock's. -/
theorem setSb
    {sb : SuperBlock}
    (hSize : sb.sLogBlockSize = s.sb.sLogBlockSize) :
    (s.setSb sb).Steady :=
  ⟨h.faults, by
    simpa [ext2GetBlockSize, hSize] using h.blockSize⟩

theorem setCurrentInode
    (inode : Inode) :
    (s.setCurrentInode inode).Steady :=
  ⟨h.faults, h.blockSize⟩

end Fs.Steady

end Ext2

end Ester
