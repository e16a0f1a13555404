import Ester.Ext2.Superblock

/-
  Reading and writing inodes by number: fs/ext2/inode.c.

  Key definitions include:
    * `inodeSlot`
    * `ext2ExtractInode`
    * `ext2InodeWrite`
-/

------------------------------------------------------------
-- Inode Table Slots
------------------------------------------------------------

namespace Ester

namespace Ext2

/-
  Block and offset of an inode in its group's inode table,
  as both functions below compute them.
-/
def inodeSlot
    (inodeNum : UInt32)
    (s : Fs) : Option (UInt32 × UInt32) := do
  let inodeSize := (ext2GetInodeSize s).toUInt32
  let perGroup := ext2GetInodesPerGroup s
  -- the division by zero traps
  if perGroup = 0 then none
  else do
    let group := (inodeNum - 1) / perGroup
    let index := (inodeNum - 1) % perGroup
    let g ← ext2GetBgd group
    let blockSize := ext2GetBlockSize s
    let block := (s.bgdt g).bgInodeTable +
      (index * inodeSize) / blockSize
    let offset := (index * inodeSize) % blockSize
    some (block, offset)

/- Ext2 inode extractor: read an inode into `currentInode`. -/
def ext2ExtractInode
    (inodeNum : UInt32)
    (s : Fs) : Option Fs := do
  let (block, offset) ← inodeSlot inodeNum s
  let (_, buffer, s) ← readLocal block s
  if offset.toNat + inodeCodec.size ≤ logicalBlockSize then
    some (s.setCurrentInode
      (inodeCodec.decode (buffer.slice offset.toNat)))
  else none

/- Ext2 inode write: save an inode on the disk. -/
def ext2InodeWrite
    (inodeNum : UInt32)
    (inode : Inode)
    (s : Fs) : Option Fs := do
  let (block, offset) ← inodeSlot inodeNum s
  let (_, buffer, s) ← readLocal block s
  let buffer ← memcpy buffer offset.toNat
    (inodeCodec.encode inode) inodeCodec.size
  let (_, s) := ext2WriteBlock block buffer s
  some s

end Ext2

end Ester
