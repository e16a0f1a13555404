import Ester.Kernel.Mem
import Ester.Library.Bitmap
import Ester.Ext2.Device

/-
  Mounting, write-back and allocation: fs/ext2/superblock.c
  and fs/ext2/group.c.

  The two allocators of the source differ in the bitmap they
  scan, the counters they decrease and the number they
  return; `ext2FreeAlloc` is their common body over a
  `Resource`.  Both scan `s_inodes_per_group` bits.

  Key definitions include:
    * `ext2ExtractSb`, `ext2WriteSb`
    * `ext2ExtractBgdt`, `ext2WriteBgdt`
    * `Resource` and `ext2FreeAlloc`
    * `ext2FreeInodeAlloc`, `ext2FreeBlockAlloc`
-/

------------------------------------------------------------
-- Superblock and Group Descriptors
------------------------------------------------------------

namespace Ester

namespace Ext2

/- Ext2 superblock extractor. -/
def ext2ExtractSb
    (s : Fs) : UInt8 × Fs :=
  let (err, buffer, s) := ext2ReadBlock 0 s
  if err ≠ 0 then (255, s)
  else
    let s := s.setSb
      (superBlockCodec.decode (buffer.slice 1024))
    if s.sb.sMagic ≠ 0xEF53 then (255, s) else (0, s)

/- Save the superblock back on the disk. -/
def ext2WriteSb
    (s : Fs) : Option (UInt8 × Fs) := do
  let (err, buffer, s) ← readLocal 0 s
  if err ≠ 0 then
    some (1, s)
  else do
    let buffer ← memcpy buffer 1024
      (superBlockCodec.encode s.sb) superBlockCodec.size
    let (_, s) := ext2WriteBlock 0 buffer s
    some (0, s)

/- Get block group descriptor: its index in the table. -/
def ext2GetBgd
    (groupNum : UInt32) : Option (Fin maxGroups) :=
  if h : groupNum.toNat < maxGroups then
    some ⟨groupNum.toNat, h⟩
  else none

/- Block group descriptor table extractor. -/
def ext2ExtractBgdt
    (s : Fs) : Option (UInt8 × Fs) := do
  let (_, buffer, s) ← readLocal 1 s
  some (0, s.setBgdt (bgdtCodec.decode (buffer.slice 0)))

/- Save the bgdt back to the disk. -/
def ext2WriteBgdt
    (s : Fs) : Option (UInt8 × Fs) := do
  let (_, buffer, s) ← readLocal 1 s
  let buffer ← memcpy buffer 0
    (bgdtCodec.encode s.bgdt) bgdtCodec.size
  let (_, s) := ext2WriteBlock 1 buffer s
  some (0, s)

------------------------------------------------------------
-- Allocation
------------------------------------------------------------

/- What an allocator hands out. -/
inductive Resource where
  | inode
  | block
deriving DecidableEq

namespace Resource

/- The bitmap that is scanned. -/
def bitmap : Resource → BlockGroupDescriptor → UInt32
  | inode, bgd => bgd.bgInodeBitmap
  | block, bgd => bgd.bgBlockBitmap

/- The bound of the scanning loop. -/
def bound : Resource → SuperBlock → UInt32
  | inode, sb => sb.sInodesPerGroup
  | block, sb => sb.sInodesPerGroup

/- Decrease the free count of the group. -/
def decBgd :
    Resource → BlockGroupDescriptor → BlockGroupDescriptor
  | inode, bgd =>
      { bgd with bgFreeInodesCount := bgd.bgFreeInodesCount - 1 }
  | block, bgd =>
      { bgd with bgFreeBlocksCount := bgd.bgFreeBlocksCount - 1 }

/- Decrease the free count of the file system. -/
def decSb : Resource → SuperBlock → SuperBlock
  | inode, sb =>
      { sb with sFreeInodesCount := sb.sFreeInodesCount - 1 }
  | block, sb =>
      { sb with sFreeBlocksCount := sb.sFreeBlocksCount - 1 }

/- The number of bit `i`; inode numbers start from 1. -/
def number :
    Resource → SuperBlock → (group i : UInt32) → UInt32
  | inode, sb, group, i => group * sb.sInodesPerGroup + i + 1
  | block, sb, group, i => group * sb.sBlocksPerGroup + i

end Resource

/-
  Scan a bitmap of one block for a clear bit below a limit.
  Reading past the block has no result.
-/
def scanBitmap
    (bitmap : Block)
    (limit : Nat) : Option (Option Nat) :=
  match bitmap.firstClear (min limit (8 * logicalBlockSize)) with
  | some i => some (some i)
  | none =>
      if limit ≤ 8 * logicalBlockSize then some none else none

/-
  Find a free inode or block of a group, mark it used and
  update the counters, on disk and in memory.
-/
def ext2FreeAlloc
    (r : Resource)
    (group : UInt32)
    (s : Fs) : Option (UInt32 × Fs) := do
  let g ← ext2GetBgd group
  let (_, bitmap, s) ← readLocal (r.bitmap (s.bgdt g)) s
  match ← scanBitmap bitmap (r.bound s.sb).toNat with
  | none => some (0, s)
  | some i => do
      let bitmap := bitmap.setBit i
      let (_, s) :=
        ext2WriteBlock (r.bitmap (s.bgdt g)) bitmap s
      let s := s.setBgdt
        (Function.update s.bgdt g (r.decBgd (s.bgdt g)))
      let (_, s) ← ext2WriteBgdt s
      let s := s.setSb (r.decSb s.sb)
      let (_, s) ← ext2WriteSb s
      some (r.number s.sb group (UInt32.ofNat i), s)

/- Allocate a free inode inside a group, 0 if there is none. -/
def ext2FreeInodeAlloc
    (group : UInt32)
    (s : Fs) : Option (UInt32 × Fs) :=
  ext2FreeAlloc .inode group s

/- Allocate a free block inside a group, 0 if there is none. -/
def ext2FreeBlockAlloc
    (group : UInt32)
    (s : Fs) : Option (UInt32 × Fs) :=
  ext2FreeAlloc .block group s

end Ext2

end Ester
