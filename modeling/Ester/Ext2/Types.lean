import Mathlib.Tactic.FinCases
import Ester.Library.Buffer
import Ester.Library.Codec

/-
  The on-disk structures and the open-file structure of
  fs/ext2/ext2.h.

  Structures that live on disk come with the packed layout
  the C compiler gives them, in the order of their fields;
  `memcpy` between a structure and a block buffer is that
  layout's `encode` or `decode`.

  Key definitions include:
    * `SuperBlock` and `superBlockCodec`
    * `BlockGroupDescriptor` and `bgdtCodec`
    * `Inode` and `inodeCodec`
    * `DirEntry` and `dirEntryCodec`
    * `DirEntryFixedName`
    * `File`
-/

------------------------------------------------------------
-- Sizes
------------------------------------------------------------

namespace Ester

namespace Ext2

/- Filename max length. -/
abbrev ext2NameLen : Nat := 255

/- Number of direct blocks of an inode. -/
abbrev ext2NdirBlocks : Nat := 12

/- Total number of block pointers of an inode. -/
abbrev ext2NBlocks : Nat := 15

instance : NeZero ext2NBlocks := ⟨by decide⟩

/- Max number of entries in a directory. -/
abbrev maxSubdirs : Nat := 128

/- Max path total char length. -/
abbrev maxPathLen : Nat := 4096

/- Max level in a path. -/
abbrev maxPathDepth : Nat := 10

/- The buffer size of a file. -/
abbrev buffSize : Nat := 4096

/- Entries of the block group descriptor table in memory. -/
abbrev maxGroups : Nat := 128

instance : NeZero maxGroups := ⟨by decide⟩

/- What one transfer of the block device moves. -/
abbrev logicalBlockSize : Nat := 4096

/- One block of the device. -/
abbrev Block : Type :=
  ByteBuffer logicalBlockSize

------------------------------------------------------------
-- Superblock
------------------------------------------------------------

open PackedCodec

/-
  The superblock.  The last field is the compiler's padding
  of the structure to a multiple of four bytes, which every
  `memcpy` of `sizeof(ext2_super_block_t)` carries along.
-/
structure SuperBlock where
  sInodesCount : UInt32
  sBlocksCount : UInt32
  sRBlocksCount : UInt32
  sFreeBlocksCount : UInt32
  sFreeInodesCount : UInt32
  sBlockSb : UInt32
  sLogBlockSize : UInt32
  sLogFragSize : UInt32
  sBlocksPerGroup : UInt32
  sFragsPerGroup : UInt32
  sInodesPerGroup : UInt32
  sMtime : UInt32
  sWtime : UInt32
  sMntCount : UInt16
  sMaxMntCount : UInt16
  sMagic : UInt16
  sState : UInt16
  sErrors : UInt16
  sMinorRevLevel : UInt16
  sLastcheck : UInt32
  sCheckinterval : UInt32
  sCreatorOs : UInt32
  sRevLevel : UInt32
  sDefResuid : UInt16
  sDefResgid : UInt16
  sFirstFreeInode : UInt32
  sInodeSize : UInt16
  padding : UInt16
deriving DecidableEq, Inhabited

/- The bytes of a superblock, field after field. -/
def superBlockCodec : PackedCodec SuperBlock :=
  (word32.pair <| word32.pair <| word32.pair <|
    word32.pair <| word32.pair <| word32.pair <|
    word32.pair <| word32.pair <| word32.pair <|
    word32.pair <| word32.pair <| word32.pair <|
    word32.pair <|
    word16.pair <| word16.pair <| word16.pair <|
    word16.pair <| word16.pair <| word16.pair <|
    word32.pair <| word32.pair <| word32.pair <|
    word32.pair <|
    word16.pair <| word16.pair <|
    word32.pair <|
    word16.pair <| word16).iso
  { toFun := fun (a, b, c, d, e, f, g, h, i, j, k, l, m,
      n, o, p, q, r, s, t, u, v, w, x, y, z, z₁, z₂) =>
        ⟨a, b, c, d, e, f, g, h, i, j, k, l, m,
          n, o, p, q, r, s, t, u, v, w, x, y, z, z₁, z₂⟩
    invFun := fun s =>
      (s.sInodesCount, s.sBlocksCount, s.sRBlocksCount,
        s.sFreeBlocksCount, s.sFreeInodesCount, s.sBlockSb,
        s.sLogBlockSize, s.sLogFragSize, s.sBlocksPerGroup,
        s.sFragsPerGroup, s.sInodesPerGroup, s.sMtime,
        s.sWtime, s.sMntCount, s.sMaxMntCount, s.sMagic,
        s.sState, s.sErrors, s.sMinorRevLevel, s.sLastcheck,
        s.sCheckinterval, s.sCreatorOs, s.sRevLevel,
        s.sDefResuid, s.sDefResgid, s.sFirstFreeInode,
        s.sInodeSize, s.padding)
    left_inv := fun _ => rfl
    right_inv := fun _ => rfl }

@[simp] theorem superBlockCodec_size :
    superBlockCodec.size = 92 := rfl

------------------------------------------------------------
-- Block Group Descriptors
------------------------------------------------------------

/- The descriptor of a block group. -/
structure BlockGroupDescriptor where
  bgBlockBitmap : UInt32
  bgInodeBitmap : UInt32
  bgInodeTable : UInt32
  bgFreeBlocksCount : UInt16
  bgFreeInodesCount : UInt16
  bgUsedDirsCount : UInt16
  bgPadding : UInt16
  bgUnused : Fin 3 → UInt32
deriving DecidableEq, Inhabited

def bgdCodec : PackedCodec BlockGroupDescriptor :=
  (word32.pair <| word32.pair <| word32.pair <|
    word16.pair <| word16.pair <| word16.pair <|
    word16.pair <| word32.array 3 (by decide)).iso
  { toFun := fun (a, b, c, d, e, f, g, h) =>
      ⟨a, b, c, d, e, f, g, h⟩
    invFun := fun s =>
      (s.bgBlockBitmap, s.bgInodeBitmap, s.bgInodeTable,
        s.bgFreeBlocksCount, s.bgFreeInodesCount,
        s.bgUsedDirsCount, s.bgPadding, s.bgUnused)
    left_inv := fun _ => rfl
    right_inv := fun _ => rfl }

@[simp] theorem bgdCodec_size :
    bgdCodec.size = 32 := rfl

/- The in-memory block group descriptor table. -/
abbrev Bgdt : Type :=
  Fin maxGroups → BlockGroupDescriptor

def bgdtCodec : PackedCodec Bgdt :=
  bgdCodec.array maxGroups (by decide)

@[simp] theorem bgdtCodec_size :
    bgdtCodec.size = 4096 := rfl

------------------------------------------------------------
-- Inodes
------------------------------------------------------------

/- An inode. -/
structure Inode where
  iTypePermission : UInt16
  iUserId : UInt16
  iLowerSize : UInt32
  iLastAccess : UInt32
  iCreation : UInt32
  iLastMod : UInt32
  iDel : UInt32
  iGroupId : UInt16
  iLinksCount : UInt16
  iDiskSectorsCount : UInt32
  iFlags : UInt32
  iOsSpecific1 : UInt32
  iBlock : Fin ext2NBlocks → UInt32
  iGenNumber : UInt32
  iExtAttBlock : UInt32
  iDirAcl : UInt32
  iFragBlock : UInt32
  iOsSpecific2 : Fin 3 → UInt32
deriving DecidableEq, Inhabited

def inodeCodec : PackedCodec Inode :=
  (word16.pair <| word16.pair <|
    word32.pair <| word32.pair <| word32.pair <|
    word32.pair <| word32.pair <|
    word16.pair <| word16.pair <|
    word32.pair <| word32.pair <| word32.pair <|
    (word32.array ext2NBlocks (by decide)).pair <|
    word32.pair <| word32.pair <| word32.pair <|
    word32.pair <| word32.array 3 (by decide)).iso
  { toFun := fun (a, b, c, d, e, f, g, h, i, j, k, l, m,
      n, o, p, q, r) =>
        ⟨a, b, c, d, e, f, g, h, i, j, k, l, m,
          n, o, p, q, r⟩
    invFun := fun s =>
      (s.iTypePermission, s.iUserId, s.iLowerSize,
        s.iLastAccess, s.iCreation, s.iLastMod, s.iDel,
        s.iGroupId, s.iLinksCount, s.iDiskSectorsCount,
        s.iFlags, s.iOsSpecific1, s.iBlock, s.iGenNumber,
        s.iExtAttBlock, s.iDirAcl, s.iFragBlock,
        s.iOsSpecific2)
    left_inv := fun _ => rfl
    right_inv := fun _ => rfl }

@[simp] theorem inodeCodec_size :
    inodeCodec.size = 128 := rfl

/- An inode with every byte zero. -/
def Inode.zero : Inode :=
  inodeCodec.decode fun _ => 0

/- The first twelve block pointers, in order. -/
def Inode.directBlocks
    (inode : Inode) : List UInt32 :=
  (List.finRange ext2NdirBlocks).map fun i =>
    inode.iBlock (i.castLE (by decide))

------------------------------------------------------------
-- Directory Entries
------------------------------------------------------------

/- The fixed part of a directory entry. -/
structure DirEntry where
  dirInode : UInt32
  dirEntrySize : UInt16
  dirNameLen : UInt8
  dirType : UInt8
deriving DecidableEq, Inhabited

def dirEntryCodec : PackedCodec DirEntry :=
  (word32.pair <| word16.pair <| word8.pair word8).iso
  { toFun := fun (a, b, c, d) => ⟨a, b, c, d⟩
    invFun := fun s =>
      (s.dirInode, s.dirEntrySize, s.dirNameLen, s.dirType)
    left_inv := fun _ => rfl
    right_inv := fun _ => rfl }

@[simp] theorem dirEntryCodec_size :
    dirEntryCodec.size = 8 := rfl

/- A directory entry copied out with room for any name. -/
structure DirEntryFixedName where
  entry : DirEntry
  dirName : ByteBuffer (ext2NameLen + 1)
deriving Inhabited

/- The array a directory listing is delivered into. -/
abbrev DirEntries : Type :=
  Fin maxSubdirs → DirEntryFixedName

------------------------------------------------------------
-- Open File
------------------------------------------------------------

/-
  The open file.  The byte flags `open`, `dirty` and `exist`
  only ever hold 0 or 1.
-/
structure File where
  inodeNum : UInt32
  mode : ByteBuffer 2
  isOpen : Bool
  pos : UInt32
  newBytesCount : UInt32
  dirty : Bool
  exist : Bool
  pathname : ByteBuffer maxPathLen
  buff : ByteBuffer buffSize
  inode : Inode

/- The descriptor as the loader leaves it: all zero. -/
def File.closed : File where
  inodeNum := 0
  mode := .fill 2 0
  isOpen := false
  pos := 0
  newBytesCount := 0
  dirty := false
  exist := false
  pathname := .fill maxPathLen 0
  buff := .fill buffSize 0
  inode := Inode.zero

instance : Inhabited File :=
  ⟨File.closed⟩

end Ext2

end Ester
