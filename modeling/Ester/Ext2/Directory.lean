import Ester.Kernel.String
import Ester.Ext2.Inode

/-
  Paths and directories: fs/ext2/directory.c.

  Key definitions include:
    * `UnpackedPath`
    * `unpackDirPath`
    * `ext2ListDirectory`
    * `ext2AddDirEntry`
-/

------------------------------------------------------------
-- Path Components
------------------------------------------------------------

namespace Ester

namespace Ext2

/- Bytes of one row of an unpacked path. -/
abbrev rowLen : Nat := ext2NameLen + 2

/- The array `char [MAX_PATH_DEPTH][EXT2_NAME_LEN+2]`. -/
abbrev UnpackedPath : Type :=
  ByteBuffer (maxPathDepth * rowLen)

/- The string a row pointer shows. -/
def UnpackedPath.row
    (rows : UnpackedPath)
    (j : Nat) : List UInt8 :=
  rows.bytesFrom (j * rowLen)

/- Store a character in row `j`, column `k`. -/
def UnpackedPath.put
    (rows : UnpackedPath)
    (j k : Nat)
    (c : UInt8) : Option UnpackedPath :=
  if j * rowLen + k < maxPathDepth * rowLen then
    some (rows.store (j * rowLen + k) c)
  else none

/- The character `/`. -/
abbrev slash : UInt8 := 47

/-
  The loop of `unpackDirPath` over the remaining path, with
  the last character consumed.  It ends at the terminator
  and yields that character, the row and the column.
-/
def unpackLoop :
    (path : List UInt8) → (last : Option UInt8) →
      (j k : Nat) → UnpackedPath →
        Option (Option UInt8 × Nat × Nat × UnpackedPath)
  | [], _, _, _, _ => none
  | c :: path, last, j, k, rows =>
      if c = 0 then some (last, j, k, rows)
      else do
        let rows ← rows.put j k c
        if c = slash then do
          -- the root row keeps its "/", the others lose it
          let rows ←
            if j = 0 then rows.put j (k + 1) 0
            else rows.put j k 0
          unpackLoop path (some c) (j + 1) 0 rows
        else unpackLoop path (some c) j (k + 1) rows

/-
  Parse and unpack a directory path: the number of rows
  filled and the rows.  An empty path makes the source read
  before the string, which has no result.
-/
def unpackDirPath
    (dirPath : List UInt8)
    (rows : UnpackedPath) : Option (UInt16 × UnpackedPath) := do
  let (last, j, k, rows) ← unpackLoop dirPath none 0 0 rows
  let c ← last
  if c ≠ slash then do
    let rows ← rows.put j (k + 1) 0
    some (UInt16.ofNat (j + 1), rows)
  else some (UInt16.ofNat j, rows)

------------------------------------------------------------
-- Listing
------------------------------------------------------------

/- The permission bit the code takes for "directory". -/
def Inode.isDir
    (inode : Inode) : Bool :=
  inode.iTypePermission &&& 0x4000 ≠ 0

/- The permission bit the code takes for "file". -/
def Inode.isFile
    (inode : Inode) : Bool :=
  inode.iTypePermission &&& 0x8000 ≠ 0

/- The entry header at an offset of a block. -/
def entryAt
    (buffer : Block)
    (offset : Nat) : DirEntry :=
  dirEntryCodec.decode (buffer.slice offset)

/-
  Deliver the entries of one block.  `room` counts the free
  slots left in the caller's array, so that the next slot is
  `MAX_SUBDIRS - room`.  The flag tells that the array was
  full and the listing stops.
-/
def listBlock
    (buffer : Block) :
    (room offset : Nat) → DirEntries →
      Option (Bool × Nat × DirEntries)
  | 0, offset, entries =>
      some (decide (offset < logicalBlockSize), 0, entries)
  | room + 1, offset, entries =>
      if logicalBlockSize ≤ offset then
        some (false, room + 1, entries)
      else if logicalBlockSize < offset + 4 then none
      else if (entryAt buffer offset).dirInode = 0 then
        some (false, room + 1, entries)
      else
        let entry := entryAt buffer offset
        let len := entry.dirNameLen.toNat
        if logicalBlockSize < offset + 8 + len then none
        else
          let slot : Fin maxSubdirs :=
            ⟨maxSubdirs - (room + 1),
              Nat.sub_lt (by decide) (by omega)⟩
          let copied : DirEntryFixedName :=
            ⟨entry, (entries slot).dirName.splice 0 len
              (buffer.slice (offset + 8))⟩
          listBlock buffer room
            (offset + entry.dirEntrySize.toNat)
            (Function.update entries slot copied)

/- Deliver the entries of consecutive blocks. -/
def listBlocks :
    (blocks : List UInt32) → (room : Nat) → DirEntries →
      Fs → Option (Nat × DirEntries × Fs)
  | [], room, entries, s => some (room, entries, s)
  | block :: blocks, room, entries, s =>
      if block = 0 then some (room, entries, s)
      else do
        let (_, buffer, s) ← readLocal block s
        let (full, room, entries) ←
          listBlock buffer room 0 entries
        if full then some (room, entries, s)
        else listBlocks blocks room entries s

/-
  Ext2 list directory: the number of entries delivered and
  the caller's array.
-/
def ext2ListDirectory
    (dirInodeNum : UInt32)
    (entries : DirEntries)
    (s : Fs) : Option (Nat × DirEntries × Fs) := do
  let s ← ext2ExtractInode dirInodeNum s
  if s.currentInode.isDir then do
    let (room, entries, s) ← listBlocks
      s.currentInode.directBlocks maxSubdirs entries s
    some (maxSubdirs - room, entries, s)
  else some (0, entries, s)

------------------------------------------------------------
-- Adding an Entry
------------------------------------------------------------

/- Round a record length up to a multiple of four. -/
def alignFour
    (size : UInt32) : UInt32 :=
  (size + 3) &&& ~~~3

/- Outcome of walking one block for the last entry. -/
inductive AddResult where
  | full
  | passed (room : Nat)
  | added (buffer : Block)

/-
  Split the entry at `offset`, which is the last one: shrink
  it and place the new entry behind it.
-/
def splitLast
    (buffer : Block)
    (offset : Nat)
    (inodeNum : UInt32)
    (name : List UInt8) : Option Block := do
  let len ← strlen name
  let entry := entryAt buffer offset
  let newEntrySize := alignFour (8 + UInt32.ofNat len)
  let oldRecLen := entry.dirEntrySize
  let size := (UInt32.ofNat offset + newEntrySize).toUInt16
  let buffer ← memcpy buffer offset
    (dirEntryCodec.encode { entry with dirEntrySize := size })
    dirEntryCodec.size
  let newOffset := offset + size.toNat
  let newEntry : DirEntry :=
    { dirInode := inodeNum
      dirEntrySize := oldRecLen - size
      dirNameLen := UInt8.ofNat len
      dirType := 0 }
  let buffer ← memcpy buffer newOffset
    (dirEntryCodec.encode newEntry) dirEntryCodec.size
  memcpy buffer (newOffset + 8) (fun i => name.getD i 0) len

/- Walk one block to its last entry and split it there. -/
def addInBlock
    (buffer : Block)
    (inodeNum : UInt32)
    (name : List UInt8) :
    (room offset : Nat) → Option AddResult
  | 0, offset =>
      some (if offset < logicalBlockSize then .full
        else .passed 0)
  | room + 1, offset =>
      if logicalBlockSize ≤ offset then
        some (.passed (room + 1))
      else if logicalBlockSize < offset + 6 then none
      else
        let size := (entryAt buffer offset).dirEntrySize.toNat
        if logicalBlockSize ≤ offset + size then
          (splitLast buffer offset inodeNum name).map .added
        else addInBlock buffer inodeNum name room (offset + size)

/- Walk the blocks of a directory for a place. -/
def addInBlocks
    (inodeNum : UInt32)
    (name : List UInt8) :
    (blocks : List UInt32) → (room : Nat) → Fs →
      Option (UInt8 × Fs)
  | [], _, s => some (1, s)
  | block :: blocks, room, s =>
      if block = 0 then some (1, s)
      else do
        let (_, buffer, s) ← readLocal block s
        match ← addInBlock buffer inodeNum name room 0 with
        | .full => some (1, s)
        | .passed room =>
            addInBlocks inodeNum name blocks room s
        | .added buffer =>
            let (_, s) := ext2WriteBlock block buffer s
            some (0, s)

/- Ext2 add dir entry: an entry for an inode and a name. -/
def ext2AddDirEntry
    (dirInode : Inode)
    (newEntryInodeNum : UInt32)
    (newEntryName : List UInt8)
    (s : Fs) : Option (UInt8 × Fs) :=
  if dirInode.isDir then
    addInBlocks newEntryInodeNum newEntryName
      dirInode.directBlocks maxSubdirs s
  else some (0, s)

end Ext2

end Ester
