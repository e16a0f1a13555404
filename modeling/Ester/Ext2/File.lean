import Ester.Ext2.Lookup

/-
  The open-file operations of fs/ext2/file.c.

  Every operation works on the one static descriptor, which
  is part of the state.  The steps that seeking, writing and
  closing share in the source (creating a missing file,
  flushing, taking another block) are written once.

  Key definitions include:
    * `ext2SectorsToBlocks`, `ext2BlocksToSectors`
    * `CreateStack` and `ext2FileCreate`
    * `ext2Fopen`, `ext2Fclose`, `ext2Fread`
    * `ext2Fwrite`, `ext2Fseek`
    * `Call`, `Answer` and `exec`
-/

------------------------------------------------------------
-- Block Counts and Pointers
------------------------------------------------------------

namespace Ester

namespace Ext2

def ext2SectorsToBlocks
    (sectors : UInt32)
    (s : Fs) : UInt32 :=
  (sectors * 512) / ext2GetBlockSize s

def ext2BlocksToSectors
    (blocks : UInt32)
    (s : Fs) : UInt32 :=
  (blocks * ext2GetBlockSize s) / 512

/- The number of blocks the open file has allocated. -/
def allocatedBlocks
    (s : Fs) : UInt32 :=
  ext2SectorsToBlocks s.file.inode.iDiskSectorsCount s

/- The pointer `i_block[k]`; none past the array. -/
def Inode.blockPtr
    (inode : Inode)
    (k : Nat) : Option UInt32 :=
  if h : k < ext2NBlocks then some (inode.iBlock ⟨k, h⟩)
  else none

/- Store the pointer `i_block[k]`. -/
def Inode.setBlock
    (inode : Inode)
    (k : Fin ext2NBlocks)
    (block : UInt32) : Inode :=
  { inode with iBlock := Function.update inode.iBlock k block }

namespace Fs

/- The state with another open file. -/
def setFile
    (s : Fs)
    (file : File) : Fs :=
  { s with file := file }

/- The state with another inode in the open file. -/
def setFileInode
    (s : Fs)
    (inode : Inode) : Fs :=
  s.setFile { s.file with inode := inode }

/- The state with another buffer in the open file. -/
def setBuff
    (s : Fs)
    (buff : ByteBuffer buffSize) : Fs :=
  s.setFile { s.file with buff := buff }

variable (s : Fs) (file : File)

@[simp] theorem setFile_disk :
    (s.setFile file).disk = s.disk := rfl

@[simp] theorem setFile_faults :
    (s.setFile file).faults = s.faults := rfl

@[simp] theorem setFile_sb :
    (s.setFile file).sb = s.sb := rfl

@[simp] theorem setFile_bgdt :
    (s.setFile file).bgdt = s.bgdt := rfl

@[simp] theorem setFile_currentInode :
    (s.setFile file).currentInode = s.currentInode := rfl

@[simp] theorem setFile_file :
    (s.setFile file).file = file := rfl

@[simp] theorem setFile_dataWrites :
    (s.setFile file).dataWrites = s.dataWrites := rfl

end Fs

/-
  Write a block of file data.  The history variable records
  the write; the effect is that of `ext2_write_block`.
-/
def writeData
    (block : UInt32)
    (spilled : Bool)
    (content : Block)
    (s : Fs) : Fs :=
  let s := { s with
    dataWrites := s.dataWrites ++
      [{ block := block
         inodeNum := s.file.inodeNum
         inode := s.file.inode
         pos := s.file.pos
         spilled := spilled }] }
  (ext2WriteBlock block content s).2

------------------------------------------------------------
-- Creation
------------------------------------------------------------

/- What the local arrays of `ext2_file_create` start with. -/
structure CreateStack where
  unpackedPath : UnpackedPath
  parentPathname : ByteBuffer maxPathLen
  newInode : Inode
  find : FindStack

/- Local arrays that start zeroed. -/
def CreateStack.zero : CreateStack where
  unpackedPath := .fill _ 0
  parentPathname := .fill _ 0
  newInode := Inode.zero
  find := .zero

/- Glue the rows `i`, `i + 1`, ... onto a pathname. -/
def glueRows
    (rows : UnpackedPath) :
    (remaining i : Nat) → ByteBuffer maxPathLen →
      Option (ByteBuffer maxPathLen)
  | 0, _, path => some path
  | remaining + 1, i, path => do
      let len ← strlen (rows.row i)
      let path ← strncat path (rows.row i) len
      glueRows rows remaining (i + 1) path

/- The fields `ext2_file_create` sets in the new inode. -/
def initInode
    (garbage : Inode)
    (blockNum : UInt32)
    (s : Fs) : Inode :=
  { garbage.setBlock 0 blockNum with
    iTypePermission := 0x81A4
    iLinksCount := 1
    iDiskSectorsCount := ext2BlocksToSectors 1 s
    iLowerSize := 0 }

/-
  Commit a new inode: remember it in the open file, write it
  to its slot and enter it in the parent directory.
-/
def commitNew
    (parentInode : Inode)
    (inodeNum : UInt32)
    (newInode : Inode)
    (name : List UInt8)
    (s : Fs) : Option (UInt8 × Fs) := do
  let s := s.setFile { s.file with
    inodeNum := inodeNum
    inode := newInode }
  let s ← ext2InodeWrite inodeNum newInode s
  let (err, s) ← ext2AddDirEntry parentInode inodeNum name s
  if err ≠ 0 then some (1, s)
  else some (0, s.setFile { s.file with exist := true })

/-
  Create the file in a parent directory whose inode has been
  extracted.
-/
def createIn
    (parentInodeNum : UInt32)
    (garbage : Inode)
    (name : List UInt8)
    (s : Fs) : Option (UInt8 × Fs) := do
  let parentInode := s.currentInode
  if ¬ parentInode.isDir then some (1, s)
  else do
    let perGroup := ext2GetInodesPerGroup s
    if perGroup = 0 then none
    else do
      let group := (parentInodeNum - 1) / perGroup
      let (inodeNum, s) ← ext2FreeInodeAlloc group s
      if inodeNum = 0 then some (1, s)
      else do
        let (blockNum, s) ← ext2FreeBlockAlloc group s
        if blockNum = 0 then some (1, s)
        else
          commitNew parentInode inodeNum
            (initInode garbage blockNum s) name s

/- Ext2 file create. -/
def ext2FileCreate
    (stack : CreateStack)
    (s : Fs) : Option (UInt8 × Fs) := do
  let pathname := s.file.pathname.bytesFrom 0
  let len ← strlen pathname
  if maxPathLen < len then some (1, s)
  else do
    let (pathDepth, rows) ←
      unpackDirPath pathname stack.unpackedPath
    if maxPathDepth < pathDepth.toNat then some (1, s)
    else do
      let parent ← glueRows rows (pathDepth.toNat - 1) 0
        stack.parentPathname
      let (parentInodeNum, s) ←
        ext2InodeFind (parent.bytesFrom 0) stack.find s
      let s ← ext2ExtractInode parentInodeNum s
      createIn parentInodeNum stack.newInode
        (rows.row (pathDepth.toNat - 1)) s

/- Create the open file if it does not exist yet. -/
def ensureExists
    (stack : CreateStack)
    (s : Fs) : Option (UInt8 × Fs) :=
  if s.file.exist then some (0, s) else ext2FileCreate stack s

------------------------------------------------------------
-- Opening and Closing
------------------------------------------------------------

/- Fill the descriptor for a file that may be opened. -/
def openFile
    (pathname : List UInt8)
    (mode : UInt8)
    (inodeNum : UInt32)
    (exist : Bool)
    (s : Fs) : Option Fs := do
  let len ← strlen pathname
  let name ← memcpy s.file.pathname 0
    (fun i => pathname.getD i 0) len
  some (s.setFile {
    inodeNum := inodeNum
    mode := s.file.mode.store 0 mode
    isOpen := true
    pos := 0
    newBytesCount := 0
    dirty := false
    exist := exist
    pathname := name
    buff := .fill buffSize 0
    inode := s.currentInode })

/-
  Ext2 file open, over the lookup it calls.  `mode` is the
  first character of the mode, 119 is `w`.
-/
def fopenWith
    (find : List UInt8 → FindStack → Fs →
      Option (UInt32 × Fs))
    (pathname : List UInt8)
    (mode : UInt8)
    (stack : FindStack)
    (s : Fs) : Option Fs := do
  let len ← strlen pathname
  if maxPathLen < len then some s
  else if s.file.isOpen then some s
  else do
    let (inodeNum, s) ← find pathname stack s
    let s ← ext2ExtractInode inodeNum s
    if ¬ s.currentInode.isFile then
      if mode ≠ 119 then some s
      else openFile pathname mode inodeNum false s
    else openFile pathname mode inodeNum true s

/- Ext2 file open. -/
def ext2Fopen
    (pathname : List UInt8)
    (mode : UInt8)
    (stack : FindStack)
    (s : Fs) : Option Fs :=
  fopenWith ext2InodeFind pathname mode stack s

/-
  Save the buffer of a dirty file on the disk, and its inode
  when it has new bytes.
-/
def flush
    (s : Fs) : Option Fs := do
  let blockId := s.file.pos / ext2GetBlockSize s
  let blockNum ← s.file.inode.blockPtr blockId.toNat
  let s := writeData blockNum false s.file.buff s
  if s.file.newBytesCount > 0 then
    let s := s.setFileInode { s.file.inode with
      iLowerSize := s.file.pos + s.file.newBytesCount }
    ext2InodeWrite s.file.inodeNum s.file.inode s
  else some s

/- The descriptor after closing: everything zero. -/
def resetFile
    (s : Fs) : Fs :=
  s.setFile File.closed

/- Ext2 file close. -/
def ext2Fclose
    (stack : CreateStack)
    (s : Fs) : Option (UInt8 × Fs) :=
  if ¬ s.file.isOpen then some (1, s)
  else do
    let (err, s) ← ensureExists stack s
    if err ≠ 0 then some (0, resetFile s)
    else if s.file.dirty then do
      let s ← flush s
      some (0, resetFile s)
    else some (0, resetFile s)

------------------------------------------------------------
-- Reading
------------------------------------------------------------

/-
  Ext2 file read into the caller's memory `out`: error code,
  memory after the call, new state.
-/
def ext2Fread
    (out : Nat → UInt8)
    (size : UInt32)
    (s : Fs) : Option (UInt8 × (Nat → UInt8) × Fs) :=
  if ¬ s.file.isOpen then some (1, out, s)
  else
    let blockSize := ext2GetBlockSize s
    if size > blockSize then some (1, out, s)
    else if blockSize ≠ 4096 then none
    else
      let off := (s.file.pos % blockSize).toNat
      let len := size.toNat
      if off + len > blockSize.toNat then do
        let first := blockSize.toNat - off
        let blockId := s.file.pos / blockSize + 1
        let blockNum ← s.file.inode.blockPtr blockId.toNat
        let (_, tmp, s) ← readLocal blockNum s
        some (0, fun i =>
          if i < first then s.file.buff.get (off + i)
          else if i < len then tmp.get (i - first)
          else out i, s)
      else
        some (0, fun i =>
          if i < len then s.file.buff.get (off + i)
          else out i, s)

------------------------------------------------------------
-- Taking Another Block
------------------------------------------------------------

/-
  Allocate another block for the open file in the group of
  its inode and store its pointer at the next free index:
  error code, block number, new state.
-/
def growFile
    (s : Fs) : Option (UInt8 × UInt32 × Fs) := do
  let perGroup := ext2GetInodesPerGroup s
  if perGroup = 0 then none
  else do
    let allocated := allocatedBlocks s
    let group := (s.file.inodeNum - 1) / perGroup
    let (blockNum, s) ← ext2FreeBlockAlloc group s
    if blockNum = 0 then some (1, 0, s)
    else if h : allocated.toNat < ext2NdirBlocks then
      let inode := s.file.inode.setBlock
        ⟨allocated.toNat, Nat.lt_trans h (by decide)⟩ blockNum
      some (0, blockNum, s.setFileInode { inode with
        iDiskSectorsCount := inode.iDiskSectorsCount +
          ext2BlocksToSectors 1 s })
    else some (1, 0, s)

------------------------------------------------------------
-- Writing
------------------------------------------------------------

/- Raise the recorded size, then commit the inode. -/
def commitSize
    (size : UInt32)
    (s : Fs) : Option Fs := do
  let top := s.file.pos % ext2GetBlockSize s + size
  let inode := s.file.inode
  let inode :=
    if top > inode.iLowerSize then
      { inode with
        iLowerSize := inode.iLowerSize +
          (top - inode.iLowerSize) }
    else inode
  let s := s.setFileInode inode
  ext2InodeWrite s.file.inodeNum s.file.inode s

/-
  The block the rest of a spilling write goes to: the next
  one of the file, allocated if it has none.
-/
def nextBlock
    (s : Fs) : Option (UInt8 × UInt32 × Fs) :=
  let index := s.file.pos / ext2GetBlockSize s
  if allocatedBlocks s < index + 2 then growFile s
  else do
    let blockNum ← s.file.inode.blockPtr (index + 1).toNat
    some (0, blockNum, s)

/- A write that runs past the end of the current block. -/
def writeSpilling
    (blockNum : UInt32)
    (data : Nat → UInt8)
    (size : UInt32)
    (s : Fs) : Option (UInt8 × Fs) := do
  let blockSize := (ext2GetBlockSize s).toNat
  let off := s.file.pos.toNat % blockSize
  let first := blockSize - off
  let buff ← memcpy s.file.buff off data first
  let s := writeData blockNum false buff (s.setBuff buff)
  let (err, nextNum, s) ← nextBlock s
  if err ≠ 0 then some (1, s)
  else do
    let rest ← memcpy (.fill logicalBlockSize 0) 0
      (fun i => data (first + i)) (size.toNat - first)
    let s := writeData nextNum true rest s
    let s ← commitSize size s
    some (0, s)

/- A write inside the current block. -/
def writeInside
    (blockNum : UInt32)
    (data : Nat → UInt8)
    (size : UInt32)
    (s : Fs) : Option (UInt8 × Fs) := do
  let off := s.file.pos.toNat % (ext2GetBlockSize s).toNat
  let buff ← memcpy s.file.buff off data size.toNat
  let s := writeData blockNum false buff (s.setBuff buff)
  let s ← commitSize size s
  some (0, s)

/- Write to an open file that exists. -/
def writeExisting
    (data : Nat → UInt8)
    (size : UInt32)
    (s : Fs) : Option (UInt8 × Fs) :=
  let blockSize := ext2GetBlockSize s
  if size > blockSize then some (1, s)
  else if blockSize ≠ 4096 then none
  else do
    let blockId := s.file.pos / blockSize
    let blockNum ← s.file.inode.blockPtr blockId.toNat
    if s.file.pos % blockSize + size > blockSize then
      writeSpilling blockNum data size s
    else writeInside blockNum data size s

/- Ext2 file write: `size` bytes of `data` at the position. -/
def ext2Fwrite
    (data : Nat → UInt8)
    (size : UInt32)
    (stack : CreateStack)
    (s : Fs) : Option (UInt8 × Fs) :=
  if ¬ s.file.isOpen then some (1, s)
  else do
    let (err, s) ← ensureExists stack s
    if err ≠ 0 then some (1, s)
    else writeExisting data size s

------------------------------------------------------------
-- Seeking
------------------------------------------------------------

/- Load the block under the position into the buffer. -/
def loadBlock
    (s : Fs) : Option Fs := do
  let blockId := s.file.pos / ext2GetBlockSize s
  let blockNum ← s.file.inode.blockPtr blockId.toNat
  let (_, content, s) := ext2ReadBlock blockNum s
  some (s.setBuff content)

/-
  Grow the file by one block: load the new block, clear the
  buffer before the position, reset the recorded size.
-/
def seekGrowing
    (s : Fs) : Option (UInt8 × Fs) := do
  let (err, blockNum, s) ← growFile s
  if err ≠ 0 then some (1, s)
  else do
    let (_, content, s) := ext2ReadBlock blockNum s
    let off := s.file.pos % ext2GetBlockSize s
    let buff ← memset content 0 0 off.toNat
    let s := s.setBuff buff
    let s := s.setFileInode
      { s.file.inode with iLowerSize := off }
    let s ← ext2InodeWrite s.file.inodeNum s.file.inode s
    some (0, s)

/- Move an open file that exists to a new position. -/
def seekExisting
    (newPos : UInt32)
    (s : Fs) : Option (UInt8 × Fs) := do
  let blockSize := ext2GetBlockSize s
  let s ←
    if s.file.dirty ∧
        newPos / blockSize ≠ s.file.pos / blockSize then
      flush s
    else some s
  let s := s.setFile { s.file with
    pos := newPos
    newBytesCount := 0
    dirty := false }
  if allocatedBlocks s < newPos / blockSize + 1 then
    seekGrowing s
  else do
    let s ← loadBlock s
    some (0, s)

/- Ext2 file seek: change the position into the file. -/
def ext2Fseek
    (newPos : UInt32)
    (stack : CreateStack)
    (s : Fs) : Option (UInt8 × Fs) :=
  if ¬ s.file.isOpen then some (1, s)
  else if s.file.pos = newPos then some (0, s)
  else do
    let (err, s) ← ensureExists stack s
    if err ≠ 0 then some (1, s)
    else seekExisting newPos s

------------------------------------------------------------
-- Calls
------------------------------------------------------------

/- A call of the file interface with all its inputs. -/
inductive Call where
  | fopen
      (pathname : List UInt8) (mode : UInt8)
      (stack : FindStack)
  | fclose (stack : CreateStack)
  | fread (out : Nat → UInt8) (size : UInt32)
  | fwrite
      (data : Nat → UInt8) (size : UInt32)
      (stack : CreateStack)
  | fseek (newPos : UInt32) (stack : CreateStack)

/-
  What a call returns: its error code and, for a read, the
  caller's memory.  Opening always returns the descriptor.
-/
structure Answer where
  code : UInt8
  out : Nat → UInt8

/- Execute one call. -/
def exec : Call → Fs → Option (Answer × Fs)
  | .fopen pathname mode stack, s =>
      (ext2Fopen pathname mode stack s).map fun s =>
        (⟨0, fun _ => 0⟩, s)
  | .fclose stack, s =>
      (ext2Fclose stack s).map fun (code, s) =>
        (⟨code, fun _ => 0⟩, s)
  | .fread out size, s =>
      (ext2Fread out size s).map fun (code, out, s) =>
        (⟨code, out⟩, s)
  | .fwrite data size stack, s =>
      (ext2Fwrite data size stack s).map fun (code, s) =>
        (⟨code, fun _ => 0⟩, s)
  | .fseek newPos stack, s =>
      (ext2Fseek newPos stack s).map fun (code, s) =>
        (⟨code, fun _ => 0⟩, s)

end Ext2

end Ester
