import Ester.Ext2.Lookup

/-
  The current working directory: `ext2_init_cwd` and
  `ext2_change_cwd` of fs/ext2/directory.c.

  The change is written over the splitter and the lister it
  calls, like the lookup of `ext2_inode_find`.

  Key definitions include:
    * `Cwd`
    * `ext2InitCwd`
    * `changeLoop`, `newCwdInode`, `storeName`
    * `changeCwdWith`, `ext2ChangeCwd`
-/

------------------------------------------------------------
-- The Structure
------------------------------------------------------------

namespace Ester

namespace Ext2

/- The current working directory. -/
structure Cwd where
  cwdInodeNumber : UInt32
  cwdName : ByteBuffer maxPathLen

/- The structure as the loader leaves it: all zero. -/
def Cwd.zero : Cwd where
  cwdInodeNumber := 0
  cwdName := .fill maxPathLen 0

/- Ext2 init the current working directory to root /. -/
def ext2InitCwd
    (cwd : Cwd) : Option Cwd := do
  let name ← memcpy cwd.cwdName 0 (fun _ => slash) 1
  some { cwdInodeNumber := 2, cwdName := name }

------------------------------------------------------------
-- Changing It
------------------------------------------------------------

/-
  The loop of `ext2_change_cwd` over the rows `i`, `i + 1`,
  ...: a row that no entry matches leaves the inode as it is.
-/
def changeLoop
    (list : ListFn)
    (rows : UnpackedPath) :
    (remaining i : Nat) → (inodeDirNum : UInt32) →
      DirEntries → Fs → Option (UInt32 × Fs)
  | 0, _, inodeDirNum, _, s => some (inodeDirNum, s)
  | remaining + 1, i, inodeDirNum, entries, s => do
      let (count, entries, s) ← list inodeDirNum entries s
      let found ← matchEntry (rows.row i) count entries
      changeLoop list rows remaining (i + 1)
        (found.getD inodeDirNum) entries s

/-
  Store the name of the directory, without its terminator,
  and remove a slash at its end unless it is the root.
-/
def storeName
    (cwdName : List UInt8)
    (buff : ByteBuffer maxPathLen) :
    Option (ByteBuffer maxPathLen) := do
  let len ← strlen cwdName
  let name ← memcpy buff 0 (fun i => cwdName.getD i 0) len
  let cmp ← strcmp cwdName [slash, 0]
  if cmp ≠ 0 then
    if len = 0 then none
    else if cwdName.getD (len - 1) 0 = slash then
      some (name.store (len - 1) 0)
    else some name
  else some name

/- The inode of the new directory; the root is not searched. -/
def newCwdInode
    (list : ListFn)
    (cwdName : List UInt8)
    (pathDepth : UInt16)
    (rows : UnpackedPath)
    (entries : DirEntries)
    (s : Fs) : Option (UInt32 × Fs) := do
  let cmp ← strcmp cwdName [slash, 0]
  if cmp = 0 then some (2, s)
  else
    changeLoop list rows (pathDepth.toNat - 1) 1 2 entries s

/- Change the current working directory, over its callees. -/
def changeCwdWith
    (unpack : UnpackFn)
    (list : ListFn)
    (cwdName : List UInt8)
    (stack : FindStack)
    (cwd : Cwd)
    (s : Fs) : Option (Cwd × Fs) := do
  let (pathDepth, rows) ← unpack cwdName stack.unpackedPath
  let (inodeDirNum, s) ← newCwdInode list cwdName pathDepth
    rows stack.dirEntries s
  let name ← storeName cwdName cwd.cwdName
  some ({ cwdInodeNumber := inodeDirNum, cwdName := name }, s)

/- Ext2 change the current working directory. -/
def ext2ChangeCwd
    (cwdName : List UInt8)
    (stack : FindStack)
    (cwd : Cwd)
    (s : Fs) : Option (Cwd × Fs) :=
  changeCwdWith unpackDirPath ext2ListDirectory cwdName stack
    cwd s

end Ext2

end Ester
