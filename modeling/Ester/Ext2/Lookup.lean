import Ester.Ext2.Directory

/-
  Resolving a path to an inode number: `ext2_inode_find` of
  fs/ext2/inode.c.

  The walk is written over the two functions it calls, the
  path splitter and the directory lister, so that it can be
  studied for any behaviour of theirs; `ext2InodeFind` is the
  walk over the ones of the source.

  Key definitions include:
    * `FindStack`
    * `matchEntry`
    * `walkLoop`
    * `inodeFindWith`
    * `ext2InodeFind`
-/

------------------------------------------------------------
-- Matching One Component
------------------------------------------------------------

namespace Ester

namespace Ext2

/- What the local arrays of `ext2_inode_find` start with. -/
structure FindStack where
  unpackedPath : UnpackedPath
  dirEntries : DirEntries

/- Local arrays that start zeroed. -/
def FindStack.zero : FindStack where
  unpackedPath := .fill _ 0
  dirEntries := fun _ => ⟨default, .fill _ 0⟩

/-
  Look for a name among the given slots of a listing: the
  inode of the first match, `none` inside when there is no
  match, no result when a comparison leaves its arrays.
-/
def matchSlots
    (name : List UInt8)
    (entries : DirEntries) :
    List (Fin maxSubdirs) → Option (Option UInt32)
  | [] => some none
  | j :: slots => do
      let slot := entries j
      let cmp ← strcmp name (slot.dirName.bytesFrom 0)
      if cmp = 0 then some (some slot.entry.dirInode)
      else matchSlots name entries slots

/- Look for a name among the delivered entries. -/
def matchEntry
    (name : List UInt8)
    (count : Nat)
    (entries : DirEntries) : Option (Option UInt32) :=
  matchSlots name entries
    ((List.finRange maxSubdirs).take count)

------------------------------------------------------------
-- Walking a Path
------------------------------------------------------------

/- A path splitter, as `unpack_dir_path` is called. -/
abbrev UnpackFn : Type :=
  List UInt8 → UnpackedPath → Option (UInt16 × UnpackedPath)

/- A directory lister, as `ext2_list_directory` is called. -/
abbrev ListFn : Type :=
  UInt32 → DirEntries → Fs → Option (Nat × DirEntries × Fs)

/-
  The loop of `ext2_inode_find` over the rows `i`, `i + 1`,
  ...: it stops when a row leaves the inode unchanged.
-/
def walkLoop
    (list : ListFn)
    (rows : UnpackedPath) :
    (remaining i : Nat) → (inodeNum : UInt32) →
      DirEntries → Fs → Option (UInt32 × Fs)
  | 0, _, inodeNum, _, s => some (inodeNum, s)
  | remaining + 1, i, inodeNum, entries, s => do
      let (count, entries, s) ← list inodeNum entries s
      let found ← matchEntry (rows.row i) count entries
      let next := found.getD inodeNum
      if next = inodeNum then some (inodeNum, s)
      else walkLoop list rows remaining (i + 1) next entries s

/- Find the inode number of a path, over its callees. -/
def inodeFindWith
    (unpack : UnpackFn)
    (list : ListFn)
    (pathname : List UInt8)
    (stack : FindStack)
    (s : Fs) : Option (UInt32 × Fs) := do
  let (pathDepth, rows) ← unpack pathname stack.unpackedPath
  let cmp ← strcmp pathname [slash, 0]
  if cmp = 0 then some (2, s)
  else
    walkLoop list rows (pathDepth.toNat - 1) 1 2
      stack.dirEntries s

/- Ext2 inode number find. -/
def ext2InodeFind
    (pathname : List UInt8)
    (stack : FindStack)
    (s : Fs) : Option (UInt32 × Fs) :=
  inodeFindWith unpackDirPath ext2ListDirectory
    pathname stack s

end Ext2

end Ester
