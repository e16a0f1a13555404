import Ester.Ext2.Session.Creating

/-
  The open file in a well-formed image.

  Between calls the inode in the descriptor is the one on
  the disk (`FileOk`).  During a call it may be ahead of the
  disk, but its pointers still lead to blocks with its label
  (`Editing`); writing data, growing and committing keep
  that.

  Key definitions include:
    * `File.block`, `File.off`
    * `FileOk`
    * `Editing`
    * `Fs.wrote`, `Fs.commit`
    * `DataWrite.InFile`

  Key theorems include:
    * `writeData_of_steady`
    * `Editing.commitSize_eq`
    * `Editing.wrote`, `Editing.grown`, `Editing.commit`
-/

------------------------------------------------------------
-- The Descriptor
------------------------------------------------------------

namespace Ester

namespace Ext2

/- The index of the block under the position. -/
def File.block
    (f : File) : Nat :=
  f.pos.toNat / 4096

/- The offset of the position in its block. -/
def File.off
    (f : File) : Nat :=
  f.pos.toNat % 4096

theorem File.off_lt
    (f : File) :
    f.off < 4096 :=
  Nat.mod_lt _ (by omega)

/- Counting on from the index of a block does not overflow. -/
theorem blockIndex_add_toNat
    (pos : UInt32)
    {n : UInt32}
    (hn : n.toNat ≤ 4096) :
    (pos / 4096 + n).toNat = pos.toNat / 4096 + n.toNat := by
  have hPos := pos.toNat_lt
  have hIndex : (pos / 4096).toNat = pos.toNat / 4096 :=
    UInt32.toNat_div _ _
  rw [UInt32.toNat_add, hIndex]
  omega

/- Nor does counting on from the offset in a block. -/
theorem off_add_toNat
    (f : File)
    {size : UInt32}
    (hSize : size.toNat ≤ 4096) :
    (f.pos % 4096 + size).toNat = f.off + size.toNat := by
  have hOff := f.off_lt
  have hMod : (f.pos % 4096).toNat = f.off :=
    UInt32.toNat_mod _ _
  rw [UInt32.toNat_add, hMod]
  omega

/-
  The file has a block of its own at an index: a direct one
  below its block count, with the pointer set.
-/
structure Inode.HasBlock
    (inode : Inode)
    (k : Nat) : Prop where
  direct : k < ext2NdirBlocks
  lt : k < inode.allocated
  set : inode.direct k direct ≠ 0

theorem Inode.hasBlock_iff
    {inode : Inode}
    {k : Nat} :
    inode.HasBlock k ↔
      ∃ hk : k < ext2NdirBlocks,
        k < inode.allocated ∧ inode.direct k hk ≠ 0 :=
  ⟨fun h => ⟨h.direct, h.lt, h.set⟩,
    fun ⟨hk, hLt, hSet⟩ => ⟨hk, hLt, hSet⟩⟩

instance
    (inode : Inode)
    (k : Nat) :
    Decidable (inode.HasBlock k) :=
  decidable_of_iff' _ Inode.hasBlock_iff

/- The open file's pointer leads to a block with its label. -/
def Fs.Owns
    (owners : Owners)
    (s : Fs)
    (k : Nat)
    (hk : k < ext2NdirBlocks) : Prop :=
  owners (s.file.inode.direct k hk) =
    some (.data s.file.inodeNum k)

/- Different blocks of the file have different numbers. -/
theorem Fs.Owns.direct_ne
    {owners : Owners}
    {s : Fs}
    {j k : Nat}
    {hj : j < ext2NdirBlocks}
    {hk : k < ext2NdirBlocks}
    (hjOwns : s.Owns owners j hj)
    (hkOwns : s.Owns owners k hk)
    (hNe : j ≠ k) :
    s.file.inode.direct j hj ≠ s.file.inode.direct k hk := by
  intro hEq
  unfold Owns at hjOwns
  rw [hEq, hkOwns] at hjOwns
  injection hjOwns with hOwner
  injection hOwner with _ hIndex
  exact hNe hIndex.symm

/-
  The descriptor between two calls.  No operation ever sets
  the dirty flag or the count of new bytes, so the flush
  code of closing and seeking never runs.  A file that is
  open and exists has one of the inodes of a set.
-/
structure FileOk
    (inodes : UInt32 → Prop)
    (s : Fs) : Prop where
  clean : s.file.dirty = false
  noNew : s.file.newBytesCount = 0
  own :
    s.file.isOpen → s.file.exist → inodes s.file.inodeNum
  valid :
    s.file.isOpen → s.file.exist →
      s.layout.ValidInode s.file.inodeNum
  isFile :
    s.file.isOpen → s.file.exist → s.file.inode.isFile
  stored :
    s.file.isOpen → s.file.exist →
      s.inodeAt s.file.inodeNum = s.file.inode
  fresh :
    s.file.isOpen → s.file.exist = false → s.file.pos = 0

/-
  The inodes that a call on the open file looks at: its own,
  and any live one as long as it has to be created.
-/
def Fs.callInodes
    (s : Fs)
    (owners : Owners)
    (n : UInt32) : Prop :=
  if s.file.exist then n = s.file.inodeNum
  else owners.live n

/- All that a call looks at is live. -/
theorem FileOk.callInodes_live
    {owners : Owners}
    {s : Fs}
    (h : FileOk owners.live s)
    (hOpen : s.file.isOpen)
    {n : UInt32}
    (hn : s.callInodes owners n) :
    owners.live n := by
  rw [Fs.callInodes] at hn
  split at hn
  · next hExist => exact hn ▸ h.own hOpen hExist
  · exact hn

/- The descriptor the loader leaves. -/
theorem FileOk.of_closed
    {inodes : UInt32 → Prop}
    {s : Fs}
    (hClosed : s.file = File.closed) :
    FileOk inodes s := by
  have hNotOpen : s.file.isOpen → False := by
    rw [hClosed]
    exact Bool.false_ne_true
  exact
    { clean := by rw [hClosed]; rfl
      noNew := by rw [hClosed]; rfl
      own := fun hOpen => (hNotOpen hOpen).elim
      valid := fun hOpen => (hNotOpen hOpen).elim
      isFile := fun hOpen => (hNotOpen hOpen).elim
      stored := fun hOpen => (hNotOpen hOpen).elim
      fresh := fun hOpen => (hNotOpen hOpen).elim }

/-
  The descriptor during a call on an existing file: its inode
  may have pointers that the disk does not have yet.
-/
structure Editing
    (inodes : UInt32 → Prop)
    (owners : Owners)
    (s : Fs) : Prop where
  image : ImageOkFor inodes owners s
  own : inodes s.file.inodeNum
  valid : s.layout.ValidInode s.file.inodeNum
  isFile : s.file.inode.isFile
  slot :
    SlotOk s.layout owners s.disk s.file.inodeNum s.file.inode
  notDir : (s.inodeAt s.file.inodeNum).isDir = false

theorem FileOk.editing
    {inodes : UInt32 → Prop}
    {owners : Owners}
    {s : Fs}
    (hFile : FileOk inodes s)
    (h : ImageOkFor inodes owners s)
    (hOpen : s.file.isOpen)
    (hExist : s.file.exist) :
    Editing inodes owners s where
  image := h
  own := hFile.own hOpen hExist
  valid := hFile.valid hOpen hExist
  isFile := hFile.isFile hOpen hExist
  slot := by
    rw [← hFile.stored hOpen hExist]
    exact h.slots _ (hFile.own hOpen hExist)
      (hFile.valid hOpen hExist)
  notDir := by
    apply (h.slots _ (hFile.own hOpen hExist)
      (hFile.valid hOpen hExist)).kind
    rw [hFile.stored hOpen hExist]
    exact hFile.isFile hOpen hExist

------------------------------------------------------------
-- Data Writes
------------------------------------------------------------

/- The history entry of a data write made now. -/
def Fs.dataWrite
    (s : Fs)
    (block : UInt32)
    (spilled : Bool) : DataWrite where
  block := block
  inodeNum := s.file.inodeNum
  inode := s.file.inode
  pos := s.file.pos
  spilled := spilled

/- The state after a block was written as file data. -/
def Fs.wrote
    (s : Fs)
    (block : UInt32)
    (spilled : Bool)
    (content : Block) : Fs :=
  { s.putBlock block content with
    dataWrites :=
      s.dataWrites ++ [s.dataWrite block spilled] }

theorem writeData_of_steady
    {s : Fs}
    (hSteady : s.Steady)
    (block : UInt32)
    (spilled : Bool)
    (content : Block) :
    writeData block spilled content s =
      s.wrote block spilled content := by
  simp [writeData, ext2WriteBlock, hSteady.faults,
    Fs.wrote, Fs.dataWrite, Fs.putBlock]

namespace Fs

variable (s : Fs) (block : UInt32) (spilled : Bool)
variable (content : Block)

@[simp] theorem wrote_file :
    (s.wrote block spilled content).file = s.file := rfl

@[simp] theorem wrote_layout :
    (s.wrote block spilled content).layout = s.layout := rfl

@[simp] theorem wrote_dataWrites :
    (s.wrote block spilled content).dataWrites =
      s.dataWrites ++ [s.dataWrite block spilled] := rfl

@[simp] theorem wrote_disk_self :
    (s.wrote block spilled content).disk block = content :=
  s.putBlock_disk_self block content

theorem wrote_disk_of_ne
    {b : UInt32}
    (h : b ≠ block) :
    (s.wrote block spilled content).disk b = s.disk b :=
  s.putBlock_disk_of_ne content h

theorem wrote_inodeAt
    {n : UInt32}
    (h : s.layout.slotBlock n ≠ block) :
    (s.wrote block spilled content).inodeAt n = s.inodeAt n :=
  s.inodeAt_putBlock content h

theorem wrote_bitmapBlock
    {r : Resource}
    {g : Fin maxGroups}
    (h : s.layout.bitmap r g ≠ block) :
    (s.wrote block spilled content).bitmapBlock r g =
      s.bitmapBlock r g :=
  s.putBlock_disk_of_ne content h

@[simp] theorem setFileInode_file
    (inode : Inode) :
    (s.setFileInode inode).file =
      { s.file with inode := inode } := rfl

@[simp] theorem setFileInode_disk
    (inode : Inode) :
    (s.setFileInode inode).disk = s.disk := rfl

@[simp] theorem setFileInode_layout
    (inode : Inode) :
    (s.setFileInode inode).layout = s.layout := rfl

@[simp] theorem setBuff_file
    (buff : ByteBuffer buffSize) :
    (s.setBuff buff).file = { s.file with buff := buff } := rfl

@[simp] theorem setBuff_disk
    (buff : ByteBuffer buffSize) :
    (s.setBuff buff).disk = s.disk := rfl

@[simp] theorem setBuff_layout
    (buff : ByteBuffer buffSize) :
    (s.setBuff buff).layout = s.layout := rfl

end Fs

/-
  A data write went to the block of its file that holds the
  written bytes: the block under the position, or the next
  one for a spilled part.  That block is one of the file's
  allocated direct blocks and serves no other purpose.
-/
structure DataWrite.InFile
    (owners : Owners)
    (e : DataWrite) : Prop where
  lt :
    e.pos.toNat / 4096 + e.spilled.toNat < ext2NdirBlocks
  allocated :
    e.pos.toNat / 4096 + e.spilled.toNat <
      e.inode.allocated
  block :
    e.inode.direct (e.pos.toNat / 4096 + e.spilled.toNat)
      lt = e.block
  owner :
    owners e.block = some (.data e.inodeNum
      (e.pos.toNat / 4096 + e.spilled.toNat))

theorem DataWrite.InFile.mono
    {owners owners' : Owners}
    {e : DataWrite}
    (h : e.InFile owners)
    (hLabels : Extends owners owners') :
    e.InFile owners' :=
  ⟨h.lt, h.allocated, h.block, hLabels.label _ _ h.owner⟩

------------------------------------------------------------
-- Committing
------------------------------------------------------------

/- An inode with another recorded size. -/
def Inode.resize
    (inode : Inode)
    (size : UInt32) : Inode :=
  { inode with iLowerSize := size }

@[simp] theorem Inode.resize_iLowerSize
    (inode : Inode)
    (size : UInt32) :
    (inode.resize size).iLowerSize = size := rfl

@[simp] theorem Inode.resize_allocated
    (inode : Inode)
    (size : UInt32) :
    (inode.resize size).allocated = inode.allocated := rfl

@[simp] theorem Inode.resize_direct
    (inode : Inode)
    (size : UInt32)
    (k : Nat)
    (hk : k < ext2NdirBlocks) :
    (inode.resize size).direct k hk = inode.direct k hk := rfl

@[simp] theorem Inode.resize_isFile
    (inode : Inode)
    (size : UInt32) :
    (inode.resize size).isFile = inode.isFile := rfl

/- The recorded size plays no part in well-formedness. -/
theorem SlotOk.resize
    {L : Layout}
    {owners : Owners}
    {disk : UInt32 → Block}
    {n : UInt32}
    {inode : Inode}
    (h : SlotOk L owners disk n inode)
    (size : UInt32) :
    SlotOk L owners disk n (inode.resize size) :=
  ⟨h.kind, h.file, h.pointer, h.dir⟩

/- Record a size and store the inode of the open file. -/
def Fs.commit
    (s : Fs)
    (size : UInt32) : Fs :=
  (s.setFileInode (s.file.inode.resize size)).putInode
    s.file.inodeNum (s.file.inode.resize size)

@[simp] theorem Fs.commit_file
    (s : Fs)
    (size : UInt32) :
    (s.commit size).file =
      { s.file with inode := s.file.inode.resize size } := rfl

@[simp] theorem Fs.commit_layout
    (s : Fs)
    (size : UInt32) :
    (s.commit size).layout = s.layout := rfl

@[simp] theorem Fs.commit_dataWrites
    (s : Fs)
    (size : UInt32) :
    (s.commit size).dataWrites = s.dataWrites := rfl

/- The size `ext2_fwrite` records after a write. -/
def Fs.sizeAfter
    (s : Fs)
    (size : UInt32) : UInt32 :=
  let top := s.file.pos % 4096 + size
  if top > s.file.inode.iLowerSize then top
  else s.file.inode.iLowerSize

/-
  Storing the inode of the open file with another size: the
  device and the inode's slot are all it takes.
-/
theorem inodeWrite_resize_of_valid
    {s : Fs}
    (hSteady : s.Steady)
    (hL : s.layout.Ok)
    (hn : s.layout.ValidInode s.file.inodeNum)
    (size : UInt32) :
    ext2InodeWrite s.file.inodeNum
        (s.file.inode.resize size)
        (s.setFileInode (s.file.inode.resize size)) =
      some (s.commit size) := by
  have hStart : (s.setFileInode
      (s.file.inode.resize size)).Steady :=
    ⟨hSteady.faults, hSteady.blockSize⟩
  exact ext2InodeWrite_eq hStart hL hn _

theorem commitSize_of_valid
    {s : Fs}
    (hSteady : s.Steady)
    (hL : s.layout.Ok)
    (hn : s.layout.ValidInode s.file.inodeNum)
    (size : UInt32) :
    commitSize size s = some (s.commit (s.sizeAfter size)) := by
  have hInode :
      (if s.file.pos % 4096 + size > s.file.inode.iLowerSize then
        { s.file.inode with
          iLowerSize := s.file.inode.iLowerSize +
            (s.file.pos % 4096 + size -
              s.file.inode.iLowerSize) }
      else s.file.inode) =
        s.file.inode.resize (s.sizeAfter size) := by
    simp only [Fs.sizeAfter, Inode.resize]
    split
    · rw [UInt32.add_comm, UInt32.sub_add_cancel]
    · rfl
  simp only [commitSize, hSteady.blockSize, hInode]
  exact inodeWrite_resize_of_valid hSteady hL hn _

------------------------------------------------------------
-- Growing
------------------------------------------------------------

/- The labels after the open file took a block. -/
def Fs.grownOwners
    (s : Fs)
    (i : Nat)
    (owners : Owners) : Owners :=
  owners.update (s.layout.blockNumber s.fileGroup i)
    (.data s.file.inodeNum s.file.inode.allocated)

@[simp] theorem Fs.grownOwners_self
    (s : Fs)
    (i : Nat)
    (owners : Owners) :
    s.grownOwners i owners
        (s.layout.blockNumber s.fileGroup i) =
      some (.data s.file.inodeNum s.file.inode.allocated) :=
  owners.update_self _ _

/- Taking a block leaves the file the blocks it has. -/
theorem Inode.HasBlock.grown
    {s : Fs}
    {k : Nat}
    (hHas : s.file.inode.HasBlock k)
    (hDirect : s.file.inode.allocated < ext2NdirBlocks)
    (i : Nat) :
    (s.grown i).file.inode.HasBlock k where
  direct := hHas.direct
  lt := by
    rw [Fs.grown_allocated hDirect]
    exact Nat.lt_succ_of_lt hHas.lt
  set := by
    rw [Fs.grown_direct_of_ne hDirect i hHas.direct
      (Nat.ne_of_lt hHas.lt)]
    exact hHas.set

namespace Editing

variable {inodes : UInt32 → Prop}
variable {owners : Owners} {s : Fs}
variable (h : Editing inodes owners s)
include h

/- The blocks of the file carry its label. -/
theorem owns
    {k : Nat}
    (hHas : s.file.inode.HasBlock k) :
    s.Owns owners k hHas.direct :=
  h.slot.file h.isFile k hHas.direct hHas.lt hHas.set

/- Changing position and buffer. -/
theorem setFile
    {f : File}
    (hNum : f.inodeNum = s.file.inodeNum)
    (hInode : f.inode = s.file.inode) :
    Editing inodes owners (s.setFile f) where
  image := h.image.setFile f
  own := by
    rw [Fs.setFile_file, hNum]
    exact h.own
  valid := by
    rw [Fs.setFile_file, hNum]
    exact h.valid
  isFile := by
    rw [Fs.setFile_file, hInode]
    exact h.isFile
  slot := by
    rw [Fs.setFile_file, hNum, hInode]
    exact h.slot
  notDir := by
    rw [Fs.setFile_file, hNum]
    exact h.notDir

theorem setBuff
    (buff : ByteBuffer buffSize) :
    Editing inodes owners (s.setBuff buff) :=
  h.setFile rfl rfl

/- Writing one of the file's own blocks. -/
theorem wrote
    {b : UInt32}
    {k : Nat}
    (hb : owners b = some (.data s.file.inodeNum k))
    (spilled : Bool)
    (content : Block) :
    Editing inodes owners (s.wrote b spilled content) where
  image := by
    have hPut : ImageOkFor inodes owners (s.putBlock b content) :=
      h.image.putData hb fun _ hDir => by
        rw [h.notDir] at hDir
        exact absurd hDir (by simp)
    exact hPut.congr rfl rfl rfl rfl
  own := h.own
  valid := h.valid
  isFile := h.isFile
  slot := by
    refine h.slot.mono (.refl owners) ?_
    intro _ _ hDir
    rw [h.slot.kind h.isFile] at hDir
    exact absurd hDir (by simp)
  notDir := by
    rw [Fs.wrote_file, Fs.wrote_inodeAt _ _ _ _
      (h.image.ne_slotBlock hb h.valid)]
    exact h.notDir

/- Taking another block. -/
theorem grown
    {i : Nat}
    (hNext : s.nextFree .block s.fileGroup = some i)
    (hLt : s.file.inode.allocated < ext2NdirBlocks) :
    Editing inodes (s.grownOwners i owners) (s.grown i) ∧
      Extends owners (s.grownOwners i owners) := by
  have hFree : FreeBit s .block s.fileGroup i :=
    .of_nextFree (h.image.layout.slotGroup_lt h.valid) hNext
  have hLabel := h.image.unlabelled hFree
  have hLabels := Extends.update hLabel
    (.data s.file.inodeNum s.file.inode.allocated)
  have hImage := h.image.claimBlock hFree
    (.data s.file.inodeNum s.file.inode.allocated)
  have hIndex :
      (Fin.ofNat ext2NBlocks s.file.inode.allocated : Nat) =
        s.file.inode.allocated :=
    Nat.mod_eq_of_lt (Nat.lt_trans hLt (by decide))
  refine ⟨?_, hLabels⟩
  exact
    { image := hImage.congr rfl rfl rfl rfl
      own := h.own
      valid := by
        rw [Fs.grown_layout]
        exact h.valid
      isFile := h.isFile
      slot := by
        rw [Fs.grown_layout]
        have hSlot : SlotOk s.layout _ (s.grown i).disk
            s.file.inodeNum s.file.inode :=
          h.slot.mono hLabels fun _ _ hDir => by
            rw [h.slot.kind h.isFile] at hDir
            exact absurd hDir (by simp)
        exact hSlot.grown h.isFile hLt hIndex
          (by rw [Owners.update_self])
      notDir := by
        have hSame : (s.grown i).inodeAt s.file.inodeNum =
            s.inodeAt s.file.inodeNum :=
          Fs.inodeAt_claim h.image.layout hFree h.valid
        exact hSame ▸ h.notDir }

/- The block that was taken is one of the file's. -/
theorem grown_hasBlock
    {i : Nat}
    (hNext : s.nextFree .block s.fileGroup = some i)
    (hDirect : s.file.inode.allocated < ext2NdirBlocks) :
    (s.grown i).file.inode.HasBlock
      s.file.inode.allocated where
  direct := hDirect
  lt := by
    rw [Fs.grown_allocated hDirect]
    exact Nat.lt_succ_self _
  set := by
    rw [Fs.grown_direct_last hDirect]
    exact FreeBit.blockNumber_ne_zero h.image
      (.of_nextFree (h.image.layout.slotGroup_lt h.valid)
        hNext)

/- Committing makes disk and descriptor agree. -/
theorem commit
    (size : UInt32) :
    Editing inodes owners (s.commit size) ∧
      (s.commit size).inodeAt s.file.inodeNum =
        s.file.inode.resize size := by
  have hResized := h.slot.resize size
  have hStart := h.image.setFile
    { s.file with inode := s.file.inode.resize size }
  have hStored : (s.commit size).inodeAt s.file.inodeNum =
      s.file.inode.resize size := by
    have hPut := Fs.inodeAt_putInode
      (s := s.setFileInode (s.file.inode.resize size))
      h.image.layout h.valid h.valid
      (s.file.inode.resize size)
    rwa [if_pos rfl] at hPut
  refine ⟨?_, hStored⟩
  exact
    { image := (hStart.putInode h.valid hResized).mono
        fun _ => .inr
      own := h.own
      valid := h.valid
      isFile := h.isFile
      slot := hResized.mono (.refl owners) fun _ _ hDir => by
        rw [hResized.kind h.isFile] at hDir
        exact absurd hDir (by simp)
      notDir := by
        rw [Fs.commit_file, hStored]
        exact h.slot.kind h.isFile }

/- A commit changes one block of the inode tables only. -/
theorem commit_disk
    (size : UInt32)
    {b : UInt32}
    (hb : ¬ s.layout.IsMeta b) :
    (s.commit size).disk b = s.disk b := by
  apply Fs.putInode_disk_of_ne
  intro hEq
  exact hb (hEq ▸ h.image.layout.slotBlock_meta h.valid)

/- A data write to an own block is recorded as such. -/
theorem dataWrite_inFile
    {k : Nat}
    (hHas : s.file.inode.HasBlock k)
    (spilled : Bool)
    (hIndex : k = s.file.block + spilled.toNat) :
    (s.dataWrite (s.file.inode.direct k hHas.direct)
      spilled).InFile owners := by
  subst hIndex
  exact ⟨hHas.direct, hHas.lt, rfl, h.owns hHas⟩

/- Storing the inode of the open file with another size. -/
theorem inodeWrite_resize
    (size : UInt32) :
    ext2InodeWrite s.file.inodeNum
        (s.file.inode.resize size)
        (s.setFileInode (s.file.inode.resize size)) =
      some (s.commit size) :=
  inodeWrite_resize_of_valid h.image.steady h.image.layout
    h.valid size

/- The commit at the end of a write. -/
theorem commitSize_eq
    (size : UInt32) :
    commitSize size s = some (s.commit (s.sizeAfter size)) :=
  commitSize_of_valid h.image.steady h.image.layout h.valid
    size

end Editing

end Ext2

end Ester
