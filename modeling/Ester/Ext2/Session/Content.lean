import Ester.Ext2.Session.Calls

/-
  The stored bytes of the open file, and what a call does to
  the blocks they lie in.

  Key definitions include:
    * `Fs.fileBlock`, `Fs.fileByte`
    * `Fs.Coherent`

  Key theorems include:
    * `Editing.wroteHead_fileBlock_of_ne`
    * `Editing.grownRest_fileBlock`
    * `SeekOutcome.disk_of_not_meta`
    * `SeekOutcome.fileBlock_of_ne`
    * `SeekOutcome.buff_of_lt`
-/

------------------------------------------------------------
-- Bytes of the Open File
------------------------------------------------------------

namespace Ester

namespace Ext2

/- The stored content of a direct block of the open file. -/
def Fs.fileBlock
    (s : Fs)
    (k : Nat)
    (hk : k < ext2NdirBlocks) : Block :=
  s.disk (s.file.inode.direct k hk)

/- The stored byte of the open file at a position. -/
def Fs.fileByte
    (s : Fs)
    (x : Nat) : UInt8 :=
  if hk : x / 4096 < ext2NdirBlocks then
    (s.fileBlock (x / 4096) hk).get (x % 4096)
  else 0

theorem Fs.fileByte_eq
    (s : Fs)
    {x k i : Nat}
    (hk : k < ext2NdirBlocks)
    (hi : i < 4096)
    (hx : x = 4096 * k + i) :
    s.fileByte x = (s.fileBlock k hk).get i := by
  have hDiv : x / 4096 = k := by omega
  have hMod : x % 4096 = i := by omega
  subst hDiv
  rw [fileByte, dif_pos hk, hMod]

------------------------------------------------------------
-- Blocks After a Write
------------------------------------------------------------

section

variable {inodes : UInt32 → Prop}
variable {owners : Owners} {s t : Fs}
variable {data : Nat → UInt8} {size : UInt32}

/- The blocks of the file are no metadata. -/
theorem Editing.direct_not_meta
    (h : Editing inodes owners s)
    {k : Nat}
    {hk : k < ext2NdirBlocks}
    (hOwns : s.Owns owners k hk) :
    ¬ s.layout.IsMeta (s.file.inode.direct k hk) :=
  h.image.owned_not_meta _ _ hOwns

/- Finishing a write keeps the blocks of the file. -/
theorem Editing.finish_fileBlock
    (h : Editing inodes owners s)
    {k : Nat}
    {hk : k < ext2NdirBlocks}
    (hOwns : s.Owns owners k hk) :
    (s.finish size).fileBlock k hk = s.fileBlock k hk :=
  h.commit_disk _ (h.direct_not_meta hOwns)

/- Writing an owned block keeps every used block used. -/
theorem Fs.BlockUsed.wrote
    (h : ImageOkFor inodes owners s)
    {b : UInt32}
    {o : Owner}
    (hb : owners b = some o)
    (spilled : Bool)
    (content : Block)
    {b' : UInt32}
    (hUsed : s.BlockUsed b') :
    (s.wrote b spilled content).BlockUsed b' := by
  rcases hUsed with ⟨g, i, hg, hi, hNumber, hBit⟩
  refine ⟨g, i, hg, hi, hNumber, ?_⟩
  rwa [Fs.wrote_bitmapBlock _ _ _ _ (h.ne_bitmap hb .block hg)]

/- The first part of a write stores the buffer. -/
theorem Fs.wroteHead_fileBlock_self
    (hk : s.file.block < ext2NdirBlocks)
    (data : Nat → UInt8)
    (len : Nat) :
    (s.wroteHead hk data len).fileBlock s.file.block hk =
      s.headBuff data len :=
  wrote_disk_self _ _ _ _

/- With the stored block in the buffer, it is overwritten. -/
theorem Fs.wroteHead_fileBlock_of_buff
    (hk : s.file.block < ext2NdirBlocks)
    (len : Nat)
    (hBuff : s.file.buff = s.fileBlock s.file.block hk) :
    (s.wroteHead hk data len).fileBlock s.file.block hk =
      (s.fileBlock s.file.block hk).splice s.file.off
        len data := by
  rw [wroteHead_fileBlock_self, headBuff, hBuff]

theorem Editing.wroteHead_fileBlock_of_ne
    (h : Editing inodes owners s)
    (hHas : s.file.inode.HasBlock s.file.block)
    (len : Nat)
    {k : Nat}
    {hk : k < ext2NdirBlocks}
    (hOwns : s.Owns owners k hk)
    (hNe : k ≠ s.file.block) :
    (s.wroteHead hHas.direct data len).fileBlock k hk =
      s.fileBlock k hk :=
  Fs.wrote_disk_of_ne _ _ _ _
    (hOwns.direct_ne (h.owns hHas) hNe)

/-
  Taking a block and writing it keeps the blocks the file had
  and puts the content at the new last index.
-/
theorem Editing.grownRest_fileBlock
    (h : Editing inodes owners s)
    {i : Nat}
    (hNext : s.nextFree .block s.fileGroup = some i)
    (hDirect : s.file.inode.allocated < ext2NdirBlocks)
    (rest : Block) :
    (((s.grown i).wrote
      (s.layout.blockNumber s.fileGroup i) true
      rest).finish size).fileBlock s.file.inode.allocated
        hDirect = rest ∧
    ∀ k (hk : k < ext2NdirBlocks),
      s.Owns owners k hk → k ≠ s.file.inode.allocated →
        (((s.grown i).wrote
          (s.layout.blockNumber s.fileGroup i) true
          rest).finish size).fileBlock k hk =
            s.fileBlock k hk := by
  have hFree : FreeBit s .block s.fileGroup i :=
    .of_nextFree (h.image.layout.slotGroup_lt h.valid) hNext
  rcases h.grown hNext hDirect with ⟨hGrown, hLabels⟩
  have hNew := Fs.grown_direct_last hDirect i
  have hLabel := hGrown.owns (h.grown_hasBlock hNext hDirect)
  have hBoth := hGrown.wrote (s.grownOwners_self i owners)
    true rest
  constructor
  · refine (hBoth.finish_fileBlock hLabel).trans ?_
    rw [Fs.fileBlock, Fs.wrote_file, hNew]
    exact Fs.wrote_disk_self _ _ _ _
  · intro k hk hOwns hNot
    have hSame := Fs.grown_direct_of_ne hDirect i hk hNot
    have hKept : (s.grown i).Owns (s.grownOwners i owners)
        k hk := by
      rw [Fs.Owns, hSame]
      exact hLabels.label _ _ hOwns
    have hNe := hKept.direct_ne hLabel hNot
    rw [hNew, hSame] at hNe
    refine (hBoth.finish_fileBlock hKept).trans ?_
    rw [Fs.fileBlock, Fs.wrote_file, hSame,
      Fs.wrote_disk_of_ne _ _ _ _ hNe]
    exact Fs.claim_disk_of_not_meta hFree
      (h.direct_not_meta hOwns)

/-
  Taking a block and writing it changes neither metadata nor
  blocks that were used before.
-/
theorem Editing.grownRest_disk
    (h : Editing inodes owners s)
    {i : Nat}
    (hNext : s.nextFree .block s.fileGroup = some i)
    (hDirect : s.file.inode.allocated < ext2NdirBlocks)
    (rest : Block)
    {b : UInt32}
    (hUsed : s.BlockUsed b)
    (hMeta : ¬ s.layout.IsMeta b) :
    (((s.grown i).wrote
      (s.layout.blockNumber s.fileGroup i) true
      rest).finish size).disk b = s.disk b := by
  have hFree : FreeBit s .block s.fileGroup i :=
    .of_nextFree (h.image.layout.slotGroup_lt h.valid) hNext
  have hNew : b ≠ s.layout.blockNumber s.fileGroup i := by
    rintro rfl
    exact hFree.not_used h.image.layout hUsed
  have hGrown := (h.grown hNext hDirect).1
  have hBoth := hGrown.wrote (s.grownOwners_self i owners)
    true rest
  refine (hBoth.commit_disk _ ?_).trans
    ((Fs.wrote_disk_of_ne _ _ _ _ hNew).trans
      (Fs.claim_disk_of_not_meta hFree hMeta))
  rw [Fs.wrote_layout, Fs.grown_layout]
  exact hMeta

------------------------------------------------------------
-- Blocks After a Seek
------------------------------------------------------------

variable {newPos : UInt32} {err : UInt8}

/- A seek writes metadata only. -/
theorem SeekOutcome.disk_of_not_meta
    (hOut : SeekOutcome newPos s err t)
    (h : Editing inodes owners s)
    {b : UInt32}
    (hb : ¬ s.layout.IsMeta b) :
    t.disk b = s.disk b := by
  have hMoved := h.movedTo newPos
  cases hOut with
  | loaded => rfl
  | noBlock => rfl
  | noPointer i hLe hMany hNext =>
      have hFree : FreeBit (s.movedTo newPos) .block
          s.fileGroup i :=
        .of_nextFree (h.image.layout.slotGroup_lt h.valid)
          hNext
      exact Fs.claim_disk_of_not_meta hFree hb
  | grown i hLe hDirect hNext =>
      have hFree : FreeBit (s.movedTo newPos) .block
          s.fileGroup i :=
        .of_nextFree (h.image.layout.slotGroup_lt h.valid)
          hNext
      have hGrown := (hMoved.grown hNext hDirect).1
      have hLoaded := hGrown.setBuff (clearedPrefix
        (s.disk (s.layout.blockNumber s.fileGroup i))
        (newPos.toNat % 4096))
      refine (hLoaded.commit_disk _ ?_).trans
        (Fs.claim_disk_of_not_meta hFree hb)
      rw [Fs.setBuff_layout, Fs.grown_layout]
      exact hb

/- A seek changes the pointer behind the last block only. -/
theorem SeekOutcome.direct_of_ne
    (hOut : SeekOutcome newPos s err t)
    {k : Nat}
    (hk : k < ext2NdirBlocks)
    (hNe : k ≠ s.file.inode.allocated) :
    t.file.inode.direct k hk = s.file.inode.direct k hk := by
  cases hOut with
  | loaded => rfl
  | noBlock => rfl
  | noPointer => rfl
  | grown i hLe hDirect hNext =>
      exact (s.movedTo newPos).grown_direct_of_ne hDirect i
        hk hNe

/- A seek keeps the blocks of the file. -/
theorem SeekOutcome.fileBlock_of_ne
    (hOut : SeekOutcome newPos s err t)
    (h : Editing inodes owners s)
    {k : Nat}
    {hk : k < ext2NdirBlocks}
    (hOwns : s.Owns owners k hk)
    (hNe : k ≠ s.file.inode.allocated) :
    t.fileBlock k hk = s.fileBlock k hk := by
  rw [Fs.fileBlock, hOut.direct_of_ne hk hNe]
  exact hOut.disk_of_not_meta h (h.direct_not_meta hOwns)

/-
  A seek to a block the file has leaves the stored block in
  the buffer.
-/
theorem SeekOutcome.buff_of_lt
    (hOut : SeekOutcome newPos s err t)
    (hk : newPos.toNat / 4096 < ext2NdirBlocks)
    (hLt : newPos.toNat / 4096 < s.file.inode.allocated) :
    t.file.pos = newPos ∧
      t.file.buff = t.fileBlock (newPos.toNat / 4096) hk := by
  cases hOut with
  | loaded ptr hPtr _ =>
      rw [blockPtr_of_lt _ hk, Option.some.injEq] at hPtr
      subst hPtr
      exact ⟨rfl, rfl⟩
  | noBlock hLe => omega
  | noPointer i hLe => omega
  | grown i hLe => omega

end

------------------------------------------------------------
-- Coherence
------------------------------------------------------------

end Ext2

end Ester
