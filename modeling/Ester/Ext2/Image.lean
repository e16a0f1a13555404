import Ester.Ext2.Allocation.Refinement
import Ester.Ext2.Directory
import Ester.Ext2.InodeTable

/-
  Well-formed images and who owns their blocks.

  An `Owners` map labels blocks with the one purpose they
  serve: data block `k` of an inode, indirect pointers of an
  inode, or anything else in use.  It also says which inodes
  are live: the root, all that the live directories name, and
  any others.  An image is well formed for such a map when
  metadata and owned blocks are marked used, owned blocks are
  not metadata, and the pointers that are set in a live inode
  lead to blocks that carry its label.  Since a block has one
  label, no two pointers share a block.  Files may have
  holes, where a pointer is 0, and what an inode that is not
  live was left with does not matter.

  An operation on the open file needs the inode of that file
  only, so the inodes can be those of any other set, too.

  Key definitions include:
    * `Owner`, `Owners`, `Extends`, `LiveInode`
    * `Inode.allocated`
    * `EntriesOk` and `DirBlockOk`
    * `SlotOk`
    * `ImageOkFor`, `ImageOk`

  Key theorems include:
    * `ImageOkFor.claim`, `ImageOkFor.claimBlock`
    * `ImageOkFor.putData`
    * `ImageOkFor.putInode`
-/

------------------------------------------------------------
-- Owners
------------------------------------------------------------

namespace Ester

namespace Ext2

/- The purpose a block serves. -/
inductive Owner where
  | data (inodeNum : UInt32) (k : Nat)
  | pointer (inodeNum : UInt32)
  | other
deriving DecidableEq

/-
  Labels of the blocks in use besides the metadata, and the
  inodes that are live, the root among them.
-/
structure Owners where
  label : UInt32 → Option Owner
  live : UInt32 → Prop
  root : live 2

instance : CoeFun Owners fun _ => UInt32 → Option Owner where
  coe owners := owners.label

namespace Owners

variable (owners : Owners) (b n : UInt32) (o : Owner)

/- Another block is labelled. -/
def update : Owners :=
  { owners with
    label := Function.update owners.label b (some o) }

/- Another inode is live. -/
def enlist : Owners where
  label := owners.label
  live m := m = n ∨ owners.live m
  root := .inr owners.root

@[simp] theorem update_self :
    owners.update b o b = some o := by
  simp only [update, Function.update_self]

theorem update_of_ne
    {b' : UInt32}
    (hNe : b' ≠ b) :
    owners.update b o b' = owners b' := by
  simp only [update, Function.update_of_ne hNe]

@[simp] theorem update_live :
    (owners.update b o).live = owners.live := rfl

end Owners

/- Labels and live inodes are kept, others may be added. -/
structure Extends
    (owners owners' : Owners) : Prop where
  label :
    ∀ b o, owners b = some o → owners' b = some o
  live : ∀ n, owners.live n → owners'.live n

theorem Extends.refl
    (owners : Owners) :
    Extends owners owners :=
  ⟨fun _ _ h => h, fun _ h => h⟩

theorem Extends.trans
    {o₁ o₂ o₃ : Owners}
    (h₁₂ : Extends o₁ o₂)
    (h₂₃ : Extends o₂ o₃) :
    Extends o₁ o₃ where
  label b o h := h₂₃.label b o (h₁₂.label b o h)
  live n h := h₂₃.live n (h₁₂.live n h)

/- Labelling a free block extends the labels. -/
theorem Extends.update
    {owners : Owners}
    {b : UInt32}
    (hFree : owners b = none)
    (o : Owner) :
    Extends owners (owners.update b o) where
  label b' o' h := by
    have hNe : b' ≠ b := by
      intro hEq
      rw [hEq, hFree] at h
      exact absurd h (by simp)
    rw [owners.update_of_ne b o hNe]
    exact h
  live _ h := h

/- So does making an inode live. -/
theorem Extends.enlist
    (owners : Owners)
    (n : UInt32) :
    Extends owners (owners.enlist n) where
  label _ _ h := h
  live _ h := .inr h

------------------------------------------------------------
-- Inodes and Directory Blocks
------------------------------------------------------------

/-
  The number of blocks the code takes an inode to have, for
  blocks of 4096 bytes.
-/
def Inode.allocated
    (inode : Inode) : Nat :=
  (inode.iDiskSectorsCount * 512 / 4096).toNat

/- An inode of the image that is live. -/
structure LiveInode
    (L : Layout)
    (owners : Owners)
    (n : UInt32) : Prop where
  valid : L.ValidInode n
  live : owners.live n

theorem LiveInode.root
    {L : Layout}
    (hL : L.Ok)
    (owners : Owners) :
    LiveInode L owners 2 :=
  ⟨hL.valid_root, owners.root⟩

/-
  The entries of a directory block from an offset on are at
  least as long as their headers and name no inode or a live
  inode of the image.
-/
inductive EntriesOk
    (L : Layout)
    (owners : Owners)
    (b : Block) : Nat → Prop
  | done
      {o : Nat}
      (hEnd : 4096 ≤ o) :
      EntriesOk L owners b o
  | entry
      {o : Nat}
      (hIn : o < 4096)
      (hSize : 8 ≤ (entryAt b o).dirEntrySize.toNat)
      (hInode : (entryAt b o).dirInode = 0 ∨
        LiveInode L owners (entryAt b o).dirInode)
      (hRest : EntriesOk L owners b
        (o + (entryAt b o).dirEntrySize.toNat)) :
      EntriesOk L owners b o

/- A whole block of well-formed directory entries. -/
abbrev DirBlockOk
    (L : Layout)
    (owners : Owners)
    (b : Block) : Prop :=
  EntriesOk L owners b 0

/- Entries may name whatever else becomes live. -/
theorem EntriesOk.mono
    {L : Layout}
    {owners owners' : Owners}
    {b : Block}
    {o : Nat}
    (h : EntriesOk L owners b o)
    (hMore : Extends owners owners') :
    EntriesOk L owners' b o := by
  induction h with
  | done hEnd => exact .done hEnd
  | entry hIn hSize hInode _ ih =>
      exact .entry hIn hSize
        (hInode.imp_right fun hLive =>
          ⟨hLive.valid, hMore.live _ hLive.live⟩) ih

/- The k-th direct pointer of an inode. -/
def Inode.direct
    (inode : Inode)
    (k : Nat)
    (hk : k < ext2NdirBlocks) : UInt32 :=
  inode.iBlock ⟨k, Nat.lt_trans hk (by decide)⟩

/- The direct pointers behind the first one. -/
def Inode.restBlocks
    (inode : Inode) : List UInt32 :=
  (List.finRange 11).map fun k : Fin 11 =>
    inode.direct (k + 1) (Nat.succ_lt_succ k.isLt)

theorem Inode.directBlocks_eq
    (inode : Inode) :
    inode.directBlocks =
      inode.iBlock 0 :: inode.restBlocks := by
  unfold directBlocks restBlocks
  change (List.finRange (11 + 1)).map _ = _
  rw [List.finRange_succ, List.map_cons, List.map_map]
  rfl

/-
  The pointers of an inode lead to blocks with its label.
  The sectors counted for a file may be more than those of
  its direct blocks, and a pointer below the count may be 0.
  The code tells the kind of an inode by one bit of its type
  each, and no inode is a file and a directory at once.
-/
structure SlotOk
    (L : Layout)
    (owners : Owners)
    (disk : UInt32 → Block)
    (n : UInt32)
    (inode : Inode) : Prop where
  kind : inode.isFile → inode.isDir = false
  file :
    inode.isFile → ∀ k (hk : k < ext2NdirBlocks),
      k < inode.allocated → inode.direct k hk ≠ 0 →
        owners (inode.direct k hk) = some (.data n k)
  pointer :
    inode.isFile → ext2NdirBlocks < inode.allocated →
      ∀ k : Fin ext2NBlocks, ext2NdirBlocks ≤ (k : Nat) →
        inode.iBlock k ≠ 0 →
          owners (inode.iBlock k) = some (.pointer n)
  dir :
    inode.isDir → ∀ k (hk : k < ext2NdirBlocks),
      (∀ j (hj : j ≤ k),
        inode.direct j (Nat.lt_of_le_of_lt hj hk) ≠ 0) →
        owners (inode.direct k hk) = some (.data n k) ∧
          DirBlockOk L owners (disk (inode.direct k hk))

------------------------------------------------------------
-- Changing a Slot's Surroundings
------------------------------------------------------------

/-
  A slot stays well formed under more owners, on a disk whose
  directory blocks of this inode stay well formed.
-/
theorem SlotOk.mono
    {L : Layout}
    {owners owners' : Owners}
    {disk disk' : UInt32 → Block}
    {n : UInt32}
    {inode : Inode}
    (h : SlotOk L owners disk n inode)
    (hOwners : Extends owners owners')
    (hDisk : ∀ b k, inode.isDir →
      owners b = some (.data n k) →
        DirBlockOk L owners (disk b) →
          DirBlockOk L owners (disk' b)) :
    SlotOk L owners' disk' n inode where
  kind := h.kind
  file hFile k hk hLt hSet :=
    hOwners.label _ _ (h.file hFile k hk hLt hSet)
  pointer hFile hLt k hk hNe :=
    hOwners.label _ _ (h.pointer hFile hLt k hk hNe)
  dir hDir k hk hLead :=
    have hOld := h.dir hDir k hk hLead
    ⟨hOwners.label _ _ hOld.1,
      (hDisk _ k hDir hOld.1 hOld.2).mono hOwners⟩

theorem SlotOk.enlist
    {L : Layout}
    {owners : Owners}
    {disk : UInt32 → Block}
    {n : UInt32}
    {inode : Inode}
    (h : SlotOk L owners disk n inode)
    (m : UInt32) :
    SlotOk L (owners.enlist m) disk n inode :=
  h.mono (.enlist owners m) fun _ _ _ _ hOk => hOk

------------------------------------------------------------
-- Well-Formed Images
------------------------------------------------------------

/- A block is marked used in its group's bitmap. -/
def Fs.BlockUsed
    (s : Fs)
    (b : UInt32) : Prop :=
  ∃ (g : Fin maxGroups) (i : Nat),
    g < s.layout.groups ∧ i < s.layout.blocksPerGroup ∧
      b.toNat = s.layout.numberOf .block g i ∧
      (s.bitmapBlock .block g).bit i = true

/-
  The image on the disk is well formed for some owners, as
  far as the inodes of a set are concerned.
-/
structure ImageOkFor
    (inodes : UInt32 → Prop)
    (owners : Owners)
    (s : Fs) : Prop where
  faults : s.faults = []
  layout : s.layout.Ok
  meta_used : ∀ b, s.layout.IsMeta b → s.BlockUsed b
  owned_used :
    ∀ b o, owners b = some o → s.BlockUsed b
  owned_not_meta :
    ∀ b o, owners b = some o → ¬ s.layout.IsMeta b
  slots :
    ∀ n, inodes n → s.layout.ValidInode n →
      SlotOk s.layout owners s.disk n (s.inodeAt n)

/- Every live inode of the image is well formed. -/
abbrev ImageOk
    (owners : Owners)
    (s : Fs) : Prop :=
  ImageOkFor owners.live owners s

theorem ImageOk.slot
    {owners : Owners}
    {s : Fs}
    (h : ImageOk owners s)
    {n : UInt32}
    (hn : LiveInode s.layout owners n) :
    SlotOk s.layout owners s.disk n (s.inodeAt n) :=
  h.slots n hn.live hn.valid

namespace ImageOkFor

variable {inodes : UInt32 → Prop}
variable {owners : Owners} {s : Fs}

theorem steady
    (h : ImageOkFor inodes owners s) :
    s.Steady :=
  ⟨h.faults, h.layout.blockSize⟩

/- Only disk and in-memory metadata matter. -/
theorem congr
    {t : Fs}
    (h : ImageOkFor inodes owners s)
    (hDisk : t.disk = s.disk)
    (hFaults : t.faults = s.faults)
    (hSb : t.sb = s.sb)
    (hBgdt : t.bgdt = s.bgdt) :
    ImageOkFor inodes owners t := by
  rcases s with ⟨disk, faults, sb, bgdt, cur, file, log⟩
  rcases t with ⟨disk', faults', sb', bgdt', cur', file', log'⟩
  simp only at hDisk hFaults hSb hBgdt
  subst hDisk hFaults hSb hBgdt
  exact ⟨h.faults, h.layout, h.meta_used, h.owned_used,
    h.owned_not_meta, h.slots⟩

/- With fewer inodes there is less to be well formed. -/
theorem mono
    {inodes' : UInt32 → Prop}
    (h : ImageOkFor inodes owners s)
    (hSub : ∀ n, inodes' n → inodes n) :
    ImageOkFor inodes' owners s :=
  { h with slots := fun n hn => h.slots n (hSub n hn) }

/- Entries may name another inode, too. -/
theorem enlist
    (h : ImageOkFor inodes owners s)
    (n : UInt32) :
    ImageOkFor inodes (owners.enlist n) s :=
  { h with slots := fun m hIn hm =>
      (h.slots m hIn hm).enlist n }

theorem setCurrentInode
    (h : ImageOkFor inodes owners s)
    (inode : Inode) :
    ImageOkFor inodes owners (s.setCurrentInode inode) :=
  h.congr rfl rfl rfl rfl

/- An owned block is none of the metadata blocks. -/
theorem ne_slotBlock
    (h : ImageOkFor inodes owners s)
    {b : UInt32}
    {o : Owner}
    (hb : owners b = some o)
    {n : UInt32}
    (hn : s.layout.ValidInode n) :
    s.layout.slotBlock n ≠ b := by
  intro hEq
  exact h.owned_not_meta b o hb
    (hEq ▸ h.layout.slotBlock_meta hn)

theorem ne_bitmap
    (h : ImageOkFor inodes owners s)
    {b : UInt32}
    {o : Owner}
    (hb : owners b = some o)
    (r : Resource)
    {g : Fin maxGroups}
    (hg : g < s.layout.groups) :
    s.layout.bitmap r g ≠ b := by
  intro hEq
  exact h.owned_not_meta b o hb (hEq ▸ .bitmap r g hg)

theorem ne_zero
    (h : ImageOkFor inodes owners s)
    {b : UInt32}
    {o : Owner}
    (hb : owners b = some o) :
    b ≠ 0 := by
  intro hEq
  exact h.owned_not_meta b o hb (hEq ▸ .superBlock)

end ImageOkFor

------------------------------------------------------------
-- Allocations
------------------------------------------------------------

/- A clear bit within reach of the allocator's scan. -/
structure FreeBit
    (s : Fs)
    (r : Resource)
    (g : Fin maxGroups)
    (i : Nat) : Prop where
  group_lt : g < s.layout.groups
  lt : i < s.layout.inodesPerGroup
  clear : (s.bitmapBlock r g).bit i = false

/- The block number of a bit. -/
def Layout.blockNumber
    (L : Layout)
    (g : Fin maxGroups)
    (i : Nat) : UInt32 :=
  UInt32.ofNat (L.numberOf .block g i)

section

variable {inodes : UInt32 → Prop}
variable {owners : Owners} {s : Fs}
variable {r : Resource} {g : Fin maxGroups} {i : Nat}

theorem FreeBit.blockNumber_toNat
    (hL : s.layout.Ok)
    (hFree : FreeBit s r g i) :
    (s.layout.blockNumber g i).toNat =
      s.layout.numberOf .block g i := by
  have hLe := hL.inodes_le
  have hLt := hFree.lt
  exact UInt32.toNat_ofNat_of_lt'
    (hL.numberOf_lt .block g
      (show i < s.layout.blocksPerGroup by omega))

/- A block with a clear bit is not used. -/
theorem FreeBit.not_used
    (hL : s.layout.Ok)
    (hFree : FreeBit s .block g i) :
    ¬ s.BlockUsed (s.layout.blockNumber g i) := by
  rintro ⟨g', i', hg', hi', hNumber, hBit⟩
  have hLe := hL.inodes_le
  have hLt := hFree.lt
  rw [hFree.blockNumber_toNat hL] at hNumber
  rcases Layout.numberOf_inj .block
      (show i < s.layout.limit .block from by
        rw [Layout.limit]
        omega) hi' hNumber with ⟨hEq, hii⟩
  subst hEq hii
  rw [hFree.clear] at hBit
  exact absurd hBit (by simp)

/- Claiming a bit keeps every used block used. -/
theorem Fs.BlockUsed.claim
    (hL : s.layout.Ok)
    (hFree : FreeBit s r g i)
    {b : UInt32}
    (h : s.BlockUsed b) :
    (s.claim r g i).BlockUsed b := by
  rcases h with ⟨g', i', hg', hi', hNumber, hBit⟩
  have hInodes := hL.inodes_max
  have hLt := hFree.lt
  refine ⟨g', i', ?_, ?_, ?_, ?_⟩
  · rw [claim_layout]
    exact hg'
  · rw [claim_layout]
    exact hi'
  · rw [claim_layout]
    exact hNumber
  · rw [Fs.bitmapBlock_claim hL.toBitmapsOk rfl
      hFree.group_lt hg']
    split
    · next hEq =>
        cases hEq
        rw [ByteBuffer.bit_setBit _ (Nat.div_lt_of_lt_mul
          (show i < 8 * 4096 by omega)), hBit, Bool.true_or]
    · exact hBit

/- The claimed block is used afterwards. -/
theorem Fs.blockUsed_claim_self
    (hL : s.layout.Ok)
    (hFree : FreeBit s .block g i) :
    (s.claim .block g i).BlockUsed
      (s.layout.blockNumber g i) := by
  have hInodes := hL.inodes_max
  have hLe := hL.inodes_le
  have hLt := hFree.lt
  refine ⟨g, i, ?_, ?_, ?_, ?_⟩
  · rw [claim_layout]
    exact hFree.group_lt
  · rw [claim_layout]
    omega
  · rw [claim_layout]
    exact hFree.blockNumber_toNat hL
  · rw [Fs.bitmapBlock_claim hL.toBitmapsOk rfl
      hFree.group_lt hFree.group_lt, if_pos rfl,
      ByteBuffer.bit_setBit_self _ (Nat.div_lt_of_lt_mul
        (show i < 8 * 4096 by omega))]

/- A claim changes metadata blocks only. -/
theorem Fs.claim_disk_of_not_meta
    (hFree : FreeBit s r g i)
    {b : UInt32}
    (hb : ¬ s.layout.IsMeta b) :
    (s.claim r g i).disk b = s.disk b := by
  apply claim_disk_of_ne
  · intro hEq
    exact hb (hEq ▸ .bitmap r g hFree.group_lt)
  · intro hEq
    exact hb (hEq ▸ .superBlock)
  · intro hEq
    exact hb (hEq ▸ .groupTable)

/- A claim leaves the inode tables alone. -/
theorem Fs.inodeAt_claim
    (hL : s.layout.Ok)
    (hFree : FreeBit s r g i)
    {n : UInt32}
    (hn : s.layout.ValidInode n) :
    (s.claim r g i).inodeAt n = s.inodeAt n := by
  apply inodeAt_congr (claim_layout r g i s)
  have hGroup := hL.slotGroup_lt hn
  have hTable := hL.slotTable_lt n
  apply claim_disk_of_ne
  · exact hL.table_ne_bitmap _ _ _ _ hGroup
      hFree.group_lt hTable
  · exact hL.table_ne_zero _ _ hGroup hTable
  · exact hL.table_ne_one _ _ hGroup hTable

/- Any allocation keeps the image well formed. -/
theorem ImageOkFor.claim
    (h : ImageOkFor inodes owners s)
    (hFree : FreeBit s r g i) :
    ImageOkFor inodes owners (s.claim r g i) where
  faults := h.faults
  layout := by
    rw [Fs.claim_layout]
    exact h.layout
  meta_used b hb := by
    rw [Fs.claim_layout] at hb
    exact (h.meta_used b hb).claim h.layout hFree
  owned_used b o hb :=
    (h.owned_used b o hb).claim h.layout hFree
  owned_not_meta b o hb := by
    rw [Fs.claim_layout]
    exact h.owned_not_meta b o hb
  slots n hIn hn := by
    rw [Fs.claim_layout] at hn ⊢
    rw [Fs.inodeAt_claim h.layout hFree hn]
    refine (h.slots n hIn hn).mono (.refl owners) ?_
    intro b k _ hb hOk
    rwa [Fs.claim_disk_of_not_meta hFree
      (h.owned_not_meta b _ hb)]

/- A block about to be claimed has no label yet. -/
theorem ImageOkFor.unlabelled
    (h : ImageOkFor inodes owners s)
    (hFree : FreeBit s .block g i) :
    owners (s.layout.blockNumber g i) = none := by
  cases hOwner : owners (s.layout.blockNumber g i) with
  | none => rfl
  | some o =>
      exact absurd (h.owned_used _ _ hOwner)
        (hFree.not_used h.layout)

theorem ImageOkFor.not_meta_of_free
    (h : ImageOkFor inodes owners s)
    (hFree : FreeBit s .block g i) :
    ¬ s.layout.IsMeta (s.layout.blockNumber g i) :=
  fun hMeta =>
    hFree.not_used h.layout (h.meta_used _ hMeta)

/- A claimed block may be given any label. -/
theorem ImageOkFor.claimBlock
    (h : ImageOkFor inodes owners s)
    (hFree : FreeBit s .block g i)
    (o : Owner) :
    ImageOkFor inodes
      (owners.update (s.layout.blockNumber g i) o)
      (s.claim .block g i) := by
  have hClaim := h.claim hFree
  have hLabel := h.unlabelled hFree
  refine
    { faults := hClaim.faults
      layout := hClaim.layout
      meta_used := hClaim.meta_used
      owned_used := ?_
      owned_not_meta := ?_
      slots := ?_ }
  · intro b o' hb
    by_cases hEq : b = s.layout.blockNumber g i
    · rw [hEq]
      exact Fs.blockUsed_claim_self h.layout hFree
    · rw [owners.update_of_ne _ o hEq] at hb
      exact hClaim.owned_used b o' hb
  · intro b o' hb
    by_cases hEq : b = s.layout.blockNumber g i
    · rw [hEq, Fs.claim_layout]
      exact h.not_meta_of_free hFree
    · rw [owners.update_of_ne _ o hEq] at hb
      exact hClaim.owned_not_meta b o' hb
  · intro n hIn hn
    exact (hClaim.slots n hIn hn).mono (.update hLabel o)
      fun _ _ _ _ hOk => hOk

end

------------------------------------------------------------
-- Writing Data and Inodes
------------------------------------------------------------

section

variable {inodes : UInt32 → Prop}
variable {owners : Owners} {s : Fs}

/- Writing a block that is not metadata. -/
theorem Fs.bitmapBlock_putBlock
    (h : ImageOkFor inodes owners s)
    {b : UInt32}
    {o : Owner}
    (hb : owners b = some o)
    (content : Block)
    (r : Resource)
    {g : Fin maxGroups}
    (hg : g < s.layout.groups) :
    (s.putBlock b content).bitmapBlock r g =
      s.bitmapBlock r g := by
  rw [bitmapBlock, bitmapBlock, putBlock_layout,
    putBlock_disk_of_ne _ _ (h.ne_bitmap hb r hg)]

/-
  Writing a data block of an inode; when the inode is a
  directory, what is written must be directory entries.
-/
theorem ImageOkFor.putData
    (h : ImageOkFor inodes owners s)
    {b n : UInt32}
    {k : Nat}
    (hb : owners b = some (.data n k))
    {content : Block}
    (hDir : s.layout.ValidInode n →
      (s.inodeAt n).isDir →
        DirBlockOk s.layout owners content) :
    ImageOkFor inodes owners (s.putBlock b content) where
  faults := h.faults
  layout := h.layout
  meta_used b' hb' := by
    rcases h.meta_used b' hb' with ⟨g, i, hg, hi, hN, hBit⟩
    refine ⟨g, i, hg, hi, hN, ?_⟩
    rwa [Fs.bitmapBlock_putBlock h hb content _ hg]
  owned_used b' o' hb' := by
    rcases h.owned_used b' o' hb' with
      ⟨g, i, hg, hi, hN, hBit⟩
    refine ⟨g, i, hg, hi, hN, ?_⟩
    rwa [Fs.bitmapBlock_putBlock h hb content _ hg]
  owned_not_meta := h.owned_not_meta
  slots m hIn hm := by
    rw [Fs.inodeAt_putBlock _ _ (h.ne_slotBlock hb hm)]
    refine (h.slots m hIn hm).mono (.refl owners) ?_
    intro b' k' hIsDir hb' hOk
    by_cases hEq : b' = b
    · subst hEq
      rw [Fs.putBlock_disk_self]
      have hSame : m = n := by
        rw [hb] at hb'
        cases hb'
        rfl
      subst hSame
      exact hDir hm hIsDir
    · rwa [Fs.putBlock_disk_of_ne _ _ hEq]

/- Writing an inode leaves the bitmaps alone. -/
theorem Fs.bitmapBlock_putInode
    (hL : s.layout.Ok)
    {n : UInt32}
    (hn : s.layout.ValidInode n)
    (inode : Inode)
    (r : Resource)
    {g : Fin maxGroups}
    (hg : g < s.layout.groups) :
    (s.putInode n inode).bitmapBlock r g =
      s.bitmapBlock r g := by
  rw [bitmapBlock, bitmapBlock, putInode_layout,
    putInode_disk_of_ne]
  exact (hL.table_ne_bitmap r _ g _ (hL.slotGroup_lt hn) hg
    (hL.slotTable_lt n)).symm

/-
  Writing a well-formed inode to its slot, which may have
  held anything before.
-/
theorem ImageOkFor.putInode
    (h : ImageOkFor inodes owners s)
    {n : UInt32}
    (hn : s.layout.ValidInode n)
    {inode : Inode}
    (hSlot : SlotOk s.layout owners s.disk n inode) :
    ImageOkFor (fun m => m = n ∨ inodes m) owners
      (s.putInode n inode) := by
  have hUsed {b : UInt32} (hb : s.BlockUsed b) :
      (s.putInode n inode).BlockUsed b := by
    rcases hb with ⟨g, i, hg, hi, hN, hBit⟩
    refine ⟨g, i, hg, hi, hN, ?_⟩
    rwa [Fs.bitmapBlock_putInode h.layout hn _ _ hg]
  refine
    { faults := h.faults
      layout := h.layout
      meta_used := fun b hb => hUsed (h.meta_used b hb)
      owned_used := fun b o hb => hUsed (h.owned_used b o hb)
      owned_not_meta := h.owned_not_meta
      slots := ?_ }
  intro m hIn hm
  have hDisk {b : UInt32} {o : Owner}
      (hb : owners b = some o) :
      (s.putInode n inode).disk b = s.disk b :=
    Fs.putInode_disk_of_ne _ _ _
      (h.ne_slotBlock hb hn).symm
  rw [Fs.inodeAt_putInode h.layout hn hm]
  split
  · next hEq =>
      subst hEq
      refine hSlot.mono (.refl owners) ?_
      intro b k _ hb hOk
      rwa [hDisk hb]
  · next hNe =>
      refine (h.slots m (hIn.resolve_left hNe) hm).mono
        (.refl owners) ?_
      intro b k _ hb hOk
      rwa [hDisk hb]

end

end Ext2

end Ester
