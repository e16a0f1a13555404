import Ester.Ext2.Session.Creating
import Ester.Ext2.Lookup.Shown

/-
  What a successful creation leaves of the directory tree.

  The new number was not in use, every other inode in use is
  as before, and of all directory blocks only the first one
  of the directory created in changed: its last record was
  split.  So the tree has one more entry there exactly when
  the split left room for the name of the record it shrank.

  Key definitions include:
    * `NewEntry`
    * `SplitFits`
    * `entered`

  Key theorems include:
    * `CreateOutcome.newEntry`
    * `NewEntry.treeOk`
    * `NewEntry.splitFits`
-/

------------------------------------------------------------
-- Inodes in Use
------------------------------------------------------------

namespace Ester

namespace Ext2

section

variable {owners : Owners} {s t : Fs}
variable {parent : UInt32} {garbage : Inode}

/- Only the inode bitmaps say which inodes are in use. -/
theorem Fs.inodeUsed_congr
    (hLayout : t.layout = s.layout)
    (hBits : ∀ g : Fin maxGroups, g < s.layout.groups →
      t.bitmapBlock .inode g = s.bitmapBlock .inode g)
    (n : UInt32) :
    t.InodeUsed n ↔ s.InodeUsed n := by
  unfold InodeUsed
  rw [hLayout]
  constructor
  · rintro ⟨g, i, hg, hi, hNumber, hBit⟩
    rw [hBits g hg] at hBit
    exact ⟨g, i, hg, hi, hNumber, hBit⟩
  · rintro ⟨g, i, hg, hi, hNumber, hBit⟩
    rw [← hBits g hg] at hBit
    exact ⟨g, i, hg, hi, hNumber, hBit⟩

/- Claiming an inode bit uses its number. -/
theorem FreeBit.inodeUsed_claim
    {g : Fin maxGroups}
    {i : Nat}
    (hFree : FreeBit s .inode g i)
    (hL : s.layout.Ok)
    (n : UInt32) :
    (s.claim .inode g i).InodeUsed n ↔
      s.InodeUsed n ∨
        n = UInt32.ofNat (s.layout.numberOf .inode g i) := by
  have hInodes := hL.inodes_max
  have hLt := hFree.lt
  have hSet (b : Block) (k : Nat) :
      (b.setBit i).bit k = (b.bit k || decide (k = i)) :=
    ByteBuffer.bit_setBit b (Nat.div_lt_of_lt_mul
      (show i < 8 * 4096 by omega)) k
  have hToNat :
      (UInt32.ofNat (s.layout.numberOf .inode g i)).toNat =
        s.layout.numberOf .inode g i :=
    UInt32.toNat_ofNat_of_lt' (hL.numberOf_lt .inode g hLt)
  have hBits {g' : Fin maxGroups}
      (hg' : g' < s.layout.groups) :
      (s.claim .inode g i).bitmapBlock .inode g' =
        if (Resource.inode, g') = (.inode, g) then
          (s.bitmapBlock .inode g).setBit i
        else s.bitmapBlock .inode g' :=
    Fs.bitmapBlock_claim hL.toBitmapsOk rfl
      hFree.group_lt hg'
  unfold Fs.InodeUsed
  rw [Fs.claim_layout]
  constructor
  · rintro ⟨g', k, hg', hk, hNumber, hBit⟩
    rw [hBits hg'] at hBit
    split at hBit
    · next hSame =>
        cases hSame
        rw [hSet, Bool.or_eq_true, decide_eq_true_eq] at hBit
        rcases hBit with hOld | rfl
        · exact .inl ⟨_, k, hg', hk, hNumber, hOld⟩
        · apply Or.inr
          apply UInt32.toNat_inj.mp
          rw [hNumber, hToNat]
    · exact .inl ⟨g', k, hg', hk, hNumber, hBit⟩
  · rintro (⟨g', k, hg', hk, hNumber, hBit⟩ | rfl)
    · refine ⟨g', k, hg', hk, hNumber, ?_⟩
      rw [hBits hg']
      split
      · next hSame =>
          cases hSame
          rw [hSet, hBit, Bool.true_or]
      · exact hBit
    · refine ⟨g, i, hFree.group_lt, hLt, hToNat, ?_⟩
      rw [hBits hFree.group_lt, if_pos rfl, hSet]
      simp

/- A free number is not in use. -/
theorem FreeBit.not_inodeUsed
    {g : Fin maxGroups}
    {i : Nat}
    (hFree : FreeBit s .inode g i)
    (hL : s.layout.Ok) :
    ¬ s.InodeUsed
      (UInt32.ofNat (s.layout.numberOf .inode g i)) := by
  rintro ⟨g', k, hg', hk, hNumber, hBit⟩
  rw [UInt32.toNat_ofNat_of_lt'
    (hL.numberOf_lt .inode g hFree.lt)] at hNumber
  rcases Layout.numberOf_inj .inode hFree.lt hk hNumber with
    ⟨rfl, rfl⟩
  rw [hFree.clear] at hBit
  exact absurd hBit (by simp)

------------------------------------------------------------
-- The Placed File
------------------------------------------------------------

section

variable {i j : Nat} (h : ImageOk owners s)
variable (hn : s.layout.ValidInode parent)
variable (hInode :
  s.nextFree .inode (s.layout.slotGroup parent) = some i)
variable (hBlock :
  s.nextFree .block (s.layout.slotGroup parent) = some j)
variable (garbage)
include h hn hInode hBlock

/- Placing a file leaves the blocks that have an owner. -/
theorem Fs.placed_disk
    {b : UInt32}
    {o : Owner}
    (hb : owners b = some o) :
    (s.placed parent garbage i j).disk b = s.disk b := by
  rcases h.taken hn hInode hBlock with ⟨hTaken, hMore⟩
  have hLt := h.layout.slotGroup_lt hn
  have hFree := FreeBit.of_nextFree hLt hInode
  have hFree₁ := Fs.claim_inode_free h hn hBlock i
  have hMeta := h.owned_not_meta b o hb
  have hValid : (s.taken parent i j).layout.ValidInode
      (s.newNumber parent i) := by
    rw [Fs.taken_layout]
    exact Fs.newNumber_valid h hn hInode
  have hPut : (s.placed parent garbage i j).disk b =
      (s.taken parent i j).disk b :=
    Fs.putInode_disk_of_ne _ _ _
      (hTaken.ne_slotBlock (hMore.label b o hb) hValid).symm
  rw [hPut, Fs.taken, Fs.claim_disk_of_not_meta hFree₁
      (by rwa [Fs.claim_layout]),
    Fs.claim_disk_of_not_meta hFree hMeta]

/- Placing a file leaves the inodes of other numbers. -/
theorem Fs.placed_inodeAt
    {n : UInt32}
    (hValid : s.layout.ValidInode n)
    (hNe : n ≠ s.newNumber parent i) :
    (s.placed parent garbage i j).inodeAt n =
      s.inodeAt n := by
  have hTaken := (h.taken hn hInode hBlock).1
  have hLt := h.layout.slotGroup_lt hn
  have hFree := FreeBit.of_nextFree hLt hInode
  have hFree₁ := Fs.claim_inode_free h hn hBlock i
  have hNew : (s.taken parent i j).layout.ValidInode
      (s.newNumber parent i) := by
    rw [Fs.taken_layout]
    exact Fs.newNumber_valid h hn hInode
  have hValid₁ : (s.taken parent i j).layout.ValidInode n := by
    rwa [Fs.taken_layout]
  have hPut : (s.placed parent garbage i j).inodeAt n =
      (s.taken parent i j).inodeAt n :=
    (Fs.inodeAt_putInode hTaken.layout hNew hValid₁
      _).trans (if_neg hNe)
  have hValid₂ :
      (s.claim .inode (s.layout.slotGroup
        parent) i).layout.ValidInode n := by
    rwa [Fs.claim_layout]
  rw [hPut, Fs.taken,
    Fs.inodeAt_claim (h.claim hFree).layout hFree₁ hValid₂,
    Fs.inodeAt_claim h.layout hFree hValid]

/- Placing a file uses its number. -/
theorem Fs.placed_inodeUsed
    (n : UInt32) :
    (s.placed parent garbage i j).InodeUsed n ↔
      s.InodeUsed n ∨ n = s.newNumber parent i := by
  have hTaken := (h.taken hn hInode hBlock).1
  have hLt := h.layout.slotGroup_lt hn
  have hFree := FreeBit.of_nextFree hLt hInode
  have hClaim := h.claim hFree
  have hNew : (s.taken parent i j).layout.ValidInode
      (s.newNumber parent i) := by
    rw [Fs.taken_layout]
    exact Fs.newNumber_valid h hn hInode
  refine (Fs.inodeUsed_congr
    (s := s.claim .inode (s.layout.slotGroup parent) i)
    ?_ ?_ n).trans (hFree.inodeUsed_claim h.layout n)
  · rw [Fs.placed_layout, Fs.claim_layout]
  · intro g hg
    rw [Fs.claim_layout] at hg
    have hPut :
        (s.placed parent garbage i j).bitmapBlock .inode g =
          (s.taken parent i j).bitmapBlock .inode g :=
      Fs.bitmapBlock_putInode hTaken.layout hNew _ _
        (by rwa [Fs.taken_layout])
    rw [hPut, Fs.taken, Fs.bitmapBlock_claim
      hClaim.layout.toBitmapsOk rfl
      (by rwa [Fs.claim_layout]) (by rwa [Fs.claim_layout]),
      if_neg (by simp)]

end

------------------------------------------------------------
-- The New Entry
------------------------------------------------------------

/-
  A file was created in the directory `parent`: its number is
  new, other inodes in use and their blocks are unchanged,
  and the last record of the parent's first block was split.
-/
structure NewEntry
    (owners : Owners)
    (s : Fs)
    (parent : UInt32)
    (recs : List Entries)
    (name : List UInt8)
    (t : Fs) : Prop where
  layout : t.layout = s.layout
  fresh : ¬ s.InodeUsed t.file.inodeNum
  used :
    ∀ n, t.InodeUsed n ↔
      s.InodeUsed n ∨ n = t.file.inodeNum
  inodes :
    ∀ n, s.InodeUsed n → t.inodeAt n = s.inodeAt n
  notDir : (t.inodeAt t.file.inodeNum).isDir = false
  blocks :
    ∀ b n k, owners b = some (.data n k) →
      b ≠ (s.inodeAt parent).iBlock 0 → t.disk b = s.disk b
  isDir : (s.inodeAt parent).isDir
  first : (s.inodeAt parent).iBlock 0 ≠ 0
  split :
    ∃ es rest last, recs = es :: rest ∧
      Tiled (s.disk ((s.inodeAt parent).iBlock 0)) 0 last
        es ∧
      last + splitSize last (cString name).length + 8 +
        (cString name).length ≤ 4096 ∧
      t.disk ((s.inodeAt parent).iBlock 0) =
        placeEntry (s.disk ((s.inodeAt parent).iBlock 0))
          last t.file.inodeNum name (cString name).length

/- The first block of a directory has its label. -/
theorem SlotOk.first_owner
    {L : Layout}
    {disk : UInt32 → Block}
    {n : UInt32}
    {inode : Inode}
    (h : SlotOk L owners disk n inode)
    (hDir : inode.isDir)
    (hFirst : inode.iBlock 0 ≠ 0) :
    owners (inode.iBlock 0) = some (.data n 0) := by
  refine (h.dir hDir 0 (by decide) fun j hj => ?_).1
  have h0 : j = 0 := Nat.le_zero.mp hj
  subst h0
  exact hFirst

/- The other blocks of a directory keep off its first. -/
theorem SlotOk.rest_leading
    {L : Layout}
    {disk : UInt32 → Block}
    {n : UInt32}
    {inode : Inode}
    (h : SlotOk L owners disk n inode)
    (hDir : inode.isDir)
    (hFirst : inode.iBlock 0 ≠ 0) :
    LeadingOk
      (fun b => b ≠ inode.iBlock 0 ∧
        ∃ k, owners b = some (.data n k))
      inode.restBlocks := by
  apply leadingOk_map_finRange
  intro k hk
  have hOwner := (h.dir hDir (k + 1)
    (Nat.succ_lt_succ k.isLt) fun j hj => by
      cases j with
      | zero => exact hFirst
      | succ j =>
          have hLe : j ≤ k := Nat.le_of_succ_le_succ hj
          exact hk ⟨j, Nat.lt_of_le_of_lt hLe k.isLt⟩ hLe).1
  refine ⟨?_, k + 1, hOwner⟩
  intro hEq
  rw [hEq, h.first_owner hDir hFirst] at hOwner
  exact absurd (Option.some.inj hOwner) (by simp)

/-
  An entry that was added behind the placing of a file stands
  at the split of the parent's first block, and the other
  blocks are as the placing left them.
-/
theorem ImageOk.added_entry
    (h : ImageOk owners s)
    (hParent : LiveInode s.layout owners parent)
    {i j : Nat}
    (hInode :
      s.nextFree .inode (s.layout.slotGroup parent) = some i)
    (hBlock :
      s.nextFree .block (s.layout.slotGroup parent) = some j)
    (hDir : (s.inodeAt parent).isDir)
    {recs : List Entries}
    (hRecs : RecordsOf s parent recs)
    {inodeNum : UInt32}
    {row : List UInt8}
    {len : Nat}
    (hLen : strlen row = some len)
    (hAdd : ext2AddDirEntry (s.inodeAt parent) inodeNum row
      (s.placed parent garbage i j) = some (0, t)) :
    (s.inodeAt parent).iBlock 0 ≠ 0 ∧
      ∃ es rest last, recs = es :: rest ∧
        Tiled (s.disk ((s.inodeAt parent).iBlock 0)) 0 last
          es ∧
        last + splitSize last len + 8 + len ≤ 4096 ∧
        t.disk ((s.inodeAt parent).iBlock 0) =
          placeEntry (s.disk ((s.inodeAt parent).iBlock 0))
            last inodeNum row len ∧
        ∀ b, b ≠ (s.inodeAt parent).iBlock 0 →
          t.disk b = (s.placed parent garbage i j).disk b := by
  have hn := hParent.valid
  have hFirst : (s.inodeAt parent).iBlock 0 ≠ 0 := by
    intro h0
    rw [ext2AddDirEntry, if_pos hDir, Inode.directBlocks_eq,
      addInBlocks, if_pos h0] at hAdd
    cases hAdd
  have hOwner := (h.slot hParent).first_owner hDir hFirst
  have hDisk := Fs.placed_disk garbage h hn hInode hBlock hOwner
  have hTiled := hRecs.tiled hDir
  rw [Inode.directBlocks_eq] at hTiled
  rcases hTiled.cases_cons hFirst with
    ⟨es, rest, last, hEs, hTiled, -⟩
  have hHere : FirstTiled (s.inodeAt parent)
      (s.placed parent garbage i j) last
      (entryAt ((s.placed parent garbage i j).disk
        ((s.inodeAt parent).iBlock 0))
          last).dirNameLen.toNat es :=
    ⟨(h.placed hn hInode hBlock garbage).1.steady, hDir, hFirst,
      hDisk.symm ▸ hTiled, rfl⟩
  rcases splitFirst_of_added hHere hLen hAdd with
    ⟨hFits, hSplit⟩
  refine ⟨hFirst, es, rest, last, hEs, hTiled, hFits, ?_, ?_⟩
  · rw [hSplit, Fs.splitFirst, Fs.putBlock_disk_self, hDisk]
  · intro b hb
    rw [hSplit, Fs.splitFirst, Fs.putBlock_disk_of_ne _ _ hb]

/- Creating a file makes a new entry. -/
theorem CreateOutcome.newEntry
    {row : List UInt8}
    (hOut : CreateOutcome owners parent garbage row s 0 t)
    (h : ImageOk owners s)
    (hParent : LiveInode s.layout owners parent)
    (hCurrent : s.currentInode = s.inodeAt parent)
    {recs : List Entries}
    (hRecs : RecordsOf s parent recs)
    (hRow : Terminated row) :
    NewEntry owners s parent recs row t := by
  have hLen := strlen_of_terminated hRow
  have hn := hParent.valid
  cases hOut with
  | created i j u hDir hInode hBlock hAdd hLink =>
      have hFree := FreeBit.of_nextFree
        (h.layout.slotGroup_lt hn) hInode
      have hFresh := hFree.not_inodeUsed h.layout
      change ¬ s.InodeUsed (s.newNumber parent i) at hFresh
      rcases h.placed hn hInode hBlock garbage with
        ⟨hImage, hStored⟩
      have hFile : u.file.inodeNum =
          s.newNumber parent i := by
        rw [hLink.file]
        rfl
      have hNumber :
          (u.setFile { u.file with
            exist := true }).file.inodeNum =
              s.newNumber parent i := hFile
      have hTaken := (h.taken hn hInode hBlock).1
      have hNotDir := (initInode_spec garbage hTaken.steady
        (s.newBlock parent j)).2.1
      rw [hCurrent] at hDir hAdd
      rcases h.added_entry hParent hInode hBlock hDir hRecs hLen
          hAdd with ⟨hFirst, es, rest, last, hEs, hTiled, hFits,
            hHead, hOther⟩
      have hLayout : (s.placed parent garbage i j).layout =
          s.layout := Fs.placed_layout i j
      have hValid := Fs.newNumber_valid h hn hInode
      exact
        { layout := hLink.layout.trans hLayout
          fresh := hNumber.symm ▸ hFresh
          used := fun n => by
            rw [hNumber]
            exact (Fs.inodeUsed_congr hLink.layout
              (fun g hg => hLink.bitmapBlock hImage .inode hg)
              n).trans (Fs.placed_inodeUsed garbage h hn
                hInode hBlock n)
          inodes := fun n hn' => by
            have hSame := Fs.placed_inodeAt garbage h hn
              hInode hBlock hn'.valid fun hEq =>
                hFresh (hEq ▸ hn')
            exact (hLink.inodeAt hImage
              (hLayout.symm ▸ hn'.valid)).trans hSame
          notDir := by
            have hNew := hLink.inodeAt hImage
              (hLayout.symm ▸ hValid)
            rw [hNumber]
            exact (congrArg Inode.isDir
              (hNew.trans hStored)).trans hNotDir
          blocks := fun b n k hb hNe =>
            (hOther b hNe).trans
              (Fs.placed_disk garbage h hn hInode hBlock hb)
          isDir := hDir
          first := hFirst
          split := ⟨es, rest, last, hEs, hTiled, hFits,
            hFile ▸ hHead⟩ }

------------------------------------------------------------
-- The Tree Afterwards
------------------------------------------------------------

/- A label belongs to one block of one directory. -/
theorem NewEntry.label_ne
    {recs : List Entries}
    {name : List UInt8}
    (hNew : NewEntry owners s parent recs name t)
    (h : ImageOk owners s)
    (hParent : LiveInode s.layout owners parent)
    {b n : UInt32}
    {k : Nat}
    (hb : owners b = some (.data n k))
    (hNe : n ≠ parent) :
    b ≠ (s.inodeAt parent).iBlock 0 := by
  have hOwner := (h.slot hParent).first_owner hNew.isDir
    hNew.first
  rintro rfl
  rw [hOwner, Option.some.injEq, Owner.data.injEq] at hb
  exact hNe hb.1.symm

/- The records of other directories are as before. -/
theorem NewEntry.recordsOf
    {recs : List Entries}
    {name : List UInt8}
    (hNew : NewEntry owners s parent recs name t)
    (h : ImageOk owners s)
    (hParent : LiveInode s.layout owners parent)
    {n : UInt32}
    (hUsed : s.InodeUsed n)
    (hLive : (s.inodeAt n).isDir → owners.live n)
    (hNe : n ≠ parent)
    {recs' : List Entries}
    (hRecs : RecordsOf s n recs') :
    RecordsOf t n recs' := by
  constructor
  · intro hDir
    rw [hNew.inodes n hUsed] at hDir ⊢
    apply (hRecs.tiled hDir).congr
    refine ((h.slot ⟨hUsed.valid, hLive hDir⟩).leadingOk
      hDir).mono ?_
    rintro b ⟨⟨k, hb⟩, -⟩
    exact hNew.blocks b n k hb (hNew.label_ne h hParent hb hNe)
  · intro hNot
    rw [hNew.inodes n hUsed] at hNot
    exact hRecs.leaf hNot

/-
  The split left room for the name of the record it shrank,
  which is the last one of the directory's first block.
-/
def SplitFits
    (s : Fs)
    (parent : UInt32)
    (len : Nat) : Prop :=
  ∀ last es,
    Tiled (s.disk ((s.inodeAt parent).iBlock 0)) 0 last es →
      8 + (entryAt (s.disk ((s.inodeAt parent).iBlock 0))
        last).dirNameLen.toNat ≤ splitSize last len

section

variable {recs : List Entries} {row : List UInt8}
variable (hNew : NewEntry owners s parent recs row t)
variable (hUsed : s.InodeUsed parent)
include hNew hUsed

/- When the old name fits, the parent has one record more. -/
theorem NewEntry.recordsOf_parent
    (h : ImageOk owners s)
    (hLive : owners.live parent)
    (hRecs : RecordsOf s parent recs)
    (hRow : Terminated row)
    (hLen : (cString row).length ≤ ext2NameLen)
    (hFits : SplitFits s parent (cString row).length) :
    RecordsOf t parent
      (enter recs (cString row) t.file.inodeNum) := by
  have hSame := hNew.inodes parent hUsed
  have hTiled := hRecs.tiled hNew.isDir
  rcases hNew.split with
    ⟨es, rest, last, rfl, hHead, hEnd, hDisk⟩
  rw [Inode.directBlocks_eq] at hTiled
  rcases hTiled.cases_cons hNew.first with
    ⟨es', rest', _, hEq, _, hRest⟩
  cases hEq
  constructor
  · intro _
    rw [hSame, Inode.directBlocks_eq]
    have hPlaced : Tiled
        (t.disk ((s.inodeAt parent).iBlock 0)) 0
        (last + splitSize last (cString row).length)
        (es ++ [(cString row, t.file.inodeNum)]) := by
      rw [hDisk]
      exact hHead.placeEntry rfl ⟨hFits last es hHead, hEnd⟩
        (strlen_of_terminated hRow) hLen
    refine .block hNew.first hPlaced (hRest.congr ?_)
    refine ((h.slot ⟨hUsed.valid, hLive⟩).rest_leading
      hNew.isDir hNew.first).mono ?_
    rintro b ⟨hNe, k, hb⟩
    exact hNew.blocks b parent k hb hNe
  · intro hNot
    rw [hSame, hNew.isDir] at hNot
    exact absurd hNot (by simp)

/- Only then: a tiled result kept the old name. -/
theorem NewEntry.splitFits
    {recs' : List Entries}
    (hRecs' : RecordsOf t parent recs') :
    SplitFits s parent (cString row).length := by
  have hSame := hNew.inodes parent hUsed
  have hTiled := hRecs'.tiled (hSame.symm ▸ hNew.isDir)
  rcases hNew.split with
    ⟨es, rest, last, rfl, hHead, hEnd, hDisk⟩
  rw [hSame, Inode.directBlocks_eq] at hTiled
  rcases hTiled.cases_cons hNew.first with
    ⟨es', rest', last', -, hHead', -⟩
  rw [hDisk] at hHead'
  intro last₁ es₁ hHead₁
  rcases hHead.unique hHead₁ with ⟨rfl, -⟩
  exact hHead.fits_of_placeEntry hEnd hHead'

end

/- The tree with one more entry in one directory. -/
def entered
    (recs : UInt32 → List Entries)
    (parent : UInt32)
    (name : List UInt8)
    (n : UInt32) : UInt32 → List Entries :=
  Function.update recs parent (enter (recs parent) name n)

/- A fitting split leaves a tree with the new entry. -/
theorem NewEntry.treeOk
    {recs : UInt32 → List Entries}
    {row : List UInt8}
    (hNew : NewEntry owners s parent (recs parent) row t)
    (h : ImageOk owners s)
    (hLive : UsedLive owners s)
    (hTree : TreeOk s recs)
    (hUsed : s.InodeUsed parent)
    (hRow : Terminated row)
    (hName : IsName (cString row))
    (hFits : SplitFits s parent (cString row).length) :
    TreeOk t (entered recs parent (cString row)
      t.file.inodeNum) := by
  have hNumUsed : t.InodeUsed t.file.inodeNum :=
    (hNew.used _).mpr (.inr rfl)
  have hNumNe : t.file.inodeNum ≠ parent := by
    intro hEq
    exact hNew.fresh (hEq.symm ▸ hUsed)
  have hFirst : recs parent ≠ [] := by
    rcases hNew.split with ⟨es, rest, last, hEq, -⟩
    rw [hEq]
    exact List.cons_ne_nil _ _
  have hPerm := present_enter_perm hFirst (cString row)
    hNumUsed.ne_zero
  refine
    { root := (hNew.used 2).mpr (.inl hTree.root)
      records := ?_
      unused := ?_
      used := ?_
      names := ?_ }
  · intro n hn
    unfold entered
    by_cases hEq : n = parent
    · subst hEq
      rw [Function.update_self]
      exact hNew.recordsOf_parent hUsed h (hLive n hUsed)
        (hTree.records n hUsed) hRow hName.length_le hFits
    · rw [Function.update_of_ne hEq]
      rcases (hNew.used n).mp hn with hOld | rfl
      · exact hNew.recordsOf h ⟨hUsed.valid, hLive _ hUsed⟩
          hOld (fun _ => hLive n hOld) hEq
          (hTree.records n hOld)
      · rw [hTree.unused _ hNew.fresh]
        refine ⟨fun hDir => ?_, fun _ => rfl⟩
        rw [hNew.notDir] at hDir
        exact absurd hDir (by simp)
  · intro n hn
    have hOld : ¬ s.InodeUsed n :=
      fun hIs => hn ((hNew.used n).mpr (.inl hIs))
    have hNe : n ≠ parent := fun hEq => hOld (hEq ▸ hUsed)
    unfold entered
    rw [Function.update_of_ne hNe]
    exact hTree.unused n hOld
  · intro n e he
    apply (hNew.used e.2).mpr
    by_cases hEq : n = parent
    · subst hEq
      unfold entered at he
      rw [Function.update_self] at he
      rcases List.mem_cons.mp (hPerm.subset he) with
        rfl | hOld
      · exact .inr rfl
      · exact .inl (hTree.used n e hOld)
    · unfold entered at he
      rw [Function.update_of_ne hEq] at he
      exact .inl (hTree.used n e he)
  · intro n e he
    by_cases hEq : n = parent
    · subst hEq
      unfold entered at he
      rw [Function.update_self] at he
      rcases List.mem_cons.mp (hPerm.subset he) with
        rfl | hOld
      · exact hName
      · exact hTree.names n e hOld
    · unfold entered at he
      rw [Function.update_of_ne hEq] at he
      exact hTree.names n e he

end

end Ext2

end Ester
