import Mathlib.Tactic.IntervalCases
import Ester.Library.Run
import Ester.Ext2.Session.Creating
import Ester.Ext2.SampleImage

/-
  What a creation that fails leaves behind.

  Creation takes an inode before anything else that lasts,
  and no failure after that gives it back.  So a failed
  creation is undone exactly when it fails before the inode
  is taken: the path does not fit, the parent is no directory
  or the inode bitmap of its group has no clear bit.

  Key definitions include:
    * `Restored`
    * `TakesInode`

  Key theorems include:
    * `CreateOutcome.marks`
    * `TakesInode.leaks`
    * `create_atomic_iff`
    * `create_not_atomic`
-/

------------------------------------------------------------
-- Bitmap Scans
------------------------------------------------------------

namespace Ester

namespace Ext2

/- A scan without a hit saw no clear bit below its limit. -/
theorem scanBitmap_eq_none
    {bitmap : Block}
    {limit : Nat}
    (hScan : scanBitmap bitmap limit = some none) :
    ∀ i, i < limit → bitmap.bit i = true := by
  rw [scanBitmap] at hScan
  split at hScan
  · cases hScan
  · next hNone =>
      split at hScan
      · next hLe =>
          rw [Nat.min_eq_left hLe] at hNone
          exact (ByteBuffer.firstClear_eq_none_iff _ _).mp hNone
      · cases hScan

/- A hit of a scan is a clear bit below its limit. -/
theorem scanBitmap_eq_some
    {bitmap : Block}
    {limit i : Nat}
    (hScan : scanBitmap bitmap limit = some (some i)) :
    i < limit ∧ bitmap.bit i = false := by
  rw [scanBitmap] at hScan
  split at hScan
  · next j hSome =>
      cases hScan
      rcases (ByteBuffer.firstClear_eq_some_iff _ _ _).mp hSome
        with ⟨hClear, hLt, -⟩
      exact ⟨Nat.lt_of_lt_of_le hLt (Nat.min_le_left _ _),
        hClear⟩
  · split at hScan <;> cases hScan

------------------------------------------------------------
-- Conditions
------------------------------------------------------------

/-
  Nothing lasting changed: the disk, the counters in memory
  and what the descriptor says of its inode.
-/
structure Restored
    (s t : Fs) : Prop where
  disk : t.disk = s.disk
  sb : t.sb = s.sb
  bgdt : t.bgdt = s.bgdt
  inodeNum : t.file.inodeNum = s.file.inodeNum
  inode : t.file.inode = s.file.inode
  exist : t.file.exist = s.file.exist

/-
  The parent resolves to a directory, and the inode bitmap of
  its group, as the device delivers it, has a clear bit among
  the first `s_inodes_per_group` ones.
-/
def TakesInode
    (stack : CreateStack)
    (s : Fs) : Prop :=
  ∃ parent v g err bitmap u i,
    ResolvesParent stack s parent v ∧
      v.currentInode.isDir ∧
      ext2GetBgd ((parent - 1) / s.sb.sInodesPerGroup) =
        some g ∧
      readLocal (s.bgdt g).bgInodeBitmap v =
        some (err, bitmap, u) ∧
      i < s.sb.sInodesPerGroup.toNat ∧
      bitmap.bit i = false

section

variable {s t : Fs}

theorem Restored.refl
    (s : Fs) :
    Restored s s :=
  ⟨rfl, rfl, rfl, rfl, rfl, rfl⟩

theorem Restored.trans
    {u : Fs}
    (h₁ : Restored s t)
    (h₂ : Restored t u) :
    Restored s u where
  disk := h₂.disk.trans h₁.disk
  sb := h₂.sb.trans h₁.sb
  bgdt := h₂.bgdt.trans h₁.bgdt
  inodeNum := h₂.inodeNum.trans h₁.inodeNum
  inode := h₂.inode.trans h₁.inode
  exist := h₂.exist.trans h₁.exist

theorem Untouched.restored
    (h : Untouched s t) :
    Restored s t where
  disk := h.disk
  sb := h.sb
  bgdt := h.bgdt
  inodeNum := by rw [h.file]
  inode := by rw [h.file]
  exist := by rw [h.file]

------------------------------------------------------------
-- One Creation
------------------------------------------------------------

/- A block allocation leaves the count of free inodes. -/
theorem ext2FreeBlockAlloc_freeInodes
    {group num : UInt32}
    (hAlloc : ext2FreeBlockAlloc group s = some (num, t)) :
    t.sb.sFreeInodesCount = s.sb.sFreeInodesCount := by
  rcases ext2FreeAlloc_cases hAlloc with
    ⟨-, g, err, bitmap, u, found, -, -, -, hFound⟩
  rcases hFound with ⟨-, -, hSame⟩ | ⟨-, hSb⟩
  · rw [hSame.sb]
  · rw [hSb]
    rfl

theorem commitNew_sb
    {parent newInode : Inode}
    {n : UInt32}
    {name : List UInt8}
    {err : UInt8}
    (hCommit : commitNew parent n newInode name s =
      some (err, t)) :
    t.sb = s.sb := by
  simp only [commitNew, Option.bind_eq_bind,
    Option.bind_eq_some_iff] at hCommit
  rcases hCommit with
    ⟨u, hWrite, ⟨code, v⟩, hAdd, hCommit⟩
  have hStored := (ext2InodeWrite_diskOnly hWrite).trans
    (ext2AddDirEntry_diskOnly hAdd)
  split at hCommit
  · cases hCommit
    exact hStored.sb
  · cases hCommit
    exact hStored.sb

/-
  Creation in an extracted parent stops before an inode is
  taken, or has counted one inode less ever after.
-/
theorem createIn_takes
    {parent : UInt32}
    {garbage : Inode}
    {name : List UInt8}
    {err : UInt8}
    (hCreate : createIn parent garbage name s =
      some (err, t)) :
    (s.currentInode.isDir = false ∧ t = s) ∨
      (s.currentInode.isDir ∧ ∃ g code bitmap u found,
        ext2GetBgd ((parent - 1) / s.sb.sInodesPerGroup) =
          some g ∧
        readLocal (s.bgdt g).bgInodeBitmap s =
          some (code, bitmap, u) ∧
        scanBitmap bitmap s.sb.sInodesPerGroup.toNat =
          some found ∧
        ((found = none ∧ Untouched s t) ∨
          (found.isSome ∧ t.sb.sFreeInodesCount =
            s.sb.sFreeInodesCount - 1))) := by
  rw [createIn] at hCreate
  split at hCreate
  · next hNotDir =>
      cases hCreate
      exact .inl ⟨Bool.eq_false_iff.mpr hNotDir, rfl⟩
  · next hDir =>
      refine .inr ⟨not_not.mp hDir, ?_⟩
      dsimp only at hCreate
      split at hCreate
      · cases hCreate
      · simp only [Option.bind_eq_bind,
          Option.bind_eq_some_iff] at hCreate
        rcases hCreate with ⟨⟨n, u⟩, hInode, hCreate⟩
        rcases ext2FreeAlloc_cases hInode with
          ⟨-, g, code, bitmap, v, found, hGroup, hRead, hScan,
            ⟨rfl, rfl, hSame⟩ | ⟨hFound, hSb⟩⟩
        · rw [if_pos rfl] at hCreate
          cases hCreate
          exact ⟨g, code, bitmap, v, none, hGroup, hRead,
            hScan, .inl ⟨rfl, hSame⟩⟩
        · have hCounted : u.sb.sFreeInodesCount =
              s.sb.sFreeInodesCount - 1 := by
            rw [hSb]
            rfl
          refine ⟨g, code, bitmap, v, found, hGroup, hRead,
            hScan, .inr ⟨hFound, ?_⟩⟩
          split at hCreate
          · cases hCreate
            exact hCounted
          · simp only [Option.bind_eq_some_iff] at hCreate
            rcases hCreate with ⟨⟨b, w⟩, hBlock, hCreate⟩
            have hKept :=
              (ext2FreeBlockAlloc_freeInodes hBlock).trans
                hCounted
            split at hCreate
            · cases hCreate
              exact hKept
            · rw [commitNew_sb hCreate]
              exact hKept

/- A failed creation that takes no inode only looked up. -/
theorem ext2FileCreate_untouched
    {stack : CreateStack}
    {err : UInt8}
    (hNone : ¬ TakesInode stack s)
    (hCreate : ext2FileCreate stack s = some (err, t)) :
    Untouched s t := by
  rcases ext2FileCreate_cases hCreate with
    ⟨-, rfl, -⟩ | ⟨parent, v, name, hParent, hIn⟩
  · exact .refl _
  · have hSame := hParent.untouched
    rcases createIn_takes hIn with
      ⟨-, rfl⟩ | ⟨hDir, g, code, bitmap, u, found, hGroup,
        hRead, hScan, ⟨-, hStopped⟩ | ⟨hFound, -⟩⟩
    · exact hSame
    · exact hSame.trans hStopped
    · rcases Option.isSome_iff_exists.mp hFound with ⟨i, rfl⟩
      rcases scanBitmap_eq_some hScan with ⟨hLt, hClear⟩
      rw [hSame.sb] at hGroup hLt
      rw [hSame.bgdt] at hRead
      exact absurd ⟨parent, v, g, code, bitmap, u, i, hParent,
        hDir, hGroup, hRead, hLt, hClear⟩ hNone

/- A creation that takes an inode never gives it back. -/
theorem TakesInode.freeInodes
    {stack : CreateStack}
    {err : UInt8}
    (hTakes : TakesInode stack s)
    (hCreate : ext2FileCreate stack s = some (err, t)) :
    t.sb.sFreeInodesCount = s.sb.sFreeInodesCount - 1 := by
  rcases hTakes with ⟨parent, v, g, code, bitmap, u, i,
    hParent, hDir, hGroup, hRead, hLt, hClear⟩
  rcases ext2FileCreate_cases hCreate with
    ⟨-, -, hStops⟩ | ⟨parent', v', name, hParent', hIn⟩
  · exact absurd hParent (hStops parent v)
  · rcases hParent.unique hParent' with ⟨rfl, rfl⟩
    have hSame := hParent.untouched
    rcases createIn_takes hIn with
      ⟨hNotDir, -⟩ | ⟨-, g', code', bitmap', u', found,
        hGroup', hRead', hScan', ⟨rfl, -⟩ | ⟨-, hCounted⟩⟩
    · exact absurd (hDir.symm.trans hNotDir) (by simp)
    · rw [hSame.sb] at hGroup' hScan'
      cases hGroup.symm.trans hGroup'
      rw [hSame.bgdt] at hRead'
      cases hRead.symm.trans hRead'
      have hUsed := scanBitmap_eq_none hScan' i hLt
      exact absurd (hClear.symm.trans hUsed) (by simp)
    · rw [hCounted, hSame.sb]

/- Placing a file sets the bits it takes in the bitmaps. -/
theorem Linked.bitmapBlock_placed
    {owners : Owners}
    {parent : UInt32}
    {garbage : Inode}
    {i j : Nat}
    (h : ImageOk owners s)
    (hn : s.layout.ValidInode parent)
    (hInode : s.nextFree .inode (s.layout.slotGroup parent) =
      some i)
    (hBlock : s.nextFree .block (s.layout.slotGroup parent) =
      some j)
    (hLink : Linked (s.placedOwners parent i j owners) parent
      (s.placed parent garbage i j) t)
    (r : Resource) :
    t.bitmapBlock r (s.layout.slotGroup parent) =
      (s.bitmapBlock r (s.layout.slotGroup parent)).setBit
        (match r with | .inode => i | .block => j) := by
  have hLt := h.layout.slotGroup_lt hn
  have hImage := (h.placed hn hInode hBlock garbage).1
  have hTaken := (h.taken hn hInode hBlock).1
  have hValid : (s.taken parent i j).layout.ValidInode
      (s.newNumber parent i) := by
    rw [Fs.taken_layout]
    exact Fs.newNumber_valid h hn hInode
  have hFree := FreeBit.of_nextFree hLt hInode
  have hClaim := h.claim hFree
  have hPlaced : (s.placed parent garbage i j).bitmapBlock r
      (s.layout.slotGroup parent) =
        (s.taken parent i j).bitmapBlock r
          (s.layout.slotGroup parent) :=
    Fs.bitmapBlock_putInode hTaken.layout hValid _ r
      (by rwa [Fs.taken_layout])
  rw [hLink.bitmapBlock hImage r (by rwa [Fs.placed_layout]),
    hPlaced, Fs.taken, Fs.bitmapBlock_claim
      hClaim.layout.toBitmapsOk rfl (by rwa [Fs.claim_layout])
      (by rwa [Fs.claim_layout])]
  cases r with
  | inode =>
      rw [if_neg (by simp), Fs.bitmapBlock_claim
        h.layout.toBitmapsOk rfl hLt hLt, if_pos rfl]
  | block =>
      rw [if_pos rfl, Fs.bitmapBlock_claim
        h.layout.toBitmapsOk rfl hLt hLt, if_neg (by simp)]

/-
  A creation in a parent is refused, or the inode it takes is
  marked on the disk ever after.
-/
theorem CreateOutcome.marks
    {owners : Owners}
    {parent : UInt32}
    {garbage : Inode}
    {name : List UInt8}
    {err : UInt8}
    (hOut :
      CreateOutcome owners parent garbage name s err t)
    (h : ImageOk owners s)
    (hn : s.layout.ValidInode parent) :
    (s.currentInode.isDir = false ∨
      s.nextFree .inode (s.layout.slotGroup parent) = none) ∨
    ∃ i,
      FreeBit s .inode (s.layout.slotGroup parent) i ∧
      (t.bitmapBlock .inode
        (s.layout.slotGroup parent)).bit i = true := by
  have hG := h.layout.slotGroup_lt hn
  have hInodes := h.layout.inodes_max
  -- the number of the taken inode is a bit of the bitmap
  have hMarked {b : Block} {k : Nat}
      (hFree : FreeBit s .inode
        (s.layout.slotGroup parent) k) :
      (b.setBit k).bit k = true := by
    have hk := hFree.lt
    exact ByteBuffer.bit_setBit_self _
      (Nat.div_lt_of_lt_mul (show k < 8 * 4096 by omega))
  cases hOut with
  | refused hNone => exact .inl hNone
  | noBlock k hDir hInode hBlock =>
      have hFree := FreeBit.of_nextFree hG hInode
      refine .inr ⟨k, hFree, ?_⟩
      rw [Fs.bitmapBlock_claim h.layout.toBitmapsOk rfl hG hG,
        if_pos rfl]
      exact hMarked hFree
  | unlinked k j code u hDir hInode hBlock hAdd hCode hLink =>
      have hFree := FreeBit.of_nextFree hG hInode
      refine .inr ⟨k, hFree, ?_⟩
      rw [hLink.bitmapBlock_placed h hn hInode hBlock .inode]
      exact hMarked hFree
  | created k j u hDir hInode hBlock hAdd hLink =>
      have hFree := FreeBit.of_nextFree hG hInode
      refine .inr ⟨k, hFree, ?_⟩
      have hBits :=
        hLink.bitmapBlock_placed h hn hInode hBlock .inode
      exact hBits ▸ hMarked hFree

/- On the disk of a well-formed image the inode is leaked. -/
theorem TakesInode.leaks
    {owners : Owners}
    {stack : CreateStack}
    {err : UInt8}
    (hTakes : TakesInode stack s)
    (h : ImageOk owners s)
    (hCreate : ext2FileCreate stack s = some (err, t)) :
    ∃ g i, FreeBit s .inode g i ∧
      (t.bitmapBlock .inode g).bit i = true := by
  rcases hTakes with ⟨parent, v, g, code, bitmap, u, i,
    hParent, hDir, hGroup, hRead, hLt, hClear⟩
  rcases ext2FileCreate_outcome h hCreate with
    ⟨-, -, hStops⟩ | ⟨parent', name, hParent', hLive, hOut⟩
  · exact absurd hParent (hStops parent v)
  · rcases hParent.unique hParent' with ⟨rfl, rfl⟩
    have hSet := h.setCurrentInode (s.inodeAt parent)
    rcases hOut.marks hSet hLive.valid with
      (hNotDir | hNoInode) | ⟨k, hFree, hMarked⟩
    · exact absurd (hDir.symm.trans hNotDir) (by simp)
    · -- the delivered bitmap would have no clear bit
      rw [readLocal_of_steady hSet.steady] at hRead
      cases hRead
      have hSame : g = s.layout.slotGroup parent := by
        have hGroup' :=
          (group_of_validInode h.layout hLive.valid).2
        rw [ext2GetBgd_of_lt (hGroup' ▸
          (s.layout.slotGroup parent).isLt)] at hGroup
        exact (Option.some.inj hGroup).symm.trans
          (Fin.ext hGroup')
      subst hSame
      have hUsed := (ByteBuffer.firstClear_eq_none_iff _ _).mp
        hNoInode i hLt
      exact absurd (hClear.symm.trans hUsed) (by simp)
    · exact ⟨_, k, ⟨hFree.group_lt, hFree.lt, hFree.clear⟩,
        hMarked⟩

/- A counter that is decreased changes. -/
theorem ne_sub_one
    (x : UInt32) :
    x ≠ x - 1 := by
  intro hEq
  have hNat := congrArg UInt32.toNat hEq
  have hLt := x.toNat_lt
  have hOne : (1 : UInt32).toNat = 1 := rfl
  rw [UInt32.toNat_sub, hOne] at hNat
  omega

------------------------------------------------------------
-- Failing and Retrying
------------------------------------------------------------

/-
  On every image, a creation that fails leaves everything as
  it was exactly when it takes no inode; then so do any
  number of retries.  When it takes one, a well-formed image
  keeps an inode marked that was free.
-/
theorem create_atomic_iff
    {stack : CreateStack}
    {err : UInt8}
    (hCreate : ext2FileCreate stack s = some (err, t)) :
    (Restored s t ↔ ¬ TakesInode stack s) ∧
      (TakesInode stack s → ∀ owners, ImageOk owners s →
        ∃ g i, FreeBit s .inode g i ∧
          (t.bitmapBlock .inode g).bit i = true) ∧
      ∀ trace u, GuardedRun ext2FileCreate
        (fun stack err v => err ≠ 0 ∧ ¬ TakesInode stack v)
        s trace u → Restored s u := by
  refine ⟨⟨?_, ?_⟩, ?_, ?_⟩
  · intro hSame hTakes
    have hLess := hTakes.freeInodes hCreate
    rw [hSame.sb] at hLess
    exact ne_sub_one _ hLess
  · intro hNone
    exact (ext2FileCreate_untouched hNone hCreate).restored
  · intro hTakes owners h
    exact hTakes.leaks h hCreate
  · intro trace u hRun
    refine hRun.invariant (Restored s) (.refl s) ?_
    rintro stack' err' v w hSame ⟨-, hNone⟩ hStep
    exact hSame.trans
      (ext2FileCreate_untouched hNone hStep).restored

end

/- The image of `/f` with every block marked used. -/
def fullSample : Fs :=
  fileSample.putBlock 2 (.fill logicalBlockSize 255)

/- Marking every block used keeps the image well formed. -/
theorem fullSample_imageOk :
    ImageOk fileSampleOwners fullSample := by
  have h := fileSample_imageOk
  have hLayout : fullSample.layout = sampleLayout :=
    fileSample_layout
  -- every bit of the block bitmap is set
  have hUsed {b : UInt32} (hb : fileSample.BlockUsed b) :
      fullSample.BlockUsed b := by
    rcases hb with ⟨g, i, hg, hi, hN, -⟩
    rw [fileSample_layout] at hg hi hN
    have hBlocks : sampleLayout.blocksPerGroup = 64 := rfl
    refine ⟨g, i, by rwa [hLayout], by rwa [hLayout],
      by rwa [hLayout], ?_⟩
    rw [sampleLayout_group_eq hg, Fs.bitmapBlock, hLayout]
    change ByteBuffer.bit (.fill logicalBlockSize 255) i = true
    rw [ByteBuffer.bit, ByteBuffer.get_fill _
      (show i / 8 < 4096 by omega)]
    have hLow : i % 8 < 8 := Nat.mod_lt _ (by decide)
    interval_cases i % 8 <;> rfl
  have hNotMeta {b : UInt32} {o : Owner}
      (hb : fileSampleOwners b = some o) : b ≠ 2 := by
    intro hEq
    rw [hEq] at hb
    exact absurd hb (by decide +revert)
  exact
    { faults := rfl
      layout := h.layout
      meta_used := fun b hb => hUsed (h.meta_used b hb)
      owned_used := fun b o hb => hUsed (h.owned_used b o hb)
      owned_not_meta := h.owned_not_meta
      slots := fun n hIn hn => by
        have hSlot : fileSample.layout.slotBlock n ≠ 2 := by
          rw [fileSample_layout, (sampleLayout_slot (by
            rwa [hLayout] at hn)).1]
          decide
        rw [fullSample, Fs.inodeAt_putBlock _ _ hSlot]
        refine (h.slots n hIn hn).mono (.refl _) ?_
        intro b k _ hb hOk
        rwa [Fs.putBlock_disk_of_ne _ _ (hNotMeta hb)] }

/- Opening `/g` for writing and creating it twice. -/
theorem fullSample_creates :
    ∃ o s t u,
      exec (.fopen [47, 103, 0] 119 .zero) fullSample =
        some (o, s) ∧
      ext2FileCreate .zero s = some (1, t) ∧
      ext2FileCreate .zero t = some (1, u) ∧
      ((s.bitmapBlock .inode 0).bit 16 = false ∧
        (t.bitmapBlock .inode 0).bit 16 = true) ∧
      (t.bitmapBlock .inode 0).bit 17 = false ∧
        (u.bitmapBlock .inode 0).bit 17 = true := by
  have hFacts :
      ((exec (.fopen [47, 103, 0] 119 .zero) fullSample).bind
        fun r => (ext2FileCreate .zero r.2).bind fun p =>
          (ext2FileCreate .zero p.2).map fun q =>
            ((p.1, q.1),
              ((r.2.bitmapBlock .inode 0).bit 16,
                (p.2.bitmapBlock .inode 0).bit 16),
              (p.2.bitmapBlock .inode 0).bit 17,
                (q.2.bitmapBlock .inode 0).bit 17)) =
        some ((1, 1), (false, true), false, true) := by
    decide +kernel
  rcases Option.bind_eq_some_iff.mp hFacts with
    ⟨⟨o, s⟩, hOpen, hFacts⟩
  rcases Option.bind_eq_some_iff.mp hFacts with
    ⟨⟨err, t⟩, hFirst, hFacts⟩
  rcases Option.map_eq_some_iff.mp hFacts with
    ⟨⟨err', u⟩, hSecond, hFacts⟩
  simp only [Prod.mk.injEq] at hFacts
  rcases hFacts with ⟨⟨rfl, rfl⟩, hBits, hBits'⟩
  exact ⟨o, s, t, u, hOpen, hFirst, hSecond, hBits, hBits'⟩

/-
  Without a free block, creating `/g` fails and keeps an
  inode, and trying again keeps another one.
-/
theorem create_not_atomic :
    (¬ ∀ s stack err t,
      ext2FileCreate stack s = some (err, t) → err ≠ 0 →
        Restored s t) ∧
    ∃ o s t u,
      exec (.fopen [47, 103, 0] 119 .zero) fullSample =
        some (o, s) ∧
      ext2FileCreate .zero s = some (1, t) ∧
      ext2FileCreate .zero t = some (1, u) ∧
      ((s.bitmapBlock .inode 0).bit 16 = false ∧
        (t.bitmapBlock .inode 0).bit 16 = true) ∧
      (t.bitmapBlock .inode 0).bit 17 = false ∧
        (u.bitmapBlock .inode 0).bit 17 = true := by
  refine ⟨?_, fullSample_creates⟩
  intro hAll
  rcases fullSample_creates with
    ⟨o, s, t, u, -, hFirst, -, ⟨hClear, hSet⟩, -⟩
  have hSame := hAll s _ 1 t hFirst (by decide)
  rw [Fs.bitmapBlock, Fs.layout, hSame.bgdt, hSame.disk]
    at hSet
  exact absurd (hClear.symm.trans hSet) (by decide)

/- The first creation of `/g` in the full image. -/
theorem create_atomic_sample :
    ∃ s t, ext2FileCreate .zero s = some (1, t) ∧
      (Restored s t ↔ ¬ TakesInode .zero s) := by
  rcases fullSample_creates with
    ⟨o, s, t, u, -, hFirst, -⟩
  exact ⟨s, t, hFirst, (create_atomic_iff hFirst).1⟩

end Ext2

end Ester
