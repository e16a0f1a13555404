import Ester.Ext2.Allocation.Effect
import Ester.Ext2.InodeTable
import Ester.Ext2.Session.Frame

/-
  The allocators on a device that may fail.

  An allocator looks at none of the answers to its transfers
  but the one to the superblock read.  When the bitmap cannot
  be read, any of its bits can be handed out, and when it
  cannot be written, the bit stays clear on the disk.

  Key definitions include:
    * `Fs.answering`
    * `AllSucceeded`, `HasFailure`
    * `Fs.SlotInside`
    * `Fs.counted`
    * `Offers`
    * `AllocReports`, `AllUsed`

  Key theorems include:
    * `ext2FreeAlloc_failing`
    * `ext2FreeAlloc_claims`
    * `allocReports_iff`
-/

------------------------------------------------------------
-- Answers of the Device
------------------------------------------------------------

namespace Ester

namespace Ext2

/- The state whose device answers with the given list. -/
def Fs.answering
    (s : Fs)
    (faults : List Fault) : Fs :=
  { s with faults := faults }

/- Every transfer between two states succeeded. -/
def AllSucceeded
    (s t : Fs) : Prop :=
  ∃ used, s.faults = used ++ t.faults ∧ ∀ f ∈ used, f = none

theorem AllSucceeded.of_faults
    {s t : Fs}
    (hFaults : t.faults = s.faults) :
    AllSucceeded s t :=
  ⟨[], hFaults.symm, by simp⟩

/- Some of the answers is a failure. -/
def HasFailure
    (faults : List Fault) : Prop :=
  ∃ junk, some junk ∈ faults

theorem HasFailure.append
    {faults : List Fault}
    (h : HasFailure faults)
    (rest : List Fault) :
    HasFailure (faults ++ rest) :=
  h.imp fun _ hMem => List.mem_append_left rest hMem

/- A failure that is used up is not a success. -/
theorem HasFailure.not_allSucceeded
    {s t : Fs}
    (h : HasFailure s.faults)
    (hUsed : t.faults = []) :
    ¬ AllSucceeded s t := by
  rcases h with ⟨junk, hFault⟩
  rintro ⟨used, hList, hNone⟩
  rw [hUsed, List.append_nil] at hList
  rw [hList] at hFault
  exact absurd (hNone _ hFault) (by simp)

namespace Fs

variable (s : Fs) (faults : List Fault)

@[simp] theorem answering_disk :
    (s.answering faults).disk = s.disk := rfl

@[simp] theorem answering_faults :
    (s.answering faults).faults = faults := rfl

@[simp] theorem answering_sb :
    (s.answering faults).sb = s.sb := rfl

@[simp] theorem answering_bgdt :
    (s.answering faults).bgdt = s.bgdt := rfl

@[simp] theorem answering_currentInode :
    (s.answering faults).currentInode = s.currentInode := rfl

@[simp] theorem answering_file :
    (s.answering faults).file = s.file := rfl

@[simp] theorem answering_layout :
    (s.answering faults).layout = s.layout := rfl

@[simp] theorem answering_blockSize :
    ext2GetBlockSize (s.answering faults) =
      ext2GetBlockSize s := rfl

@[simp] theorem answering_setSb
    (sb : SuperBlock) :
    (s.answering faults).setSb sb =
      (s.setSb sb).answering faults := rfl

@[simp] theorem answering_setBgdt
    (bgdt : Bgdt) :
    (s.answering faults).setBgdt bgdt =
      (s.setBgdt bgdt).answering faults := rfl

@[simp] theorem answering_setCurrentInode
    (inode : Inode) :
    (s.answering faults).setCurrentInode inode =
      (s.setCurrentInode inode).answering faults := rfl

@[simp] theorem answering_setFile
    (file : File) :
    (s.answering faults).setFile file =
      (s.setFile file).answering faults := rfl

end Fs

section

variable {s t : Fs} {junk : Block}

/- A failed read leaves anything in the buffer. -/
@[simp] theorem ext2ReadBlock_failing
    (block : UInt32)
    (s : Fs)
    (junk : Block)
    (rest : List Fault) :
    ext2ReadBlock block (s.answering (some junk :: rest)) =
      (1, junk, s.answering rest) := rfl

/- A failed write leaves the disk as it was. -/
@[simp] theorem ext2WriteBlock_failing
    (block : UInt32)
    (content : Block)
    (s : Fs)
    (junk : Block)
    (rest : List Fault) :
    ext2WriteBlock block content
        (s.answering (some junk :: rest)) =
      (1, s.answering rest) := rfl

theorem readLocal_failing
    (hBlock : ext2GetBlockSize s = 4096)
    (block : UInt32)
    (junk : Block)
    (rest : List Fault) :
    readLocal block (s.answering (some junk :: rest)) =
      some (1, junk, s.answering rest) :=
  if_pos hBlock

------------------------------------------------------------
-- Inodes
------------------------------------------------------------

/- The slot of an inode lies in the table and in its block. -/
def Fs.SlotInside
    (s : Fs)
    (n : UInt32) : Prop :=
  ∃ block offset, inodeSlot n s = some (block, offset) ∧
    offset.toNat + inodeCodec.size ≤ logicalBlockSize

/- The slot depends on the layout only. -/
theorem inodeSlot_congr
    (hLayout : t.layout = s.layout)
    (n : UInt32) :
    inodeSlot n t = inodeSlot n s := by
  have hBlock : ext2GetBlockSize t = ext2GetBlockSize s :=
    congrArg Layout.blockSize hLayout
  have hSize : ext2GetInodeSize t = ext2GetInodeSize s :=
    UInt16.toNat_inj.mp (congrArg Layout.inodeSize hLayout)
  have hGroup : ext2GetInodesPerGroup t =
      ext2GetInodesPerGroup s :=
    UInt32.toNat_inj.mp (congrArg Layout.inodesPerGroup hLayout)
  have hTable (g : Fin maxGroups) :
      (t.bgdt g).bgInodeTable = (s.bgdt g).bgInodeTable :=
    congrFun (congrArg Layout.inodeTable hLayout) g
  simp only [inodeSlot, hBlock, hSize, hGroup, hTable]

theorem Fs.SlotInside.congr
    {n : UInt32}
    (hSlot : s.SlotInside n)
    (hLayout : t.layout = s.layout) :
    t.SlotInside n := by
  rcases hSlot with ⟨block, offset, hSlot, hInside⟩
  exact ⟨block, offset,
    (inodeSlot_congr hLayout n).trans hSlot, hInside⟩

/- Numbers of the image have their slots inside. -/
theorem Fs.SlotInside.of_valid
    (hL : s.layout.Ok)
    {n : UInt32}
    (hn : s.layout.ValidInode n) :
    s.SlotInside n := by
  refine ⟨_, _, inodeSlot_eq hL.slots hn, ?_⟩
  rw [slotOffset_toNat hL.slots]
  exact hL.slots.slotOffset_le n

/- An inode that is stored has its slot inside. -/
theorem slotInside_of_write
    {n : UInt32}
    {inode : Inode}
    (hWrite : ext2InodeWrite n inode s = some t) :
    s.SlotInside n := by
  simp only [ext2InodeWrite, Option.bind_eq_bind,
    Option.bind_eq_some_iff, memcpy_eq_some_iff] at hWrite
  rcases hWrite with ⟨⟨block, offset⟩, hSlot,
    ⟨code, content, u⟩, -, content', ⟨hInside, -⟩, -⟩
  exact ⟨block, offset, hSlot, hInside⟩

/- A failed read of an inode delivers what the array held. -/
theorem ext2ExtractInode_failing
    (hBlock : ext2GetBlockSize s = 4096)
    {n : UInt32}
    (hSlot : s.SlotInside n)
    (v : UInt8)
    (rest : List Fault) :
    ext2ExtractInode n
        (s.answering (some (.fill _ v) :: rest)) =
      some ((s.setCurrentInode
        (inodeCodec.decode fun _ => v)).answering rest) := by
  rcases hSlot with ⟨block, offset, hSlot, hInside⟩
  have hRead : inodeCodec.decode
      ((ByteBuffer.fill logicalBlockSize v).slice
        offset.toNat) = inodeCodec.decode fun _ => v := by
    apply inodeCodec.decode_congr
    intro i hi
    exact ByteBuffer.get_fill v (by omega)
  have hSame : inodeSlot n
      (s.answering (some (.fill _ v) :: rest)) =
        some (block, offset) := hSlot
  simp only [ext2ExtractInode, hSame,
    readLocal_failing hBlock, Option.bind_eq_bind,
    Option.bind_some, if_pos hInside, hRead,
    Fs.answering_setCurrentInode]

/- An inode that cannot be stored is not missed. -/
theorem ext2InodeWrite_failing
    (hBlock : ext2GetBlockSize s = 4096)
    {n : UInt32}
    (hSlot : s.SlotInside n)
    (inode : Inode)
    (junk junk' : Block)
    (rest : List Fault) :
    ext2InodeWrite n inode
        (s.answering (some junk :: some junk' :: rest)) =
      some (s.answering rest) := by
  rcases hSlot with ⟨block, offset, hSlot, hInside⟩
  have hSame : inodeSlot n
      (s.answering (some junk :: some junk' :: rest)) =
        some (block, offset) := hSlot
  simp only [ext2InodeWrite, hSame, readLocal_failing hBlock,
    Option.bind_eq_bind, Option.bind_some,
    memcpy_of_le hInside, ext2WriteBlock_failing]

------------------------------------------------------------
-- Handing Out Any Bit
------------------------------------------------------------

/- A bitmap in which exactly the bits below a limit are set. -/
theorem exists_lowBits
    {i : Nat}
    (hi : i ≤ 8 * logicalBlockSize) :
    ∃ b : Block, ∀ j, b.bit j = decide (j < i) := by
  induction i with
  | zero =>
      refine ⟨.fill _ 0, fun j => ?_⟩
      rw [ByteBuffer.bit, ByteBuffer.get_fill_zero]
      simp
  | succ i ih =>
      rcases ih (Nat.le_of_succ_le hi) with ⟨b, hBits⟩
      refine ⟨b.setBit i, fun j => ?_⟩
      rw [ByteBuffer.bit_setBit b (by omega), hBits]
      rcases Nat.lt_trichotomy j i with hLt | hEq | hGt
      · simp [hLt, Nat.lt_succ_of_lt hLt]
      · simp [hEq]
      · simp [Nat.not_lt.mpr (Nat.le_of_lt hGt),
          Nat.ne_of_gt hGt, Nat.not_lt.mpr hGt]

/- Both counters of a resource decreased, in memory only. -/
def Fs.counted
    (r : Resource)
    (g : Fin maxGroups)
    (s : Fs) : Fs :=
  (s.setBgdt (Function.update s.bgdt g
    (r.decBgd (s.bgdt g)))).setSb (r.decSb s.sb)

@[simp] theorem Fs.counted_disk
    (r : Resource)
    (g : Fin maxGroups)
    (s : Fs) :
    (s.counted r g).disk = s.disk := rfl

@[simp] theorem Fs.counted_file
    (r : Resource)
    (g : Fin maxGroups)
    (s : Fs) :
    (s.counted r g).file = s.file := rfl

@[simp] theorem Fs.counted_currentInode
    (r : Resource)
    (g : Fin maxGroups)
    (s : Fs) :
    (s.counted r g).currentInode = s.currentInode := rfl

/- A claim without its writes, so the layout is the same. -/
@[simp] theorem Fs.counted_layout
    (r : Resource)
    (g : Fin maxGroups)
    (s : Fs) :
    (s.counted r g).layout = s.layout :=
  Fs.claim_layout r g 0 s

@[simp] theorem Fs.counted_blockSize
    (r : Resource)
    (g : Fin maxGroups)
    (s : Fs) :
    ext2GetBlockSize (s.counted r g) = ext2GetBlockSize s :=
  congrArg Layout.blockSize (Fs.counted_layout r g s)

theorem ext2WriteBgdt_failing
    (hBlock : ext2GetBlockSize s = 4096)
    (junk junk' : Block)
    (rest : List Fault) :
    ext2WriteBgdt
        (s.answering (some junk :: some junk' :: rest)) =
      some (0, s.answering rest) := by
  have hFits : 0 + bgdtCodec.size ≤ logicalBlockSize := by
    decide
  simp only [ext2WriteBgdt, readLocal_failing hBlock,
    Option.bind_eq_bind, Option.bind_some,
    memcpy_of_le hFits, ext2WriteBlock_failing]

theorem ext2WriteSb_failing
    (hBlock : ext2GetBlockSize s = 4096)
    (junk : Block)
    (rest : List Fault) :
    ext2WriteSb (s.answering (some junk :: rest)) =
      some (1, s.answering rest) := by
  simp only [ext2WriteSb, readLocal_failing hBlock,
    Option.bind_eq_bind, Option.bind_some]
  rfl

/-
  A bitmap that cannot be read and not be written either: the
  allocator hands out whatever bit the array has clear.
-/
theorem ext2FreeAlloc_failing
    (hBlock : ext2GetBlockSize s = 4096)
    (r : Resource)
    {group : UInt32}
    {g : Fin maxGroups}
    (hGroup : ext2GetBgd group = some g)
    {i : Nat}
    (hi : i < s.layout.inodesPerGroup)
    (hMax : i < 8 * logicalBlockSize) :
    ∃ faults, HasFailure faults ∧ ∀ rest,
      ext2FreeAlloc r group (s.answering (faults ++ rest)) =
        some (r.number s.sb group (UInt32.ofNat i),
          (s.counted r g).answering rest) := by
  rcases exists_lowBits (Nat.le_of_lt hMax) with ⟨b, hBits⟩
  have hFirst : b.firstClear
      (min (r.bound s.sb).toNat (8 * logicalBlockSize)) =
        some i := by
    rw [ByteBuffer.firstClear_eq_some_iff]
    refine ⟨by simp [hBits], ?_, fun j hj => by simp [hBits, hj]⟩
    rw [Resource.bound_eq]
    exact Nat.lt_min.mpr ⟨hi, hMax⟩
  let junk : Fault := some (.fill _ 0)
  refine ⟨[some b, junk, junk, junk, junk],
    ⟨b, by simp⟩, fun rest => ?_⟩
  have hSize : ext2GetBlockSize (s.setBgdt
      (Function.update s.bgdt g (r.decBgd (s.bgdt g)))) =
        4096 := hBlock
  have hSize' : ext2GetBlockSize ((s.setBgdt
      (Function.update s.bgdt g (r.decBgd (s.bgdt g)))).setSb
        (r.decSb s.sb)) = 4096 := by
    rw [← hBlock]
    exact Fs.counted_blockSize r g s
  simp only [ext2FreeAlloc, hGroup, Option.bind_eq_bind,
    Option.bind_some, List.cons_append, List.nil_append,
    readLocal_failing hBlock, Fs.answering_sb, scanBitmap,
    hFirst, junk, ext2WriteBlock_failing, Fs.answering_bgdt,
    Fs.answering_setBgdt, ext2WriteBgdt_failing hSize,
    Fs.answering_setSb, Fs.setBgdt_sb,
    ext2WriteSb_failing hSize', Fs.setSb_sb,
    Resource.number_decSb]
  rfl

------------------------------------------------------------
-- Whatever the Device Answers
------------------------------------------------------------

/- A write changes its block or nothing. -/
theorem ext2WriteBlock_disk
    (block : UInt32)
    (content : Block)
    (s : Fs)
    (b : UInt32) :
    (ext2WriteBlock block content s).2.disk b = s.disk b ∨
      b = block ∧
        (ext2WriteBlock block content s).2.disk b =
          content := by
  unfold ext2WriteBlock
  split
  · by_cases hb : b = block
    · subst hb
      exact .inr ⟨rfl, Fs.putBlock_disk_self _ _ _⟩
    · exact .inl (Fs.putBlock_disk_of_ne _ _ hb)
  · by_cases hb : b = block
    · subst hb
      exact .inr ⟨rfl, Fs.putBlock_disk_self _ _ _⟩
    · exact .inl (Fs.putBlock_disk_of_ne _ _ hb)
  · exact .inl rfl

theorem ext2WriteBlock_disk_of_ne
    {block b : UInt32}
    (content : Block)
    (s : Fs)
    (hb : b ≠ block) :
    (ext2WriteBlock block content s).2.disk b = s.disk b :=
  (ext2WriteBlock_disk block content s b).resolve_right
    fun h => hb h.1

theorem ext2WriteBgdt_disk
    {err : UInt8}
    (hWrite : ext2WriteBgdt s = some (err, t))
    {b : UInt32}
    (hb : b ≠ 1) :
    t.disk b = s.disk b := by
  simp only [ext2WriteBgdt, Option.bind_eq_bind,
    Option.bind_eq_some_iff] at hWrite
  rcases hWrite with
    ⟨⟨code, content, u⟩, hRead, content', -, hWrite⟩
  cases hWrite
  rw [ext2WriteBlock_disk_of_ne _ _ hb,
    (readLocal_untouched hRead).disk]

theorem ext2WriteSb_disk
    {err : UInt8}
    (hWrite : ext2WriteSb s = some (err, t))
    {b : UInt32}
    (hb : b ≠ 0) :
    t.disk b = s.disk b := by
  simp only [ext2WriteSb, Option.bind_eq_bind,
    Option.bind_eq_some_iff] at hWrite
  rcases hWrite with ⟨⟨code, content, u⟩, hRead, hWrite⟩
  have hSame := (readLocal_untouched hRead).disk
  split at hWrite
  · cases hWrite
    rw [hSame]
  · simp only [Option.bind_eq_some_iff] at hWrite
    rcases hWrite with ⟨content', -, hWrite⟩
    cases hWrite
    rw [ext2WriteBlock_disk_of_ne _ _ hb, hSame]

theorem lt_of_scanBitmap
    {bitmap : Block}
    {limit i : Nat}
    (hScan : scanBitmap bitmap limit = some (some i)) :
    i < limit ∧ i < 8 * logicalBlockSize := by
  unfold scanBitmap at hScan
  split at hScan
  · next j hFirst =>
      cases hScan
      exact Nat.lt_min.mp
        ((ByteBuffer.firstClear_eq_some_iff _ _ _).mp
          hFirst).2.1
  · split at hScan <;> cases hScan

/- What an allocator that hands out a number has done. -/
structure Claims
    (r : Resource)
    (group : UInt32)
    (s : Fs)
    (n : UInt32)
    (t : Fs)
    (g : Fin maxGroups)
    (i : Nat) : Prop where
  bgd : ext2GetBgd group = some g
  lt : i < s.layout.inodesPerGroup
  number : n = r.number s.sb group (UInt32.ofNat i)
  disk :
    ∀ b, b ≠ 0 → b ≠ 1 →
      t.disk b = s.disk b ∨
        b = s.layout.bitmap r g ∧
          ∃ content : Block, t.disk b = content.setBit i
  bit : i < 8 * logicalBlockSize
  counted : t.sb = (s.counted r g).sb ∧
    t.bgdt = (s.counted r g).bgdt

theorem Claims.layout
    {r : Resource}
    {group n : UInt32}
    {g : Fin maxGroups}
    {i : Nat}
    (h : Claims r group s n t g i) :
    t.layout = s.layout := by
  rw [← Fs.counted_layout r g s]
  exact Fs.layout_congr h.counted.1 h.counted.2

/-
  An allocator returns 0 and changes nothing but the answers,
  or it claims a bit, and its bitmap is the only block behind
  the first two that it may have changed.
-/
theorem ext2FreeAlloc_claims
    {r : Resource}
    {group n : UInt32}
    (hAlloc : ext2FreeAlloc r group s = some (n, t)) :
    (n = 0 ∧ Untouched s t) ∨ ∃ g i, Claims r group s n t g i := by
  simp only [ext2FreeAlloc, Option.bind_eq_bind,
    Option.bind_eq_some_iff] at hAlloc
  rcases hAlloc with ⟨g, hGroup, ⟨code, bitmap, u⟩, hRead,
    found, hScan, hAlloc⟩
  have hSame := readLocal_untouched hRead
  rw [hSame.sb, Resource.bound_eq] at hScan
  cases found with
  | none =>
      cases hAlloc
      exact .inl ⟨rfl, hSame⟩
  | some i =>
      rcases lt_of_scanBitmap hScan with ⟨hLt, hMax⟩
      simp only [Option.bind_eq_some_iff] at hAlloc
      rcases hAlloc with
        ⟨⟨code₁, v⟩, hBgdt, ⟨code₂, w⟩, hSb, hAlloc⟩
      have hMarked := hSame.toDiskOnly.trans
        (ext2WriteBlock_diskOnly (r.bitmap (u.bgdt g))
          (bitmap.setBit i) u)
      have hBgdtSame := ext2WriteBgdt_diskOnly hBgdt
      have hSbSame := ext2WriteSb_diskOnly hSb
      have hSbW : w.sb = r.decSb s.sb :=
        hSbSame.sb.trans (congrArg r.decSb
          (hBgdtSame.sb.trans hMarked.sb))
      cases hAlloc
      refine .inr ⟨g, i, hGroup, hLt, ?_, ?_, hMax,
        hSbW, ?_⟩
      · rw [hSbW, Resource.number_decSb]
      · intro b h0 h1
        rw [ext2WriteSb_disk hSb h0]
        have hLater : v.disk b =
            (ext2WriteBlock (r.bitmap (u.bgdt g))
              (bitmap.setBit i) u).2.disk b :=
          ext2WriteBgdt_disk hBgdt h1
        change v.disk b = _ ∨ _ ∧ ∃ content, v.disk b = _
        rw [hLater]
        rcases ext2WriteBlock_disk (r.bitmap (u.bgdt g))
            (bitmap.setBit i) u b with hKept | ⟨hb, hWritten⟩
        · exact .inl (hKept.trans (congrFun hSame.disk b))
        · refine .inr ⟨?_, bitmap, hWritten⟩
          rw [hb, hSame.bgdt]
          rfl
      · refine hSbSame.bgdt.trans (hBgdtSame.bgdt.trans ?_)
        change Function.update _ g _ = _
        rw [hMarked.bgdt]
        rfl

------------------------------------------------------------
-- Reporting
------------------------------------------------------------

/- A group of the image has a number other than 0 to offer. -/
def Offers
    (r : Resource)
    (group : UInt32)
    (s : Fs) : Prop :=
  ∃ i, i < s.layout.inodesPerGroup ∧
    r.number s.sb group (UInt32.ofNat i) ≠ 0

/-
  Whatever the device answers, the bit behind a number that
  is handed out is set in the bitmap on the disk.
-/
def AllocReports
    (r : Resource)
    (group : UInt32)
    (s : Fs) : Prop :=
  ∀ faults n t,
    ext2FreeAlloc r group (s.answering faults) =
        some (n, t) →
      n ≠ 0 → ∃ g i, ext2GetBgd group = some g ∧
        n = r.number s.sb group (UInt32.ofNat i) ∧
        i < s.layout.inodesPerGroup ∧
        (t.disk (s.layout.bitmap r g)).bit i = true

/-
  On the disk every bit of the group in scan range is set
  already, unless its number is 0.
-/
def AllUsed
    (r : Resource)
    (group : UInt32)
    (s : Fs) : Prop :=
  ∀ g i, ext2GetBgd group = some g →
    i < s.layout.inodesPerGroup →
      r.number s.sb group (UInt32.ofNat i) ≠ 0 →
        (s.disk (s.layout.bitmap r g)).bit i = true

/- Different bits of a group have different numbers. -/
theorem number_inj
    (r : Resource)
    (sb : SuperBlock)
    (group : UInt32)
    {i j : Nat}
    (hi : i < 2 ^ 32)
    (hj : j < 2 ^ 32)
    (hEq : r.number sb group (UInt32.ofNat i) =
      r.number sb group (UInt32.ofNat j)) :
    i = j := by
  have hOf : UInt32.ofNat i = UInt32.ofNat j := by
    cases r with
    | inode =>
        exact (UInt32.add_right_inj _).mp
          ((UInt32.add_left_inj 1).mp hEq)
    | block => exact (UInt32.add_right_inj _).mp hEq
  have hNat := congrArg UInt32.toNat hOf
  rwa [UInt32.toNat_ofNat_of_lt' hi,
    UInt32.toNat_ofNat_of_lt' hj] at hNat

/-
  An allocator reports the failures of the device only when
  it has nothing to hand out.
-/
theorem allocReports_iff
    (hL : s.layout.Ok)
    (r : Resource)
    {group : UInt32}
    (hGroup : group.toNat < s.layout.groups) :
    AllocReports r group s ↔ AllUsed r group s := by
  have hMax : s.layout.inodesPerGroup ≤ 8 * logicalBlockSize :=
    hL.inodes_max
  constructor
  · intro hReports g i hg hi hNumber
    rcases ext2FreeAlloc_failing hL.blockSize r hg hi
      (by omega) with ⟨faults, -, hRun⟩
    rcases hReports _ _ _ (hRun []) hNumber with
      ⟨g', j, hg', hEq, hj, hBit⟩
    cases hg.symm.trans hg'
    have hSame := number_inj r s.sb group
      (by simp only [logicalBlockSize] at hMax; omega)
      (by simp only [logicalBlockSize] at hMax; omega) hEq
    rw [← hSame] at hBit
    exact hBit
  · intro hUsed faults n t hAlloc hn
    rcases ext2FreeAlloc_claims hAlloc with
      ⟨h0, -⟩ | ⟨g, i, hClaims⟩
    · exact absurd h0 hn
    · refine ⟨g, i, hClaims.bgd, hClaims.number,
        hClaims.lt, ?_⟩
      have hg : (g : Nat) < s.layout.groups := by
        have hVal := hClaims.bgd
        unfold ext2GetBgd at hVal
        split at hVal
        · cases hVal
          exact hGroup
        · cases hVal
      rcases hClaims.disk _ (hL.bitmap_ne_zero r g hg)
        (hL.bitmap_ne_one r g hg) with
        hKept | ⟨-, content, hSet⟩
      · rw [hKept]
        exact hUsed g i hClaims.bgd hClaims.lt
          (hClaims.number ▸ hn)
      · rw [hSet]
        refine ByteBuffer.bit_setBit_self _ ?_
        have hBit := hClaims.bit
        omega

end

end Ext2

end Ester
