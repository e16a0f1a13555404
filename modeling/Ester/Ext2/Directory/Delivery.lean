import Ester.Ext2.Directory.Records

/-
  What the callers of a listing get.

  Every live record of a directory is delivered when no
  block has one behind an unused record.  The count and the
  headers never depend on what the array held before; the
  names do, as they are copied without a terminator: a name
  reads back when its slot held a zero right behind it.

  Key definitions include:
    * `ListsAllLive`
    * `ReadsAs`
    * `ListsIndependently`

  Key theorems include:
    * `directoryRecords_framed`
    * `ext2ListDirectory_all_live_iff`
    * `over_reads_iff`
    * `readsAs_deliver_iff`
    * `ext2ListDirectory_independent_iff`
-/

namespace Ester

namespace Ext2

------------------------------------------------------------
-- Live Records
------------------------------------------------------------

/- A slot holds a record: its header and its name's bytes. -/
structure DirRecord.StoredIn
    (r : DirRecord)
    (slot : DirEntryFixedName) : Prop where
  header : slot.entry = r.header
  bytes :
    ∀ k (hk : k < r.name.length),
      slot.dirName.get k = r.name[k]

theorem DirRecord.over_stored
    (r : DirRecord)
    (old : DirEntryFixedName) :
    r.StoredIn (r.over old) where
  header := rfl
  bytes k hk := by
    have hLength : r.name.length ≤ 255 := r.length_le
    have hIn := ByteBuffer.get_splice_of_inside old.dirName
      (fun i => r.name.getD i 0) hk (show 0 + _ ≤ 256 by omega)
    rw [Nat.zero_add] at hIn
    exact hIn.trans (List.getD_eq_getElem _ _ hk)

/- Behind a name the slot is as before. -/
theorem DirRecord.get_over
    (r : DirRecord)
    (old : DirEntryFixedName)
    {k : Nat}
    (hk : r.name.length ≤ k) :
    (r.over old).dirName.get k = old.dirName.get k := by
  have hBehind : k < 0 ∨ 0 + r.name.length ≤ k := by omega
  exact ByteBuffer.get_splice_of_outside old.dirName
    (fun i => r.name.getD i 0) hBehind

/- Slots hold records, from the first slot on. -/
def Holds
    (slots : DirEntries)
    (rs : List DirRecord) : Prop :=
  ∀ j (hj : j < rs.length) (hSlot : j < maxSubdirs),
    rs[j].StoredIn (slots ⟨j, hSlot⟩)

theorem holds_deliver
    (entries : DirEntries)
    (rs : List DirRecord) :
    Holds (deliver entries rs) rs := by
  intro j hj hSlot
  simp only [deliver, List.getElem?_eq_getElem hj]
  exact DirRecord.over_stored _ _

/-
  What a caller is promised: the number of live records, and
  all of them in the slots in the order of the disk.
-/
def ListsAllLive
    (n : UInt32)
    (entries : DirEntries)
    (s : Fs)
    (recs : List (List DirRecord)) : Prop :=
  ∃ slots t, ext2ListDirectory n entries s =
      some ((liveRecords recs).length, slots, t) ∧
    Holds slots (liveRecords recs)

/- Cutting at the first failure drops nothing but failures. -/
theorem takeWhile_eq_filter_iff
    {α : Type}
    (p : α → Bool)
    (l : List α) :
    l.takeWhile p = l.filter p ↔
      l.Pairwise fun a b => p b → p a := by
  induction l with
  | nil => simp
  | cons a l ih =>
      by_cases ha : p a = true
      · rw [List.takeWhile_cons_of_pos ha,
          List.filter_cons_of_pos ha, List.cons_inj_right, ih,
          List.pairwise_cons]
        exact ⟨fun h => ⟨fun _ _ _ => ha, h⟩, fun h => h.2⟩
      · rw [List.takeWhile_cons_of_neg ha,
          List.filter_cons_of_neg ha, eq_comm,
          List.filter_eq_nil_iff, List.pairwise_cons]
        constructor
        · intro hNone
          refine ⟨fun b hb hp => absurd hp (hNone b hb), ?_⟩
          rw [List.pairwise_iff_forall_sublist]
          intro b c hSub hp
          exact absurd hp (hNone c (hSub.subset (by simp)))
        · intro h b hb hp
          exact ha (h.1 b hb hp)

theorem filter_leadingRecords
    (rs : List DirRecord) :
    (leadingRecords rs).filter (fun r => r.Live) =
      leadingRecords rs :=
  List.filter_eq_self.mpr fun _ hr =>
    List.mem_takeWhile_imp
      (p := fun r : DirRecord => decide r.Live) hr

/- The leading records of a block are among its live ones. -/
theorem leadingRecords_sublist
    (rs : List DirRecord) :
    (leadingRecords rs).Sublist (rs.filter fun r => r.Live) := by
  rw [← filter_leadingRecords]
  exact (List.takeWhile_sublist _).filter _

/- Nothing is lost when every block leads with its live ones. -/
theorem flatMap_leading_length
    (recs : List (List DirRecord)) :
    (recs.flatMap leadingRecords).length ≤
        (liveRecords recs).length ∧
      ((recs.flatMap leadingRecords).length =
          (liveRecords recs).length ↔
        ∀ rs ∈ recs, leadingRecords rs =
          rs.filter fun r => r.Live) := by
  induction recs with
  | nil => simp [liveRecords]
  | cons rs recs ih =>
      have hHead := (leadingRecords_sublist rs).length_le
      have hEq : leadingRecords rs =
          (rs.filter fun r => r.Live) ↔
          (leadingRecords rs).length =
            (rs.filter fun r => r.Live).length :=
        ⟨congrArg List.length,
          (leadingRecords_sublist rs).eq_of_length⟩
      rw [liveRecords] at ih
      rw [liveRecords, List.flatMap_cons, List.flatMap_cons,
        List.length_append, List.length_append,
        List.forall_mem_cons, ← ih.2, hEq]
      omega

section

variable {s t : Fs} {n : UInt32}
variable {recs : List (List DirRecord)}

/- Extracting an inode changes the current inode only. -/
theorem ext2ExtractInode_steady
    (hSteady : s.Steady)
    (hExtract : ext2ExtractInode n s = some t) :
    t = s.setCurrentInode t.currentInode := by
  simp only [ext2ExtractInode, Option.bind_eq_bind,
    Option.bind_eq_some_iff] at hExtract
  rcases hExtract with
    ⟨_, -, ⟨err, content, u⟩, hRead, hExtract⟩
  rw [readLocal_of_steady hSteady] at hRead
  cases hRead
  dsimp only at hExtract
  split at hExtract
  · cases hExtract
    rfl
  · cases hExtract

/- The records of a framed directory that are delivered. -/
theorem directoryRecords_framed
    (hSteady : s.Steady)
    (hExtract : ext2ExtractInode n s = some t)
    (hDir : t.currentInode.isDir)
    (hFramed : FramedBlocks s.disk
      t.currentInode.directBlocks recs) :
    directoryRecords n s =
      some ((recs.flatMap leadingRecords).take maxSubdirs,
        t) := by
  have hSame := ext2ExtractInode_steady hSteady hExtract
  have hSteady' : t.Steady := by
    rw [hSame]
    exact hSteady.setCurrentInode _
  have hDisk : t.disk = s.disk := by
    rw [hSame]
    rfl
  rw [directoryRecords, hExtract]
  refine (if_pos hDir).trans ?_
  exact scanBlocks_framed hSteady' (hDisk ▸ hFramed) maxSubdirs

/-
  A listing of a framed directory delivers all live records
  exactly when no block has a live record behind an unused
  one.
-/
theorem ext2ListDirectory_all_live_iff
    (hSteady : s.Steady)
    (hExtract : ext2ExtractInode n s = some t)
    (hDir : t.currentInode.isDir)
    (hFramed : FramedBlocks s.disk
      t.currentInode.directBlocks recs)
    (hRoom : (liveRecords recs).length ≤ maxSubdirs)
    (entries : DirEntries) :
    ListsAllLive n entries s recs ↔
      ∀ rs ∈ recs, rs.Pairwise fun u r => r.Live → u.Live := by
  rcases flatMap_leading_length recs with ⟨hLe, hEq⟩
  have hList := ext2ListDirectory_eq n entries s
  rw [directoryRecords_framed hSteady hExtract hDir hFramed,
    List.take_of_length_le (hLe.trans hRoom)] at hList
  have hBlocks : (∀ rs ∈ recs, leadingRecords rs =
      rs.filter fun r => r.Live) ↔
      ∀ rs ∈ recs, rs.Pairwise fun u r => r.Live → u.Live := by
    refine forall₂_congr fun rs _ => ?_
    rw [leadingRecords, takeWhile_eq_filter_iff]
    simp only [decide_eq_true_eq]
  rw [← hBlocks, ← hEq]
  constructor
  · rintro ⟨slots, u, hRun, -⟩
    rw [hList] at hRun
    exact congrArg Prod.fst (Option.some.inj hRun)
  · intro hLength
    have hSame : recs.flatMap leadingRecords =
        liveRecords recs :=
      List.flatMap_congr (hEq.mp hLength)
    rw [hSame] at hList
    exact ⟨_, t, hList, holds_deliver _ _⟩

end

------------------------------------------------------------
-- Names
------------------------------------------------------------

/- A delivered name reads back as a string. -/
def DirRecord.ReadsFrom
    (r : DirRecord)
    (slot : DirEntryFixedName) : Prop :=
  Terminated (slot.dirName.bytesFrom 0) ∧
    cString (slot.dirName.bytesFrom 0) = r.name

/- The slots hold the records, and their names read back. -/
def ReadsAs
    (slots : DirEntries)
    (rs : List DirRecord) : Prop :=
  Holds slots rs ∧
    ∀ j (hj : j < rs.length) (hSlot : j < maxSubdirs),
      rs[j].ReadsFrom (slots ⟨j, hSlot⟩)

/-
  Whatever two arrays held, the listings into them deliver
  the same records, under their names.
-/
def ListsIndependently
    (n : UInt32)
    (entries entries' : DirEntries)
    (s : Fs) : Prop :=
  ∃ rs slots slots' t, directoryRecords n s = some (rs, t) ∧
    ext2ListDirectory n entries s =
      some (rs.length, slots, t) ∧
    ext2ListDirectory n entries' s =
      some (rs.length, slots', t) ∧
    ReadsAs slots rs ∧ ReadsAs slots' rs

/-
  Right behind each name its slot holds a zero already, and
  no name has a zero inside.
-/
def CleanFor
    (entries : DirEntries)
    (rs : List DirRecord) : Prop :=
  ∀ j (hj : j < rs.length) (hSlot : j < maxSubdirs),
    (entries ⟨j, hSlot⟩).dirName.get rs[j].name.length = 0 ∧
      ∀ c ∈ rs[j].name, c ≠ 0

/- A name copied over an old one ends where that one has 0. -/
theorem DirRecord.over_reads_iff
    (r : DirRecord)
    (old : DirEntryFixedName) :
    r.ReadsFrom (r.over old) ↔
      old.dirName.get r.name.length = 0 ∧
        ∀ c ∈ r.name, c ≠ 0 := by
  have hLength := r.length_le
  have hStored := r.over_stored old
  have hBehind := r.get_over old (Nat.le_refl _)
  constructor
  · rintro ⟨hTerm, hString⟩
    have hStop := (ByteBuffer.ShowsText.of_cString hTerm
      hString).stop
    rw [Nat.zero_add, hBehind] at hStop
    refine ⟨hStop, fun c hc => ?_⟩
    rw [← hString] at hc
    exact ne_zero_of_mem_cString hc
  · rintro ⟨hZero, hClean⟩
    have hShows : (r.over old).dirName.ShowsText 0 r.name := by
      constructor
      · intro k hk
        rw [Nat.zero_add]
        exact hStored.bytes k hk
      · rw [Nat.zero_add, hBehind]
        exact hZero
      · omega
    exact ⟨hShows.terminated, hShows.cString_eq hClean⟩

/- Delivered names read back from clean slots only. -/
theorem readsAs_deliver_iff
    (entries : DirEntries)
    (rs : List DirRecord) :
    ReadsAs (deliver entries rs) rs ↔ CleanFor entries rs := by
  rw [ReadsAs, and_iff_right (holds_deliver entries rs)]
  refine forall₃_congr fun j hj hSlot => ?_
  rw [← DirRecord.over_reads_iff]
  simp only [deliver, List.getElem?_eq_getElem hj]

/-
  Slots that a listing was delivered into are clean for the
  next one unless an earlier name reaches past a later one.
-/
theorem cleanFor_deliver_iff
    {entries : DirEntries}
    (hZero : ∀ j k, (entries j).dirName.get k = 0)
    (rs rs' : List DirRecord) :
    CleanFor (deliver entries rs) rs' ↔
      ∀ j (hj : j < rs'.length), j < maxSubdirs →
        (∀ (hOld : j < rs.length),
          rs[j].name.getD rs'[j].name.length 0 = 0) ∧
        ∀ c ∈ rs'[j].name, c ≠ 0 := by
  refine forall₃_congr fun j hj hSlot => and_congr_left' ?_
  by_cases hOld : j < rs.length
  · have hStored := holds_deliver entries rs j hOld hSlot
    rw [forall_prop_of_true hOld]
    by_cases hLt : rs'[j].name.length < rs[j].name.length
    · rw [hStored.bytes _ hLt, List.getD_eq_getElem _ _ hLt]
    · have hOut : ((deliver entries rs) ⟨j, hSlot⟩).dirName.get
          rs'[j].name.length = 0 := by
        simp only [deliver, List.getElem?_eq_getElem hOld]
        exact (rs[j].get_over _ (Nat.not_lt.mp hLt)).trans
          (hZero _ _)
      rw [hOut, List.getD_eq_default _ _ (Nat.not_lt.mp hLt)]
  · have hNone : rs[j]? = none :=
      List.getElem?_eq_none (Nat.not_lt.mp hOld)
    simp only [deliver, hNone, hZero, forall_prop_of_false hOld]

/-
  Two listings of a directory agree under the names of its
  records exactly when they read the blocks only and both
  arrays are clean for those records.
-/
theorem ext2ListDirectory_independent_iff
    (n : UInt32)
    (entries entries' : DirEntries)
    (s : Fs) :
    ListsIndependently n entries entries' s ↔
      ∃ rs t, directoryRecords n s = some (rs, t) ∧
        CleanFor entries rs ∧ CleanFor entries' rs := by
  have hFirst := ext2ListDirectory_eq n entries s
  have hSecond := ext2ListDirectory_eq n entries' s
  constructor
  · rintro ⟨rs, slots, slots', t, hRecords, hRun, hRun',
      hReads, hReads'⟩
    rw [hRecords] at hFirst hSecond
    cases hRun.symm.trans hFirst
    cases hRun'.symm.trans hSecond
    rw [readsAs_deliver_iff] at hReads hReads'
    exact ⟨rs, t, hRecords, hReads, hReads'⟩
  · rintro ⟨rs, t, hRecords, hClean, hClean'⟩
    rw [hRecords] at hFirst hSecond
    rw [← readsAs_deliver_iff] at hClean hClean'
    exact ⟨rs, _, _, t, hRecords, hFirst, hSecond, hClean,
      hClean'⟩

------------------------------------------------------------
-- Two Directories
------------------------------------------------------------

/-
  The root with `/abc` (13) and `/d` (12): the first holds
  `b`, the second an unused record in front of `b`.
-/
def walkSampleInodes
    (n : UInt32) : Inode :=
  if n = 2 then sampleDir 5
  else if n = 12 then sampleDir 6
  else if n = 13 then sampleDir 7
  else Inode.zero

def walkSampleContent
    (b : UInt32) : Block :=
  if b = 5 then bytesBlock
    [2, 0, 0, 0, 12, 0, 1, 2, 46, 0, 0, 0,
     2, 0, 0, 0, 12, 0, 2, 2, 46, 46, 0, 0,
     13, 0, 0, 0, 12, 0, 3, 2, 97, 98, 99, 0,
     12, 0, 0, 0, 220, 15, 1, 2, 100, 0, 0, 0]
  else if b = 6 then bytesBlock
    [12, 0, 0, 0, 12, 0, 1, 2, 46, 0, 0, 0,
     2, 0, 0, 0, 12, 0, 2, 2, 46, 46, 0, 0,
     0, 0, 0, 0, 12, 0, 1, 1, 120, 0, 0, 0,
     14, 0, 0, 0, 220, 15, 1, 1, 98, 0, 0, 0]
  else bytesBlock
    [13, 0, 0, 0, 12, 0, 1, 2, 46, 0, 0, 0,
     2, 0, 0, 0, 12, 0, 2, 2, 46, 46, 0, 0,
     15, 0, 0, 0, 232, 15, 1, 1, 98, 0, 0, 0]

def walkSample : Fs :=
  sampleFs walkSampleInodes walkSampleContent

/- The records of the three directories, one block each. -/
def walkSampleRecs
    (block : UInt32) : List DirRecord :=
  if block = 5 then
    [⟨⟨2, 12, 1, 2⟩, [46], rfl⟩,
     ⟨⟨2, 12, 2, 2⟩, [46, 46], rfl⟩,
     ⟨⟨13, 12, 3, 2⟩, [97, 98, 99], rfl⟩,
     ⟨⟨12, 4060, 1, 2⟩, [100], rfl⟩]
  else if block = 6 then
    [⟨⟨12, 12, 1, 2⟩, [46], rfl⟩,
     ⟨⟨2, 12, 2, 2⟩, [46, 46], rfl⟩,
     ⟨⟨0, 12, 1, 1⟩, [120], rfl⟩,
     ⟨⟨14, 4060, 1, 1⟩, [98], rfl⟩]
  else
    [⟨⟨13, 12, 1, 2⟩, [46], rfl⟩,
     ⟨⟨2, 12, 2, 2⟩, [46, 46], rfl⟩,
     ⟨⟨15, 4072, 1, 1⟩, [98], rfl⟩]

theorem walkSample_steady :
    walkSample.Steady :=
  ⟨rfl, congrArg Layout.blockSize (sampleFs_layout _ _)⟩

theorem walkSample_extract
    {n : UInt32}
    (hn : sampleLayout.ValidInode n) :
    ext2ExtractInode n walkSample =
      some (walkSample.setCurrentInode
        (walkSampleInodes n)) := by
  have hLayout : walkSample.layout = sampleLayout :=
    sampleFs_layout _ _
  rw [ext2ExtractInode_eq walkSample_steady
    (hLayout ▸ sampleLayout_ok) (hLayout ▸ hn)]
  exact congrArg _ (congrArg _ (sampleFs_inodeAt _ _ hn))

/- Each directory is one block of its records. -/
theorem walkSample_framed
    {block : UInt32}
    (hBlock : block = 5 ∨ block = 6 ∨ block = 7) :
    FramedBlocks walkSample.disk (sampleDir block).directBlocks
      [walkSampleRecs block] := by
  have hRecs : Framed (walkSample.disk block) 0
      (walkSampleRecs block) := by
    rcases hBlock with rfl | rfl | rfl
    · exact framed_of_readFrames
        (show readFrames _ 4 0 = _ by decide +kernel)
    · exact framed_of_readFrames
        (show readFrames _ 4 0 = _ by decide +kernel)
    · exact framed_of_readFrames
        (show readFrames _ 3 0 = _ by decide +kernel)
  have hZero : block ≠ 0 := by
    rcases hBlock with rfl | rfl | rfl <;> decide
  exact .block hZero hRecs .stop

/- The directory `/abc` has no unused record. -/
theorem ext2ListDirectory_all_live_sample :
    ListsAllLive 13 (fun _ => default) walkSample
        [walkSampleRecs 7] ↔
      ∀ rs ∈ [walkSampleRecs 7],
        rs.Pairwise fun u r => r.Live → u.Live :=
  ext2ListDirectory_all_live_iff walkSample_steady
    (walkSample_extract (n := 13) (by decide)) (by decide)
    (@walkSample_framed 7 (.inr (.inr rfl)))
    (by decide) fun _ => default

/-
  Listing `/d` stops at the unused record: it delivers two
  of its three live records.
-/
theorem ext2ListDirectory_drops_live :
    (liveRecords [walkSampleRecs 6]).length = 3 ∧
      (∃ t, ext2ExtractInode 12 walkSample = some t ∧
        t.currentInode.isDir ∧
        FramedBlocks walkSample.disk
          t.currentInode.directBlocks [walkSampleRecs 6]) ∧
      ∀ entries, (∃ slots t,
          ext2ListDirectory 12 entries walkSample =
            some (2, slots, t)) ∧
        ¬ ListsAllLive 12 entries walkSample
          [walkSampleRecs 6] := by
  have hExtract := walkSample_extract (n := 12) (by decide)
  have hFramed := @walkSample_framed 6 (.inr (.inl rfl))
  refine ⟨by decide, ⟨_, hExtract, by decide, hFramed⟩, ?_⟩
  intro entries
  have hRun := ext2ListDirectory_eq 12 entries walkSample
  rw [directoryRecords_framed walkSample_steady hExtract
    (by decide) hFramed, show ([walkSampleRecs 6].flatMap
      leadingRecords).take maxSubdirs =
        (walkSampleRecs 6).take 2 by decide] at hRun
  refine ⟨⟨_, _, hRun⟩, ?_⟩
  rintro ⟨slots, t, hAll, -⟩
  rw [hRun] at hAll
  have hCount : 2 = (liveRecords [walkSampleRecs 6]).length :=
    congrArg Prod.fst (Option.some.inj hAll)
  exact absurd hCount (by decide)

/- Slots as a zeroed stack leaves them. -/
def zeroSlots : DirEntries :=
  fun _ => ⟨default, .fill _ 0⟩

/-
  The walk of `/abc/b`: after the root was listed, the name
  `b` of the next directory is read as `bbc`.
-/
theorem ext2ListDirectory_stale :
    ∃ slots t slots' t',
      ext2ListDirectory 2 zeroSlots walkSample =
        some (4, slots, t) ∧
      ext2ListDirectory 13 slots t = some (3, slots', t') ∧
      cString ((slots' 2).dirName.bytesFrom 0) =
        [98, 98, 99] ∧
      ¬ ListsIndependently 13 zeroSlots slots t := by
  have hRoot : directoryRecords 2 walkSample =
      some (walkSampleRecs 5,
        walkSample.setCurrentInode (sampleDir 5)) :=
    directoryRecords_framed walkSample_steady
      (walkSample_extract (n := 2) (by decide)) (by decide)
      (@walkSample_framed 5 (.inl rfl))
  have hNext : directoryRecords 13
      (walkSample.setCurrentInode (sampleDir 5)) =
      some (walkSampleRecs 7,
        walkSample.setCurrentInode (sampleDir 7)) :=
    directoryRecords_framed
      (walkSample_steady.setCurrentInode _)
      (walkSample_extract (n := 13) (by decide)) (by decide)
      (@walkSample_framed 7 (.inr (.inr rfl)))
  have hFirst := ext2ListDirectory_eq 2 zeroSlots walkSample
  rw [hRoot] at hFirst
  have hSecond := ext2ListDirectory_eq 13
    (deliver zeroSlots (walkSampleRecs 5))
    (walkSample.setCurrentInode (sampleDir 5))
  rw [hNext] at hSecond
  refine ⟨_, _, _, _, hFirst, hSecond, by decide +kernel, ?_⟩
  rintro ⟨rs, slots, slots', t, hRecords, -, hRun, -, hReads⟩
  rw [hNext] at hRecords
  cases hRecords
  cases hRun.symm.trans hSecond
  have hClean := (readsAs_deliver_iff _ _).mp hReads
  exact absurd (hClean 2 (by decide) (by decide)).1
    (by decide +kernel)

end Ext2

end Ester
