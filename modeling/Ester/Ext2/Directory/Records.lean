import Mathlib.Data.List.TakeWhile
import Ester.Library.StaleSlots
import Ester.Ext2.Lookup.Validity
import Ester.Ext2.Directory.Listing

/-
  The records of whole directories, and what a listing of
  them leaves in the slots.

  A directory is tiled by records block by block.  The ones
  with an inode are its entries; a listing delivers, of each
  block, the entries before the first record without one,
  until the slots are full.  Names are copied without a
  terminator over what the slots held before.

  Key definitions include:
    * `TiledBlocks`
    * `present`, `visible`, `enter`
    * `Listed`

  Key theorems include:
    * `TiledBlocks.unique`, `TiledBlocks.congr`
    * `Listed.deliver`
    * `ext2ListDirectory_listed`
-/

------------------------------------------------------------
-- Records
------------------------------------------------------------

namespace Ester

namespace Ext2

/-
  The blocks of a directory, up to the first pointer that is
  zero, are tiled by these records.
-/
inductive TiledBlocks
    (disk : UInt32 → Block) :
    List UInt32 → List Entries → Prop
  | nil : TiledBlocks disk [] []
  | stop
      {blocks : List UInt32} :
      TiledBlocks disk (0 :: blocks) []
  | block
      {b : UInt32}
      {blocks : List UInt32}
      {last : Nat}
      {es : Entries}
      {recs : List Entries}
      (hBlock : b ≠ 0)
      (hTiled : Tiled (disk b) 0 last es)
      (hRest : TiledBlocks disk blocks recs) :
      TiledBlocks disk (b :: blocks) (es :: recs)

/- The entries of a directory: the records with an inode. -/
def present
    (recs : List Entries) : Entries :=
  recs.flatten.filter fun e => e.2 ≠ 0

/- The entries of a block before its first unused record. -/
def leading
    (es : Entries) : Entries :=
  es.takeWhile fun e => e.2 ≠ 0

/- The entries of a directory that a listing delivers. -/
def visible
    (recs : List Entries) : Entries :=
  (recs.flatMap leading).take maxSubdirs

/- The records with one more at the end of the first block. -/
def enter
    (recs : List Entries)
    (name : List UInt8)
    (n : UInt32) : List Entries :=
  match recs with
  | [] => []
  | es :: recs => (es ++ [(name, n)]) :: recs

theorem present_cons
    (es : Entries)
    (recs : List Entries) :
    present (es :: recs) =
      es.filter (fun e => e.2 ≠ 0) ++ present recs := by
  simp [present]

/- Only entries are delivered. -/
theorem mem_present_of_visible
    {recs : List Entries}
    {e : List UInt8 × UInt32}
    (hMem : e ∈ visible recs) :
    e ∈ present recs := by
  have hMem := List.mem_of_mem_take hMem
  rcases List.mem_flatMap.mp hMem with ⟨es, hEs, hLead⟩
  unfold leading at hLead
  apply List.mem_filter.mpr
  constructor
  · exact List.mem_flatten.mpr
      ⟨es, hEs, (List.takeWhile_prefix _).subset hLead⟩
  · exact List.mem_takeWhile_imp
      (p := fun e : List UInt8 × UInt32 =>
        decide (e.2 ≠ 0)) hLead

/- The new record is one more entry. -/
theorem present_enter_perm
    {recs : List Entries}
    (hFirst : recs ≠ [])
    (name : List UInt8)
    {n : UInt32}
    (hn : n ≠ 0) :
    (present (enter recs name n)).Perm
      ((name, n) :: present recs) := by
  cases recs with
  | nil => exact absurd rfl hFirst
  | cons es recs =>
      simp only [enter, present_cons, List.filter_append,
        List.append_assoc]
      have hNew : [(name, n)].filter (fun e => e.2 ≠ 0) =
          [(name, n)] := by simp [hn]
      rw [hNew]
      exact List.perm_middle

namespace TiledBlocks

variable {disk disk' : UInt32 → Block}
variable {blocks : List UInt32} {recs recs' : List Entries}

/- The records are determined by the disk. -/
theorem unique
    (h : TiledBlocks disk blocks recs)
    (h' : TiledBlocks disk blocks recs') :
    recs = recs' := by
  induction h generalizing recs' with
  | nil =>
      cases h'
      rfl
  | stop =>
      cases h' with
      | stop => rfl
      | block hBlock => exact absurd rfl hBlock
  | block hBlock hTiled _ ih =>
      cases h' with
      | stop => exact absurd rfl hBlock
      | block _ hTiled' hRest' =>
          rw [(hTiled.unique hTiled').2, ih hRest']

/- The first block of a directory is tiled. -/
theorem cases_cons
    {b : UInt32}
    (h : TiledBlocks disk (b :: blocks) recs)
    (hBlock : b ≠ 0) :
    ∃ es rest last, recs = es :: rest ∧
      Tiled (disk b) 0 last es ∧
        TiledBlocks disk blocks rest := by
  cases h with
  | stop => exact absurd rfl hBlock
  | block _ hTiled hRest => exact ⟨_, _, _, rfl, hTiled, hRest⟩

/- Only the blocks before the first zero pointer matter. -/
theorem congr
    (h : TiledBlocks disk blocks recs)
    (hSame : LeadingOk (fun b => disk' b = disk b) blocks) :
    TiledBlocks disk' blocks recs := by
  induction h with
  | nil => exact .nil
  | stop => exact .stop
  | block hBlock hTiled _ ih =>
      rcases hSame hBlock with ⟨hHead, hTail⟩
      exact .block hBlock (hHead.symm ▸ hTiled) (ih hTail)

end TiledBlocks

------------------------------------------------------------
-- Listing One Block
------------------------------------------------------------

open StaleSlots (Slots after shown overlay)

/-
  The slots after `done` was delivered into slots that showed
  the names `old`.
-/
structure Listed
    (old : Slots UInt8)
    (done : Entries)
    (slots : DirEntries) : Prop where
  length_le : done.length ≤ maxSubdirs
  names :
    ∀ (j : Fin maxSubdirs) k,
      (slots j).dirName.get k = (after old done j).getD k 0
  inodes :
    ∀ j (hj : j < done.length),
      (slots ⟨j, Nat.lt_of_lt_of_le hj
        length_le⟩).entry.dirInode = done[j].2

section

variable {old : Slots UInt8} {done es : Entries}
variable {slots : DirEntries} {b : Block} {o last : Nat}

/- What is in the slots before anything is delivered. -/
theorem Listed.start
    (h : Listed old done slots) :
    Listed (after old done) ([] : Entries) slots where
  length_le := Nat.zero_le _
  names j k := by
    rw [StaleSlots.after_nil]
    exact h.names j k
  inodes j hj := absurd hj (Nat.not_lt_zero j)

/- The name and inode of a record. -/
def DirRecord.toEntry
    (r : DirRecord) : List UInt8 × UInt32 :=
  (r.name, r.header.dirInode)

/- Slots that records were delivered into. -/
theorem Listed.deliver
    (h : Listed old ([] : Entries) slots)
    {rs : List DirRecord}
    (hRoom : rs.length ≤ maxSubdirs) :
    Listed old (rs.map DirRecord.toEntry)
      (deliver slots rs) where
  length_le := by
    rw [List.length_map]
    exact hRoom
  names j k := by
    have hOld := h.names j k
    rw [StaleSlots.after_nil] at hOld
    rw [StaleSlots.after, List.getElem?_map, Ext2.deliver]
    cases hRecord : rs[(j : Nat)]? with
    | none =>
        rw [Option.map_none, Option.map_none, Option.getD_none,
          StaleSlots.overlay_nil_left]
        exact hOld
    | some r =>
        have hLength : r.name.length ≤ 255 := r.length_le
        change ((slots j).dirName.splice 0 r.name.length
          fun i => r.name.getD i 0).get k =
            (overlay r.name (old j)).getD k 0
        rw [StaleSlots.getD_overlay]
        split
        · next hk =>
            have hIn := ByteBuffer.get_splice_of_inside
              (slots j).dirName (fun i => r.name.getD i 0) hk
              (show 0 + _ ≤ 256 by omega)
            rwa [Nat.zero_add] at hIn
        · next hk =>
            rw [ByteBuffer.get_splice_of_outside _ _ (by omega)]
            exact hOld
  inodes j hj := by
    rw [List.length_map] at hj
    simp only [Ext2.deliver, List.getElem?_eq_getElem hj,
      List.getElem_map]
    rfl

------------------------------------------------------------
-- Listing a Directory
------------------------------------------------------------

/- A tiled block is framed by its records. -/
theorem Tiled.framed
    (h : Tiled b o last es) :
    ∃ rs, Framed b o rs ∧ rs.map DirRecord.toEntry = es := by
  induction h with
  | @last o hRecord hEnd =>
      refine ⟨[recordAt b o], .record hRecord.size_ge ?_, rfl⟩
      rw [hEnd]
      exact .stop
  | @entry o last es hRecord _ ih =>
      rcases ih with ⟨rs, hFramed, rfl⟩
      exact ⟨recordAt b o :: rs,
        .record hRecord.size_ge hFramed, rfl⟩

/- The blocks of a tiled directory are framed. -/
theorem TiledBlocks.framed
    {disk : UInt32 → Block}
    {blocks : List UInt32}
    {recs : List Entries}
    (h : TiledBlocks disk blocks recs) :
    ∃ frames, FramedBlocks disk blocks frames ∧
      frames.map (List.map DirRecord.toEntry) = recs := by
  induction h with
  | nil => exact ⟨[], .nil, rfl⟩
  | stop => exact ⟨[], .stop, rfl⟩
  | block hBlock hTiled _ ih =>
      rcases hTiled.framed with ⟨rs, hFramed, rfl⟩
      rcases ih with ⟨frames, hRest, rfl⟩
      exact ⟨rs :: frames, .block hBlock hFramed hRest, rfl⟩

/- The entries of records that are delivered are visible. -/
theorem visible_toEntry
    (frames : List (List DirRecord)) :
    visible (frames.map (List.map DirRecord.toEntry)) =
      ((frames.flatMap leadingRecords).take maxSubdirs).map
        DirRecord.toEntry := by
  have hLeading (rs : List DirRecord) :
      leading (rs.map DirRecord.toEntry) =
        (leadingRecords rs).map DirRecord.toEntry := by
    rw [leading, List.takeWhile_map]
    rfl
  rw [visible, List.flatMap_map, List.map_take,
    List.map_flatMap]
  simp only [hLeading]

/- The records of an inode: those of its blocks, if any. -/
structure RecordsOf
    (s : Fs)
    (n : UInt32)
    (recs : List Entries) : Prop where
  tiled :
    (s.inodeAt n).isDir →
      TiledBlocks s.disk (s.inodeAt n).directBlocks recs
  leaf : (s.inodeAt n).isDir = false → recs = []

/- A listing delivers what is visible of a directory. -/
theorem ext2ListDirectory_listed
    {s : Fs}
    (hSteady : s.Steady)
    (hL : s.layout.Ok)
    {n : UInt32}
    (hn : s.layout.ValidInode n)
    {recs : List Entries}
    (hRecs : RecordsOf s n recs)
    (h : Listed old ([] : Entries) slots)
    (inode : Inode) :
    ∃ slots',
      ext2ListDirectory n slots (s.setCurrentInode inode) =
        some ((visible recs).length, slots',
          s.setCurrentInode (s.inodeAt n)) ∧
      Listed old (visible recs) slots' := by
  have hExtract := ext2ExtractInode_eq
    (hSteady.setCurrentInode inode) hL hn
  rw [ext2ListDirectory_eq, directoryRecords, hExtract]
  simp only [Option.bind_eq_bind, Option.bind_some]
  cases hDir : (s.inodeAt n).isDir with
  | false =>
      have hNone := hRecs.leaf hDir
      subst hNone
      refine ⟨slots, ?_, h⟩
      rw [if_neg (by
        change ¬ (s.inodeAt n).isDir = true
        simp [hDir])]
      rfl
  | true =>
      rcases (hRecs.tiled hDir).framed with
        ⟨frames, hFramed, rfl⟩
      have hScan := scanBlocks_framed
        (hSteady.setCurrentInode (s.inodeAt n)) hFramed
        maxSubdirs
      rw [visible_toEntry, List.length_map]
      refine ⟨deliver slots _, ?_,
        h.deliver (List.length_take_le _ _)⟩
      refine (congrArg _ ((if_pos hDir).trans hScan)).trans ?_
      rfl

end

end Ext2

end Ester
