import Mathlib.Data.List.TakeWhile
import Ester.Ext2.Directory.Tiling

/-
  What a listing delivers, apart from the array that it is
  delivered into.

  The records that a listing copies out depend on the disk
  alone: `directoryRecords` is the walk without the array,
  and the listing is that walk followed by `deliver`.  In a
  directory that is framed by records the walk gives, of
  each block, the records before the first unused one.

  Key definitions include:
    * `DirRecord`, `recordAt`
    * `directoryRecords`
    * `deliver`
    * `Framed`, `FramedBlocks`
    * `leadingRecords`, `liveRecords`

  Key theorems include:
    * `ext2ListDirectory_eq`
    * `scanBlock_framed`
    * `scanBlocks_framed`
-/

namespace Ester

namespace Ext2

------------------------------------------------------------
-- Records
------------------------------------------------------------

/- A directory record: its header and the name it announces. -/
structure DirRecord where
  header : DirEntry
  name : List UInt8
  sized : name.length = header.dirNameLen.toNat
deriving DecidableEq

/- A record that stands for a file or directory. -/
abbrev DirRecord.Live
    (r : DirRecord) : Prop :=
  r.header.dirInode ≠ 0

/- A name fits the array of a slot, with a byte to spare. -/
theorem DirRecord.length_le
    (r : DirRecord) :
    r.name.length ≤ ext2NameLen := by
  rw [r.sized]
  exact Nat.lt_succ_iff.mp r.header.dirNameLen.toNat_lt

/- A name has as many bytes as its header says. -/
theorem length_nameAt
    (b : Block)
    (o : Nat) :
    (nameAt b o).length = (entryAt b o).dirNameLen.toNat := by
  simp [nameAt]

theorem getD_nameAt
    (b : Block)
    (o : Nat)
    {k : Nat}
    (hk : k < (entryAt b o).dirNameLen.toNat) :
    (nameAt b o).getD k 0 = b.get (o + 8 + k) := by
  have hLt : k < (nameAt b o).length := by
    rwa [length_nameAt]
  rw [List.getD_eq_getElem _ _ hLt]
  simp [nameAt]

/- The record at an offset of a block. -/
def recordAt
    (b : Block)
    (o : Nat) : DirRecord :=
  ⟨entryAt b o, nameAt b o, length_nameAt b o⟩

------------------------------------------------------------
-- The Walk Without the Array
------------------------------------------------------------

/-
  The records of one block that are delivered into `room`
  slots.  The flag tells that there were no more slots.
-/
def scanBlock
    (buffer : Block) :
    (room offset : Nat) → Option (Bool × List DirRecord)
  | 0, offset => some (decide (offset < logicalBlockSize), [])
  | room + 1, offset =>
      if logicalBlockSize ≤ offset then some (false, [])
      else if logicalBlockSize < offset + 4 then none
      else if (entryAt buffer offset).dirInode = 0 then
        some (false, [])
      else if logicalBlockSize <
          offset + 8 + (entryAt buffer offset).dirNameLen.toNat
        then none
      else
        (scanBlock buffer room (offset +
          (entryAt buffer offset).dirEntrySize.toNat)).map
            fun (full, rs) =>
              (full, recordAt buffer offset :: rs)

/- The records of consecutive blocks. -/
def scanBlocks :
    (blocks : List UInt32) → (room : Nat) → Fs →
      Option (List DirRecord × Fs)
  | [], _, s => some ([], s)
  | block :: blocks, room, s =>
      if block = 0 then some ([], s)
      else do
        let (_, buffer, s) ← readLocal block s
        let (full, rs) ← scanBlock buffer room 0
        if full then some (rs, s)
        else do
          let (more, s) ←
            scanBlocks blocks (room - rs.length) s
          some (rs ++ more, s)

/- The records that a listing of a directory delivers. -/
def directoryRecords
    (dirInodeNum : UInt32)
    (s : Fs) : Option (List DirRecord × Fs) := do
  let s ← ext2ExtractInode dirInodeNum s
  if s.currentInode.isDir then
    scanBlocks s.currentInode.directBlocks maxSubdirs s
  else some ([], s)

theorem length_scanBlock
    {b : Block}
    {room : Nat} :
    ∀ {o full rs}, scanBlock b room o = some (full, rs) →
      rs.length ≤ room := by
  induction room with
  | zero =>
      intro o full rs hScan
      cases hScan
      exact Nat.le_refl _
  | succ room ih =>
      intro o full rs hScan
      unfold scanBlock at hScan
      split at hScan
      · cases hScan
        exact Nat.zero_le _
      · split at hScan
        · cases hScan
        · split at hScan
          · cases hScan
            exact Nat.zero_le _
          · split at hScan
            · cases hScan
            · rcases Option.map_eq_some_iff.mp hScan with
                ⟨⟨full', rs'⟩, hRest, hEq⟩
              cases hEq
              exact Nat.succ_le_succ (ih hRest)

theorem length_scanBlocks
    {blocks : List UInt32} :
    ∀ {room s rs t}, scanBlocks blocks room s = some (rs, t) →
      rs.length ≤ room := by
  induction blocks with
  | nil =>
      intro room s rs t hScan
      cases hScan
      exact Nat.zero_le _
  | cons block blocks ih =>
      intro room s rs t hScan
      unfold scanBlocks at hScan
      split at hScan
      · cases hScan
        exact Nat.zero_le _
      · simp only [Option.bind_eq_bind,
          Option.bind_eq_some_iff] at hScan
        rcases hScan with
          ⟨⟨code, buffer, u⟩, -, ⟨full, rs₁⟩, hBlock, hScan⟩
        have hFirst := length_scanBlock hBlock
        dsimp only at hScan
        split at hScan
        · cases hScan
          exact hFirst
        · rcases Option.bind_eq_some_iff.mp hScan with
            ⟨⟨more, v⟩, hMore, hEq⟩
          cases hEq
          have hRest := ih hMore
          change (rs₁ ++ more).length ≤ room
          rw [List.length_append]
          omega

------------------------------------------------------------
-- Delivery
------------------------------------------------------------

/- A record copied over what a slot held before. -/
def DirRecord.over
    (r : DirRecord)
    (old : DirEntryFixedName) : DirEntryFixedName :=
  ⟨r.header, old.dirName.splice 0 r.name.length
    fun k => r.name.getD k 0⟩

/- Records copied into the first slots. -/
def deliver
    (entries : DirEntries)
    (rs : List DirRecord) : DirEntries := fun j =>
  match rs[(j : Nat)]? with
  | none => entries j
  | some r => r.over (entries j)

@[simp] theorem deliver_nil
    (entries : DirEntries) :
    deliver entries [] = entries := rfl

/- Copying a record out of its block. -/
theorem recordAt_over
    (b : Block)
    (o : Nat)
    (old : DirEntryFixedName) :
    (recordAt b o).over old =
      ⟨entryAt b o, old.dirName.splice 0
        (entryAt b o).dirNameLen.toNat (b.slice (o + 8))⟩ := by
  rw [DirRecord.over, recordAt]
  dsimp only
  rw [length_nameAt]
  congr 1
  apply ByteBuffer.ext_get
  intro k hk
  rw [ByteBuffer.get_splice _ _ _ _ hk,
    ByteBuffer.get_splice _ _ _ _ hk]
  split
  · next hIn =>
      rw [getD_nameAt b o (by omega)]
      rfl
  · rfl

/- One more record changes the next slot. -/
theorem deliver_concat
    (entries : DirEntries)
    (rs : List DirRecord)
    (r : DirRecord)
    (hRoom : rs.length < maxSubdirs) :
    deliver entries (rs ++ [r]) =
      Function.update (deliver entries rs) ⟨rs.length, hRoom⟩
        (r.over (deliver entries rs ⟨rs.length, hRoom⟩)) := by
  funext j
  by_cases hj : j = ⟨rs.length, hRoom⟩
  · subst hj
    rw [Function.update_self]
    simp [deliver]
  · have hVal : (j : Nat) ≠ rs.length :=
      fun hEq => hj (Fin.ext hEq)
    rw [Function.update_of_ne hj]
    by_cases hLt : (j : Nat) < rs.length
    · simp [deliver, List.getElem?_append_left hLt]
    · have hOut : (rs ++ [r])[(j : Nat)]? = none := by
        apply List.getElem?_eq_none
        rw [List.length_append, List.length_singleton]
        omega
      simp [deliver, hOut,
        List.getElem?_eq_none (Nat.not_lt.mp hLt)]

/- A block is walked, and its records are delivered. -/
theorem listBlock_eq
    (b : Block)
    (entries : DirEntries)
    {room : Nat} :
    ∀ {done : List DirRecord} {o},
      done.length + room = maxSubdirs →
      listBlock b room o (deliver entries done) =
        (scanBlock b room o).map fun (full, rs) =>
          (full, room - rs.length,
            deliver entries (done ++ rs)) := by
  induction room with
  | zero =>
      intro done o _
      simp [listBlock, scanBlock]
  | succ room ih =>
      intro done o hRoom
      have hLt : done.length < maxSubdirs := by omega
      have hSlot : (⟨maxSubdirs - (room + 1),
          Nat.sub_lt (by decide) (by omega)⟩ :
          Fin maxSubdirs) = ⟨done.length, hLt⟩ :=
        Fin.ext (by
          change maxSubdirs - (room + 1) = done.length
          omega)
      unfold listBlock scanBlock
      split
      · simp
      · split
        · rfl
        · split
          · simp
          · dsimp only
            split
            · rfl
            · rw [hSlot, ← recordAt_over,
                ← deliver_concat entries done _ hLt,
                ih (by
                  rw [List.length_append,
                    List.length_singleton]
                  omega)]
              cases scanBlock b room (o +
                (entryAt b o).dirEntrySize.toNat) with
              | none => rfl
              | some found => simp

theorem listBlocks_eq
    (entries : DirEntries)
    {blocks : List UInt32} :
    ∀ {done : List DirRecord} {room s},
      done.length + room = maxSubdirs →
      listBlocks blocks room (deliver entries done) s =
        (scanBlocks blocks room s).map fun (rs, t) =>
          (room - rs.length, deliver entries (done ++ rs),
            t) := by
  induction blocks with
  | nil =>
      intro done room s _
      simp [listBlocks, scanBlocks]
  | cons block blocks ih =>
      intro done room s hRoom
      unfold listBlocks scanBlocks
      split
      · simp
      · cases hRead : readLocal block s with
        | none => rfl
        | some answer =>
            rcases answer with ⟨code, buffer, u⟩
            simp only [Option.bind_eq_bind, Option.bind_some,
              listBlock_eq buffer entries hRoom]
            cases hScan : scanBlock buffer room 0 with
            | none => rfl
            | some found =>
                rcases found with ⟨full, rs⟩
                have hLength := length_scanBlock hScan
                simp only [Option.map_some, Option.bind_some]
                cases full with
                | true => rfl
                | false =>
                    simp only [Bool.false_eq_true, if_false]
                    rw [ih (by
                      rw [List.length_append]
                      omega)]
                    cases scanBlocks blocks
                      (room - rs.length) u with
                    | none => rfl
                    | some more =>
                        simp [Nat.sub_sub]

/-
  A listing delivers the records of the directory, whatever
  the array held before.
-/
theorem ext2ListDirectory_eq
    (n : UInt32)
    (entries : DirEntries)
    (s : Fs) :
    ext2ListDirectory n entries s =
      (directoryRecords n s).map fun (rs, t) =>
        (rs.length, deliver entries rs, t) := by
  unfold ext2ListDirectory directoryRecords
  cases ext2ExtractInode n s with
  | none => rfl
  | some u =>
      simp only [Option.bind_eq_bind, Option.bind_some]
      split
      · have hBlocks := @listBlocks_eq entries
          u.currentInode.directBlocks [] maxSubdirs u
          (Nat.zero_add _)
        rw [deliver_nil] at hBlocks
        rw [hBlocks]
        cases hScan : scanBlocks u.currentInode.directBlocks
          maxSubdirs u with
        | none => rfl
        | some found =>
            have hLength := length_scanBlocks hScan
            simp only [Option.map_some, Option.bind_some,
              List.nil_append, Nat.sub_sub_self hLength]
      · rfl

------------------------------------------------------------
-- Framed Directories
------------------------------------------------------------

/-
  From an offset to its end the block is made of these
  records, each long enough for its name.
-/
inductive Framed
    (b : Block) :
    (o : Nat) → List DirRecord → Prop
  | stop : Framed b logicalBlockSize []
  | record
      {o : Nat}
      {rs : List DirRecord}
      (hSize : 8 + (entryAt b o).dirNameLen.toNat ≤
        (entryAt b o).dirEntrySize.toNat)
      (hRest : Framed b
        (o + (entryAt b o).dirEntrySize.toNat) rs) :
      Framed b o (recordAt b o :: rs)

/- The blocks up to the first zero pointer are framed. -/
inductive FramedBlocks
    (disk : UInt32 → Block) :
    List UInt32 → List (List DirRecord) → Prop
  | nil : FramedBlocks disk [] []
  | stop
      {blocks : List UInt32} :
      FramedBlocks disk (0 :: blocks) []
  | block
      {b : UInt32}
      {blocks : List UInt32}
      {rs : List DirRecord}
      {recs : List (List DirRecord)}
      (hBlock : b ≠ 0)
      (hFramed : Framed (disk b) 0 rs)
      (hRest : FramedBlocks disk blocks recs) :
      FramedBlocks disk (b :: blocks) (rs :: recs)

/- The records of a block before its first unused one. -/
def leadingRecords
    (rs : List DirRecord) : List DirRecord :=
  rs.takeWhile fun r => r.Live

/- The live records of a directory. -/
def liveRecords
    (recs : List (List DirRecord)) : List DirRecord :=
  recs.flatMap fun rs => rs.filter fun r => r.Live

theorem Framed.le
    {b : Block}
    {o : Nat}
    {rs : List DirRecord}
    (h : Framed b o rs) :
    o ≤ logicalBlockSize := by
  induction h with
  | stop => exact Nat.le_refl _
  | record _ _ ih => exact Nat.le_trans (Nat.le_add_right _ _) ih

/- Read the records of a block, given their number. -/
def readFrames
    (b : Block) :
    (count o : Nat) → Option (List DirRecord)
  | 0, o => if o = logicalBlockSize then some [] else none
  | count + 1, o =>
      if 8 + (entryAt b o).dirNameLen.toNat ≤
          (entryAt b o).dirEntrySize.toNat then
        (readFrames b count
          (o + (entryAt b o).dirEntrySize.toNat)).map
            (recordAt b o :: ·)
      else none

/- Records that are read to the end frame the block. -/
theorem framed_of_readFrames
    {b : Block}
    {count o : Nat}
    {rs : List DirRecord}
    (hRead : readFrames b count o = some rs) :
    Framed b o rs := by
  induction count generalizing o rs with
  | zero =>
      rw [readFrames] at hRead
      split at hRead
      · next hEnd =>
          cases hRead
          rw [hEnd]
          exact .stop
      · cases hRead
  | succ count ih =>
      rw [readFrames] at hRead
      split at hRead
      · next hSize =>
          rcases Option.map_eq_some_iff.mp hRead with
            ⟨rest, hRest, rfl⟩
          exact .record hSize (ih hRest)
      · cases hRead

/- The walk of a framed block stops at an unused record. -/
theorem scanBlock_framed
    {b : Block}
    {o : Nat}
    {rs : List DirRecord}
    (h : Framed b o rs)
    (room : Nat) :
    ∃ full, scanBlock b room o =
        some (full, (leadingRecords rs).take room) ∧
      (full → ((leadingRecords rs).take room).length =
        room) := by
  induction h generalizing room with
  | stop =>
      refine ⟨false, ?_, by simp⟩
      cases room with
      | zero => rfl
      | succ room => exact if_pos (Nat.le_refl _)
  | @record o rs hSize hRest ih =>
      cases room with
      | zero => exact ⟨_, rfl, fun _ => rfl⟩
      | succ room =>
          have hEnd := hRest.le
          unfold scanBlock
          rw [if_neg (by omega), if_neg (by omega)]
          split
          · next hUnused =>
              refine ⟨false, ?_, by simp⟩
              simp [leadingRecords, recordAt, DirRecord.Live,
                hUnused]
          · next hUsed =>
              rcases ih room with ⟨full, hScan, hFull⟩
              have hLead : leadingRecords (recordAt b o :: rs) =
                  recordAt b o :: leadingRecords rs :=
                List.takeWhile_cons_of_pos
                  (decide_eq_true hUsed)
              rw [if_neg (by omega), hScan, hLead,
                List.take_succ_cons]
              refine ⟨full, rfl, ?_⟩
              intro hIs
              rw [List.length_cons, hFull hIs]

theorem scanBlocks_framed
    {s : Fs}
    (hSteady : s.Steady)
    {blocks : List UInt32}
    {recs : List (List DirRecord)}
    (h : FramedBlocks s.disk blocks recs)
    (room : Nat) :
    scanBlocks blocks room s =
      some ((recs.flatMap leadingRecords).take room, s) := by
  induction h generalizing room with
  | nil => simp [scanBlocks]
  | stop => simp [scanBlocks]
  | @block b blocks rs recs hBlock hFramed _ ih =>
      rcases scanBlock_framed hFramed room with
        ⟨full, hScan, hFull⟩
      rw [scanBlocks, if_neg hBlock, readLocal_of_steady hSteady,
        List.flatMap_cons, List.take_append]
      simp only [Option.bind_eq_bind, Option.bind_some, hScan]
      cases full with
      | true =>
          have hLength := hFull rfl
          rw [List.length_take] at hLength
          have hNone : room - (leadingRecords rs).length = 0 := by
            omega
          rw [hNone, List.take_zero, List.append_nil]
          rfl
      | false =>
          have hRest : room -
              ((leadingRecords rs).take room).length =
              room - (leadingRecords rs).length := by
            rw [List.length_take]
            omega
          simp only [Bool.false_eq_true, if_false]
          rw [ih, hRest]
          rfl

end Ext2

end Ester
