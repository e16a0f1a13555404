import Ester.Ext2.Directory.Records

/-
  Adding an entry to a full directory.

  `ext2_add_dir_entry` never compares the last record's free
  bytes with what the new entry needs.  It refuses an entry
  only when it runs out of slots before the end of the first
  block, or when there is no first block; in every other
  directory it splits the last record of the first block.

  Key definitions include:
    * `freeBytes`, `Cramped`, `NoRoom`
    * `SplitPoint`
    * `RefusesEntry`

  Key theorems include:
    * `refusesEntry_iff_overfull`
    * `full_refused_iff`
-/

------------------------------------------------------------
-- Room in a Directory
------------------------------------------------------------

namespace Ester

namespace Ext2

/-
  The bytes of a record that its header and name leave free;
  a record without an inode is free as a whole.
-/
def freeBytes
    (b : Block)
    (o : Nat) : Nat :=
  if (entryAt b o).dirInode = 0 then
    (entryAt b o).dirEntrySize.toNat
  else
    (entryAt b o).dirEntrySize.toNat -
      roundFour (8 + (entryAt b o).dirNameLen.toNat)

/- No record from offset `o` on has `need` bytes free. -/
inductive Cramped
    (b : Block)
    (need : Nat) : Nat → Prop
  | last
      {o : Nat}
      (hFree : freeBytes b o < need)
      (hEnd : o + (entryAt b o).dirEntrySize.toNat = 4096) :
      Cramped b need o
  | entry
      {o : Nat}
      (hFree : freeBytes b o < need)
      (hRest : Cramped b need
        (o + (entryAt b o).dirEntrySize.toNat)) :
      Cramped b need o

/- Walk the records of a block and compare. -/
def checkCramped
    (b : Block)
    (need : Nat) : (fuel o : Nat) → Bool
  | 0, _ => false
  | fuel + 1, o =>
      let next := o + (entryAt b o).dirEntrySize.toNat
      decide (freeBytes b o < need) &&
        (decide (next = 4096) ||
          checkCramped b need fuel next)

theorem cramped_of_check
    {b : Block}
    {need fuel o : Nat}
    (hCheck : checkCramped b need fuel o = true) :
    Cramped b need o := by
  induction fuel generalizing o with
  | zero => cases hCheck
  | succ fuel ih =>
      simp only [checkCramped, Bool.and_eq_true,
        Bool.or_eq_true, decide_eq_true_eq] at hCheck
      rcases hCheck with ⟨hFree, hEnd | hRest⟩
      · exact .last hFree hEnd
      · exact .entry hFree (ih hRest)

/-
  No block of the directory has room for an entry with a name
  of `len` bytes.
-/
def NoRoom
    (dirInode : Inode)
    (len : Nat)
    (s : Fs) : Prop :=
  LeadingOk
    (fun b => Cramped (s.disk b) (roundFour (8 + len)) 0)
    dirInode.directBlocks

------------------------------------------------------------
-- Refusing an Entry
------------------------------------------------------------

/-
  Walking a block from offset `o` with `room` slots ends at
  the record at `last`, which the code is about to split.
-/
inductive SplitPoint
    (b : Block) :
    (room o last : Nat) → Prop
  | here
      {room o : Nat}
      (hIn : o < 4096)
      (hLast : 4096 ≤ o + (entryAt b o).dirEntrySize.toNat) :
      SplitPoint b (room + 1) o o
  | next
      {room o last : Nat}
      (hMore : o + (entryAt b o).dirEntrySize.toNat < 4096)
      (hRest : SplitPoint b room
        (o + (entryAt b o).dirEntrySize.toNat) last) :
      SplitPoint b (room + 1) o last

/-
  The entry is refused: the call returns an error, without
  an access outside its block buffer, and leaves the disk as
  it is.  No record length it computes for a split wraps.
-/
structure RefusesEntry
    (dirInode : Inode)
    (inodeNum : UInt32)
    (name : List UInt8)
    (s : Fs) : Prop where
  refused :
    ∃ err t, ext2AddDirEntry dirInode inodeNum name s =
      some (err, t) ∧ err ≠ 0 ∧ t.disk = s.disk
  lengths :
    dirInode.iBlock 0 ≠ 0 → ∀ last,
      SplitPoint (s.disk (dirInode.iBlock 0)) maxSubdirs 0
        last →
        splitSize last (cString name).length < 2 ^ 16 ∧
          splitSize last (cString name).length ≤
            (entryAt (s.disk (dirInode.iBlock 0))
              last).dirEntrySize.toNat

/-
  The directory has no first block, or more records in it
  than a walk has slots.
-/
def Overfull
    (recs : List Entries) : Prop :=
  ∀ es ∈ recs.head?, maxSubdirs < es.length

section

variable {s : Fs} {dirInode : Inode} {recs : List Entries}
variable {inodeNum : UInt32} {name : List UInt8}

/- A walk with too few slots splits nothing. -/
theorem Tiled.length_le_of_splitPoint
    {b : Block}
    {room o last last' : Nat}
    {es : Entries}
    (h : Tiled b o last es)
    (hSplit : SplitPoint b room o last') :
    es.length ≤ room := by
  induction h generalizing room with
  | last _ hEnd =>
      cases hSplit with
      | here => simp
      | next hMore => omega
  | entry _ hRest ih =>
      have hLt := hRest.last_lt
      have hLe := hRest.le_last
      cases hSplit with
      | here _ hLast => omega
      | next _ hNext =>
          have hLen := ih hNext
          rw [List.length_cons]
          omega

/- What a directory's first block can be. -/
theorem TiledBlocks.first_cases
    (h : TiledBlocks s.disk dirInode.directBlocks recs) :
    (dirInode.iBlock 0 = 0 ∧ recs = []) ∨
      (dirInode.iBlock 0 ≠ 0 ∧ ∃ last es rest,
        recs = es :: rest ∧
          Tiled (s.disk (dirInode.iBlock 0)) 0 last es) := by
  rw [Inode.directBlocks_eq] at h
  generalize dirInode.iBlock 0 = first at h ⊢
  cases h with
  | stop => exact .inl ⟨rfl, rfl⟩
  | block hFirst hTiled _ =>
      exact .inr ⟨hFirst, _, _, _, rfl, hTiled⟩

/- A directory without a first block takes no entry. -/
theorem ext2AddDirEntry_of_no_block
    (hDir : dirInode.isDir)
    (hNone : dirInode.iBlock 0 = 0) :
    ext2AddDirEntry dirInode inodeNum name s =
      some (1, s) := by
  rw [ext2AddDirEntry, if_pos hDir, Inode.directBlocks_eq,
    addInBlocks, if_pos hNone]

/- A first block with too many records takes no entry. -/
theorem ext2AddDirEntry_of_many
    (hSteady : s.Steady)
    (hDir : dirInode.isDir)
    (hFirst : dirInode.iBlock 0 ≠ 0)
    {last : Nat}
    {es : Entries}
    (h : Tiled (s.disk (dirInode.iBlock 0)) 0 last es)
    (hCount : maxSubdirs < es.length) :
    ext2AddDirEntry dirInode inodeNum name s =
      some (1, s) := by
  rw [ext2AddDirEntry, if_pos hDir, Inode.directBlocks_eq,
    addInBlocks, if_neg hFirst]
  simp only [readLocal_of_steady hSteady,
    addInBlock_of_many h hCount, Option.bind_eq_bind,
    Option.bind_some]

/-
  A well-formed directory refuses an entry exactly when it
  has no first block or too many records in it.
-/
theorem refusesEntry_iff_overfull
    (hSteady : s.Steady)
    (hDir : dirInode.isDir)
    (hRecs : TiledBlocks s.disk dirInode.directBlocks recs) :
    RefusesEntry dirInode inodeNum name s ↔
      Overfull recs := by
  rcases hRecs.first_cases with
    ⟨hNone, rfl⟩ | ⟨hFirst, last, es, rest, rfl, hTiled⟩
  · refine iff_of_true ⟨⟨1, s, ?_, by decide, rfl⟩, ?_⟩ ?_
    · exact ext2AddDirEntry_of_no_block hDir hNone
    · intro hSome
      exact absurd hNone hSome
    · intro es hEs
      cases hEs
  · have hHead : Overfull (es :: rest) ↔
        maxSubdirs < es.length := by
      simp [Overfull]
    rw [hHead]
    constructor
    · rintro ⟨⟨err, t, hAdd, hErr, -⟩, -⟩
      apply Nat.not_le.mp
      intro hCount
      rw [ext2AddDirEntry_of_tiled hSteady hDir hFirst hTiled
        hCount] at hAdd
      rcases Option.map_eq_some_iff.mp hAdd with
        ⟨content, -, hEq⟩
      cases hEq
      exact hErr rfl
    · intro hCount
      refine ⟨⟨1, s, ?_, by decide, rfl⟩, ?_⟩
      · exact ext2AddDirEntry_of_many hSteady hDir hFirst
          hTiled hCount
      · intro _ last' hSplit
        have hLe := hTiled.length_le_of_splitPoint hSplit
        omega

/-
  A well-formed directory refuses the entries it has no room
  for exactly when it has room, or no first block, or more
  records in its first block than a walk has slots.
-/
theorem full_refused_iff
    (hSteady : s.Steady)
    (hDir : dirInode.isDir)
    (hRecs : TiledBlocks s.disk dirInode.directBlocks recs)
    (inodeNum : UInt32)
    (name : List UInt8) :
    (NoRoom dirInode (cString name).length s →
      RefusesEntry dirInode inodeNum name s) ↔
      ¬ NoRoom dirInode (cString name).length s ∨
        Overfull recs := by
  have hExact : RefusesEntry dirInode inodeNum name s ↔
      Overfull recs :=
    refusesEntry_iff_overfull hSteady hDir hRecs
  rw [hExact]
  exact imp_iff_not_or

end

------------------------------------------------------------
-- Crowded and Packed Directories
------------------------------------------------------------

/- A directory of one block with the given content. -/
def oneBlockSample
    (content : Block) : Fs :=
  sampleFs (fun n => if n = 2 then sampleDir 5 else Inode.zero)
    fun b => if b = 5 then content
      else .fill logicalBlockSize 0

theorem oneBlockSample_steady
    (content : Block) :
    (oneBlockSample content).Steady :=
  ⟨rfl, congrArg Layout.blockSize (sampleFs_layout _ _)⟩

/- Reading the block yields the records of the directory. -/
theorem oneBlockSample_tiledBlocks
    {content : Block}
    {fuel last count : Nat}
    (hRead : (readTiling content fuel 0).map
      (fun r => (r.1, r.2.length)) = some (last, count)) :
    ∃ es, es.length = count ∧ Tiled content 0 last es ∧
      TiledBlocks (oneBlockSample content).disk
        (sampleDir 5).directBlocks [es] := by
  rcases Option.map_eq_some_iff.mp hRead with
    ⟨⟨last', es⟩, hWalk, hEq⟩
  cases hEq
  have hTiled := tiled_of_readTiling hWalk
  exact ⟨es, rfl, hTiled, .block (by decide) hTiled .stop⟩

theorem oneBlockSample_noRoom
    {content : Block}
    {fuel len : Nat}
    (hCheck : checkCramped content (roundFour (8 + len)) fuel
      0 = true) :
    NoRoom (sampleDir 5) len (oneBlockSample content) := by
  intro _
  exact ⟨cramped_of_check hCheck, fun h => absurd rfl h⟩

/- A block of 341 records with names of two letters. -/
def crowdedBlock : Block :=
  .ofFn logicalBlockSize fun i =>
    let k := min (i / 12) 340
    match i - 12 * k with
    | 0 => 12
    | 4 => if k = 340 then 16 else 12
    | 6 => 2
    | 7 => 1
    | 8 => UInt8.ofNat (97 + k % 26)
    | 9 => UInt8.ofNat (97 + k / 26)
    | _ => 0

/- No room for `x`, and the walk runs out of slots. -/
theorem full_refused_sample :
    NoRoom (sampleDir 5) 1 (oneBlockSample crowdedBlock) ∧
      RefusesEntry (sampleDir 5) 13 [120, 0]
        (oneBlockSample crowdedBlock) := by
  have hCheck : checkCramped crowdedBlock (roundFour (8 + 1))
      341 0 = true := by
    decide +kernel
  have hRead : (readTiling crowdedBlock 341 0).map
      (fun r => (r.1, r.2.length)) = some (4080, 341) := by
    decide +kernel
  have hNone := oneBlockSample_noRoom hCheck
  rcases oneBlockSample_tiledBlocks hRead with
    ⟨es, hLen, -, hRecs⟩
  refine ⟨hNone, (full_refused_iff (oneBlockSample_steady _)
    (by decide) hRecs 13 [120, 0]).mpr (.inr ?_) hNone⟩
  intro es' hEs
  cases hEs
  rw [hLen]
  decide

/-
  A block of `.`, `..`, fifteen names of 255 letters and one
  of 104 letters, without a free byte.
-/
def packedBlock : Block :=
  .ofFn logicalBlockSize fun i =>
    if i < 24 then rootEntries.getD i 0
    else
      let k := (i - 24) / 264
      match (i - 24) % 264 with
      | 0 => 12
      | 4 => if k < 15 then 8 else 112
      | 5 => if k < 15 then 1 else 0
      | 6 => if k < 15 then 255 else 104
      | 7 => 1
      | 8 => UInt8.ofNat (97 + k)
      | j => if j < 8 then 0 else 97

/-
  Adding `x` to the packed directory: the last record, of 112
  bytes at 3984, is to be shrunk to 3996 bytes, and the new
  header goes to byte 7980 of the buffer.
-/
theorem ext2AddDirEntry_overruns :
    (∃ es, TiledBlocks (oneBlockSample packedBlock).disk
      (sampleDir 5).directBlocks [es] ∧ es.length = 18) ∧
    NoRoom (sampleDir 5) 1 (oneBlockSample packedBlock) ∧
    ext2AddDirEntry (sampleDir 5) 13 [120, 0]
      (oneBlockSample packedBlock) = none ∧
    splitSize 3984 1 = 3996 ∧
    (entryAt packedBlock 3984).dirEntrySize = 112 ∧
    ¬ (NoRoom (sampleDir 5) 1 (oneBlockSample packedBlock) →
      RefusesEntry (sampleDir 5) 13 [120, 0]
        (oneBlockSample packedBlock)) := by
  have hCheck : checkCramped packedBlock (roundFour (8 + 1))
      18 0 = true := by
    decide +kernel
  have hRead : (readTiling packedBlock 18 0).map
      (fun r => (r.1, r.2.length)) = some (3984, 18) := by
    decide +kernel
  have hNone := oneBlockSample_noRoom hCheck
  rcases oneBlockSample_tiledBlocks hRead with
    ⟨es, hLen, hTiled, hRecs⟩
  have hSplit : ext2AddDirEntry (sampleDir 5) 13 [120, 0]
      (oneBlockSample packedBlock) = none := by
    have hAdd : ext2AddDirEntry (sampleDir 5) 13 [120, 0]
        (oneBlockSample packedBlock) = _ :=
      ext2AddDirEntry_of_tiled
        (oneBlockSample_steady packedBlock) (by decide)
        (by decide) hTiled (by rw [hLen]; decide)
    rw [hAdd]
    have hFits : splitLast packedBlock 3984 13 [120, 0] =
        none := by
      apply Option.eq_none_iff_forall_ne_some.mpr
      intro content hContent
      have hIn := ((splitLast_eq_some_iff (by decide)
        (show strlen [120, 0] = some 1 from rfl)).mp
          hContent).1
      exact absurd hIn (by decide)
    exact congrArg (Option.map _) hFits
  refine ⟨⟨es, hRecs, hLen⟩, hNone, hSplit, by decide,
    by decide +kernel, ?_⟩
  intro hRefuses
  rcases (hRefuses hNone).refused with ⟨err, t, hAdd, -, -⟩
  rw [hSplit] at hAdd
  cases hAdd

end Ext2

end Ester
