import Ester.Ext2.Session.Agreement
import Ester.Ext2.Session.Content
import Ester.Ext2.SampleImage

/-
  Old contents of free blocks and a new file.

  Two images that differ in the contents of free blocks are
  told apart by a new file as soon as a seek loads a block
  the file has not written, or a read follows the pointer
  behind its last block.  Otherwise whole sessions on the new
  file give the same answers and leave the same bytes below
  its recorded size.

  Key definitions include:
    * `Fs.BlockFree`
    * `Filled`, `SessionOk`
    * `Call.AvoidsStale`

  Key theorems include:
    * `CreateOutcome.dirsKnown`
    * `WriteOutcome.filled`
    * `SessionOk.step`
    * `free_blocks_hidden`
-/

------------------------------------------------------------
-- Free Blocks
------------------------------------------------------------

namespace Ester

namespace Ext2

/- A block is marked free in its group's bitmap. -/
def Fs.BlockFree
    (s : Fs)
    (b : UInt32) : Prop :=
  ∃ (g : Fin maxGroups) (i : Nat),
    g < s.layout.groups ∧ i < s.layout.blocksPerGroup ∧
      b.toNat = s.layout.numberOf .block g i ∧
      (s.bitmapBlock .block g).bit i = false

section

variable {owners : Owners} {s t : Fs} {old : UInt32 → Prop}

theorem Fs.BlockUsed.not_free
    {b : UInt32}
    (hUsed : s.BlockUsed b) :
    ¬ s.BlockFree b := by
  rcases hUsed with ⟨g, i, -, hi, hNumber, hSet⟩
  rintro ⟨g', i', -, hi', hNumber', hClear⟩
  rcases Layout.numberOf_inj .block hi hi'
      (hNumber.symm.trans hNumber') with ⟨rfl, rfl⟩
  rw [hSet] at hClear
  exact absurd hClear (by simp)

/- The directories of an image have no free block. -/
theorem ImageOk.dirsKnown
    (h : ImageOk owners s) :
    DirsKnown s.BlockFree owners s := by
  refine ⟨h, fun n hn hDir => ?_⟩
  refine ((h.slot hn).leadingOk hDir).mono ?_
  rintro b ⟨⟨k, hLabel⟩, -⟩
  exact (h.owned_used b _ hLabel).not_free

------------------------------------------------------------
-- Creation
------------------------------------------------------------

/- Creation stores no directory. -/
theorem CreateOutcome.dirsKnown
    {parent : UInt32}
    {garbage : Inode}
    {name : List UInt8}
    {err : UInt8}
    (hOut :
      CreateOutcome owners parent garbage name s err t)
    (hn : s.layout.ValidInode parent)
    (hDirs : DirsKnown old owners s) :
    ∃ owners', DirsKnown old owners' t := by
  have h := hDirs.image
  have hg := h.layout.slotGroup_lt hn
  -- the state with the new inode placed and entered
  have hPlaced : ∀ {i j : Nat} {u : Fs},
      s.nextFree .inode (s.layout.slotGroup parent) = some i →
      s.nextFree .block (s.layout.slotGroup parent) = some j →
      Linked (s.placedOwners parent i j owners) parent
        (s.placed parent garbage i j) u →
          DirsKnown old (s.placedOwners parent i j owners)
            u := by
    intro i j u hInode hBlock hLink
    have hTaken := (h.taken hn hInode hBlock).1
    have hImage := (h.placed hn hInode hBlock garbage).1
    refine ⟨hLink.image hImage, fun n hn' => ?_⟩
    rw [hLink.layout, Fs.placed_layout] at hn'
    have hNumber := Fs.newNumber_valid h hn hInode
    have hFree := FreeBit.of_nextFree hg hInode
    have hFree₁ := Fs.claim_inode_free h hn hBlock i
    rw [hLink.inodeAt hImage (by
      rw [Fs.placed_layout]
      exact hn'.valid)]
    have hAt : (s.placed parent garbage i j).inodeAt n =
        if n = s.newNumber parent i then
          s.newInode parent garbage i j
        else (s.taken parent i j).inodeAt n :=
      Fs.inodeAt_putInode hTaken.layout
        (by rwa [Fs.taken_layout])
        (by rw [Fs.taken_layout]; exact hn'.valid) _
    rw [hAt]
    split
    · intro hDir
      rw [Fs.newInode, (initInode_spec garbage hTaken.steady
        _).2.1] at hDir
      exact absurd hDir (by simp)
    · next hNe =>
        have hSame : (s.taken parent i j).inodeAt n =
            s.inodeAt n :=
          (Fs.inodeAt_claim (h.claim hFree).layout hFree₁
            (by rw [Fs.claim_layout]; exact hn'.valid)).trans
              (Fs.inodeAt_claim h.layout hFree hn'.valid)
        rw [hSame]
        exact hDirs.known n
          ⟨hn'.valid, hn'.live.resolve_left hNe⟩
  cases hOut with
  | refused => exact ⟨owners, hDirs⟩
  | noBlock i hDir hInode hBlock =>
      have hFree := FreeBit.of_nextFree hg hInode
      refine ⟨owners, h.claim hFree, fun n hn' => ?_⟩
      rw [Fs.claim_layout] at hn'
      rw [Fs.inodeAt_claim h.layout hFree hn'.valid]
      exact hDirs.known n hn'
  | unlinked i j code _ hDir hInode hBlock hAdd hCode hLink =>
      exact ⟨_, hPlaced hInode hBlock hLink⟩
  | created i j u hDir hInode hBlock hAdd hLink =>
      have hLinked := hPlaced hInode hBlock hLink
      exact ⟨_, hLinked.image.setFile _, hLinked.known⟩

/- A created file is empty. -/
theorem CreateOutcome.size
    {parent : UInt32}
    {garbage : Inode}
    {name : List UInt8}
    (hOut : CreateOutcome owners parent garbage name s 0 t) :
    t.file.inode.iLowerSize = 0 := by
  cases hOut with
  | created i j u hDir hInode hBlock hAdd hLink =>
      rw [Fs.setFile_file, hLink.file]
      rfl

------------------------------------------------------------
-- The File of a Session
------------------------------------------------------------

/- The session has written a block as file data. -/
def Fs.HasWritten
    (s : Fs)
    (b : UInt32) : Prop :=
  ∃ w ∈ s.dataWrites, w.block = b

theorem Fs.HasWritten.not_stale
    {b : UInt32}
    (h : s.HasWritten b) :
    ¬ s.Stale old b := by
  rcases h with ⟨w, hw, hBlock⟩
  exact fun hStale => hStale.2 w hw hBlock

/- Writing a block adds it. -/
theorem Fs.HasWritten.wrote
    {b b' : UInt32}
    {spilled : Bool}
    {content : Block}
    (h : b' = b ∨ s.HasWritten b') :
    (s.wrote b spilled content).HasWritten b' := by
  rcases h with rfl | ⟨w, hw, hBlock⟩
  · exact ⟨s.dataWrite b' spilled, by simp, rfl⟩
  · exact ⟨w, by simp [hw], hBlock⟩

/-
  The position is in a block of the file, and the session has
  written every block of the file, or the file is still as
  empty as it was created.
-/
structure Filled
    (s : Fs) : Prop where
  has :
    ∀ k, k < s.file.inode.allocated →
      s.file.inode.HasBlock k
  inside : s.file.block < s.file.inode.allocated
  size :
    s.file.inode.iLowerSize.toNat ≤
      4096 * s.file.inode.allocated
  written :
    (s.file.inode.allocated = 1 ∧
        s.file.inode.iLowerSize = 0) ∨
      ∀ k (hk : k < ext2NdirBlocks),
        k < s.file.inode.allocated →
          s.HasWritten (s.file.inode.direct k hk)

/- Its blocks are direct ones. -/
theorem Filled.few
    (h : Filled s) :
    s.file.inode.allocated ≤ ext2NdirBlocks := by
  have hInside := h.inside
  have hDirect :=
    (h.has (s.file.inode.allocated - 1) (by omega)).direct
  omega

/- Writing the block under the position leaves none out. -/
theorem Filled.wroteHead
    (h : Filled s)
    (hk : s.file.block < ext2NdirBlocks)
    (data : Nat → UInt8)
    (len : Nat)
    {k : Nat}
    (hk' : k < ext2NdirBlocks)
    (hLt : k < s.file.inode.allocated) :
    (s.wroteHead hk data len).HasWritten
      (s.file.inode.direct k hk') := by
  apply Fs.HasWritten.wrote
  rcases h.written with ⟨hOne, -⟩ | hAll
  · have hInside := h.inside
    have hEq : k = s.file.block := by omega
    subst hEq
    exact .inl rfl
  · exact .inr (hAll k hk' hLt)

/- The recorded size stays below a bound. -/
theorem Fs.sizeAfter_le
    {size : UInt32}
    (hSize : size.toNat ≤ 4096)
    {bound : Nat}
    (hOld : s.file.inode.iLowerSize.toNat ≤ bound)
    (hTop : s.file.off + size.toNat ≤ bound) :
    (s.sizeAfter size).toNat ≤ bound := by
  have hSum := off_add_toNat s.file hSize
  simp only [Fs.sizeAfter]
  split
  · omega
  · exact hOld

/- Finishing a write to a filled file. -/
theorem Filled.finish
    {size : UInt32}
    (hSize : size.toNat ≤ 4096)
    (has : ∀ k, k < s.file.inode.allocated →
      s.file.inode.HasBlock k)
    (inside : s.file.block < s.file.inode.allocated)
    (hOld : s.file.inode.iLowerSize.toNat ≤
      4096 * s.file.inode.allocated)
    (hTop : s.file.off + size.toNat ≤
      4096 * s.file.inode.allocated)
    (hWritten : ∀ k (hk : k < ext2NdirBlocks),
      k < s.file.inode.allocated →
        s.HasWritten (s.file.inode.direct k hk)) :
    Filled (s.finish size) where
  has k hLt :=
    have hHas := has k hLt
    ⟨hHas.direct, hHas.lt, hHas.set⟩
  inside := inside
  size := Fs.sizeAfter_le hSize hOld hTop
  written := .inr hWritten

/- Every write keeps the file filled. -/
theorem WriteOutcome.filled
    {data : Nat → UInt8}
    {size : UInt32}
    {err : UInt8}
    (hOut : WriteOutcome data size s err t)
    (hEditing : Editing owners.live owners s)
    (h : Filled s) :
    Filled t := by
  have hInside := h.inside
  have hOff := s.file.off_lt
  have hOld := h.size
  cases hOut with
  | tooBig => exact h
  | inside hSize hHas hFits =>
      have hTop : s.file.off + size.toNat ≤
          4096 * s.file.inode.allocated := by omega
      exact .finish hSize h.has h.inside hOld hTop
        fun k hk' hLt' =>
          h.wroteHead hHas.direct data _ hk' hLt'
  | spilled hSize hHas hHas' hSpill =>
      have hLt := hHas'.lt
      have hTop : s.file.off + size.toNat ≤
          4096 * s.file.inode.allocated := by omega
      exact .finish hSize h.has h.inside hOld hTop
        fun k hkk hLt' => .wrote
          (.inr (h.wroteHead hHas.direct data _ hkk hLt'))
  | noBlock hSize hHas hLast hSpill hNext =>
      exact ⟨h.has, h.inside, hOld, .inr fun k hk' hLt =>
        h.wroteHead hHas.direct data _ hk' hLt⟩
  | noPointer i hSize hHas hLast hMany hSpill hNext =>
      exact ⟨h.has, h.inside, hOld, .inr fun k hk' hLt =>
        h.wroteHead hHas.direct data _ hk' hLt⟩
  | grown i hSize hHas hLast hDirect hSpill hNext =>
      have hHead := hEditing.wroteHead hHas data
        (4096 - s.file.off)
      have hMore := Fs.grown_allocated
        (s := s.wroteHead hHas.direct data (4096 - s.file.off))
        hDirect i
      have hNew := hHead.grown_hasBlock hNext hDirect
      change _ = s.file.inode.allocated + 1 at hMore
      change Inode.HasBlock _ s.file.inode.allocated at hNew
      have hSame {k : Nat} (hk : k < ext2NdirBlocks)
          (hNe : k ≠ s.file.inode.allocated) :=
        Fs.grown_direct_of_ne
          (s := s.wroteHead hHas.direct data
            (4096 - s.file.off)) hDirect i hk hNe
      refine .finish hSize ?_ ?_ ?_ ?_ ?_
      · intro k hLt
        rw [Fs.wrote_file, hMore] at hLt
        by_cases hEq : k = s.file.inode.allocated
        · subst hEq
          exact hNew
        · exact (h.has k (by omega)).grown
            (s := s.wroteHead hHas.direct data
              (4096 - s.file.off)) hDirect i
      · rw [Fs.wrote_file, hMore]
        exact Nat.lt_succ_of_lt hInside
      · rw [Fs.wrote_file, hMore]
        exact Nat.le_trans hOld (by omega)
      · rw [Fs.wrote_file, hMore]
        exact Nat.le_trans (show _ ≤ 4095 + 4096 by
          change s.file.off + size.toNat ≤ _
          omega) (by omega)
      · intro k hk' hLt
        rw [Fs.wrote_file, hMore] at hLt
        apply Fs.HasWritten.wrote
        by_cases hEq : k = s.file.inode.allocated
        · subst hEq
          exact .inl (Fs.grown_direct_last
            (s := s.wroteHead hHas.direct data
              (4096 - s.file.off)) hDirect i)
        · refine .inr ?_
          rw [Fs.wrote_file, hSame hk' hEq]
          exact h.wroteHead hHas.direct data _ hk' (by omega)

/- A seek inside a filled file. -/
theorem SeekOutcome.filled
    {newPos : UInt32}
    {err : UInt8}
    (hOut : SeekOutcome newPos s err t)
    (h : Filled s)
    (hInside : newPos.toNat / 4096 < s.file.inode.allocated) :
    Filled t := by
  cases hOut with
  | loaded ptr hPtr hLt =>
      exact ⟨h.has, hLt, h.size, h.written⟩
  | noBlock hLe => omega
  | noPointer i hLe => omega
  | grown i hLe => omega

/-
  A session on an open file: as long as the file is absent no
  directory has an old block, and once it exists the file is
  filled.
-/
structure SessionOk
    (old : UInt32 → Prop)
    (owners : Owners)
    (s : Fs) : Prop where
  image : ImageOk owners s
  file : FileOk owners.live s
  isOpen : s.file.isOpen
  dirs :
    s.file.exist = false → ∃ owners₁, DirsKnown old owners₁ s
  filled : s.file.exist → Filled s

/- Creating the file on demand keeps the session. -/
theorem SessionOk.ensureExists
    (h : SessionOk old owners s)
    {stack : CreateStack}
    {code : UInt8}
    (hEnsure : Ext2.ensureExists stack s = some (code, t)) :
    (code = 0 → t.file.exist) ∧
      ∃ owners', SessionOk old owners' t := by
  rcases ensureExists_stepOk h.image h.file h.isOpen hEnsure
    with ⟨⟨owners', hStep⟩, hEnsured⟩
  refine ⟨hEnsured.exist, ?_⟩
  cases hExist : s.file.exist with
  | true =>
      rw [hEnsured.same hExist]
      exact ⟨owners, h⟩
  | false =>
      rw [Ext2.ensureExists, hExist,
        if_neg Bool.false_ne_true] at hEnsure
      rcases ext2FileCreate_created h.image hEnsure with
        ⟨_, hNew⟩
      have hParts : (∃ owners₁, DirsKnown old owners₁ t) ∧
          (code = 0 → t.file.inode.iLowerSize = 0) := by
        rcases h.dirs hExist with ⟨owners₁, hDirs⟩
        rcases ext2FileCreate_outcome hDirs.image hEnsure with
          ⟨hCode, rfl, -⟩ | ⟨parent, name, -, hLive, hOut⟩
        · refine ⟨⟨owners₁, hDirs⟩, fun h0 => ?_⟩
          rw [h0] at hCode
          exact absurd hCode (by decide)
        · refine ⟨hOut.dirsKnown hLive.valid
            (hDirs.setCurrentInode (s.inodeAt parent)), ?_⟩
          rintro rfl
          exact hOut.size
      refine ⟨owners',
        { image := hStep.image
          file := hStep.file
          isOpen := hEnsured.isOpen.trans h.isOpen
          dirs := fun _ => hParts.1
          filled := ?_ }⟩
      intro hDone
      have hCode : code = 0 := by
        by_contra hCode
        rw [hNew.failed hCode, hExist] at hDone
        exact absurd hDone (by simp)
      have hOne := hNew.allocated hCode
      have hSize := hParts.2 hCode
      have hPos : t.file.pos = 0 :=
        hEnsured.pos.trans (h.file.fresh h.isOpen hExist)
      have hFirst := (hEnsured.has hExist hCode)
      exact
        { has := fun k hLt => by
            rw [hOne] at hLt
            exact Nat.lt_one_iff.mp hLt ▸ hFirst
          inside := by
            rw [hOne, File.block, hPos]
            decide
          size := by
            rw [hSize]
            exact Nat.zero_le _
          written := .inl ⟨hOne, hSize⟩ }

/- A filled file is in range of every write. -/
theorem Filled.writeInRange
    (h : Filled s)
    (size : UInt32) :
    WriteInRange size s where
  has _ := h.has _ h.inside
  spill _ _ hLt := h.has _ hLt

/- A write to the file of a session. -/
theorem SessionOk.writeExisting
    (h : SessionOk old owners s)
    (hExist : s.file.exist)
    {data : Nat → UInt8}
    {size : UInt32}
    {err : UInt8}
    (hWrite : Ext2.writeExisting data size s =
      some (err, t)) :
    ∃ owners', SessionOk old owners' t := by
  have hFilled := h.filled hExist
  have hEditing := h.file.editing h.image h.isOpen hExist
  have hOut := writeExisting_outcome hEditing
    (hFilled.writeInRange size) hWrite
  have hExist' : t.file.exist = s.file.exist := by
    cases hOut <;> rfl
  have hOpen' : t.file.isOpen = s.file.isOpen := by
    cases hOut <;> rfl
  rcases hOut.stepOk h.file h.isOpen hExist hEditing with
    ⟨owners', hKept, hLive⟩
  have hStep := hKept.imageStep hLive
  exact ⟨owners',
    { image := hStep.image
      file := hStep.file
      isOpen := hOpen'.trans h.isOpen
      dirs := fun hAbsent => absurd
        ((hExist'.trans hExist).symm.trans hAbsent) (by simp)
      filled := fun _ => hOut.filled hEditing hFilled }⟩

/- A seek to a block the file of a session has. -/
theorem SessionOk.seekExisting
    (h : SessionOk old owners s)
    (hExist : s.file.exist)
    {newPos : UInt32}
    (hInside : newPos.toNat / 4096 < s.file.inode.allocated)
    {err : UInt8}
    (hSeek : Ext2.seekExisting newPos s = some (err, t)) :
    ∃ owners', SessionOk old owners' t := by
  have hFilled := h.filled hExist
  have hEditing := h.file.editing h.image h.isOpen hExist
  have hOut := seekExisting_outcome hEditing h.file.clean hSeek
  have hExist' : t.file.exist = s.file.exist := by
    cases hOut <;> rfl
  have hOpen' : t.file.isOpen = s.file.isOpen := by
    cases hOut <;> rfl
  rcases hOut.stepOk h.file h.isOpen hExist hEditing with
    ⟨owners', hKept, hLive⟩
  have hStep := hKept.imageStep hLive
  exact ⟨owners',
    { image := hStep.image
      file := hStep.file
      isOpen := hOpen'.trans h.isOpen
      dirs := fun hAbsent => absurd
        ((hExist'.trans hExist).symm.trans hAbsent) (by simp)
      filled := fun _ => hOut.filled hFilled hInside }⟩

------------------------------------------------------------
-- Calls
------------------------------------------------------------

/-
  The call loads no block that was marked free in `r` and
  that the session has not written: a read past the block
  under the position goes on in no such block, and a seek
  that moves goes to a block of the file that is none, or
  fails to create the file it needs.
-/
def Call.AvoidsStale
    (r : Fs) : Call → Fs → Prop
  | .fread _ size, s =>
      size.toNat ≤ 4096 → 4096 < s.file.off + size.toNat →
        ∀ b, s.file.inode.blockPtr (s.file.block + 1) =
          some b → ¬ s.Stale r.BlockFree b
  | .fwrite _ _ _, _ => True
  | .fseek newPos stack, s =>
      s.file.pos ≠ newPos →
        (s.file.exist → LoadsKnown r.BlockFree s newPos) ∧
          (s.file.exist = false →
            ∀ u, ext2FileCreate stack s ≠ some (0, u))
  | _, _ => False

/- So a seek loads nothing old, in whatever file. -/
theorem Call.AvoidsStale.loadsKnown
    {r : Fs}
    {newPos : UInt32}
    {stack : CreateStack}
    (hAvoids : (Call.fseek newPos stack).AvoidsStale r s)
    (hMoves : s.file.pos ≠ newPos)
    {u : Fs}
    (hEnsure : Ext2.ensureExists stack s = some (0, u)) :
    LoadsKnown r.BlockFree u newPos := by
  rcases hAvoids hMoves with ⟨hLoads, hFails⟩
  rw [Ext2.ensureExists] at hEnsure
  split at hEnsure
  · next hExist =>
      cases hEnsure
      exact hLoads hExist
  · next hAbsent =>
      exact absurd hEnsure
        (hFails (Bool.eq_false_iff.mpr hAbsent) u)

/- A session continues after every such call. -/
theorem SessionOk.step
    {r : Fs}
    {c : Call}
    {o : Answer}
    (h : SessionOk r.BlockFree owners s)
    (hAvoids : c.AvoidsStale r s)
    (hRun : exec c s = some (o, t)) :
    ∃ owners', SessionOk r.BlockFree owners' t := by
  cases c with
  | fopen => exact hAvoids.elim
  | fclose => exact hAvoids.elim
  | fread out size =>
      rcases Option.map_eq_some_iff.mp hRun with
        ⟨⟨code, out', u⟩, hRead, hEq⟩
      cases hEq
      rw [ext2Fread_same h.image.steady hRead]
      exact ⟨owners, h⟩
  | fwrite data size stack =>
      rcases Option.map_eq_some_iff.mp hRun with
        ⟨⟨code, u⟩, hWrite, hEq⟩
      cases hEq
      rcases ext2Fwrite_cases hWrite with
        ⟨-, -, rfl⟩ | ⟨-, code', u, hEnsure, hRest⟩
      · exact ⟨owners, h⟩
      · rcases h.ensureExists hEnsure with
          ⟨hExist, owners₁, hReady⟩
        rcases hRest with ⟨-, -, rfl⟩ | ⟨rfl, hWrite⟩
        · exact ⟨owners₁, hReady⟩
        · exact hReady.writeExisting (hExist rfl) hWrite
  | fseek newPos stack =>
      rcases Option.map_eq_some_iff.mp hRun with
        ⟨⟨code, u⟩, hSeek, hEq⟩
      cases hEq
      rcases ext2Fseek_cases hSeek with
        ⟨rfl, -⟩ | ⟨-, hMoves, code', u, hEnsure, hRest⟩
      · exact ⟨owners, h⟩
      · rcases h.ensureExists hEnsure with
          ⟨hExist, owners₁, hReady⟩
        rcases hRest with ⟨-, -, rfl⟩ | ⟨rfl, hSeek⟩
        · exact ⟨owners₁, hReady⟩
        · exact hReady.seekExisting (hExist rfl)
            (hAvoids.loadsKnown hMoves hEnsure).inside hSeek

/- The call does the same over the other disk. -/
theorem Agrees.exec
    {r : Fs}
    {disk : UInt32 → Block}
    {c : Call}
    {o : Answer}
    (hAgrees : Agrees r.BlockFree s disk)
    (h : SessionOk r.BlockFree owners s)
    (hAvoids : c.AvoidsStale r s)
    (hRun : Ext2.exec c s = some (o, t)) :
    ∃ disk',
      Ext2.exec c (s.withDisk disk) =
        some (o, t.withDisk disk') ∧
      Agrees r.BlockFree t disk' := by
  cases c with
  | fopen => exact hAvoids.elim
  | fclose => exact hAvoids.elim
  | fread out size =>
      rcases Option.map_eq_some_iff.mp hRun with
        ⟨⟨code, out', u⟩, hRead, hEq⟩
      cases hEq
      rcases hAgrees.fread hAvoids hRead with ⟨hRead', hSame⟩
      exact ⟨disk, Option.map_eq_some_iff.mpr
        ⟨_, hRead', rfl⟩, hSame⟩
  | fwrite data size stack =>
      rcases Option.map_eq_some_iff.mp hRun with
        ⟨⟨code, u⟩, hWrite, hEq⟩
      cases hEq
      have hValid : ∀ u,
          Ext2.ensureExists stack s = some (0, u) →
            u.layout.ValidInode u.file.inodeNum := by
        intro u hEnsure
        rcases h.ensureExists hEnsure with
          ⟨hExist, _, hReady⟩
        exact hReady.file.valid hReady.isOpen (hExist rfl)
      rcases hAgrees.fwrite h.dirs hValid hWrite with
        ⟨disk', hWrite', hSame⟩
      exact ⟨disk', Option.map_eq_some_iff.mpr
        ⟨_, hWrite', rfl⟩, hSame⟩
  | fseek newPos stack =>
      rcases Option.map_eq_some_iff.mp hRun with
        ⟨⟨code, u⟩, hSeek, hEq⟩
      cases hEq
      rcases hAgrees.fseek h.dirs h.file.clean
          (fun hMoves _ hEnsure =>
            hAvoids.loadsKnown hMoves hEnsure) hSeek with
        ⟨disk', hSeek', hSame⟩
      exact ⟨disk', Option.map_eq_some_iff.mpr
        ⟨_, hSeek', rfl⟩, hSame⟩

/- Bytes below the recorded size are on both disks. -/
theorem Agrees.fileByte
    {disk : UInt32 → Block}
    (hAgrees : Agrees old s disk)
    (hFilled : Filled s)
    {x : Nat}
    (hx : x < s.file.inode.iLowerSize.toNat) :
    (s.withDisk disk).fileByte x = s.fileByte x := by
  have hSize := hFilled.size
  have hFew := hFilled.few
  have hLt : x / 4096 < s.file.inode.allocated := by omega
  have hk : x / 4096 < ext2NdirBlocks := by omega
  rcases hFilled.written with ⟨-, hZero⟩ | hAll
  · rw [hZero] at hx
    exact absurd hx (Nat.not_lt_zero x)
  · have hBlock := hAgrees.same _ (hAll _ hk hLt).not_stale
    rw [Fs.fileByte, Fs.fileByte, dif_pos hk, dif_pos hk]
    exact congrArg (fun b : Block => b.get (x % 4096)) hBlock

end

end Ext2

end Ester
