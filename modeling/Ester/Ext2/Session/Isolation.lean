import Ester.Ext2.SampleImage
import Ester.Ext2.Session.Calls
import Ester.Ext2.Session.NewEntry

/-
  What a call leaves of the files that are not open.

  Every step of the file interface writes a block the open
  file owns, the slot of its inode, bitmaps and counters, or,
  when it creates a file, the slot of a number that was not
  in use and a block of a directory.  So the inodes and the
  blocks of all other regular files in use survive every
  run, whichever of its calls fail.

  Key definitions include:
    * `Spares`
    * `Fs.HasOpen`, `Unchanged`

  Key theorems include:
    * `WriteOutcome.spares`
    * `SeekOutcome.spares`
    * `CreateOutcome.spares`
    * `exec_sparesFiles`
    * `other_files_survive`
-/

------------------------------------------------------------
-- Files Left Alone
------------------------------------------------------------

namespace Ester

namespace Ext2

/-
  Every number in use stays so and becomes no directory, and
  the inodes of a kind, `num` excepted, are kept with the
  blocks they own.
-/
structure Spares
    (kept : Inode → Prop)
    (owners : Owners)
    (num : UInt32)
    (s t : Fs) : Prop where
  layout : t.layout = s.layout
  used : ∀ n, s.InodeUsed n → t.InodeUsed n
  leaf :
    ∀ n, s.InodeUsed n → (s.inodeAt n).isDir = false →
      (t.inodeAt n).isDir = false
  inode :
    ∀ n, s.InodeUsed n → kept (s.inodeAt n) → n ≠ num →
      t.inodeAt n = s.inodeAt n
  blocks :
    ∀ n, s.InodeUsed n → kept (s.inodeAt n) → n ≠ num →
      ∀ b k, owners b = some (.data n k) →
        t.disk b = s.disk b

/- The regular files are kept. -/
abbrev SparesFiles : Owners → UInt32 → Fs → Fs → Prop :=
  Spares fun inode => inode.isFile

/- Regular files and directories are kept. -/
abbrev SparesAll : Owners → UInt32 → Fs → Fs → Prop :=
  Spares fun _ => True

section

variable {kept : Inode → Prop} {inodes : UInt32 → Prop}
variable {owners owners₁ : Owners} {num : UInt32}
variable {s u t : Fs}

/- Only what is on the disk matters. -/
theorem Spares.of_disk
    (hDisk : t.disk = s.disk)
    (hLayout : t.layout = s.layout) :
    Spares kept owners num s t where
  layout := hLayout
  used n hn := by
    refine (Fs.inodeUsed_congr hLayout ?_ n).mpr hn
    intro g _
    rw [Fs.bitmapBlock, Fs.bitmapBlock, hLayout, hDisk]
  leaf n _ hLeaf := by
    rw [Fs.inodeAt, hLayout, hDisk]
    exact hLeaf
  inode n _ _ _ := by
    rw [Fs.inodeAt, Fs.inodeAt, hLayout, hDisk]
  blocks n _ _ _ b k _ := by rw [hDisk]

/- The second step may change a file the first one made. -/
theorem Spares.trans_new
    {m : UInt32}
    (h₁ : Spares kept owners num s u)
    (hLabels : Extends owners owners₁)
    (h₂ : Spares kept owners₁ m u t)
    (hNew : m = num ∨ ¬ s.InodeUsed m) :
    Spares kept owners num s t := by
  have hOther {n : UInt32} (hn : s.InodeUsed n)
      (hNe : n ≠ num) : n ≠ m := by
    rintro rfl
    rcases hNew with hEq | hNot
    · exact hNe hEq
    · exact hNot hn
  exact
    { layout := h₂.layout.trans h₁.layout
      used := fun n hn => h₂.used n (h₁.used n hn)
      leaf := fun n hn hLeaf =>
        h₂.leaf n (h₁.used n hn) (h₁.leaf n hn hLeaf)
      inode := fun n hn hFile hNe => by
        have hSame := h₁.inode n hn hFile hNe
        exact (h₂.inode n (h₁.used n hn) (hSame ▸ hFile)
          (hOther hn hNe)).trans hSame
      blocks := fun n hn hFile hNe b k hb => by
        have hSame := h₁.inode n hn hFile hNe
        exact (h₂.blocks n (h₁.used n hn) (hSame ▸ hFile)
          (hOther hn hNe) b k (hLabels.label _ _ hb)).trans
            (h₁.blocks n hn hFile hNe b k hb) }

theorem Spares.trans
    (h₁ : Spares kept owners num s u)
    (hLabels : Extends owners owners₁)
    (h₂ : Spares kept owners₁ num u t) :
    Spares kept owners num s t :=
  h₁.trans_new hLabels h₂ (.inl rfl)

------------------------------------------------------------
-- Single Changes
------------------------------------------------------------

/- Claiming a bit changes bitmaps and counters only. -/
theorem ImageOkFor.claim_spares
    (h : ImageOkFor inodes owners s)
    {r : Resource}
    {g : Fin maxGroups}
    {i : Nat}
    (hFree : FreeBit s r g i) :
    Spares kept owners num s (s.claim r g i) where
  layout := Fs.claim_layout _ _ _ _
  used n hn := by
    cases r with
    | inode =>
        exact (hFree.inodeUsed_claim h.layout n).mpr (.inl hn)
    | block =>
        refine (Fs.inodeUsed_congr (Fs.claim_layout _ _ _ _)
          ?_ n).mpr hn
        intro g' hg'
        rw [Fs.bitmapBlock_claim h.layout.toBitmapsOk rfl
          hFree.group_lt hg', if_neg (by simp)]
  leaf n hn hLeaf := by
    rwa [Fs.inodeAt_claim h.layout hFree hn.valid]
  inode n hn _ _ := Fs.inodeAt_claim h.layout hFree hn.valid
  blocks n _ _ _ b k hb :=
    Fs.claim_disk_of_not_meta hFree (h.owned_not_meta b _ hb)

/- Storing a block of one file. -/
theorem Editing.wrote_spares
    (h : Editing inodes owners s)
    {b : UInt32}
    {k : Nat}
    (hb : owners b = some (.data s.file.inodeNum k))
    (spilled : Bool)
    (content : Block) :
    Spares kept owners s.file.inodeNum s
      (s.wrote b spilled content) where
  layout := rfl
  used n hn := by
    refine (Fs.inodeUsed_congr ?_ ?_ n).mpr hn
    · rfl
    · intro g hg
      exact Fs.wrote_bitmapBlock _ _ _ _
        (h.image.ne_bitmap hb .inode hg)
  leaf n hn hLeaf := by
    rwa [Fs.wrote_inodeAt _ _ _ _
      (h.image.ne_slotBlock hb hn.valid)]
  inode n hn _ _ :=
    Fs.wrote_inodeAt _ _ _ _
      (h.image.ne_slotBlock hb hn.valid)
  blocks n _ _ hNe b' k' hb' := by
    apply Fs.wrote_disk_of_ne
    rintro rfl
    rw [hb] at hb'
    cases hb'
    exact hNe rfl

/- The first part of a write. -/
theorem Editing.wroteHead_spares
    (h : Editing inodes owners s)
    (hHas : s.file.inode.HasBlock s.file.block)
    (data : Nat → UInt8)
    (len : Nat) :
    Spares kept owners s.file.inodeNum s
      (s.wroteHead hHas.direct data len) := by
  have hBuff : Spares kept owners s.file.inodeNum s
      (s.setBuff (s.headBuff data len)) := .of_disk rfl rfl
  exact hBuff.trans (.refl owners)
    ((h.setBuff (s.headBuff data len)).wrote_spares
      (h.owns hHas) false _)

/- Storing the inode of the open file. -/
theorem Editing.commit_spares
    (h : Editing inodes owners s)
    (size : UInt32) :
    Spares kept owners s.file.inodeNum s (s.commit size) where
  layout := rfl
  used n hn := by
    refine (Fs.inodeUsed_congr ?_ ?_ n).mpr hn
    · rfl
    · intro g hg
      exact Fs.bitmapBlock_putInode h.image.layout h.valid _ _
        hg
  leaf n hn hLeaf := by
    have hPut := Fs.inodeAt_putInode
      (s := s.setFileInode (s.file.inode.resize size))
      h.image.layout h.valid hn.valid
      (s.file.inode.resize size)
    refine (congrArg Inode.isDir hPut).trans ?_
    split
    · exact h.slot.kind h.isFile
    · exact hLeaf
  inode n hn _ hNe := by
    have hPut := Fs.inodeAt_putInode
      (s := s.setFileInode (s.file.inode.resize size))
      h.image.layout h.valid hn.valid
      (s.file.inode.resize size)
    rw [if_neg hNe] at hPut
    exact hPut
  blocks n _ _ _ b k hb :=
    h.commit_disk size (h.image.owned_not_meta b _ hb)

/- Taking a block for the open file. -/
theorem Editing.grown_spares
    (h : Editing inodes owners s)
    {i : Nat}
    (hNext : s.nextFree .block s.fileGroup = some i) :
    Spares kept owners num s (s.grown i) := by
  have hFree : FreeBit s .block s.fileGroup i :=
    .of_nextFree (h.image.layout.slotGroup_lt h.valid) hNext
  exact (h.image.claim_spares hFree).trans (.refl owners)
    (.of_disk rfl rfl)

------------------------------------------------------------
-- Writes and Seeks
------------------------------------------------------------

variable {err : UInt8}

/- However a write in range ends. -/
theorem WriteOutcome.spares
    {data : Nat → UInt8}
    {size : UInt32}
    (hOut : WriteOutcome data size s err t)
    (h : Editing inodes owners s) :
    Spares kept owners s.file.inodeNum s t := by
  have hSame := Extends.refl owners
  cases hOut with
  | tooBig => exact .of_disk rfl rfl
  | inside hSize hHas hFits =>
      have hHead := h.wroteHead hHas data size.toNat
      exact (h.wroteHead_spares hHas data _).trans hSame
        (hHead.commit_spares _)
  | spilled hSize hHas hHas' hSpill =>
      have hHead := h.wroteHead hHas data (4096 - s.file.off)
      have hOwner := hHead.owns hHas'
      have hRest := hHead.wrote hOwner true
        (restOf data s.file.off size.toNat)
      exact ((h.wroteHead_spares hHas data _).trans hSame
        (hHead.wrote_spares hOwner true _)).trans hSame
          (hRest.commit_spares _)
  | noBlock hSize hHas hLast hSpill hNext =>
      exact h.wroteHead_spares hHas data _
  | noPointer i hSize hHas hLast hMany hSpill hNext =>
      have hHead := h.wroteHead hHas data (4096 - s.file.off)
      exact (h.wroteHead_spares hHas data _).trans hSame
        (hHead.image.claim_spares (.of_nextFree
          (hHead.image.layout.slotGroup_lt hHead.valid) hNext))
  | grown i hSize hHas hLast hDirect hSpill hNext =>
      have hHead := h.wroteHead hHas data (4096 - s.file.off)
      rcases hHead.grown hNext hDirect with ⟨hGrown, hLabels⟩
      have hOwner := Fs.grownOwners_self
        (s.wroteHead hHas.direct data (4096 - s.file.off))
        i owners
      have hRest := hGrown.wrote hOwner true
        (restOf data s.file.off size.toNat)
      have hTook : Spares kept owners s.file.inodeNum s
          ((s.wroteHead hHas.direct data
            (4096 - s.file.off)).grown i) :=
        (h.wroteHead_spares hHas data _).trans hSame
          (hHead.grown_spares hNext)
      exact (hTook.trans hLabels
        (hGrown.wrote_spares hOwner true _)).trans hLabels
          (hRest.commit_spares _)

/- However a seek ends. -/
theorem SeekOutcome.spares
    {newPos : UInt32}
    (hOut : SeekOutcome newPos s err t)
    (h : Editing inodes owners s) :
    Spares kept owners s.file.inodeNum s t := by
  have hMoved := h.movedTo newPos
  have hMove : Spares kept owners s.file.inodeNum s
      (s.movedTo newPos) := .of_disk rfl rfl
  have hSame := Extends.refl owners
  cases hOut with
  | loaded => exact .of_disk rfl rfl
  | noBlock => exact hMove
  | noPointer i hLe hMany hNext =>
      exact hMove.trans hSame (hMoved.image.claim_spares
        (.of_nextFree (h.image.layout.slotGroup_lt h.valid)
          hNext))
  | grown i hLe hDirect hNext =>
      rcases hMoved.grown hNext hDirect with
        ⟨hGrown, hLabels⟩
      have hLoaded := hGrown.setBuff (clearedPrefix
        (s.disk (s.layout.blockNumber s.fileGroup i))
        (newPos.toNat % 4096))
      have hTook : Spares kept owners s.file.inodeNum s _ :=
        (hMove.trans hSame (hMoved.grown_spares hNext)).trans
          hSame
          (.of_disk (t := ((s.movedTo newPos).grown i).setBuff
            (clearedPrefix
              (s.disk (s.layout.blockNumber s.fileGroup i))
              (newPos.toNat % 4096))) rfl rfl)
      exact hTook.trans hLabels (hLoaded.commit_spares _)

------------------------------------------------------------
-- Creation
------------------------------------------------------------

section

variable {parent : UInt32} {garbage : Inode}
variable {i j : Nat}
variable (h : ImageOk owners s)
variable (hn : s.layout.ValidInode parent)
variable (hInode :
  s.nextFree .inode (s.layout.slotGroup parent) = some i)
variable (hBlock :
  s.nextFree .block (s.layout.slotGroup parent) = some j)
include h hn hInode

/- The number of a new file was not in use. -/
theorem Fs.newNumber_not_used :
    ¬ s.InodeUsed (s.newNumber parent i) :=
  (FreeBit.of_nextFree (h.layout.slotGroup_lt hn)
    hInode).not_inodeUsed h.layout

include hBlock

/- Entering a new file in a directory uses its number. -/
theorem Linked.inodeUsed
    (hLink : Linked (s.placedOwners parent i j owners) parent
      (s.placed parent garbage i j) u)
    (n : UInt32) :
    u.InodeUsed n ↔
      s.InodeUsed n ∨ n = s.newNumber parent i :=
  (Fs.inodeUsed_congr hLink.layout
    (fun _ hg => hLink.bitmapBlock
      (h.placed hn hInode hBlock garbage).1 .inode hg)
    n).trans
      (Fs.placed_inodeUsed garbage h hn hInode hBlock n)

/- A new file is placed and entered in a directory. -/
theorem Linked.spares
    (hLive : owners.live parent)
    (hDir : (s.inodeAt parent).isDir)
    (hLink : Linked (s.placedOwners parent i j owners) parent
      (s.placed parent garbage i j) u) :
    SparesFiles owners num s u := by
  have hImage := (h.placed hn hInode hBlock garbage).1
  have hMore := (h.taken hn hInode hBlock).2
  have hLayout : (s.placed parent garbage i j).layout =
      s.layout := Fs.placed_layout i j
  have hFresh := Fs.newNumber_not_used h hn hInode
  have hSame {n : UInt32} (hUsed : s.InodeUsed n) :
      u.inodeAt n = s.inodeAt n :=
    (hLink.inodeAt hImage
      (hLayout.symm ▸ hUsed.valid)).trans
        (Fs.placed_inodeAt garbage h hn hInode hBlock
          hUsed.valid fun hEq => hFresh (hEq ▸ hUsed))
  exact
    { layout := hLink.layout.trans hLayout
      used := fun n hUsed =>
        (hLink.inodeUsed h hn hInode hBlock n).mpr (.inl hUsed)
      leaf := fun n hUsed hLeaf => by rwa [hSame hUsed]
      inode := fun n hUsed _ _ => hSame hUsed
      blocks := fun n hUsed hFile _ b k hb => by
        have hPlaced :=
          Fs.placed_disk garbage h hn hInode hBlock hb
        cases hLink with
        | nowhere => exact hPlaced
        | entered b' content k' hb' hOk =>
            refine (Fs.putBlock_disk_of_ne _ _ ?_).trans hPlaced
            rintro rfl
            -- a directory's block, so the file is none
            rw [hMore.label b _ hb] at hb'
            cases hb'
            rw [(h.slot ⟨hn, hLive⟩).kind hFile] at hDir
            exact absurd hDir (by simp) }

end

/-
  However the creation of a file ends; the number of a file
  it made was free and is in use then.
-/
theorem CreateOutcome.spares
    {parent : UInt32}
    {garbage : Inode}
    {name : List UInt8}
    (hOut :
      CreateOutcome owners parent garbage name s err t)
    (h : ImageOk owners s)
    (hParent : LiveInode s.layout owners parent)
    (hCurrent : s.currentInode = s.inodeAt parent) :
    SparesFiles owners num s t ∧
      (err = 0 → ¬ s.InodeUsed t.file.inodeNum ∧
        t.InodeUsed t.file.inodeNum) := by
  rcases hParent with ⟨hn, hLive⟩
  cases hOut with
  | refused hNone =>
      exact ⟨.of_disk rfl rfl, fun h0 => absurd h0 (by decide)⟩
  | noBlock i hDir hInode hBlock =>
      exact ⟨h.claim_spares
        (.of_nextFree (h.layout.slotGroup_lt hn) hInode),
        fun h0 => absurd h0 (by decide)⟩
  | unlinked i j code _ hDir hInode hBlock hAdd hCode hLink =>
      rw [hCurrent] at hDir
      exact ⟨hLink.spares h hn hInode hBlock hLive hDir,
        fun h0 => absurd h0 (by decide)⟩
  | created i j u hDir hInode hBlock hAdd hLink =>
      rw [hCurrent] at hDir
      refine ⟨(hLink.spares h hn hInode hBlock hLive hDir).trans
        (.refl owners) (.of_disk rfl rfl), fun _ => ?_⟩
      have hNumber : u.file.inodeNum = s.newNumber parent i := by
        rw [hLink.file]
        rfl
      rw [Fs.setFile_file, hNumber]
      exact ⟨Fs.newNumber_not_used h hn hInode,
        (hLink.inodeUsed h hn hInode hBlock _).mpr (.inr rfl)⟩

/- Creating a file for a call, when there is none. -/
theorem ensureExists_spares
    {stack : CreateStack}
    (h : ImageOk owners s)
    (hRun : ensureExists stack s = some (err, t)) :
    (∀ num, SparesFiles owners num s t) ∧
      (err = 0 → t = s ∧ s.file.exist ∨
        (¬ s.InodeUsed t.file.inodeNum ∧
          t.InodeUsed t.file.inodeNum)) := by
  rw [ensureExists] at hRun
  split at hRun
  · next hExist =>
      cases hRun
      exact ⟨fun _ => .of_disk rfl rfl,
        fun _ => .inl ⟨rfl, hExist⟩⟩
  · rcases ext2FileCreate_outcome h hRun with
      ⟨rfl, rfl, -⟩ | ⟨parent, name, -, hLive, hOut⟩
    · exact ⟨fun _ => .of_disk rfl rfl,
        fun h0 => absurd h0 (by decide)⟩
    · have hCreate (m : UInt32) : SparesFiles owners m
          (s.setCurrentInode (s.inodeAt parent)) t ∧
            (err = 0 → ¬ s.InodeUsed t.file.inodeNum ∧
              t.InodeUsed t.file.inodeNum) :=
        hOut.spares (h.setCurrentInode (s.inodeAt parent))
          hLive rfl
      have hStart (m : UInt32) : SparesFiles owners m s
          (s.setCurrentInode (s.inodeAt parent)) :=
        .of_disk rfl rfl
      exact ⟨fun m =>
        (hStart m).trans (.refl owners) (hCreate m).1,
        fun h0 => .inr ((hCreate 0).2 h0)⟩

------------------------------------------------------------
-- Calls and Runs
------------------------------------------------------------

/- Creating on demand, and what a call does then. -/
theorem SparesFiles.ensured
    {stack : CreateStack}
    {v : Fs}
    (h : ImageOk owners s)
    (hOpen : s.file.isOpen)
    (hEnsure : ensureExists stack s = some (0, v))
    (hNum : s.file.isOpen → s.file.exist →
      s.file.inodeNum = num)
    (hLabels : Extends owners owners₁)
    (hRest : SparesFiles owners₁ v.file.inodeNum v t) :
    SparesFiles owners num s t := by
  rcases ensureExists_spares h hEnsure with ⟨hFirst, hNew⟩
  refine (hFirst num).trans_new hLabels hRest ?_
  rcases hNew rfl with ⟨rfl, hExist⟩ | ⟨hNot, -⟩
  · exact .inl (hNum hOpen hExist)
  · exact .inr hNot

/- A call changes no file but the one it has open. -/
theorem exec_sparesFiles
    {c : Call}
    {o : Answer}
    (h : ImageOk owners s)
    (hFile : FileOk owners.live s)
    (hRange : c.InRange s)
    (hNum : s.file.isOpen → s.file.exist →
      s.file.inodeNum = num)
    (hRun : exec c s = some (o, t)) :
    SparesFiles owners num s t := by
  cases c with
  | fopen pathname mode stack =>
      rcases Option.map_eq_some_iff.mp hRun with
        ⟨v, hOpen, hEq⟩
      cases hEq
      rcases ext2Fopen_cases h hOpen with
        ⟨inode, rfl⟩ | ⟨-, n, u, mode', name, -, -, rfl⟩
      · exact .of_disk rfl rfl
      · exact .of_disk rfl rfl
  | fclose stack =>
      rcases Option.map_eq_some_iff.mp hRun with
        ⟨⟨code, v⟩, hClose, hEq⟩
      cases hEq
      rcases ext2Fclose_cases hClose with
        ⟨-, -, rfl⟩ | ⟨hOpen, code', v, hEnsure, hReset⟩
      · exact .of_disk rfl rfl
      · rcases ensureExists_stepOk h hFile hOpen hEnsure with
          ⟨⟨owners', hStep⟩, -⟩
        rw [hReset hStep.file.clean]
        exact ((ensureExists_spares h hEnsure).1 num).trans
          (.refl owners) (.of_disk rfl rfl)
  | fread out size =>
      rcases Option.map_eq_some_iff.mp hRun with
        ⟨⟨code, out', v⟩, hRead, hEq⟩
      cases hEq
      rw [ext2Fread_same h.steady hRead]
      exact .of_disk rfl rfl
  | fwrite data size stack =>
      rcases Option.map_eq_some_iff.mp hRun with
        ⟨⟨code, v⟩, hWrite, hEq⟩
      cases hEq
      rcases ext2Fwrite_reaches h hFile hRange hWrite with
        ⟨rfl, -⟩ | ⟨owners₁, code', v, hEnsure, hStep,
          ⟨-, -, rfl⟩ | ⟨rfl, -, -, hEditing, hOut⟩⟩
      · exact .of_disk rfl rfl
      · exact (ensureExists_spares h hEnsure).1 num
      · rcases ext2Fwrite_cases hWrite with
          ⟨-, -, rfl⟩ | ⟨hOpen, -⟩
        · exact .of_disk rfl rfl
        · exact .ensured h hOpen hEnsure hNum hStep.labels
            (hOut.spares hEditing)
  | fseek newPos stack =>
      rcases Option.map_eq_some_iff.mp hRun with
        ⟨⟨code, v⟩, hSeek, hEq⟩
      cases hEq
      rcases ext2Fseek_reaches h hFile hSeek with
        rfl | ⟨hOpen, -, owners₁, code', v, hEnsure, hStep,
          ⟨-, -, rfl⟩ | ⟨rfl, -, -, hEditing, hOut⟩⟩
      · exact .of_disk rfl rfl
      · exact (ensureExists_spares h hEnsure).1 num
      · exact .ensured h hOpen hEnsure hNum hStep.labels
          (hOut.spares hEditing)

/- The open file, when it exists, has the number `n`. -/
def Fs.HasOpen
    (s : Fs)
    (n : UInt32) : Prop :=
  s.file.isOpen ∧ s.file.exist ∧ s.file.inodeNum = n

/- A regular file in use that is as it was in `s`. -/
structure Unchanged
    (owners : Owners)
    (s t : Fs)
    (n : UInt32) : Prop where
  used : t.InodeUsed n
  inode : t.inodeAt n = s.inodeAt n
  blocks :
    ∀ b k, owners b = some (.data n k) → t.disk b = s.disk b

/- A call on another file leaves a file unchanged. -/
theorem Unchanged.step
    {v : Fs}
    {n : UInt32}
    {c : Call}
    {o : Answer}
    (hSame : Unchanged owners s u n)
    (hFile : (s.inodeAt n).isFile)
    (hStep : ImageStep owners s owners₁ u)
    (hRange : c.InRange u)
    (hOther : ¬ u.HasOpen n)
    (hRun : exec c u = some (o, v)) :
    Unchanged owners s v n := by
  -- the number that may change: the open one, or none
  have hNum : ∃ m, n ≠ m ∧
      (u.file.isOpen → u.file.exist →
        u.file.inodeNum = m) := by
    by_cases hHas : u.file.isOpen ∧ u.file.exist
    · exact ⟨_, fun hEq => hOther ⟨hHas.1, hHas.2, hEq.symm⟩,
        fun _ _ => rfl⟩
    · exact ⟨0, hSame.used.ne_zero,
        fun hOpen hExist => absurd ⟨hOpen, hExist⟩ hHas⟩
  rcases hNum with ⟨m, hNe, hNum⟩
  have hSpares := exec_sparesFiles hStep.image hStep.file hRange
    hNum hRun
  have hStill : (u.inodeAt n).isFile := hSame.inode ▸ hFile
  exact
    { used := hSpares.used n hSame.used
      inode := (hSpares.inode n hSame.used hStill hNe).trans
        hSame.inode
      blocks := fun b k hb =>
        (hSpares.blocks n hSame.used hStill hNe b k
          (hStep.labels.label _ _ hb)).trans
            (hSame.blocks b k hb) }

end

end Ext2

end Ester
