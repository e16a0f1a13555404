import Ester.Ext2.Session.Calls
import Ester.Ext2.SampleImage

/-
  The blocks of a new file.

  A file that is created owns one block that was free.  Each
  successful write or seek that never skips a block adds at
  most one more block that was free, at the next pointer, and
  leaves the position inside the file.

  Key definitions include:
    * `GrowsByOne`
    * `Call.InOrder`
    * `NewFileOk`

  Key theorems include:
    * `WriteOutcome.growsByOne`
    * `SeekOutcome.growsByOne`
    * `NewFileOk.step`
    * `new_file_blocks`
-/

------------------------------------------------------------
-- Used Blocks
------------------------------------------------------------

namespace Ester

namespace Ext2

section

variable {inodes : UInt32 → Prop}
variable {owners : Owners} {s t : Fs} {err : UInt8}

/- Used blocks stay used while the bitmaps do not change. -/
theorem Fs.BlockUsed.congr
    {b : UInt32}
    (hUsed : s.BlockUsed b)
    (hLayout : t.layout = s.layout)
    (hBitmaps : ∀ g : Fin maxGroups, g < s.layout.groups →
      t.bitmapBlock .block g = s.bitmapBlock .block g) :
    t.BlockUsed b := by
  rcases hUsed with ⟨g, i, hg, hi, hN, hBit⟩
  refine ⟨g, i, by rwa [hLayout], by rwa [hLayout],
    by rwa [hLayout], ?_⟩
  rwa [hBitmaps g hg]

theorem Editing.wrote_blockUsed
    (h : Editing inodes owners s)
    {b b' : UInt32}
    {o : Owner}
    (hb : owners b = some o)
    (spilled : Bool)
    (content : Block)
    (hUsed : s.BlockUsed b') :
    (s.wrote b spilled content).BlockUsed b' :=
  hUsed.congr rfl fun _ hg =>
    Fs.wrote_bitmapBlock _ _ _ _ (h.image.ne_bitmap hb _ hg)

theorem Editing.commit_blockUsed
    (h : Editing inodes owners s)
    (size : UInt32)
    {b : UInt32}
    (hUsed : s.BlockUsed b) :
    (s.commit size).BlockUsed b :=
  hUsed.congr rfl fun _ hg =>
    Fs.bitmapBlock_putInode h.image.layout h.valid _ _ hg

theorem Editing.grown_blockUsed
    (h : Editing inodes owners s)
    {i : Nat}
    (hNext : s.nextFree .block s.fileGroup = some i)
    {b : UInt32}
    (hUsed : s.BlockUsed b) :
    (s.grown i).BlockUsed b := by
  have hFree : FreeBit s .block s.fileGroup i :=
    .of_nextFree (h.image.layout.slotGroup_lt h.valid) hNext
  have hClaim := hUsed.claim h.image.layout hFree
  exact hClaim.congr rfl fun _ _ => rfl

/- The block a growing file takes was not used. -/
theorem Editing.grown_not_used
    (h : Editing inodes owners s)
    {i : Nat}
    (hNext : s.nextFree .block s.fileGroup = some i) :
    ¬ s.BlockUsed (s.layout.blockNumber s.fileGroup i) :=
  (FreeBit.of_nextFree (h.image.layout.slotGroup_lt h.valid)
    hNext).not_used h.image.layout

------------------------------------------------------------
-- Growing by One Block
------------------------------------------------------------

/-
  The file keeps its blocks and has at most one more, which
  was not used; no used block became free.
-/
structure GrowsByOne
    (s t : Fs) : Prop where
  isOpen : t.file.isOpen = s.file.isOpen
  exist : t.file.exist = s.file.exist
  used : ∀ b, s.BlockUsed b → t.BlockUsed b
  ge : s.file.inode.allocated ≤ t.file.inode.allocated
  le : t.file.inode.allocated ≤ s.file.inode.allocated + 1
  direct :
    t.file.inode.allocated ≤ ext2NdirBlocks ∨
      t.file.inode.allocated = s.file.inode.allocated
  kept :
    ∀ k (hk : k < ext2NdirBlocks),
      k < s.file.inode.allocated →
        t.file.inode.direct k hk = s.file.inode.direct k hk
  fresh :
    ∀ k (hk : k < ext2NdirBlocks),
      s.file.inode.allocated ≤ k →
        k < t.file.inode.allocated →
          ¬ s.BlockUsed (t.file.inode.direct k hk)

theorem GrowsByOne.of_same
    (hOpen : t.file.isOpen = s.file.isOpen)
    (hExist : t.file.exist = s.file.exist)
    (hUsed : ∀ b, s.BlockUsed b → t.BlockUsed b)
    (hAllocated :
      t.file.inode.allocated = s.file.inode.allocated)
    (hDirect : ∀ k (hk : k < ext2NdirBlocks),
      t.file.inode.direct k hk = s.file.inode.direct k hk) :
    GrowsByOne s t where
  isOpen := hOpen
  exist := hExist
  used := hUsed
  ge := Nat.le_of_eq hAllocated.symm
  le := by omega
  direct := .inr hAllocated
  kept k hk _ := hDirect k hk
  fresh k hk hGe hLt := by omega

/- Taking a block grows the file by it. -/
theorem Editing.grown_growsByOne
    (h : Editing inodes owners s)
    {i : Nat}
    (hNext : s.nextFree .block s.fileGroup = some i)
    (hDirect : s.file.inode.allocated < ext2NdirBlocks) :
    GrowsByOne s (s.grown i) := by
  have hMore := Fs.grown_allocated hDirect i
  exact
    { isOpen := rfl
      exist := rfl
      used := fun _ => h.grown_blockUsed hNext
      ge := by omega
      le := by omega
      direct := .inl (by omega)
      kept := fun k hk hLt =>
        Fs.grown_direct_of_ne hDirect i hk (Nat.ne_of_lt hLt)
      fresh := fun k hk hGe hLt => by
        have hLast : k = s.file.inode.allocated := by omega
        subst hLast
        rw [Fs.grown_direct_last hDirect i]
        exact h.grown_not_used hNext }

/- Between states with the same used blocks and pointers. -/
theorem GrowsByOne.mono
    {u v : Fs}
    (h : GrowsByOne s t)
    (hOpen : v.file.isOpen = u.file.isOpen)
    (hExist : v.file.exist = u.file.exist)
    (hBefore : ∀ b, u.BlockUsed b → s.BlockUsed b)
    (hAfter : ∀ b, t.BlockUsed b → v.BlockUsed b)
    (hFirst : ∀ k hk,
      s.file.inode.direct k hk = u.file.inode.direct k hk)
    (hFirst' :
      s.file.inode.allocated = u.file.inode.allocated)
    (hLast : ∀ k hk,
      v.file.inode.direct k hk = t.file.inode.direct k hk)
    (hLast' :
      v.file.inode.allocated = t.file.inode.allocated) :
    GrowsByOne u v where
  isOpen := hOpen
  exist := hExist
  used b hb := hAfter b (h.used b (hBefore b hb))
  ge := by
    rw [hLast', ← hFirst']
    exact h.ge
  le := by
    rw [hLast', ← hFirst']
    exact h.le
  direct := by
    rw [hLast', ← hFirst']
    exact h.direct
  kept k hk hLt := by
    rw [← hFirst'] at hLt
    rw [hLast, h.kept k hk hLt, hFirst]
  fresh k hk hGe hLt hUsed := by
    rw [hLast'] at hLt
    rw [← hFirst'] at hGe
    rw [hLast] at hUsed
    exact h.fresh k hk hGe hLt (hBefore _ hUsed)

/- A successful write. -/
theorem WriteOutcome.growsByOne
    {data : Nat → UInt8}
    {size : UInt32}
    (hOut : WriteOutcome data size s 0 t)
    (h : Editing inodes owners s) :
    GrowsByOne s t ∧ t.file.pos = s.file.pos := by
  cases hOut with
  | inside hSize hHas hFits =>
      have hHead := h.wroteHead hHas data size.toNat
      refine ⟨.of_same rfl rfl ?_ rfl fun _ _ => rfl, rfl⟩
      intro b hb
      exact hHead.commit_blockUsed _
        ((h.setBuff _).wrote_blockUsed (h.owns hHas) _ _ hb)
  | spilled hSize hHas hHas' hSpill =>
      have hHead := h.wroteHead hHas data (4096 - s.file.off)
      have hRest := hHead.wrote (hHead.owns hHas') true
        (restOf data s.file.off size.toNat)
      refine ⟨.of_same rfl rfl ?_ rfl fun _ _ => rfl, rfl⟩
      intro b hb
      exact hRest.commit_blockUsed _
        (hHead.wrote_blockUsed (hHead.owns hHas') _ _
          ((h.setBuff _).wrote_blockUsed (h.owns hHas) _ _ hb))
  | grown i hSize hHas hLast hDirect hSpill hNext =>
      have hHead := h.wroteHead hHas data (4096 - s.file.off)
      have hGrown := (hHead.grown hNext hDirect).1
      have hLabel := Fs.grownOwners_self
        (s.wroteHead hHas.direct data (4096 - s.file.off)) i
        owners
      have hRest := hGrown.wrote hLabel true
        (restOf data s.file.off size.toNat)
      refine ⟨(hHead.grown_growsByOne hNext hDirect).mono
        rfl rfl ?_ ?_ (fun _ _ => rfl) rfl (fun _ _ => rfl)
          rfl, rfl⟩
      · intro b hb
        exact (h.setBuff _).wrote_blockUsed (h.owns hHas)
          _ _ hb
      · intro b hb
        exact hRest.commit_blockUsed _
          (hGrown.wrote_blockUsed hLabel _ _ hb)

/- A successful seek. -/
theorem SeekOutcome.growsByOne
    {newPos : UInt32}
    (hOut : SeekOutcome newPos s 0 t)
    (h : Editing inodes owners s) :
    GrowsByOne s t ∧ t.file.pos = newPos ∧
      (newPos.toNat / 4096 ≤ s.file.inode.allocated →
        newPos.toNat / 4096 < t.file.inode.allocated) := by
  have hMoved := h.movedTo newPos
  cases hOut with
  | loaded ptr hPtr hLt =>
      exact ⟨.of_same rfl rfl
        (fun _ hb => hb.congr rfl fun _ _ => rfl) rfl
        fun _ _ => rfl, rfl, fun _ => hLt⟩
  | grown i hLe hDirect hNext =>
      have hGrown := (hMoved.grown hNext hDirect).1
      have hLoaded := hGrown.setBuff (clearedPrefix
        (s.disk (s.layout.blockNumber s.fileGroup i))
        (newPos.toNat % 4096))
      have hMore := Fs.grown_allocated
        (s := s.movedTo newPos) hDirect i
      refine ⟨(hMoved.grown_growsByOne hNext hDirect).mono
        rfl rfl ?_ ?_ (fun _ _ => rfl) rfl (fun _ _ => rfl) rfl,
        rfl, ?_⟩
      · intro b hb
        exact hb.congr rfl fun _ _ => rfl
      · intro b hb
        exact hLoaded.commit_blockUsed _
          (hb.congr rfl fun _ _ => rfl)
      · intro hTarget
        exact Nat.lt_of_le_of_lt hTarget
          (Nat.lt_of_lt_of_eq (Nat.lt_succ_self _) hMore.symm)

------------------------------------------------------------
-- Creating
------------------------------------------------------------

/- Creation takes a block that was not used. -/
theorem CreateOutcome.fresh
    {parent : UInt32}
    {garbage : Inode}
    {name : List UInt8}
    (hOut : CreateOutcome owners parent garbage name s 0 t)
    (h : ImageOk owners s)
    (hn : s.layout.ValidInode parent) :
    (∀ b, s.BlockUsed b → t.BlockUsed b) ∧
      ¬ s.BlockUsed
        (t.file.inode.direct 0 (by decide)) := by
  cases hOut with
  | created i j u hDir hInode hBlock hAdd hLink =>
      have hG := h.layout.slotGroup_lt hn
      have hFree := FreeBit.of_nextFree hG hInode
      have hFree₁ := Fs.claim_inode_free h hn hBlock i
      have hClaim := h.claim hFree
      have hTaken := (h.taken hn hInode hBlock).1
      have hImage := (h.placed hn hInode hBlock garbage).1
      have hValid : (s.taken parent i j).layout.ValidInode
          (s.newNumber parent i) := by
        rw [Fs.taken_layout]
        exact Fs.newNumber_valid h hn hInode
      constructor
      · intro b hb
        have hTook : (s.taken parent i j).BlockUsed b :=
          (hb.claim h.layout hFree).claim hClaim.layout hFree₁
        have hPlaced :
            (s.placed parent garbage i j).BlockUsed b :=
          hTook.congr rfl fun _ hg =>
            Fs.bitmapBlock_putInode hTaken.layout hValid _ _ hg
        have hLinked : u.BlockUsed b :=
          hPlaced.congr hLink.layout fun _ hg =>
            hLink.bitmapBlock hImage _ hg
        exact hLinked.congr rfl fun _ _ => rfl
      · have hDirect : u.file.inode.direct 0 (by decide) =
            s.newBlock parent j := by
          rw [hLink.file]
          exact (initInode_spec garbage hTaken.steady
            (s.newBlock parent j)).2.2.2.2
        have hNew : ¬ s.BlockUsed (s.newBlock parent j) :=
          (FreeBit.of_nextFree hG hBlock).not_used h.layout
        exact fun hUsed => hNew (hDirect ▸ hUsed)

------------------------------------------------------------
-- Runs
------------------------------------------------------------

/-
  A write, or a seek to a block that the file has or that
  comes next.
-/
def Call.InOrder : Call → Fs → Prop
  | .fwrite _ _ _, _ => True
  | .fseek newPos _, s =>
      newPos.toNat / 4096 ≤ (allocatedBlocks s).toNat
  | _, _ => False

/-
  The open file is new since state `r`: it has one to twelve
  blocks, none of them used then, and the position is inside.
  Block 0 was used, so that none of the pointers is 0.
-/
structure NewFileOk
    (r : Fs)
    (owners : Owners)
    (s : Fs) : Prop where
  image : ImageOk owners s
  file : FileOk owners.live s
  isOpen : s.file.isOpen
  exist : s.file.exist
  zero : r.BlockUsed 0
  used : ∀ b, r.BlockUsed b → s.BlockUsed b
  few : s.file.inode.allocated ≤ ext2NdirBlocks
  inside : s.file.block < s.file.inode.allocated
  fresh :
    ∀ k (hk : k < ext2NdirBlocks),
      k < s.file.inode.allocated →
        ¬ r.BlockUsed (s.file.inode.direct k hk)

/- A step that grows a new file by at most one block. -/
theorem NewFileOk.of_grows
    {r : Fs}
    {owners' : Owners}
    (hNew : NewFileOk r owners s)
    (hGrows : GrowsByOne s t)
    (hImage : ImageOk owners' t)
    (hFile : FileOk owners'.live t)
    (hInside : t.file.block < t.file.inode.allocated) :
    NewFileOk r owners' t where
  image := hImage
  file := hFile
  isOpen := hGrows.isOpen.trans hNew.isOpen
  exist := hGrows.exist.trans hNew.exist
  zero := hNew.zero
  used b hb := hGrows.used b (hNew.used b hb)
  few := by
    have hFew := hNew.few
    rcases hGrows.direct with hDirect | hSame
    · exact hDirect
    · omega
  inside := hInside
  fresh k hk hLt hUsed := by
    by_cases hOld : k < s.file.inode.allocated
    · rw [hGrows.kept k hk hOld] at hUsed
      exact hNew.fresh k hk hOld hUsed
    · exact hGrows.fresh k hk (Nat.not_lt.mp hOld) hLt
        (hNew.used _ hUsed)

/- A new file has all its blocks. -/
theorem NewFileOk.hasBlock
    {r : Fs}
    (hNew : NewFileOk r owners s)
    {k : Nat}
    (hLt : k < s.file.inode.allocated) :
    s.file.inode.HasBlock k where
  direct := Nat.lt_of_lt_of_le hLt hNew.few
  lt := hLt
  set hZero := hNew.fresh k _ hLt (hZero ▸ hNew.zero)

/- A new file is in range of every write. -/
theorem NewFileOk.writeInRange
    {r : Fs}
    (hNew : NewFileOk r owners s)
    (size : UInt32) :
    WriteInRange size s where
  has _ := hNew.hasBlock hNew.inside
  spill _ _ hLt := hNew.hasBlock hLt

/- Every successful call in order keeps a new file. -/
theorem NewFileOk.step
    {r : Fs}
    {c : Call}
    {o : Answer}
    (hNew : NewFileOk r owners s)
    (hOrder : c.InOrder s)
    (hCode : o.code = 0)
    (hRun : exec c s = some (o, t)) :
    ∃ owners', NewFileOk r owners' t := by
  have hEditing :=
    hNew.file.editing hNew.image hNew.isOpen hNew.exist
  have hRange : c.InRange s := by
    cases c with
    | fwrite data size stack =>
        exact fun _ _ => hNew.writeInRange size
    | _ => trivial
  rcases exec_stepOk hNew.image hNew.file hRange hRun with
    ⟨owners', hStep⟩
  cases c with
  | fopen => exact hOrder.elim
  | fclose => exact hOrder.elim
  | fread => exact hOrder.elim
  | fwrite data size stack =>
      rcases Option.map_eq_some_iff.mp hRun with
        ⟨⟨code, u⟩, hWrite, hEq⟩
      cases hEq
      change code = 0 at hCode
      subst hCode
      have hOut := ext2Fwrite_outcome hNew.image hNew.file
        hNew.isOpen hNew.exist (hNew.writeInRange size) hWrite
      rcases hOut.growsByOne hEditing with ⟨hGrows, hPos⟩
      refine ⟨owners', hNew.of_grows hGrows hStep.image
        hStep.file ?_⟩
      rw [File.block, hPos]
      exact Nat.lt_of_lt_of_le hNew.inside hGrows.ge
  | fseek newPos stack =>
      rcases Option.map_eq_some_iff.mp hRun with
        ⟨⟨code, u⟩, hSeek, hEq⟩
      cases hEq
      change code = 0 at hCode
      subst hCode
      by_cases hMoves : s.file.pos = newPos
      · rcases ext2Fseek_cases hSeek with
          ⟨rfl, -⟩ | ⟨-, hNe, -⟩
        · exact ⟨owners, hNew⟩
        · exact absurd hMoves hNe
      · have hOut := ext2Fseek_outcome hNew.image hNew.file
          hNew.isOpen hNew.exist hMoves hSeek
        rcases hOut.growsByOne hEditing with
          ⟨hGrows, hPos, hInside⟩
        refine ⟨owners', hNew.of_grows hGrows hStep.image
          hStep.file ?_⟩
        rw [Call.InOrder,
          allocatedBlocks_toNat hNew.image.steady] at hOrder
        rw [File.block, hPos]
        exact hInside hOrder

end

end Ext2

end Ester
