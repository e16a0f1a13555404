import Ester.Ext2.SampleImage
import Ester.Ext2.Session.Content

/-
  What a successful write does to the bytes of its file.

  A write whose buffer holds the block under the position
  puts its data at the position.  It keeps all other bytes
  of the file, unless it spills into a block the file has
  already: that block is rewritten from an array of zeros, so
  its tail survives only when it was zero before.

  Key definitions include:
    * `Overwrites`
    * `SpillHarmless`

  Key theorems include:
    * `overwrites_iff_of_blocks`
    * `ext2Fwrite_overwrites_iff`
    * `ext2Fwrite_zeroes_tail`
-/

------------------------------------------------------------
-- Overwriting a Range
------------------------------------------------------------

namespace Ester

namespace Ext2

/-
  The bytes at the position are the data; every other byte
  of the blocks the file had before, and every used block
  outside the file, is unchanged.
-/
structure Overwrites
    (owners : Owners)
    (s t : Fs)
    (data : Nat → UInt8)
    (size : Nat) : Prop where
  written :
    ∀ i, i < size →
      t.fileByte (s.file.pos.toNat + i) = data i
  kept :
    ∀ x (hk : x / 4096 < ext2NdirBlocks),
      s.Owns owners (x / 4096) hk →
        x < s.file.pos.toNat ∨ s.file.pos.toNat + size ≤ x →
          t.fileByte x = s.fileByte x
  others :
    ∀ b, s.BlockUsed b → ¬ s.layout.IsMeta b →
      (∀ k (hk : k < ext2NdirBlocks),
        s.Owns owners k hk → s.file.inode.direct k hk ≠ b) →
        t.disk b = s.disk b

/-
  A write that spills into a block the file has already finds
  that block zero behind the bytes it writes.
-/
def SpillHarmless
    (owners : Owners)
    (size : Nat)
    (s : Fs) : Prop :=
  4096 < s.file.off + size →
    ∀ hk : s.file.block + 1 < ext2NdirBlocks,
      s.Owns owners (s.file.block + 1) hk →
        ∀ i, s.file.off + size - 4096 ≤ i → i < 4096 →
          (s.fileBlock (s.file.block + 1) hk).get i = 0

------------------------------------------------------------
-- From Blocks to Bytes
------------------------------------------------------------

theorem pos_eq
    (f : File) :
    f.pos.toNat = 4096 * f.block + f.off :=
  (Nat.div_add_mod _ _).symm

section

variable {owners : Owners}
variable {s t : Fs} {data : Nat → UInt8} {size : Nat}

/- The bytes of the rest block. -/
theorem get_restOf
    {off i : Nat}
    (hOff : off ≤ 4096)
    (hi : i < 4096) :
    (restOf data off size).get i =
      if i < off + size - 4096 then data (4096 - off + i)
      else 0 := by
  rw [restOf, ByteBuffer.get_splice _ _ _ _ (show i < 4096
    from hi), ByteBuffer.get_fill_zero]
  by_cases hIn : i < off + size - 4096
  · rw [if_pos hIn, if_pos (by omega), Nat.sub_zero]
  · rw [if_neg hIn, if_neg (by omega)]

/-
  A state whose blocks hold the first part of the data under
  the position, the rest in the next block and everything
  else as before: exactly the bytes of the write changed if
  and only if no old byte was lost to the zeros of the rest.
-/
theorem overwrites_iff_of_blocks
    (hSize : size ≤ 4096)
    (hk : s.file.block < ext2NdirBlocks)
    (hHead : t.fileBlock s.file.block hk =
      (s.fileBlock s.file.block hk).splice s.file.off
        (min size (4096 - s.file.off)) data)
    (hSpill : 4096 < s.file.off + size →
      ∃ hk' : s.file.block + 1 < ext2NdirBlocks,
        t.fileBlock (s.file.block + 1) hk' =
          restOf data s.file.off size)
    (hSame : ∀ k (hk : k < ext2NdirBlocks),
      s.Owns owners k hk → k ≠ s.file.block →
        k ≠ s.file.block + 1 ∨ s.file.off + size ≤ 4096 →
          t.fileBlock k hk = s.fileBlock k hk)
    (hOthers : ∀ b, s.BlockUsed b → ¬ s.layout.IsMeta b →
      (∀ k (hk : k < ext2NdirBlocks),
        s.Owns owners k hk →
          s.file.inode.direct k hk ≠ b) →
        t.disk b = s.disk b) :
    Overwrites owners s t data size ↔
      SpillHarmless owners size s := by
  have hOff := s.file.off_lt
  have hPos := pos_eq s.file
  constructor
  · intro hOver hSpilled hk' hOwns i hLow hHigh
    rcases hSpill hSpilled with ⟨_, hNext⟩
    have hIndex : (4096 * (s.file.block + 1) + i) / 4096 =
        s.file.block + 1 := by omega
    have hKept := hOver.kept
      (4096 * (s.file.block + 1) + i) (by omega)
      (by simpa only [hIndex] using hOwns) (by omega)
    rw [t.fileByte_eq hk' hHigh rfl,
      s.fileByte_eq hk' hHigh rfl, hNext,
      get_restOf (by omega) hHigh,
      if_neg (by omega)] at hKept
    exact hKept.symm
  · intro hHarmless
    refine ⟨?_, ?_, hOthers⟩
    · intro i hi
      by_cases hFirst : s.file.off + i < 4096
      · rw [t.fileByte_eq hk hFirst (by omega), hHead,
          ByteBuffer.get_splice_of_inside _ _ (by omega)
            (show _ ≤ 4096 by omega)]
      · rcases hSpill (by omega) with ⟨hk', hNext⟩
        have hIndex : s.file.off + i - 4096 < 4096 := by omega
        have hx : s.file.pos.toNat + i =
            4096 * (s.file.block + 1) +
              (s.file.off + i - 4096) := by omega
        have hData : 4096 - s.file.off +
            (s.file.off + i - 4096) = i := by omega
        rw [t.fileByte_eq hk' hIndex hx, hNext,
          get_restOf (Nat.le_of_lt hOff) hIndex,
          if_pos (by omega), hData]
    · intro x hDirect hOwns hOutside
      have hMod : x % 4096 < 4096 := Nat.mod_lt _ (by omega)
      have hx : x = 4096 * (x / 4096) + x % 4096 :=
        (Nat.div_add_mod _ _).symm
      rw [t.fileByte_eq hDirect hMod hx,
        s.fileByte_eq hDirect hMod hx]
      by_cases hFirst : x / 4096 = s.file.block
      · have hBlocks : t.fileBlock (x / 4096) hDirect =
            (s.fileBlock (x / 4096) hDirect).splice s.file.off
              (min size (4096 - s.file.off)) data := by
          simp only [hFirst]
          exact hHead
        rw [hBlocks,
          ByteBuffer.get_splice_of_outside _ _ (by omega)]
      · by_cases hNext : x / 4096 = s.file.block + 1 ∧
            4096 < s.file.off + size
        · rcases hNext with ⟨hEq, hSpilled⟩
          rcases hSpill hSpilled with ⟨hk', hRest⟩
          have hZero := hHarmless hSpilled hk'
            (by simpa only [hEq] using hOwns) (x % 4096)
            (by omega) hMod
          simp only [hEq]
          rw [hRest, hZero, get_restOf (by omega) hMod,
            if_neg (by omega)]
        · rw [hSame _ hDirect hOwns hFirst (by omega)]

end

------------------------------------------------------------
-- Outcomes of a Write
------------------------------------------------------------

section

variable {inodes : UInt32 → Prop}
variable {owners : Owners} {s t : Fs}
variable {data : Nat → UInt8} {size : UInt32}

/- The effect of a successful write on the file's bytes. -/
theorem WriteOutcome.overwrites_iff
    (h : Editing inodes owners s)
    (hBuff : ∀ hk, s.file.buff = s.fileBlock s.file.block hk)
    (hOut : WriteOutcome data size s 0 t) :
    Overwrites owners s t data size.toNat ↔
      SpillHarmless owners size.toNat s := by
  have hOff := s.file.off_lt
  cases hOut with
  | inside hSize hHas hFits =>
      have hHead := h.wroteHead hHas data size.toNat
      have hMin : min size.toNat (4096 - s.file.off) =
          size.toNat := by omega
      apply overwrites_iff_of_blocks hSize hHas.direct
      · rw [hMin]
        exact (hHead.finish_fileBlock (h.owns hHas)).trans
          (Fs.wroteHead_fileBlock_of_buff hHas.direct _
            (hBuff hHas.direct))
      · intro hSpill
        omega
      · intro k hk hOwns hNe _
        exact (hHead.finish_fileBlock hOwns).trans
          (h.wroteHead_fileBlock_of_ne hHas _ hOwns hNe)
      · intro b _ hMeta hNot
        exact (hHead.commit_disk _ hMeta).trans
          (Fs.wrote_disk_of_ne _ _ _ _
            (hNot _ hHas.direct (h.owns hHas)).symm)
  | spilled hSize hHas hHas' hSpill =>
      have hHead := h.wroteHead hHas data (4096 - s.file.off)
      have hBoth := hHead.wrote (hHead.owns hHas') true
        (restOf data s.file.off size.toNat)
      have hMin : min size.toNat (4096 - s.file.off) =
          4096 - s.file.off := by omega
      have hOther {k : Nat} {hk : k < ext2NdirBlocks}
          (hOwns : s.Owns owners k hk)
          (hNe : k ≠ s.file.block + 1) :
          ((s.wroteHead hHas.direct data
            (4096 - s.file.off)).wrote
            (s.file.inode.direct (s.file.block + 1)
              hHas'.direct) true
            (restOf data s.file.off size.toNat)).fileBlock
              k hk =
            (s.wroteHead hHas.direct data
              (4096 - s.file.off)).fileBlock k hk :=
        Fs.wrote_disk_of_ne _ _ _ _
          (hOwns.direct_ne (h.owns hHas') hNe)
      apply overwrites_iff_of_blocks hSize hHas.direct
      · rw [hMin]
        exact (hBoth.finish_fileBlock (h.owns hHas)).trans
          ((hOther (h.owns hHas) (by omega)).trans
            (Fs.wroteHead_fileBlock_of_buff hHas.direct _
              (hBuff hHas.direct)))
      · intro _
        exact ⟨hHas'.direct,
          (hBoth.finish_fileBlock (h.owns hHas')).trans
            (Fs.wrote_disk_self _ _ _ _)⟩
      · intro k hk hOwns hNe hNot
        exact (hBoth.finish_fileBlock hOwns).trans
          ((hOther hOwns (by omega)).trans
            (h.wroteHead_fileBlock_of_ne hHas _ hOwns hNe))
      · intro b _ hMeta hNot
        exact (hBoth.commit_disk _ hMeta).trans
          ((Fs.wrote_disk_of_ne _ _ _ _
            (hNot _ hHas'.direct (h.owns hHas')).symm).trans
              (Fs.wrote_disk_of_ne _ _ _ _
                (hNot _ hHas.direct (h.owns hHas)).symm))
  | grown i hSize hHas hLast hDirect hSpill hNext =>
      have hHead := h.wroteHead hHas data (4096 - s.file.off)
      have hMin : min size.toNat (4096 - s.file.off) =
          4096 - s.file.off := by omega
      have hFree : FreeBit _ .block s.fileGroup i :=
        .of_nextFree (hHead.image.layout.slotGroup_lt
          hHead.valid) hNext
      have hGrown := (hHead.grown hNext hDirect).1
      have hKept := @Editing.grownRest_fileBlock _ _ _ size
        hHead _ hNext hDirect
        (restOf data s.file.off size.toNat)
      rcases hKept with ⟨hRest, hOld⟩
      apply overwrites_iff_of_blocks hSize hHas.direct
      · rw [hMin]
        exact (hOld _ hHas.direct (h.owns hHas)
          (Nat.ne_of_lt hHas.lt)).trans
            (Fs.wroteHead_fileBlock_of_buff hHas.direct _
              (hBuff hHas.direct))
      · intro _
        refine ⟨hLast ▸ hDirect, ?_⟩
        simp only [← hLast]
        exact hRest
      · intro k hk hOwns hNe hNot
        have hOther : k ≠ s.file.inode.allocated := by omega
        exact (hOld k hk hOwns hOther).trans
          (h.wroteHead_fileBlock_of_ne hHas _ hOwns hNe)
      · intro b hUsed hMeta hNot
        have hStill := (hUsed.wrote (s := s.setBuff _)
          (h.setBuff _).image (h.owns hHas) false
          (s.headBuff data (4096 - s.file.off)))
        exact (hHead.grownRest_disk hNext hDirect
          (restOf data s.file.off size.toNat) hStill
          hMeta).trans
            (Fs.wrote_disk_of_ne _ _ _ _
              (hNot _ hHas.direct (h.owns hHas)).symm)

/-
  A successful write to an open, existing file whose buffer
  holds the block under the position, in blocks the file has,
  replaces exactly its bytes if and only if it does not spill
  into a block with bytes to lose.
-/
theorem ext2Fwrite_overwrites_iff
    {stack : CreateStack}
    (h : ImageOkFor inodes owners s)
    (hFile : FileOk inodes s)
    (hOpen : s.file.isOpen)
    (hExist : s.file.exist)
    (hRange : WriteInRange size s)
    (hBuff : ∀ hk, s.file.buff = s.fileBlock s.file.block hk)
    (hRun : ext2Fwrite data size stack s = some (0, t)) :
    Overwrites owners s t data size.toNat ↔
      SpillHarmless owners size.toNat s := by
  exact (ext2Fwrite_outcome h hFile hOpen hExist hRange
    hRun).overwrites_iff (hFile.editing h hOpen hExist) hBuff

end

------------------------------------------------------------
-- Writes to the Sample File
------------------------------------------------------------

/- `/f` opened and positioned at its byte 1. -/
def loadedSample : Fs :=
  ((runAll exec [.fopen [47, 102, 0] 114 .zero,
    .fseek 1 .zero] fileSample).getD ([], fileSample)).2

theorem loadedSample_file :
    loadedSample.file.isOpen ∧ loadedSample.file.exist ∧
      loadedSample.file.block = 0 ∧
      loadedSample.file.off = 1 ∧
      loadedSample.file.inode.HasBlock 0 ∧
      loadedSample.file.inode.HasBlock 1 := by
  decide +kernel

/- The run that leads there leaves block 0 in the buffer. -/
theorem loadedSample_run :
    ∃ trace, GuardedRun exec (fun c _ u => c.InRange u)
        fileSample trace loadedSample ∧
      ∀ hk, loadedSample.file.buff =
        loadedSample.fileBlock loadedSample.file.block hk := by
  have hFacts :
      ((exec (.fopen [47, 102, 0] 114 .zero) fileSample).bind
        fun r => (exec (.fseek 1 .zero) r.2).map fun _ =>
          (r.2.file.isOpen, r.2.file.exist, r.2.file.pos,
            r.2.file.inode.allocated)) =
        some (true, true, 0, 2) := by
    decide +kernel
  rcases Option.bind_eq_some_iff.mp hFacts with
    ⟨⟨o, u⟩, hFirst, hFacts⟩
  rcases Option.map_eq_some_iff.mp hFacts with
    ⟨⟨o', s⟩, hSecond, hFacts⟩
  simp only [Prod.mk.injEq] at hFacts
  rcases hFacts with ⟨hOpen, hExist, hPos, hTwo⟩
  have hState : loadedSample = s := by
    rw [loadedSample, runAll_cons exec hFirst
      (runAll_cons exec hSecond rfl)]
    rfl
  have hStart : Call.InRange
      (.fopen [47, 102, 0] 114 .zero) fileSample := trivial
  have hSeek : Call.InRange (.fseek 1 .zero) u := trivial
  rcases exec_stepOk fileSample_imageOk (.of_closed rfl)
    hStart hFirst with ⟨owners', hStep⟩
  rcases Option.map_eq_some_iff.mp hSecond with
    ⟨⟨err, t⟩, hMove, hEq⟩
  cases hEq
  have hOut := ext2Fseek_outcome hStep.image hStep.file hOpen
    hExist (by rw [hPos]; decide) hMove
  have hLoaded := hOut.buff_of_lt (by decide)
    (by rw [hTwo]; decide)
  rw [hState]
  refine ⟨_, .snoc (.snoc .refl hStart hFirst) hSeek hSecond,
    ?_⟩
  intro hk
  have hBlock : s.file.block = (1 : UInt32).toNat / 4096 := by
    rw [File.block, hLoaded.1]
  simp only [hBlock]
  exact hLoaded.2

/- Labels of its blocks, and its image is well formed. -/
theorem loadedSample_ok :
    ∃ owners, ImageOk owners loadedSample ∧
      FileOk owners.live loadedSample := by
  rcases loadedSample_run with ⟨trace, hRun, -⟩
  rcases run_stepOk (fun _ _ _ hRange => hRange)
      fileSample_imageOk (.of_closed rfl) hRun with
    ⟨owners, hStep⟩
  exact ⟨owners, hStep.image, hStep.file⟩

/- Ten bytes at byte 1 of `/f` stay inside its first block. -/
theorem ext2Fwrite_overwrites_sample :
    ∃ owners t, ImageOk owners loadedSample ∧
      ext2Fwrite (fun _ => 7) 10 .zero loadedSample =
        some (0, t) ∧
      Overwrites owners loadedSample t (fun _ => 7) 10 := by
  rcases loadedSample_file with
    ⟨hOpen, hExist, hBlock, hOff, hHas, -⟩
  rcases loadedSample_run with ⟨-, -, hBuff⟩
  rcases loadedSample_ok with ⟨owners, hImage, hFile⟩
  have hWrite :
      (ext2Fwrite (fun _ => 7) 10 .zero loadedSample).map
        Prod.fst = some 0 := by
    decide +kernel
  rcases Option.map_eq_some_iff.mp hWrite with
    ⟨⟨err, t⟩, hWrite, hErr⟩
  subst hErr
  have hRange : WriteInRange 10 loadedSample := by
    refine ⟨fun _ => hBlock ▸ hHas, ?_⟩
    rw [hOff]
    intro _ hSpill
    exact absurd hSpill (by decide)
  refine ⟨owners, t, hImage, hWrite,
    (ext2Fwrite_overwrites_iff hImage hFile hOpen hExist hRange
      hBuff hWrite).mpr ?_⟩
  intro hSpill
  rw [hOff] at hSpill
  exact absurd hSpill (by decide)

/-
  Writing a block of data at byte 1 of `/f` spills one byte
  into its second block and zeroes the rest of that block.
-/
theorem ext2Fwrite_zeroes_tail :
    WriteInRange 4096 loadedSample ∧
    (∀ hk, loadedSample.file.buff =
      loadedSample.fileBlock loadedSample.file.block hk) ∧
    ∃ owners t, ImageOk owners loadedSample ∧
      FileOk owners.live loadedSample ∧
      loadedSample.file.isOpen ∧ loadedSample.file.exist ∧
      ext2Fwrite (fun _ => 7) 4096 .zero loadedSample =
        some (0, t) ∧
      loadedSample.fileByte 8191 = 1 ∧ t.fileByte 8191 = 0 ∧
      ¬ Overwrites owners loadedSample t (fun _ => 7) 4096 := by
  rcases loadedSample_file with
    ⟨hOpen, hExist, hBlock, hOff, hHas, hHas'⟩
  rcases loadedSample_run with ⟨-, -, hBuff⟩
  rcases loadedSample_ok with ⟨owners, hImage, hFile⟩
  have hWrite :
      (ext2Fwrite (fun _ => 7) 4096 .zero loadedSample).map
          (fun r => (r.1, r.2.fileByte 8191)) = some (0, 0) ∧
        loadedSample.fileByte 8191 = 1 := by
    decide +kernel
  rcases hWrite with ⟨hWrite, hByte⟩
  rcases Option.map_eq_some_iff.mp hWrite with
    ⟨⟨err, t⟩, hWrite, hEq⟩
  simp only [Prod.mk.injEq] at hEq
  rcases hEq with ⟨rfl, hByte'⟩
  have hRange : WriteInRange 4096 loadedSample :=
    ⟨fun _ => hBlock ▸ hHas, fun _ _ _ => hBlock ▸ hHas'⟩
  refine ⟨hRange, hBuff, owners, t, hImage, hFile, hOpen,
    hExist, hWrite, hByte, hByte', ?_⟩
  intro hOver
  have hPos := pos_eq loadedSample.file
  have hOwns := (hFile.editing hImage hOpen
    hExist).owns hHas'
  have hKept := hOver.kept 8191 (by decide) hOwns (by omega)
  rw [hByte, hByte'] at hKept
  exact absurd hKept (by decide)

end Ext2

end Ester
