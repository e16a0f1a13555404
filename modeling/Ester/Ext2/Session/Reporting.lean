import Ester.Ext2.Session.Atomicity
import Ester.Ext2.Session.LostTransfers

/-
  Failures of the device that are reported as success.

  Writing, seeking and closing report every failure only
  where they make no transfer or cannot return 0 at all.

  Key definitions include:
    * `Call.creates`
    * `Call.Reports`
    * `Call.CanMislead`

  Key theorems include:
    * `Call.not_reports`, `Call.reports_of_quiet`
    * `reports_failures_iff`
    * `failures_reported_as_success`
-/

------------------------------------------------------------
-- Reporting
------------------------------------------------------------

namespace Ester

namespace Ext2

/- The arrays of the creation that a call attempts. -/
def Call.creates : Call → Fs → Option CreateStack
  | .fclose stack, s =>
      if s.file.isOpen ∧ ¬ s.file.exist then some stack
      else none
  | .fwrite _ _ stack, s =>
      if s.file.isOpen ∧ ¬ s.file.exist then some stack
      else none
  | .fseek newPos stack, s =>
      if s.file.isOpen ∧ s.file.pos ≠ newPos ∧
          ¬ s.file.exist then some stack
      else none
  | _, _ => none

/-
  Whatever the device answers, the call returns 0 only if all
  its transfers succeeded and, where it attempts to create
  the file, the creation did as well.
-/
def Call.Reports
    (c : Call)
    (s : Fs) : Prop :=
  ∀ faults o t, exec c (s.answering faults) = some (o, t) →
    o.code = 0 →
      AllSucceeded (s.answering faults) t ∧
        ∀ stack, c.creates s = some stack →
          ∃ u, ext2FileCreate stack (s.answering faults) =
            some (0, u)

/-
  The call makes a transfer, or attempts a creation, that can
  fail without the call returning an error.
-/
def Call.CanMislead : Call → Fs → Prop
  | .fclose stack, s =>
      s.file.isOpen ∧
        if s.file.exist then s.file.dirty ∧ FlushInside s
        else ∃ name, ParentSplits stack s name
  | .fwrite _ size stack, s =>
      s.file.isOpen ∧
        if s.file.exist then CanWrite size s
        else CanCreate stack s ∧ size.toNat ≤ 4096 ∧
          s.file.block < ext2NBlocks
  | .fseek newPos stack, s =>
      s.file.isOpen ∧ s.file.pos ≠ newPos ∧
        if s.file.exist then CanSeek newPos s
        else CanCreate stack s ∧ (s.file.dirty →
          newPos.toNat / 4096 ≠ s.file.block →
            s.file.block < ext2NBlocks)
  | _, _ => False

section

variable {s t : Fs}
variable {data : Nat → UInt8} {size newPos : UInt32}

/- A failure that is used up in a run that returns 0. -/
theorem Call.not_reports
    {c : Call}
    {o : Answer}
    {faults : List Fault}
    (hFails : HasFailure faults)
    (hCode : o.code = 0)
    (hRun : ∀ rest, exec c (s.answering (faults ++ rest)) =
      some (o, t.answering rest)) :
    ¬ c.Reports s := by
  intro hReports
  have hEnd := hRun []
  rw [List.append_nil] at hEnd
  exact hFails.not_allSucceeded rfl
    (hReports faults o _ hEnd hCode).1

section

variable {u : Fs} (h : CreatedFile s u)
include h

theorem CreatedFile.block :
    u.file.block = s.file.block := by
  rw [File.block, h.pos]
  rfl

theorem CreatedFile.canGrow :
    CanGrow u :=
  ⟨by rw [h.allocated]; decide, h.offers⟩

/- A write to the new file, wherever it lies. -/
theorem CreatedFile.canWrite
    (hFits : size.toNat ≤ 4096)
    (hPointer : s.file.block < ext2NBlocks) :
    CanWrite size u := by
  refine ⟨hFits, ?_, h.slot, fun _ => ?_⟩
  · rwa [h.block]
  · have hOne : (1 : UInt32).toNat = 1 := rfl
    rw [CanSpill, h.allocated, hOne, if_pos (by omega)]
    exact h.canGrow

/- A seek in the new file, wherever it goes. -/
theorem CreatedFile.canSeek
    (hFlush : s.file.dirty →
      newPos.toNat / 4096 ≠ s.file.block →
        s.file.block < ext2NBlocks) :
    CanSeek newPos u := by
  refine ⟨fun hDirty hOther => ⟨?_, fun _ => h.slot⟩, ?_⟩
  · rw [h.block] at hOther ⊢
    exact hFlush (h.dirty ▸ hDirty) hOther
  · have hOne : (1 : UInt32).toNat = 1 := rfl
    rw [h.allocated, hOne]
    split
    · exact ⟨h.canGrow, h.slot⟩
    · next hFirst =>
        have hZero : newPos.toNat / 4096 = 0 := by omega
        rw [hZero]
        decide

end

/- Creation with lost transfers, then a file that exists. -/
theorem ensureExists_failing
    {stack : CreateStack}
    (hL : s.layout.Ok)
    (hAbsent : s.file.exist = false)
    (hCan : CanCreate stack s) :
    ∃ faults u, HasFailure faults ∧ CreatedFile s u ∧
      ∀ rest, ensureExists stack
          (s.answering (faults ++ rest)) =
        some (0, (u : Fs).answering rest) := by
  rcases ext2FileCreate_failing hL hCan with
    ⟨faults, u, hFails, hCreate⟩
  have hFile := (ext2FileCreate_succeeds
    (s := s.answering (faults ++ [])) hL (hCreate [])).2
  refine ⟨faults, u, hFails,
    ⟨hFile.layout, hFile.exist, hFile.pos, hFile.dirty,
      hFile.newBytesCount, hFile.allocated, hFile.slot,
      hFile.offers⟩, fun rest => ?_⟩
  rw [ensureExists, Fs.answering_file, hAbsent]
  exact hCreate rest

/- A call that makes no transfer has nothing to report. -/
theorem Call.reports_of_quiet
    {c : Call}
    (hRuns : ∀ faults o t,
      exec c (s.answering faults) = some (o, t) →
        o.code = 0 →
          c.CanMislead s ∨
            (t.faults = faults ∧ c.creates s = none))
    (hNot : ¬ c.CanMislead s) :
    c.Reports s := by
  intro faults o t hRun hCode
  rcases (hRuns faults o t hRun hCode).resolve_left hNot with
    ⟨hFaults, hNone⟩
  refine ⟨.of_faults hFaults, fun stack hSome => ?_⟩
  rw [hNone] at hSome
  cases hSome

------------------------------------------------------------
-- Closing
------------------------------------------------------------

/- A buffer that is lost, or a creation that failed. -/
theorem fclose_misleads
    {stack : CreateStack}
    (hL : s.layout.Ok)
    (hCan : (Call.fclose stack).CanMislead s) :
    ¬ (Call.fclose stack).Reports s := by
  rcases hCan with ⟨hOpen, hCan⟩
  cases hExist : s.file.exist with
  | true =>
      rw [hExist, if_pos rfl] at hCan
      rcases flush_failing hL.blockSize hCan.2 with
        ⟨faults, u, hFails, -, hFlush⟩
      refine Call.not_reports (o := ⟨0, fun _ => 0⟩)
        (t := resetFile u) hFails rfl fun rest => ?_
      simp only [exec, ext2Fclose, ensureExists,
        Fs.answering_file, hOpen, hExist, hCan.1,
        not_true_eq_false, if_false, if_true, ne_eq,
        Option.bind_eq_bind, Option.bind_some, hFlush,
        Option.map_some]
      rfl
  | false =>
      rw [hExist, if_neg (by simp)] at hCan
      rcases hCan with ⟨name, hSplit⟩
      rcases ext2FileCreate_refusing hL hSplit with
        ⟨faults, u, hCreate⟩
      have hEnd := hCreate []
      rw [List.append_nil] at hEnd
      have hRun : exec (.fclose stack) (s.answering faults) =
          some (⟨0, fun _ => 0⟩,
            resetFile (u.answering [])) := by
        simp only [exec, ext2Fclose, ensureExists,
          Fs.answering_file, hOpen, hExist, hEnd,
          not_true_eq_false, if_false, ne_eq,
          Bool.false_eq_true, Option.bind_eq_bind,
          Option.bind_some]
        rfl
      have hCreates : (Call.fclose stack).creates s =
          some stack :=
        if_pos ⟨hOpen, by simp [hExist]⟩
      intro hReports
      rcases (hReports faults _ _ hRun rfl).2 stack
        hCreates with ⟨v, hCreated⟩
      cases hEnd.symm.trans hCreated

/- Closing makes no transfer, or its failure is not seen. -/
theorem fclose_quiet
    {stack : CreateStack}
    (hBlock : ext2GetBlockSize s = 4096)
    (faults : List Fault)
    (o : Answer)
    (t : Fs)
    (hRun : exec (.fclose stack) (s.answering faults) =
      some (o, t))
    (hCode : o.code = 0) :
    (Call.fclose stack).CanMislead s ∨
      (t.faults = faults ∧
        (Call.fclose stack).creates s = none) := by
  rcases Option.map_eq_some_iff.mp hRun with
    ⟨⟨code, u⟩, hClose, hEq⟩
  cases hEq
  change code = 0 at hCode
  subst hCode
  rw [ext2Fclose] at hClose
  split at hClose
  · cases hClose
  · next hOpen =>
      have hOpen : s.file.isOpen = true := not_not.mp hOpen
      rcases Option.bind_eq_some_iff.mp hClose with
        ⟨⟨err, v⟩, hEnsure, hClose⟩
      rw [ensureExists] at hEnsure
      split at hEnsure
      · next hExist =>
          have hExist : s.file.exist = true := hExist
          cases hEnsure
          simp only [ne_eq, not_true_eq_false, if_false]
            at hClose
          split at hClose
          · next hDirty =>
              rcases Option.bind_eq_some_iff.mp hClose with
                ⟨w, hFlush, -⟩
              rcases (flush_succeeds (s := s.answering faults)
                hBlock hFlush).1 with ⟨hPointer, hSlot⟩
              refine .inl ⟨hOpen, ?_⟩
              rw [if_pos hExist]
              exact ⟨hDirty, hPointer, hSlot⟩
          · cases hClose
            exact .inr ⟨rfl,
              if_neg fun h => h.2 hExist⟩
      · next hAbsent =>
          rcases ext2FileCreate_splits hEnsure with
            ⟨-, -, name, hSplit, -⟩
          refine .inl ⟨hOpen, ?_⟩
          rw [if_neg (by exact hAbsent)]
          exact ⟨name, hSplit⟩

------------------------------------------------------------
-- Writing and Seeking
------------------------------------------------------------

theorem fwrite_misleads
    {stack : CreateStack}
    (hL : s.layout.Ok)
    (hCan : (Call.fwrite data size stack).CanMislead s) :
    ¬ (Call.fwrite data size stack).Reports s := by
  rcases hCan with ⟨hOpen, hCan⟩
  cases hExist : s.file.exist with
  | true =>
      rw [hExist, if_pos rfl] at hCan
      rcases writeExisting_failing hL hCan data with
        ⟨faults, u, hFails, hWrite⟩
      refine Call.not_reports (o := ⟨0, fun _ => 0⟩)
        (t := u) hFails rfl fun rest => ?_
      simp only [exec, ext2Fwrite, ensureExists,
        Fs.answering_file, hOpen, hExist, not_true_eq_false,
        if_false, if_true, ne_eq, Option.bind_eq_bind,
        Option.bind_some, hWrite, Option.map_some]
  | false =>
      rw [hExist, if_neg (by simp)] at hCan
      rcases hCan with ⟨hCreate, hFits, hPointer⟩
      rcases ensureExists_failing hL hExist hCreate with
        ⟨faults, u, hFails, hFile, hEnsure⟩
      rcases writeExisting_failing (hFile.layout ▸ hL)
          (hFile.canWrite hFits hPointer) data with
        ⟨faults', v, -, hWrite⟩
      refine Call.not_reports (o := ⟨0, fun _ => 0⟩)
        (t := v) (hFails.append faults') rfl fun rest => ?_
      simp only [exec, ext2Fwrite, Fs.answering_file, hOpen,
        List.append_assoc, hEnsure, not_true_eq_false,
        if_false, ne_eq, Option.bind_eq_bind,
        Option.bind_some, hWrite, Option.map_some]

theorem fwrite_quiet
    {stack : CreateStack}
    (hL : s.layout.Ok)
    (faults : List Fault)
    (o : Answer)
    (t : Fs)
    (hRun : exec (.fwrite data size stack)
      (s.answering faults) = some (o, t))
    (hCode : o.code = 0) :
    (Call.fwrite data size stack).CanMislead s := by
  rcases Option.map_eq_some_iff.mp hRun with
    ⟨⟨code, u⟩, hWrite, hEq⟩
  cases hEq
  change code = 0 at hCode
  subst hCode
  rw [ext2Fwrite] at hWrite
  split at hWrite
  · cases hWrite
  · next hOpen =>
      refine ⟨not_not.mp hOpen, ?_⟩
      rcases Option.bind_eq_some_iff.mp hWrite with
        ⟨⟨err, v⟩, hEnsure, hWrite⟩
      dsimp only at hWrite
      by_cases hErr : err = 0
      · rw [if_neg (not_not.mpr hErr)] at hWrite
        rw [hErr, ensureExists] at hEnsure
        split at hEnsure
        · next hExist =>
            cases hEnsure
            rw [if_pos (by exact hExist)]
            rcases writeExisting_succeeds
              (s := s.answering faults) hL.blockSize hWrite
              with ⟨hFits, hPointer, hSlot, hSpill⟩
            exact ⟨hFits, hPointer, hSlot, fun h =>
              (KeepsExtent.answering s faults).canSpill
                (hSpill h)⟩
        · next hAbsent =>
            rcases ext2FileCreate_succeeds
              (s := s.answering faults) hL hEnsure with
              ⟨hCreate, hFile⟩
            have hCan := writeExisting_succeeds
              ((congrArg Layout.blockSize
                hFile.layout).trans hL.blockSize) hWrite
            have hPointer := hCan.pointer
            rw [hFile.block] at hPointer
            rw [if_neg (by exact hAbsent)]
            exact ⟨hCreate, hCan.fits, hPointer⟩
      · rw [if_pos hErr] at hWrite
        cases hWrite

theorem fseek_misleads
    {stack : CreateStack}
    (hL : s.layout.Ok)
    (hCan : (Call.fseek newPos stack).CanMislead s) :
    ¬ (Call.fseek newPos stack).Reports s := by
  rcases hCan with ⟨hOpen, hOther, hCan⟩
  cases hExist : s.file.exist with
  | true =>
      rw [hExist, if_pos rfl] at hCan
      rcases seekExisting_failing hL hCan with
        ⟨faults, u, hFails, hSeek⟩
      refine Call.not_reports (o := ⟨0, fun _ => 0⟩)
        (t := u) hFails rfl fun rest => ?_
      simp only [exec, ext2Fseek, ensureExists,
        Fs.answering_file, hOpen, hOther, hExist,
        not_true_eq_false, if_false, if_true, ne_eq,
        Option.bind_eq_bind, Option.bind_some, hSeek,
        Option.map_some]
  | false =>
      rw [hExist, if_neg (by simp)] at hCan
      rcases hCan with ⟨hCreate, hFlush⟩
      rcases ensureExists_failing hL hExist hCreate with
        ⟨faults, u, hFails, hFile, hEnsure⟩
      rcases seekExisting_failing (hFile.layout ▸ hL)
          (hFile.canSeek hFlush) with
        ⟨faults', v, -, hSeek⟩
      refine Call.not_reports (o := ⟨0, fun _ => 0⟩)
        (t := v) (hFails.append faults') rfl fun rest => ?_
      simp only [exec, ext2Fseek, Fs.answering_file, hOpen,
        hOther, List.append_assoc, hEnsure,
        not_true_eq_false, if_false, ne_eq,
        Option.bind_eq_bind, Option.bind_some, hSeek,
        Option.map_some]

/- A seek to the position itself makes no transfer. -/
theorem fseek_quiet
    {stack : CreateStack}
    (hL : s.layout.Ok)
    (faults : List Fault)
    (o : Answer)
    (t : Fs)
    (hRun : exec (.fseek newPos stack) (s.answering faults) =
      some (o, t))
    (hCode : o.code = 0) :
    (Call.fseek newPos stack).CanMislead s ∨
      (t.faults = faults ∧
        (Call.fseek newPos stack).creates s = none) := by
  rcases Option.map_eq_some_iff.mp hRun with
    ⟨⟨code, u⟩, hSeek, hEq⟩
  cases hEq
  change code = 0 at hCode
  subst hCode
  rw [ext2Fseek] at hSeek
  split at hSeek
  · cases hSeek
  · next hOpen =>
      split at hSeek
      · next hStill =>
          cases hSeek
          exact .inr ⟨rfl, if_neg fun h => h.2.1 hStill⟩
      · next hOther =>
          refine .inl ⟨not_not.mp hOpen, hOther, ?_⟩
          rcases Option.bind_eq_some_iff.mp hSeek with
            ⟨⟨err, v⟩, hEnsure, hSeek⟩
          dsimp only at hSeek
          by_cases hErr : err = 0
          · rw [if_neg (not_not.mpr hErr)] at hSeek
            rw [hErr, ensureExists] at hEnsure
            split at hEnsure
            · next hExist =>
                cases hEnsure
                rw [if_pos (by exact hExist)]
                exact (seekExisting_succeeds
                  (s := s.answering faults) hL.blockSize
                    hSeek).of_answering
            · next hAbsent =>
                rcases ext2FileCreate_succeeds
                  (s := s.answering faults) hL hEnsure with
                  ⟨hCreate, hFile⟩
                have hCan := seekExisting_succeeds
                  ((congrArg Layout.blockSize
                    hFile.layout).trans hL.blockSize) hSeek
                rw [if_neg (by exact hAbsent)]
                refine ⟨hCreate, fun hDirty hBlock => ?_⟩
                have hFlush := hCan.flush
                  (hFile.dirty.trans hDirty)
                  (by rwa [hFile.block])
                have hPointer := hFlush.pointer
                rwa [hFile.block] at hPointer
          · rw [if_pos hErr] at hSeek
            cases hSeek

------------------------------------------------------------
-- Every Pattern of Failures
------------------------------------------------------------

/-
  The allocators report every failure only where they have
  nothing to hand out, the three calls only where they cannot
  mislead.
-/
theorem reports_failures_iff
    (hL : s.layout.Ok) :
    (∀ r group, group.toNat < s.layout.groups →
      (AllocReports r group s ↔ AllUsed r group s)) ∧
    (∀ stack, (Call.fclose stack).Reports s ↔
      ¬ (Call.fclose stack).CanMislead s) ∧
    (∀ data size stack,
      (Call.fwrite data size stack).Reports s ↔
        ¬ (Call.fwrite data size stack).CanMislead s) ∧
    ∀ newPos stack, (Call.fseek newPos stack).Reports s ↔
      ¬ (Call.fseek newPos stack).CanMislead s := by
  refine ⟨fun r group hGroup => allocReports_iff hL r hGroup,
    fun stack => ⟨fun hReports hCan => ?_, ?_⟩,
    fun data size stack => ⟨fun hReports hCan => ?_, ?_⟩,
    fun newPos stack => ⟨fun hReports hCan => ?_, ?_⟩⟩
  · exact fclose_misleads hL hCan hReports
  · exact Call.reports_of_quiet (fclose_quiet hL.blockSize)
  · exact fwrite_misleads hL hCan hReports
  · exact Call.reports_of_quiet fun faults o t hRun hCode =>
      .inl (fwrite_quiet hL faults o t hRun hCode)
  · exact fseek_misleads hL hCan hReports
  · exact Call.reports_of_quiet (fseek_quiet hL)

/-
  On the image with the file `/f` neither allocator reports,
  because bits are clear.  Once `/f` is open, closing it,
  writing more than a block and seeking to its start report
  every failure.
-/
theorem reports_failures_fileSample :
    ∃ s, ext2Fopen [47, 102, 0] 114 .zero fileSample =
        some s ∧
      (∀ r, ¬ AllocReports r 0 s) ∧
      (∀ stack, (Call.fclose stack).Reports s) ∧
      (∀ data stack, (Call.fwrite data 4097 stack).Reports s) ∧
      ∀ stack, (Call.fseek 0 stack).Reports s := by
  have hFacts :
      (ext2Fopen [47, 102, 0] 114 .zero fileSample).map
        (fun s => ((s.file.exist, s.file.dirty, s.file.pos),
          (s.disk 2).bit 16, (s.disk 3).bit 16)) =
        some ((true, false, 0), false, false) := by
    decide +kernel
  rcases Option.map_eq_some_iff.mp hFacts with
    ⟨s, hOpen, hFacts⟩
  simp only [Prod.mk.injEq] at hFacts
  rcases hFacts with
    ⟨⟨hExist, hClean, hPos⟩, hBlocks, hInodes⟩
  have hStep := ext2Fopen_stepOk fileSample_imageOk
    (.of_closed rfl) hOpen
  have hLayout : s.layout = sampleLayout :=
    hStep.layout.trans fileSample_layout
  have hReports := reports_failures_iff
    (hLayout ▸ sampleLayout_ok : s.layout.Ok)
  have hGroup : (0 : UInt32).toNat < s.layout.groups := by
    rw [hLayout]
    decide
  refine ⟨s, hOpen, fun r hAlloc => ?_,
    fun stack => (hReports.2.1 stack).mpr ?_,
    fun data stack => (hReports.2.2.1 data 4097 stack).mpr ?_,
    fun stack => (hReports.2.2.2 0 stack).mpr ?_⟩
  · have hUsed := (hReports.1 r 0 hGroup).mp hAlloc 0 16 rfl
    rw [hLayout] at hUsed
    have hNumber : r.number s.sb 0 (UInt32.ofNat 16) ≠ 0 := by
      cases r <;> simp [Resource.number]
    have hBit := hUsed (by decide) hNumber
    cases r with
    | inode =>
        exact absurd (hInodes.symm.trans hBit) (by decide)
    | block =>
        exact absurd (hBlocks.symm.trans hBit) (by decide)
  · rintro ⟨-, hCan⟩
    rw [if_pos hExist] at hCan
    exact absurd (hClean.symm.trans hCan.1) (by decide)
  · rintro ⟨-, hCan⟩
    rw [if_pos hExist] at hCan
    exact absurd hCan.fits (by decide)
  · rintro ⟨-, hOther, -⟩
    exact hOther hPos

end

------------------------------------------------------------
-- Failures Without a Trace
------------------------------------------------------------

/- The inode bitmap is not written, inode 17 is handed out. -/
theorem lost_bitmap_unreported :
    ¬ AllocReports .inode 0 fileSample := by
  intro hReports
  have hFacts :
      (ext2FreeAlloc .inode 0
        (fileSample.answering [none, some (.fill _ 0)])).map
          (fun r => (r.1, (r.2.disk 3).bit 16)) =
        some (17, false) := by
    decide +kernel
  rcases Option.map_eq_some_iff.mp hFacts with
    ⟨⟨n, t⟩, hAlloc, hFacts⟩
  simp only [Prod.mk.injEq] at hFacts
  rcases hFacts with ⟨rfl, hClear⟩
  rcases hReports _ _ _ hAlloc (by decide) with
    ⟨g, i, hGroup, hNumber, hi, hBit⟩
  rw [fileSample_layout] at hi hBit
  have hMax : i < 32 := hi
  have hSixteen : i = 16 :=
    number_inj .inode sampleSb 0 (by omega) (by decide)
      hNumber.symm
  cases hGroup
  rw [hSixteen] at hBit
  exact absurd (hClear.symm.trans hBit) (by decide)

/- A byte written to `/f` is lost, and a block of it. -/
theorem lost_blocks_unreported :
    ∃ s, ext2Fopen [47, 102, 0] 114 .zero fileSample =
        some s ∧
      ¬ (Call.fwrite (fun _ => 65) 1 .zero).Reports s ∧
      ¬ (Call.fseek 4096 .zero).Reports s := by
  have hFacts :
      (ext2Fopen [47, 102, 0] 114 .zero fileSample).bind
        (fun s =>
          (exec (.fwrite (fun _ => 65) 1 .zero)
            (s.answering [some (.fill _ 0)])).bind fun w =>
          (exec (.fseek 4096 .zero)
            (s.answering [some (.fill _ 0)])).map fun m =>
              ((w.1.code, w.2.faults.length),
                m.1.code, m.2.faults.length)) =
        some ((0, 0), 0, 0) := by
    decide +kernel
  rcases Option.bind_eq_some_iff.mp hFacts with
    ⟨s, hOpen, hFacts⟩
  rcases Option.bind_eq_some_iff.mp hFacts with
    ⟨⟨w, t⟩, hWrite, hFacts⟩
  rcases Option.map_eq_some_iff.mp hFacts with
    ⟨⟨m, u⟩, hSeek, hFacts⟩
  simp only [Prod.mk.injEq, List.length_eq_zero_iff]
    at hFacts
  rcases hFacts with ⟨⟨hCode, hUsed⟩, hCode', hUsed'⟩
  have hFails : HasFailure [some (.fill _ 0)] :=
    ⟨_, List.mem_cons_self⟩
  refine ⟨s, hOpen, fun hReports => ?_, fun hReports => ?_⟩
  · exact hFails.not_allSucceeded hUsed
      (hReports _ _ _ hWrite hCode).1
  · exact hFails.not_allSucceeded hUsed'
      (hReports _ _ _ hSeek hCode').1

/- Closing cannot create the file, and returns 0. -/
theorem lost_file_unreported :
    ∃ s, ext2Fopen [47, 103, 0] 119 .zero fullSample =
        some s ∧
      ¬ (Call.fclose .zero).Reports s := by
  have hFacts :
      (ext2Fopen [47, 103, 0] 119 .zero fullSample).bind
        (fun s =>
          (exec (.fclose .zero) (s.answering [])).bind
            fun c =>
          (ext2FileCreate .zero (s.answering [])).map
            fun n =>
              ((s.file.isOpen, s.file.exist), c.1.code, n.1)) =
        some ((true, false), 0, 1) := by
    decide +kernel
  rcases Option.bind_eq_some_iff.mp hFacts with
    ⟨s, hOpen, hFacts⟩
  rcases Option.bind_eq_some_iff.mp hFacts with
    ⟨⟨c, t⟩, hClose, hFacts⟩
  rcases Option.map_eq_some_iff.mp hFacts with
    ⟨⟨n, u⟩, hCreate, hFacts⟩
  simp only [Prod.mk.injEq] at hFacts
  rcases hFacts with ⟨⟨hIsOpen, hAbsent⟩, hCode, rfl⟩
  refine ⟨s, hOpen, fun hReports => ?_⟩
  have hCreates : (Call.fclose .zero).creates s =
      some .zero :=
    if_pos ⟨hIsOpen, by simp [hAbsent]⟩
  rcases (hReports _ _ _ hClose hCode).2 _ hCreates with
    ⟨v, hCreated⟩
  cases hCreate.symm.trans hCreated

/-
  The inode bitmap is not written, but inode 17 is handed out.
  A byte written to `/f` is lost, and so is the block of `/f`
  that a seek loads.  When every block is in use, closing `/g`
  cannot create it and returns 0.
-/
theorem failures_reported_as_success :
    ImageOk fileSampleOwners fileSample ∧
      ¬ AllocReports .inode 0 fileSample ∧
      (∃ s, ext2Fopen [47, 102, 0] 114 .zero fileSample =
          some s ∧
        ¬ (Call.fwrite (fun _ => 65) 1 .zero).Reports s ∧
        ¬ (Call.fseek 4096 .zero).Reports s) ∧
      ImageOk fileSampleOwners fullSample ∧
      ∃ s, ext2Fopen [47, 103, 0] 119 .zero fullSample =
          some s ∧
        ¬ (Call.fclose .zero).Reports s :=
  ⟨fileSample_imageOk, lost_bitmap_unreported,
    lost_blocks_unreported, fullSample_imageOk,
    lost_file_unreported⟩

end Ext2

end Ester
