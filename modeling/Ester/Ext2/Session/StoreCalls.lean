import Ester.Ext2.Session.Store

/-
  The calls of the file interface as steps of a store.

  Every call in range, be it successful or not, takes disk
  and descriptor from mirroring a store of files to mirroring
  the store one step later.

  Key definitions include:
    * `Call.op`
    * `Call.OpensUsed`

  Key theorems include:
    * `Mirrors.fopen`, `Mirrors.fclose`
    * `Mirrors.fread`, `Mirrors.fwrite`, `Mirrors.fseek`
    * `exec_mirrors`
-/

------------------------------------------------------------
-- Operations
------------------------------------------------------------

namespace Ester

namespace Ext2

open FileStore

/- The operation a call and its answer amount to. -/
def Call.op : Call → Answer → Op UInt8
  | .fopen _ _ _, _ => .opens
  | .fclose _, _ => .closes
  | .fread _ size, o => .reads size.toNat o.out
  | .fwrite data size _, _ => .writes size.toNat data
  | .fseek newPos _, _ => .seeks newPos.toNat

/- A file that is opened has a number in use. -/
def Call.OpensUsed : Call → Fs → Prop
  | .fopen pathname _ stack, s =>
      s.file.isOpen = false → ∀ n u,
        ext2InodeFind pathname stack s = some (n, u) →
          (s.inodeAt n).isFile → s.InodeUsed n
  | _, _ => True

------------------------------------------------------------
-- Calls
------------------------------------------------------------

section

variable {inodes : UInt32 → Prop}
variable {owners : Owners} {s t : Fs} {σ : Files}

/- Neither disk nor descriptor changes. -/
theorem Mirrors.same
    (hMirrors : Mirrors inodes s σ)
    (h : ImageOkFor inodes owners s)
    (hDisk : t.disk = s.disk)
    (hLayout : t.layout = s.layout)
    (hFile : t.file = s.file) :
    Mirrors inodes t σ := by
  have hSpares : SparesFiles owners 0 s t :=
    .of_disk hDisk hLayout
  refine ⟨hMirrors.holds.of_spares h hSpares, ?_⟩
  have hCursor := hMirrors.cursor
  have hPlaced {n : UInt32} {pos : Nat} {blank : Bool}
      (hOld : Placed s σ.known n pos blank) :
      Placed t σ.known n pos blank :=
    { isOpen := hFile ▸ hOld.isOpen
      exist := hFile ▸ hOld.exist
      num := hFile ▸ hOld.num
      used := hSpares.used n hOld.used
      atPos := hFile ▸ hOld.atPos
      buff := hFile ▸ hOld.buff }
  cases hAt : σ.cursor with
  | shut =>
      rw [hAt] at hCursor
      rw [CursorOk, hFile]
      exact hCursor
  | pending =>
      rw [hAt] at hCursor
      rw [CursorOk, hFile]
      exact hCursor
  | fresh n =>
      rw [hAt] at hCursor
      exact hPlaced hCursor
  | loaded n pos =>
      rw [hAt] at hCursor
      exact hPlaced hCursor

/- Opening. -/
theorem Mirrors.fopen
    {pathname : List UInt8}
    {mode : UInt8}
    {stack : FindStack}
    (hMirrors : Mirrors owners.live s σ)
    (h : ImageOk owners s)
    (hUsed : Call.OpensUsed (.fopen pathname mode stack) s)
    (hRun : ext2Fopen pathname mode stack s = some t) :
    ∃ τ, Step 4096 0 σ .opens true τ ∧
      Mirrors owners.live t τ := by
  rcases ext2Fopen_cases h hRun with
    ⟨inode, rfl⟩ |
      ⟨hClosed, n, u, mode', name, hFind, hValid, rfl⟩
  · exact ⟨σ, .notOpened, hMirrors.same h rfl rfl rfl⟩
  · have hShut : σ.cursor = .shut := by
      have hCursor := hMirrors.cursor
      cases hAt : σ.cursor with
      | shut => rfl
      | pending =>
          rw [hAt] at hCursor
          exact absurd (hClosed.symm.trans hCursor.1) (by simp)
      | fresh n =>
          rw [hAt] at hCursor
          exact absurd (hClosed.symm.trans hCursor.isOpen)
            (by simp)
      | loaded n pos =>
          rw [hAt] at hCursor
          exact absurd (hClosed.symm.trans hCursor.isOpen)
            (by simp)
    have hSpares : SparesFiles owners 0 s
        (s.opened n mode' name) := .of_disk rfl rfl
    have hHolds := hMirrors.holds.of_spares h hSpares
    cases hExist : (s.inodeAt n).isFile with
    | false =>
        exact ⟨_, .prepared hShut, hHolds, rfl, hExist, rfl⟩
    | true =>
        refine ⟨_, .opened n hShut, hHolds, ?_⟩
        exact
          { isOpen := rfl
            exist := hExist
            num := rfl
            used := hSpares.used n
              (hUsed hClosed n u hFind hExist)
            atPos := rfl
            buff := fun x b hKnown hFirst => by
              have hBlank := wipe_inside 4096 (0 : UInt8)
                σ.known n hFirst
              have hZero : b = 0 := Option.some.inj
                (hKnown.symm.trans hBlank)
              rw [hZero]
              exact ByteBuffer.get_fill_zero _ }

/- Reading. -/
theorem Mirrors.fread
    {out out' : Nat → UInt8}
    {size : UInt32}
    {code : UInt8}
    (hMirrors : Mirrors inodes s σ)
    (hFile : FileOk inodes s)
    (hSteady : s.Steady)
    (hRun : ext2Fread out size s = some (code, out', t)) :
    Step 4096 0 σ (.reads size.toNat out') (code == 0) σ := by
  by_cases hCode : code = 0
  · subst hCode
    cases hOpen : s.file.isOpen with
    | false =>
        rw [ext2Fread, if_pos (by simp [hOpen])] at hRun
        cases hRun
    | true =>
        cases hExist : s.file.exist with
        | false =>
            rcases hMirrors.pending hOpen hExist with
              ⟨hAt, hZeros⟩
            refine .readBlank _ _ (.inl hAt) (ext2Fread_blank
              hSteady hOpen ?_ ?_ hRun)
            · rw [hFile.fresh hOpen hExist]
              rfl
            · intro i _
              rw [hZeros]
              exact ByteBuffer.get_fill_zero i
        | true =>
            rcases hMirrors.reached hOpen hExist with
              ⟨pos, blank, hReached⟩
            cases hReached.reaches with
            | loaded _ hAt =>
                exact .read _ _ _ _ hAt
                  (hReached.read hFile hSteady hRun)
            | fresh hAt =>
                exact .readBlank _ _ (.inr ⟨_, hAt⟩)
                  (ext2Fread_blank hSteady hOpen
                    hReached.placed.atPos
                    (fun _ hi => hReached.placed.buff_zero hi)
                    hRun)
            | created hAt =>
                exact .readBlank _ _ (.inl hAt)
                  (ext2Fread_blank hSteady hOpen
                    hReached.placed.atPos
                    (fun _ hi => hReached.placed.buff_zero hi)
                    hRun)
  · have hFlag : (code == 0) = false := by
      simpa using hCode
    rw [hFlag]
    exact .refused _

/- Writing. -/
theorem Mirrors.fwrite
    {data : Nat → UInt8}
    {size : UInt32}
    {stack : CreateStack}
    {err : UInt8}
    (hMirrors : Mirrors owners.live s σ)
    (h : ImageOk owners s)
    (hFile : FileOk owners.live s)
    (hRange : s.file.isOpen → s.file.exist →
      WriteInRange size s)
    (hRun : ext2Fwrite data size stack s = some (err, t)) :
    ∃ owners', ImageStep owners s owners' t ∧
      ∃ τ, Step 4096 0 σ (.writes size.toNat data)
        (err == 0) τ ∧ Mirrors owners'.live t τ := by
  rcases ext2Fwrite_cases hRun with ⟨-, rfl, rfl⟩ | ⟨hOpen, -⟩
  · exact ⟨owners, .refl h hFile, σ, .refused _, hMirrors⟩
  · rcases ext2Fwrite_reaches h hFile hRange hRun with
      ⟨rfl, rfl⟩ | ⟨owners₁, code, v, hEnsure, hStep,
        ⟨hCode, rfl, rfl⟩ | ⟨rfl, hOpen', hExist, hEditing, hOut⟩⟩
    · exact ⟨owners, .refl h hFile, σ, .refused _, hMirrors⟩
    · exact ⟨owners₁, hStep, σ, .refused _,
        (hMirrors.ensure h hFile hOpen hEnsure
          hStep.labels).1 hCode⟩
    · rcases (hMirrors.ensure h hFile hOpen hEnsure
          hStep.labels).2 rfl with ⟨n, pos, blank, hReached⟩
      rcases hOut.stepOk hStep.file hOpen' hExist hEditing with
        ⟨owners', hLast, hLive⟩
      have hSpares : SparesFiles _ _ v t :=
        hOut.spares hEditing
      rw [hReached.placed.num] at hSpares
      refine ⟨owners', hStep.trans (hLast.imageStep hLive), ?_⟩
      rw [hLive]
      exact hReached.write hStep.image hStep.file hLast.file
        hSpares (hOut.stored hEditing)

/- Seeking. -/
theorem Mirrors.fseek
    {newPos : UInt32}
    {stack : CreateStack}
    {err : UInt8}
    (hMirrors : Mirrors owners.live s σ)
    (h : ImageOk owners s)
    (hFile : FileOk owners.live s)
    (hRun : ext2Fseek newPos stack s = some (err, t)) :
    ∃ owners', ImageStep owners s owners' t ∧
      ∃ τ, Step 4096 0 σ (.seeks newPos.toNat) (err == 0) τ ∧
        Mirrors owners'.live t τ := by
  cases hOpen : s.file.isOpen with
  | false =>
      rw [ext2Fseek, if_pos (by simp [hOpen])] at hRun
      cases hRun
      exact ⟨owners, .refl h hFile, σ, .refused _, hMirrors⟩
  | true =>
      rcases ext2Fseek_cases hRun with
        ⟨hSame, hClosed | ⟨hPos, rfl⟩⟩ |
          ⟨-, -, code, v, hEnsure, hRest⟩
      · exact absurd (hOpen.symm.trans hClosed) (by simp)
      · rw [hSame]
        refine ⟨owners, .refl h hFile, σ, .stayed _ ?_,
          hMirrors⟩
        rw [← hPos]
        cases hExist : s.file.exist with
        | false =>
            refine .inl ⟨(hMirrors.pending hOpen hExist).1, ?_⟩
            rw [hFile.fresh hOpen hExist]
            rfl
        | true =>
            rcases hMirrors.reached hOpen hExist with
              ⟨pos, blank, hReached⟩
            rw [hReached.placed.atPos]
            exact .inr ⟨_, _, hReached.reaches⟩
      · rcases ensureExists_stepOk h hFile hOpen hEnsure with
          ⟨⟨owners₁, hStep⟩, -⟩
        rcases hMirrors.ensure h hFile hOpen hEnsure
            hStep.labels with ⟨hFailed, hDone⟩
        rcases hRest with ⟨hCode, rfl, rfl⟩ | ⟨rfl, hSeek⟩
        · exact ⟨owners₁, hStep, σ, .refused _,
            hFailed hCode⟩
        · rcases hDone rfl with ⟨n, pos, blank, hReached⟩
          have hPlaced := hReached.placed
          have hEditing := hStep.file.editing hStep.image
            hPlaced.isOpen hPlaced.exist
          have hOut := seekExisting_outcome hEditing
            hStep.file.clean hSeek
          have hSpares : SparesFiles _ _ v t :=
            hOut.spares hEditing
          rw [hPlaced.num] at hSpares
          rcases hOut.stepOk hStep.file hPlaced.isOpen
              hPlaced.exist hEditing with
            ⟨owners', hLast, hLive⟩
          refine ⟨owners', hStep.trans (hLast.imageStep hLive),
            _, .sought n pos _ blank _ hReached.reaches, ?_⟩
          rw [hLive]
          exact hReached.seek hEditing hStep.file hLast.file
            hSpares hOut

/- Closing. -/
theorem Mirrors.fclose
    {stack : CreateStack}
    {err : UInt8}
    (hMirrors : Mirrors owners.live s σ)
    (h : ImageOk owners s)
    (hFile : FileOk owners.live s)
    (hRun : ext2Fclose stack s = some (err, t)) :
    ∃ τ, Step 4096 0 σ .closes (err == 0) τ ∧
      Mirrors owners.live t τ := by
  rcases ext2Fclose_cases hRun with
    ⟨-, rfl, rfl⟩ | ⟨hOpen, code, v, hEnsure, hReset⟩
  · exact ⟨σ, .refused _, hMirrors⟩
  · rcases ensureExists_stepOk h hFile hOpen hEnsure with
      ⟨⟨owners₁, hStep⟩, -⟩
    have hSpares := ((ensureExists_spares h hEnsure).1 0).trans
      (.refl owners)
      (.of_disk (t := resetFile v) rfl rfl)
    rw [hReset hStep.file.clean]
    exact ⟨_, .closed _,
      hMirrors.holds.of_spares h hSpares, rfl⟩

/- Every call in range is a step of the store. -/
theorem exec_mirrors
    {c : Call}
    {o : Answer}
    (hMirrors : Mirrors owners.live s σ)
    (h : ImageOk owners s)
    (hFile : FileOk owners.live s)
    (hRange : c.InRange s)
    (hUsed : c.OpensUsed s)
    (hRun : exec c s = some (o, t)) :
    ∃ owners', ImageStep owners s owners' t ∧
      ∃ τ, Step 4096 0 σ (c.op o) (o.code == 0) τ ∧
        Mirrors owners'.live t τ := by
  cases c with
  | fopen pathname mode stack =>
      rcases Option.map_eq_some_iff.mp hRun with
        ⟨v, hOpen, hEq⟩
      cases hEq
      exact ⟨owners, ext2Fopen_stepOk h hFile hOpen,
        hMirrors.fopen h hUsed hOpen⟩
  | fclose stack =>
      rcases Option.map_eq_some_iff.mp hRun with
        ⟨⟨code, v⟩, hClose, hEq⟩
      cases hEq
      rcases exec_stepOk (c := .fclose stack) h hFile trivial
          hRun with ⟨owners', hStep⟩
      rcases hMirrors.fclose h hFile hClose with
        ⟨τ, hStore, hNew⟩
      exact ⟨owners', hStep, τ, hStore,
        hNew.mono hStep.labels.live⟩
  | fread out size =>
      rcases Option.map_eq_some_iff.mp hRun with
        ⟨⟨code, out', v⟩, hRead, hEq⟩
      cases hEq
      have hSame := ext2Fread_same h.steady hRead
      subst hSame
      exact ⟨owners, .refl h hFile, σ,
        hMirrors.fread hFile h.steady hRead, hMirrors⟩
  | fwrite data size stack =>
      rcases Option.map_eq_some_iff.mp hRun with
        ⟨⟨code, v⟩, hWrite, hEq⟩
      cases hEq
      exact hMirrors.fwrite h hFile hRange hWrite
  | fseek newPos stack =>
      rcases Option.map_eq_some_iff.mp hRun with
        ⟨⟨code, v⟩, hSeek, hEq⟩
      cases hEq
      exact hMirrors.fseek h hFile hSeek

end

end Ext2

end Ester
