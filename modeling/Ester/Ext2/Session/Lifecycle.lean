import Ester.Library.Run
import Ester.Ext2.Session.Frame
import Ester.Ext2.SampleImage

/-
  The life of the descriptor, on every image.

  A path is copied into the descriptor without its
  terminator.  The name is right because the descriptor is
  all zero whenever it is not open, and every call either
  leaves it alone, keeps its name, resets it, or opens it.

  Key definitions include:
    * `Call.ShortPath`, `Call.Refused`
    * `Touches`
    * `OpenedBy`

  Key theorems include:
    * `exec_touches`
    * `descriptor_lifecycle`
-/

------------------------------------------------------------
-- Calls
------------------------------------------------------------

namespace Ester

namespace Ext2

/- The path an opening is given fits its array. -/
def Call.ShortPath : Call → Prop
  | .fopen pathname _ _ =>
      ∀ len, strlen pathname = some len → len < maxPathLen
  | _ => True

/-
  Opening is refused while a file is open, and for a missing
  file in another mode than `w`; everything else is refused
  while no file is open.
-/
def Call.Refused : Call → Fs → Prop
  | .fopen pathname mode stack, s =>
      s.file.isOpen ∨ (mode ≠ 119 ∧
        ∀ n u v, ext2InodeFind pathname stack s = some (n, u) →
          ext2ExtractInode n u = some v →
            v.currentInode.isFile = false)
  | _, s => s.file.isOpen = false

/- What a call may do to the descriptor. -/
inductive Touches
    (c : Call)
    (s t : Fs) : Prop
  | untouched
      (hSame : Untouched s t) :
      Touches c s t
  | kept
      (hOpen : s.file.isOpen)
      (hName : KeepsName s t) :
      Touches c s t
  | closed
      (hOpen : s.file.isOpen)
      (hReset : t.file = File.closed) :
      Touches c s t
  | opened
      (pathname : List UInt8)
      (mode : UInt8)
      (stack : FindStack)
      (len : Nat)
      (hCall : c = .fopen pathname mode stack)
      (hClosed : s.file.isOpen = false)
      (hOpen : t.file.isOpen)
      (hClean : t.file.dirty = false)
      (hNoNew : t.file.newBytesCount = 0)
      (hLen : strlen pathname = some len)
      (hName : memcpy s.file.pathname 0
        (fun i => pathname.getD i 0) len =
          some t.file.pathname) :
      Touches c s t

section

variable {s t : Fs}

/- Filling the descriptor copies the path into it. -/
theorem openFile_touches
    {pathname : List UInt8}
    {mode mode' : UInt8}
    {stack : FindStack}
    {n : UInt32}
    {exist : Bool}
    {u : Fs}
    (hSame : Untouched s u)
    (hClosed : s.file.isOpen = false)
    (hOpen : openFile pathname mode n exist u = some t) :
    Touches (.fopen pathname mode' stack) s t := by
  simp only [openFile, Option.bind_eq_bind,
    Option.bind_eq_some_iff] at hOpen
  rcases hOpen with ⟨len, hLen, name, hName, hOpen⟩
  cases hOpen
  rw [hSame.file] at hName
  exact .opened pathname mode' stack len rfl hClosed rfl rfl
    rfl hLen hName

theorem ext2Fopen_touches
    {pathname : List UInt8}
    {mode : UInt8}
    {stack : FindStack}
    (hRun : ext2Fopen pathname mode stack s = some t) :
    Touches (.fopen pathname mode stack) s t := by
  simp only [ext2Fopen, fopenWith, Option.bind_eq_bind,
    Option.bind_eq_some_iff] at hRun
  rcases hRun with ⟨len, -, hRun⟩
  split at hRun
  · cases hRun
    exact .untouched (.refl s)
  · split at hRun
    · cases hRun
      exact .untouched (.refl s)
    · next hClosed =>
        have hClosed := Bool.eq_false_iff.mpr hClosed
        simp only [Option.bind_eq_some_iff] at hRun
        rcases hRun with ⟨⟨n, u⟩, hFind, v, hExtract, hRun⟩
        have hSame := (ext2InodeFind_untouched hFind).trans
          (ext2ExtractInode_untouched hExtract)
        split at hRun
        · split at hRun
          · cases hRun
            exact .untouched hSame
          · exact openFile_touches hSame hClosed hRun
        · exact openFile_touches hSame hClosed hRun

theorem ext2Fclose_touches
    {stack : CreateStack}
    {err : UInt8}
    (hRun : ext2Fclose stack s = some (err, t)) :
    Touches (.fclose stack) s t := by
  rw [ext2Fclose] at hRun
  split at hRun
  · cases hRun
    exact .untouched (.refl s)
  · next hOpen =>
      have hReset : t.file = File.closed := by
        simp only [Option.bind_eq_bind,
          Option.bind_eq_some_iff] at hRun
        rcases hRun with ⟨⟨code, u⟩, -, hRun⟩
        split at hRun
        · cases hRun
          rfl
        · split at hRun
          · simp only [Option.bind_eq_some_iff] at hRun
            rcases hRun with ⟨v, -, hRun⟩
            cases hRun
            rfl
          · cases hRun
            rfl
      exact .closed (not_not.mp hOpen) hReset

theorem ext2Fwrite_touches
    {data : Nat → UInt8}
    {size : UInt32}
    {stack : CreateStack}
    {err : UInt8}
    (hRun : ext2Fwrite data size stack s = some (err, t)) :
    Touches (.fwrite data size stack) s t := by
  rw [ext2Fwrite] at hRun
  split at hRun
  · cases hRun
    exact .untouched (.refl s)
  · next hOpen =>
      simp only [Option.bind_eq_bind,
        Option.bind_eq_some_iff] at hRun
      rcases hRun with ⟨⟨code, u⟩, hEnsure, hRun⟩
      have hEnsured := ensureExists_keepsName hEnsure
      refine .kept (not_not.mp hOpen) ?_
      split at hRun
      · cases hRun
        exact hEnsured
      · exact hEnsured.trans (writeExisting_keepsName hRun)

theorem ext2Fseek_touches
    {newPos : UInt32}
    {stack : CreateStack}
    {err : UInt8}
    (hRun : ext2Fseek newPos stack s = some (err, t)) :
    Touches (.fseek newPos stack) s t := by
  rw [ext2Fseek] at hRun
  split at hRun
  · cases hRun
    exact .untouched (.refl s)
  · next hOpen =>
      split at hRun
      · cases hRun
        exact .untouched (.refl s)
      · simp only [Option.bind_eq_bind,
          Option.bind_eq_some_iff] at hRun
        rcases hRun with ⟨⟨code, u⟩, hEnsure, hRun⟩
        have hEnsured := ensureExists_keepsName hEnsure
        refine .kept (not_not.mp hOpen) ?_
        split at hRun
        · cases hRun
          exact hEnsured
        · exact hEnsured.trans (seekExisting_keepsName hRun)

/- Every call touches the descriptor in one of these ways. -/
theorem exec_touches
    {c : Call}
    {o : Answer}
    (hRun : exec c s = some (o, t)) :
    Touches c s t := by
  cases c with
  | fopen pathname mode stack =>
      rcases Option.map_eq_some_iff.mp hRun with
        ⟨u, hOpen, hEq⟩
      cases hEq
      exact ext2Fopen_touches hOpen
  | fclose stack =>
      rcases Option.map_eq_some_iff.mp hRun with
        ⟨⟨code, u⟩, hClose, hEq⟩
      cases hEq
      exact ext2Fclose_touches hClose
  | fread out size =>
      rcases Option.map_eq_some_iff.mp hRun with
        ⟨⟨code, out', u⟩, hRead, hEq⟩
      cases hEq
      exact .untouched (ext2Fread_untouched hRead)
  | fwrite data size stack =>
      rcases Option.map_eq_some_iff.mp hRun with
        ⟨⟨code, u⟩, hWrite, hEq⟩
      cases hEq
      exact ext2Fwrite_touches hWrite
  | fseek newPos stack =>
      rcases Option.map_eq_some_iff.mp hRun with
        ⟨⟨code, u⟩, hSeek, hEq⟩
      cases hEq
      exact ext2Fseek_touches hSeek

/- An opening that is refused only looks things up. -/
theorem ext2Fopen_refused
    {pathname : List UInt8}
    {mode : UInt8}
    {stack : FindStack}
    (hRefused : (Call.fopen pathname mode stack).Refused s)
    (hRun : ext2Fopen pathname mode stack s = some t) :
    Untouched s t := by
  simp only [ext2Fopen, fopenWith, Option.bind_eq_bind,
    Option.bind_eq_some_iff] at hRun
  rcases hRun with ⟨len, -, hRun⟩
  split at hRun
  · cases hRun
    exact .refl s
  · split at hRun
    · cases hRun
      exact .refl s
    · next hClosed =>
        simp only [Option.bind_eq_some_iff] at hRun
        rcases hRun with ⟨⟨n, u⟩, hFind, v, hExtract, hRun⟩
        have hSame := (ext2InodeFind_untouched hFind).trans
          (ext2ExtractInode_untouched hExtract)
        rcases hRefused with hOpen | ⟨hMode, hMissing⟩
        · exact absurd hOpen hClosed
        · have hNotFile := hMissing n u v hFind hExtract
          rw [hNotFile, if_pos Bool.false_ne_true,
            if_pos hMode] at hRun
          cases hRun
          exact hSame

/- A refused call changes neither descriptor nor disk. -/
theorem exec_refused
    {c : Call}
    {o : Answer}
    (hRefused : c.Refused s)
    (hRun : exec c s = some (o, t)) :
    Untouched s t := by
  have hNotOpen (hClosed : s.file.isOpen = false) :
      ¬ s.file.isOpen = true := by
    rw [hClosed]
    exact Bool.false_ne_true
  cases c with
  | fopen pathname mode stack =>
      rcases Option.map_eq_some_iff.mp hRun with
        ⟨u, hOpen, hEq⟩
      cases hEq
      exact ext2Fopen_refused hRefused hOpen
  | fread out size =>
      rcases Option.map_eq_some_iff.mp hRun with
        ⟨⟨code, out', u⟩, hRead, hEq⟩
      cases hEq
      exact ext2Fread_untouched hRead
  | fclose stack =>
      rw [exec, ext2Fclose, if_pos (hNotOpen hRefused)] at hRun
      cases hRun
      exact .refl s
  | fwrite data size stack =>
      rw [exec, ext2Fwrite, if_pos (hNotOpen hRefused)] at hRun
      cases hRun
      exact .refl s
  | fseek newPos stack =>
      rw [exec, ext2Fseek, if_pos (hNotOpen hRefused)] at hRun
      cases hRun
      exact .refl s

------------------------------------------------------------
-- Runs
------------------------------------------------------------

/-
  The opening of the file a run ends with: it found the
  descriptor closed and left it open, and every call after
  it found the descriptor open.
-/
def OpenedBy
    (s₀ : Fs)
    (trace : List (Call × Answer))
    (s : Fs)
    (pathname : List UInt8) : Prop :=
  ∃ before mode stack o after u v,
    trace =
        before ++ (.fopen pathname mode stack, o) :: after ∧
      GuardedRun exec (fun c _ _ => c.ShortPath) s₀ before u ∧
      u.file.isOpen = false ∧
      exec (.fopen pathname mode stack) u = some (o, v) ∧
      v.file.isOpen ∧
      GuardedRun exec
        (fun c _ w => c.ShortPath ∧ w.file.isOpen) v after s

/- One more call on an open descriptor. -/
theorem OpenedBy.snoc
    {s₀ : Fs}
    {trace : List (Call × Answer)}
    {pathname : List UInt8}
    {c : Call}
    {o : Answer}
    (h : OpenedBy s₀ trace s pathname)
    (hShort : c.ShortPath)
    (hOpen : s.file.isOpen)
    (hRun : exec c s = some (o, t)) :
    OpenedBy s₀ (trace ++ [(c, o)]) t pathname := by
  rcases h with ⟨before, mode, stack, o₁, after, u, v, hTrace,
    hBefore, hClosed, hOpening, hOpened, hAfter⟩
  refine ⟨before, mode, stack, o₁, after ++ [(c, o)], u, v,
    ?_, hBefore, hClosed, hOpening, hOpened,
    hAfter.snoc ⟨hShort, hOpen⟩ hRun⟩
  rw [hTrace, List.append_assoc, List.cons_append]

/- A short path copied over zeros is terminated. -/
theorem showsText_of_zeros
    {pathname : List UInt8}
    {len : Nat}
    {name : ByteBuffer maxPathLen}
    (hLen : strlen pathname = some len)
    (hShort : len < maxPathLen)
    (hName : memcpy (.fill maxPathLen 0) 0
      (fun i => pathname.getD i 0) len = some name) :
    name.ShowsText 0 (cString pathname) := by
  rcases memcpy_eq_some_iff.mp hName with ⟨-, rfl⟩
  have hLength := ((strlen_eq_some_iff _ _).mp hLen).2
  constructor
  · intro k hk
    rw [ByteBuffer.get_splice _ _ _ _ (by omega),
      if_pos (by omega)]
    simpa using getD_eq_cString pathname hk
  · rw [hLength, ByteBuffer.get_splice _ _ _ _ (by omega),
      if_neg (by omega)]
    exact ByteBuffer.get_fill_zero _
  · omega

/-
  In every reachable state nothing is pending, a descriptor
  that is not open is all zero, and one that is open shows
  the path it was opened with.
-/
structure Lifecycle
    (s₀ : Fs)
    (trace : List (Call × Answer))
    (s : Fs) : Prop where
  clean : s.file.dirty = false
  noNew : s.file.newBytesCount = 0
  zero : s.file.isOpen = false → s.file = File.closed
  named :
    s.file.isOpen → ∃ pathname,
      OpenedBy s₀ trace s pathname ∧
        s.file.pathname.ShowsText 0 (cString pathname)

/- One call keeps the life of the descriptor. -/
theorem Lifecycle.step
    {s₀ : Fs}
    {trace : List (Call × Answer)}
    {c : Call}
    {o : Answer}
    (h : Lifecycle s₀ trace s)
    (hBefore :
      GuardedRun exec (fun c _ _ => c.ShortPath) s₀ trace s)
    (hShort : c.ShortPath)
    (hRun : exec c s = some (o, t)) :
    Lifecycle s₀ (trace ++ [(c, o)]) t := by
  -- an open descriptor that stays open keeps its opening
  have hStays (hOpen : s.file.isOpen)
      (hName : t.file.pathname = s.file.pathname) :
      ∃ pathname, OpenedBy s₀ (trace ++ [(c, o)]) t pathname ∧
        t.file.pathname.ShowsText 0 (cString pathname) := by
    rcases h.named hOpen with ⟨pathname, hOpened, hShows⟩
    exact ⟨pathname, hOpened.snoc hShort hOpen hRun,
      hName ▸ hShows⟩
  cases exec_touches hRun with
  | untouched hSame =>
      exact
        { clean := hSame.file ▸ h.clean
          noNew := hSame.file ▸ h.noNew
          zero := hSame.file ▸ h.zero
          named := fun hOpen =>
            hStays (hSame.file ▸ hOpen)
              (congrArg File.pathname hSame.file) }
  | kept hOpen hName =>
      exact
        { clean := hName.clean h.clean
          noNew := hName.noNew h.noNew
          zero := fun hClosed => by
            rw [hName.isOpen, hOpen] at hClosed
            exact absurd hClosed (by simp)
          named := fun _ => hStays hOpen hName.pathname }
  | closed hOpen hReset =>
      exact
        { clean := by rw [hReset]; rfl
          noNew := by rw [hReset]; rfl
          zero := fun _ => hReset
          named := fun hStill => by
            rw [hReset] at hStill
            exact absurd hStill Bool.false_ne_true }
  | opened pathname mode stack len hCall hClosed hOpen hClean
      hNoNew hLen hName =>
      subst hCall
      rw [h.zero hClosed] at hName
      exact
        { clean := hClean
          noNew := hNoNew
          zero := fun hNot => by
            rw [hOpen] at hNot
            exact absurd hNot (by simp)
          named := fun _ => ⟨pathname,
            ⟨trace, mode, stack, o, [], s, t, rfl, hBefore,
              hClosed, hRun, hOpen, .refl⟩,
            showsText_of_zeros hLen (hShort len hLen) hName⟩ }

/-
  From boot, on every image: nothing is ever pending, also
  where closing and seeking test it, a descriptor that is not
  open is zero, an open one shows the path of its opening,
  and refused calls change neither descriptor nor disk.
-/
theorem descriptor_lifecycle
    {s₀ : Fs}
    (hBoot : s₀.file = File.closed)
    {trace : List (Call × Answer)}
    (hRun : GuardedRun exec (fun c _ _ => c.ShortPath)
      s₀ trace s) :
    (s.file.dirty = false ∧ s.file.newBytesCount = 0 ∧
      ∀ stack code u, ensureExists stack s = some (code, u) →
        u.file.dirty = false) ∧
    (s.file.isOpen = false → s.file = File.closed) ∧
    (s.file.isOpen → ∃ pathname,
      OpenedBy s₀ trace s pathname ∧
        s.file.pathname.ShowsText 0 (cString pathname)) ∧
    ∀ c o t, c.Refused s → exec c s = some (o, t) →
      t.file = s.file ∧ t.disk = s.disk := by
  have hLife : Lifecycle s₀ trace s := by
    induction hRun with
    | refl =>
        exact
          { clean := by rw [hBoot]; rfl
            noNew := by rw [hBoot]; rfl
            zero := fun _ => hBoot
            named := fun hOpen => by
              rw [hBoot] at hOpen
              exact absurd hOpen Bool.false_ne_true }
    | snoc hBefore hShort hStep ih =>
        exact ih.step hBefore hShort hStep
  refine ⟨⟨hLife.clean, hLife.noNew, ?_⟩, hLife.zero,
    hLife.named, ?_⟩
  · intro stack code u hEnsure
    exact (ensureExists_keepsName hEnsure).clean hLife.clean
  · intro c o t hRefused hStep
    have hSame := exec_refused hRefused hStep
    exact ⟨hSame.file, hSame.disk⟩

end

/- Opening `/f` for reading and seeking in it. -/
theorem descriptor_lifecycle_sample :
    ∃ trace s, GuardedRun exec (fun c _ _ => c.ShortPath)
        fileSample trace s ∧
      s.file.pos = 5000 ∧ s.file.dirty = false ∧
        ∃ pathname, OpenedBy fileSample trace s pathname ∧
          s.file.pathname.ShowsText 0 (cString pathname) := by
  have hFacts :
      ((exec (.fopen [47, 102, 0] 114 .zero) fileSample).bind
        fun r => (exec (.fseek 5000 .zero) r.2).map fun q =>
          (q.2.file.isOpen, q.2.file.pos)) =
        some (true, 5000) := by
    decide +kernel
  rcases Option.bind_eq_some_iff.mp hFacts with
    ⟨⟨o, u⟩, hFirst, hFacts⟩
  rcases Option.map_eq_some_iff.mp hFacts with
    ⟨⟨o', v⟩, hSecond, hFacts⟩
  have hOpen := congrArg Prod.fst hFacts
  have hPos := congrArg Prod.snd hFacts
  have hShort :
      (Call.fopen [47, 102, 0] 114 .zero).ShortPath := by
    intro len hLen
    cases hLen
    decide
  have hStart : GuardedRun exec (fun c _ _ => c.ShortPath)
      fileSample [] fileSample := .refl
  have hSeek : (Call.fseek 5000 .zero).ShortPath := trivial
  have hRun := (hStart.snoc hShort hFirst).snoc hSeek hSecond
  have hLife := descriptor_lifecycle rfl hRun
  exact ⟨_, v, hRun, hPos, hLife.1.1, hLife.2.2.1 hOpen⟩

end Ext2

end Ester
