import Ester.Library.Run
import Ester.Ext2.Cwd
import Ester.Ext2.SampleImage

/-
  The name of the current working directory.

  Every change copies the characters of the new name over
  the old one but not their end.  The name is right when a
  slash at its end is turned into the terminator, or when a
  zero happens to stand behind it; which byte stands there
  is decided by the latest earlier name that was longer.

  Key definitions include:
    * `EndsInSlash`, `shownName`
    * `ShowsName`
    * `EndClear`

  Key theorems include:
    * `get_storeName`
    * `showsName_iff`
    * `cwd_name_iff`
-/

------------------------------------------------------------
-- Storing a Name
------------------------------------------------------------

namespace Ester

namespace Ext2

/- The name is not the root and its last character is `/`. -/
def EndsInSlash
    (path : List UInt8) : Prop :=
  cString path ≠ [slash] ∧
    path.getD ((cString path).length - 1) 0 = slash

instance
    (path : List UInt8) :
    Decidable (EndsInSlash path) := by
  unfold EndsInSlash
  infer_instance

/- A path without the slash at its end. -/
def shownName
    (path : List UInt8) : List UInt8 :=
  if EndsInSlash path then (cString path).dropLast
  else cString path

/- A non-empty absolute path shorter than MAX_PATH_LEN. -/
structure AbsoluteName
    (path : List UInt8) : Prop where
  terminated : Terminated path
  absolute : (cString path).head? = some slash
  length_lt : (cString path).length < maxPathLen

theorem AbsoluteName.length_pos
    {path : List UInt8}
    (h : AbsoluteName path) :
    0 < (cString path).length :=
  List.length_pos_of_mem (List.mem_of_mem_head? h.absolute)

/- The name is a string, the path without its last slash. -/
structure ShowsName
    (cwd : Cwd)
    (path : List UInt8) : Prop where
  terminated : Terminated (cwd.cwdName.bytesFrom 0)
  name : cString (cwd.cwdName.bytesFrom 0) = shownName path

section

variable {path : List UInt8}
variable {buff name : ByteBuffer maxPathLen}

/- The bytes after a name has been stored. -/
theorem get_storeName
    (hPath : AbsoluteName path)
    (hStore : storeName path buff = some name)
    {i : Nat}
    (hi : i < maxPathLen) :
    name.get i =
      if i < (cString path).length then
        if EndsInSlash path ∧ i + 1 = (cString path).length
        then 0
        else path.getD i 0
      else buff.get i := by
  have hPos := hPath.length_pos
  have hSlash : Terminated [slash, 0] := by decide
  have hLen := strlen_of_terminated hPath.terminated
  have hSome := strcmp_isSome hPath.terminated hSlash
  rcases Option.isSome_iff_exists.mp hSome with ⟨cmp, hCmp⟩
  have hZero := strcmp_eq_zero_iff hPath.terminated hSlash
  rw [hCmp, Option.some.injEq] at hZero
  have hRoot : cString [slash, 0] = [slash] := by decide
  rw [hRoot] at hZero
  simp only [storeName, hLen, hCmp, Option.bind_eq_bind,
    Option.bind_some, Option.bind_eq_some_iff,
    memcpy_eq_some_iff] at hStore
  rcases hStore with ⟨copied, ⟨-, rfl⟩, hStore⟩
  have hCopied : (buff.splice 0 (cString path).length
      fun i => path.getD i 0).get i =
        if i < (cString path).length then path.getD i 0
        else buff.get i := by
    rw [ByteBuffer.get_splice _ _ _ _ hi, Nat.sub_zero]
    simp
  by_cases hEnds : EndsInSlash path
  · rw [if_pos (hZero.not.mpr hEnds.1),
      if_neg (Nat.ne_of_gt hPos), if_pos hEnds.2] at hStore
    cases hStore
    rw [ByteBuffer.get_store _ _ _ hi, hCopied]
    by_cases hLast : i + 1 = (cString path).length
    · rw [if_pos (by omega), if_pos (by omega),
        if_pos ⟨hEnds, hLast⟩]
    · have hOther : ¬ i = (cString path).length - 1 := by
        omega
      have hNot : ¬ (EndsInSlash path ∧
          i + 1 = (cString path).length) :=
        fun h => hLast h.2
      rw [if_neg hOther, if_neg hNot]
  · have hSame : name = buff.splice 0 (cString path).length
        fun i => path.getD i 0 := by
      split at hStore
      · next hNotRoot =>
          rw [if_neg (Nat.ne_of_gt hPos)] at hStore
          split at hStore
          · next hLast =>
              exact absurd ⟨hZero.not.mp hNotRoot, hLast⟩
                hEnds
          · cases hStore
            rfl
      · cases hStore
        rfl
    have hNot : ¬ (EndsInSlash path ∧
        i + 1 = (cString path).length) :=
      fun h => hEnds h.1
    rw [hSame, hCopied, if_neg hNot]

/-
  The stored name is right exactly when the path ends in a
  slash or a zero stood behind it before.
-/
theorem showsName_iff
    (hPath : AbsoluteName path)
    (hStore : storeName path buff = some name)
    (num : UInt32) :
    ShowsName ⟨num, name⟩ path ↔
      EndsInSlash path ∨
        buff.get (cString path).length = 0 := by
  have hPos := hPath.length_pos
  have hLt := hPath.length_lt
  have hText : ∀ x ∈ cString path, x ≠ 0 :=
    fun x hx => ne_zero_of_mem_cString hx
  by_cases hEnds : EndsInSlash path
  · refine iff_of_true ?_ (.inl hEnds)
    have hShown : shownName path = (cString path).dropLast :=
      if_pos hEnds
    have hShows : name.ShowsText 0 (shownName path) := by
      rw [hShown]
      constructor
      · intro k hk
        rw [List.length_dropLast] at hk
        rw [Nat.zero_add, get_storeName hPath hStore
            (by omega), if_pos (by omega),
          if_neg (by omega), List.getElem_dropLast]
        exact getD_eq_cString path (by omega)
      · rw [List.length_dropLast, Nat.zero_add,
          get_storeName hPath hStore (by omega),
          if_pos (by omega), if_pos ⟨hEnds, by omega⟩]
      · rw [List.length_dropLast]
        omega
    refine ⟨hShows.terminated, hShows.cString_eq ?_⟩
    rw [hShown]
    exact fun x hx => hText x (List.mem_of_mem_dropLast hx)
  · have hShown : shownName path = cString path :=
      if_neg hEnds
    have hEnd := get_storeName hPath hStore hLt
    rw [if_neg (Nat.lt_irrefl _)] at hEnd
    rw [or_iff_right hEnds, ← hEnd]
    constructor
    · intro hShows
      have hStop := get_length_cString hShows.terminated
      rwa [hShows.name, hShown] at hStop
    · intro hStop
      have hShows : name.ShowsText 0 (shownName path) := by
        rw [hShown]
        constructor
        · intro k hk
          rw [Nat.zero_add, get_storeName hPath hStore
              (by omega), if_pos hk,
            if_neg (fun h => hEnds h.1)]
          exact getD_eq_cString path hk
        · rw [Nat.zero_add]
          exact hStop
        · omega
      refine ⟨hShows.terminated, hShows.cString_eq ?_⟩
      rw [hShown]
      exact hText

end

------------------------------------------------------------
-- Sequences of Changes
------------------------------------------------------------

/- Working directory and file system, and one change. -/
def cwdStep :
    StepFn (Cwd × Fs) (List UInt8 × FindStack) Unit :=
  fun c u => (ext2ChangeCwd c.1 c.2 u.1 u.2).map
    fun v => ((), v)

/-
  After these names, the latest one first, a zero stands at
  index `k`: the latest name of more than `k` characters, if
  any, ends in a slash at `k`.
-/
def EndClear :
    (earlier : List (List UInt8)) → (k : Nat) → Prop
  | [], _ => True
  | path :: earlier, k =>
      if k < (cString path).length then
        EndsInSlash path ∧ k + 1 = (cString path).length
      else EndClear earlier k

/- The names of a run of changes, the latest one first. -/
def earlierNames
    (trace : List ((List UInt8 × FindStack) × Unit)) :
    List (List UInt8) :=
  trace.reverse.map fun e => e.1.1

section

variable {cwd₀ : Cwd} {s₀ : Fs} {u v : Cwd × Fs}
variable {trace : List ((List UInt8 × FindStack) × Unit)}
variable {path : List UInt8} {stack : FindStack}

/- A change stores the name. -/
theorem cwdStep_storeName
    (hStep : cwdStep (path, stack) u = some ((), v)) :
    storeName path u.1.cwdName = some v.1.cwdName := by
  rcases Option.map_eq_some_iff.mp hStep with
    ⟨w, hChange, hEq⟩
  cases hEq
  simp only [ext2ChangeCwd, changeCwdWith,
    Option.bind_eq_bind, Option.bind_eq_some_iff] at hChange
  rcases hChange with
    ⟨_, -, _, -, name, hStore, hEq⟩
  cases hEq
  exact hStore

/- Initializing leaves the name of the root. -/
theorem ext2InitCwd_zero
    (hInit : ext2InitCwd Cwd.zero = some cwd₀) :
    ∀ k, 1 ≤ k → cwd₀.cwdName.get k = 0 := by
  simp only [ext2InitCwd, Option.bind_eq_bind,
    Option.bind_eq_some_iff, memcpy_eq_some_iff] at hInit
  rcases hInit with ⟨name, ⟨-, rfl⟩, hEq⟩
  cases hEq
  intro k hk
  rw [ByteBuffer.get_splice_of_outside _ _ (by omega)]
  exact ByteBuffer.get_fill_zero k

/- The zeros behind the first byte after a run. -/
theorem get_eq_zero_iff_endClear
    (hInit : ext2InitCwd Cwd.zero = some cwd₀)
    (hRun : GuardedRun cwdStep
      (fun c _ _ => AbsoluteName c.1) (cwd₀, s₀) trace u)
    {k : Nat}
    (hPos : 1 ≤ k)
    (hLt : k < maxPathLen) :
    u.1.cwdName.get k = 0 ↔
      EndClear (earlierNames trace) k := by
  induction hRun with
  | refl =>
      exact iff_of_true (ext2InitCwd_zero hInit k hPos)
        trivial
  | @snoc trace t u c o _ hPath hStep ih =>
      rcases c with ⟨path, stack⟩
      have hNames : earlierNames
          (trace ++ [((path, stack), o)]) =
            path :: earlierNames trace := by
        simp [earlierNames]
      have hByte := get_storeName hPath
        (cwdStep_storeName hStep) hLt
      rw [hNames, EndClear, hByte]
      by_cases hIn : k < (cString path).length
      · rw [if_pos hIn, if_pos hIn]
        split
        · next hLast => exact iff_of_true rfl hLast
        · next hNot =>
            refine iff_of_false ?_ hNot
            rw [getD_eq_cString path hIn]
            exact ne_zero_of_mem_cString
              (List.getElem_mem hIn)
      · rw [if_neg hIn, if_neg hIn]
        exact ih

/-
  After any run of changes from the initialized directory,
  the name shows the last path exactly when that path ends in
  a slash, or no earlier name left a character behind it.
-/
theorem cwd_name_iff
    (hInit : ext2InitCwd Cwd.zero = some cwd₀)
    (hRun : GuardedRun cwdStep
      (fun c _ _ => AbsoluteName c.1) (cwd₀, s₀) trace u)
    (hPath : AbsoluteName path)
    (hStep : cwdStep (path, stack) u = some ((), v)) :
    ShowsName v.1 path ↔
      EndsInSlash path ∨
        EndClear (earlierNames trace)
          (cString path).length := by
  rw [← get_eq_zero_iff_endClear hInit hRun hPath.length_pos
    hPath.length_lt]
  exact showsName_iff hPath (cwdStep_storeName hStep) _

end

------------------------------------------------------------
-- Two Changes in the Sample Image
------------------------------------------------------------

/- The initialized working directory. -/
def rootCwd : Cwd where
  cwdInodeNumber := 2
  cwdName := (ByteBuffer.fill maxPathLen 0).splice 0 1
    fun _ => slash

theorem rootCwd_init :
    ext2InitCwd Cwd.zero = some rootCwd := rfl

/- One change after another, as a run and a last step. -/
theorem fileSample_twoChanges
    {p q : List UInt8}
    (hp : AbsoluteName p)
    {shown : List UInt8}
    (hBoth : ((cwdStep (p, .zero) (rootCwd, fileSample)).bind
      fun r => (cwdStep (q, .zero) r.2).map fun r =>
        cString (r.2.1.cwdName.bytesFrom 0)) = some shown) :
    ∃ trace u v, GuardedRun cwdStep
        (fun c _ _ => AbsoluteName c.1)
        (rootCwd, fileSample) trace u ∧
      earlierNames trace = [p] ∧
      cwdStep (q, .zero) u = some ((), v) ∧
      cString (v.1.cwdName.bytesFrom 0) = shown := by
  rcases Option.bind_eq_some_iff.mp hBoth with
    ⟨⟨o, u⟩, hFirst, hRest⟩
  rcases Option.map_eq_some_iff.mp hRest with
    ⟨⟨o', v⟩, hSecond, hShown⟩
  exact ⟨_, u, v, .snoc .refl hp hFirst, rfl, hSecond, hShown⟩

/- A longer name after a shorter one: `/a`, then `/ab`. -/
theorem cwd_name_sample :
    ∃ trace u v, GuardedRun cwdStep
        (fun c _ _ => AbsoluteName c.1)
        (rootCwd, fileSample) trace u ∧
      earlierNames trace = [[47, 97, 0]] ∧
      cwdStep ([47, 97, 98, 0], .zero) u = some ((), v) ∧
      ShowsName v.1 [47, 97, 98, 0] := by
  have hFirst : AbsoluteName [47, 97, 0] :=
    ⟨by decide, by decide, by decide⟩
  have hSecond : AbsoluteName [47, 97, 98, 0] :=
    ⟨by decide, by decide, by decide⟩
  have hBoth : ((cwdStep ([47, 97, 0], .zero)
      (rootCwd, fileSample)).bind fun r =>
        (cwdStep ([47, 97, 98, 0], .zero) r.2).map fun r =>
          cString (r.2.1.cwdName.bytesFrom 0)) =
      some [47, 97, 98] := by
    decide +kernel
  rcases fileSample_twoChanges hFirst hBoth with
    ⟨trace, u, v, hRun, hNames, hStep, -⟩
  refine ⟨trace, u, v, hRun, hNames, hStep,
    (cwd_name_iff rootCwd_init hRun hSecond hStep).mpr
      (.inr ?_)⟩
  rw [hNames, EndClear, if_neg (by decide)]
  trivial

/- A shorter name after a longer one shows `/xbc` for `/x`. -/
theorem cwd_name_leftover :
    ext2InitCwd Cwd.zero = some rootCwd ∧
    ∃ trace u v, GuardedRun cwdStep
        (fun c _ _ => AbsoluteName c.1)
        (rootCwd, fileSample) trace u ∧
      earlierNames trace = [[47, 97, 98, 99, 0]] ∧
      AbsoluteName [47, 120, 0] ∧
      cwdStep ([47, 120, 0], .zero) u = some ((), v) ∧
      cString (v.1.cwdName.bytesFrom 0) = [47, 120, 98, 99] ∧
      ¬ ShowsName v.1 [47, 120, 0] := by
  have hFirst : AbsoluteName [47, 97, 98, 99, 0] :=
    ⟨by decide, by decide, by decide⟩
  have hSecond : AbsoluteName [47, 120, 0] :=
    ⟨by decide, by decide, by decide⟩
  have hBoth : ((cwdStep ([47, 97, 98, 99, 0], .zero)
      (rootCwd, fileSample)).bind fun r =>
        (cwdStep ([47, 120, 0], .zero) r.2).map fun r =>
          cString (r.2.1.cwdName.bytesFrom 0)) =
      some [47, 120, 98, 99] := by
    decide +kernel
  rcases fileSample_twoChanges hFirst hBoth with
    ⟨trace, u, v, hRun, hNames, hStep, hShown⟩
  refine ⟨rootCwd_init, trace, u, v, hRun, hNames, hSecond,
    hStep, hShown, ?_⟩
  intro hShows
  have hName := hShows.name
  rw [hShown] at hName
  exact absurd hName (by decide)

end Ext2

end Ester
