import Ester.Ext2.Directory

/-
  Splitting absolute paths.

  On zeroed rows the splitter delivers the components of a
  path: the slash of the root in row 0 and component `i` in
  row `i + 1`.  The row of the last component is terminated
  by a zero that was there before, since the splitter puts
  its own one byte further on.

  Key definitions include:
    * `IsName`
    * `AbsPath`, `AbsPath.bytes`
    * `ZeroFrom`

  Key theorems include:
    * `unpackLoop_text`
    * `unpackDirPath_tail`
    * `unpackDirPath_absPath`
-/

------------------------------------------------------------
-- Paths
------------------------------------------------------------

namespace Ester

namespace Ext2

/- The characters of a path component. -/
def IsText
    (name : List UInt8) : Prop :=
  ∀ x ∈ name, x ≠ 0 ∧ x ≠ slash

/- A name of 1 to 255 characters. -/
structure IsName
    (name : List UInt8) : Prop where
  ne_nil : name ≠ []
  text : IsText name
  length_le : name.length ≤ ext2NameLen

theorem isName_iff
    (name : List UInt8) :
    IsName name ↔
      name ≠ [] ∧ (∀ x ∈ name, x ≠ 0 ∧ x ≠ slash) ∧
        name.length ≤ ext2NameLen :=
  ⟨fun h => ⟨h.ne_nil, h.text, h.length_le⟩,
    fun ⟨hNe, hText, hLe⟩ => ⟨hNe, hText, hLe⟩⟩

instance
    (name : List UInt8) :
    Decidable (IsName name) :=
  haveI : Decidable (∀ x ∈ name, x ≠ 0 ∧ x ≠ slash) :=
    List.decidableBAll _ name
  decidable_of_iff _ (isName_iff name).symm

/- An absolute path within the depth the rows have room for. -/
structure AbsPath where
  comps : List (List UInt8)
  names : ∀ c ∈ comps, IsName c
  depth : comps.length < maxPathDepth

/- The bytes behind the first slash of a path. -/
def tailBytes : List (List UInt8) → List UInt8
  | [] => [0]
  | [c] => c ++ [0]
  | c :: cs => c ++ slash :: tailBytes cs

/- The characters of a path and the terminator. -/
def AbsPath.bytes
    (p : AbsPath) : List UInt8 :=
  slash :: tailBytes p.comps

theorem tailBytes_cons_cons
    (c d : List UInt8)
    (cs : List (List UInt8)) :
    tailBytes (c :: d :: cs) =
      c ++ slash :: tailBytes (d :: cs) := rfl

theorem tailBytes_terminated
    (cs : List (List UInt8)) :
    Terminated (tailBytes cs) := by
  induction cs with
  | nil => simp [tailBytes, Terminated]
  | cons c cs ih =>
      cases cs with
      | nil => simp [tailBytes, Terminated]
      | cons d cs =>
          rw [tailBytes_cons_cons]
          unfold Terminated at ih ⊢
          simp [ih]

theorem AbsPath.terminated
    (p : AbsPath) :
    Terminated p.bytes :=
  (terminated_cons_of_ne (by decide)).mpr
    (tailBytes_terminated _)

/- Appending to a text keeps its characters. -/
theorem cString_text_append
    {text : List UInt8}
    (hText : IsText text)
    (rest : List UInt8) :
    cString (text ++ rest) = text ++ cString rest := by
  induction text with
  | nil => rfl
  | cons x text ih =>
      rw [List.cons_append,
        cString_cons_of_ne (hText x (by simp)).1, ih,
        List.cons_append]
      exact fun y hy => hText y (by simp [hy])

theorem cString_tailBytes_length
    {cs : List (List UInt8)}
    (hNames : ∀ c ∈ cs, IsName c) :
    (cString (tailBytes cs)).length ≤ 256 * cs.length := by
  induction cs with
  | nil => simp [tailBytes]
  | cons c cs ih =>
      have hc := hNames c (by simp)
      have hLen : c.length ≤ 255 := hc.length_le
      cases cs with
      | nil =>
          rw [tailBytes, cString_text_append hc.text]
          simp
          omega
      | cons d cs =>
          have hRest := ih fun e he => hNames e (by simp [he])
          rw [tailBytes_cons_cons,
            cString_text_append hc.text,
            cString_cons_of_ne (by decide)]
          simp only [List.length_append, List.length_cons]
            at hRest ⊢
          omega

/- A path within the limits is short enough to be opened. -/
theorem AbsPath.length_le
    (p : AbsPath) :
    (cString p.bytes).length ≤ maxPathLen := by
  have hTail := cString_tailBytes_length p.names
  have hDepth : p.comps.length < 10 := p.depth
  rw [bytes, cString_cons_of_ne (by decide), List.length_cons]
  show _ ≤ 4096
  omega

/- Only the root has the path `/`. -/
theorem AbsPath.comps_eq_nil
    {p : AbsPath}
    (hRoot : cString p.bytes = [slash]) :
    p.comps = [] := by
  rw [bytes, cString_cons_of_ne (by decide)] at hRoot
  cases hComps : p.comps with
  | nil => rfl
  | cons c cs =>
      have hc := p.names c (by simp [hComps])
      rw [hComps] at hRoot
      have hTail := (List.cons.inj hRoot).2
      cases cs with
      | nil =>
          rw [tailBytes, cString_text_append hc.text] at hTail
          exact absurd (List.append_eq_nil_iff.mp hTail).1
            hc.ne_nil
      | cons d cs =>
          rw [tailBytes_cons_cons,
            cString_text_append hc.text] at hTail
          exact absurd (List.append_eq_nil_iff.mp hTail).1
            hc.ne_nil

------------------------------------------------------------
-- Filling Rows
------------------------------------------------------------

/- All bytes from an offset on are zero. -/
def ZeroFrom
    (rows : UnpackedPath)
    (off : Nat) : Prop :=
  ∀ x, off ≤ x → rows.get x = 0

/- What `unpack_dir_path` does after its loop. -/
def finishUnpack
    (r : Option UInt8 × Nat × Nat × UnpackedPath) :
    Option (UInt16 × UnpackedPath) := do
  let c ← r.1
  if c ≠ slash then do
    let rows ← r.2.2.2.put r.2.1 (r.2.2.1 + 1) 0
    some (UInt16.ofNat (r.2.1 + 1), rows)
  else some (UInt16.ofNat r.2.1, r.2.2.2)

theorem unpackDirPath_eq
    (path : List UInt8)
    (rows : UnpackedPath) :
    unpackDirPath path rows =
      (unpackLoop path none 0 0 rows).bind finishUnpack :=
  rfl

/- A path without its terminator is read past its end. -/
theorem terminated_of_unpackLoop
    {path : List UInt8}
    {last : Option UInt8}
    {j k : Nat}
    {rows : UnpackedPath}
    {r : Option UInt8 × Nat × Nat × UnpackedPath}
    (hRun : unpackLoop path last j k rows = some r) :
    Terminated path := by
  induction path generalizing last j k rows with
  | nil => cases hRun
  | cons c path ih =>
      rw [unpackLoop] at hRun
      split at hRun
      · next hZero =>
          subst hZero
          exact List.mem_cons_self
      · next hNe =>
          rw [terminated_cons_of_ne hNe]
          simp only [Option.bind_eq_bind,
            Option.bind_eq_some_iff] at hRun
          rcases hRun with ⟨rows₁, -, hRun⟩
          split at hRun
          · split at hRun
            · rcases Option.bind_eq_some_iff.mp hRun with
                ⟨rows₂, -, hRun⟩
              exact ih hRun
            · rcases Option.bind_eq_some_iff.mp hRun with
                ⟨rows₂, -, hRun⟩
              exact ih hRun
          · exact ih hRun

theorem terminated_of_unpackDirPath
    {path : List UInt8}
    {rows : UnpackedPath}
    {r : UInt16 × UnpackedPath}
    (hRun : unpackDirPath path rows = some r) :
    Terminated path := by
  rw [unpackDirPath_eq] at hRun
  rcases Option.bind_eq_some_iff.mp hRun with ⟨_, hLoop, -⟩
  exact terminated_of_unpackLoop hLoop

theorem lt_of_put
    {rows rows' : UnpackedPath}
    {j k : Nat}
    {c : UInt8}
    (hPut : rows.put j k c = some rows') :
    j < maxPathDepth := by
  unfold UnpackedPath.put at hPut
  split at hPut
  · next hLt =>
      exact Nat.lt_of_mul_lt_mul_right
        (Nat.lt_of_le_of_lt (Nat.le_add_right _ _) hLt)
  · cases hPut

/- The splitter fills no more rows than there are. -/
theorem unpackLoop_row_le
    {path : List UInt8}
    {last : Option UInt8}
    {j k : Nat}
    {rows : UnpackedPath}
    {r : Option UInt8 × Nat × Nat × UnpackedPath}
    (hj : j ≤ maxPathDepth)
    (hRun : unpackLoop path last j k rows = some r) :
    r.2.1 ≤ maxPathDepth := by
  induction path generalizing last j k rows with
  | nil => cases hRun
  | cons c path ih =>
      rw [unpackLoop] at hRun
      split at hRun
      · cases hRun
        exact hj
      · simp only [Option.bind_eq_bind,
          Option.bind_eq_some_iff] at hRun
        rcases hRun with ⟨rows₁, hPut, hRun⟩
        have hNext : j + 1 ≤ maxPathDepth := lt_of_put hPut
        split at hRun
        · split at hRun
          · rcases Option.bind_eq_some_iff.mp hRun with
              ⟨rows₂, -, hRun⟩
            exact ih hNext hRun
          · rcases Option.bind_eq_some_iff.mp hRun with
              ⟨rows₂, -, hRun⟩
            exact ih hNext hRun
        · exact ih hj hRun

theorem unpackDirPath_depth_le
    {path : List UInt8}
    {rows rows' : UnpackedPath}
    {depth : UInt16}
    (hRun : unpackDirPath path rows = some (depth, rows')) :
    depth.toNat ≤ maxPathDepth := by
  rw [unpackDirPath_eq] at hRun
  rcases Option.bind_eq_some_iff.mp hRun with
    ⟨⟨last, j, k, rows₁⟩, hLoop, hEnd⟩
  have hRow : j ≤ maxPathDepth :=
    unpackLoop_row_le (Nat.zero_le _) hLoop
  have hMod {n : Nat}
      (hn : n ≤ maxPathDepth) :
      (UInt16.ofNat n).toNat ≤ maxPathDepth := by
    rw [UInt16.toNat_ofNat']
    exact Nat.le_trans (Nat.mod_le _ _) hn
  simp only [finishUnpack, Option.bind_eq_bind,
    Option.bind_eq_some_iff] at hEnd
  rcases hEnd with ⟨c, -, hEnd⟩
  split at hEnd
  · rcases Option.bind_eq_some_iff.mp hEnd with
      ⟨rows₂, hPut, hEq⟩
    cases hEq
    exact hMod (lt_of_put hPut)
  · cases hEnd
    exact hMod hRow

/- Storing a byte, then the ones behind it. -/
theorem splice_store_succ
    {n : Nat}
    (b : ByteBuffer n)
    (off : Nat)
    (x : UInt8)
    (text : List UInt8) :
    (b.store off x).splice (off + 1) text.length
        (fun i => text.getD i 0) =
      b.splice off (x :: text).length
        fun i => (x :: text).getD i 0 := by
  apply ByteBuffer.ext_get
  intro i hi
  rw [ByteBuffer.get_splice _ _ _ _ hi,
    ByteBuffer.get_splice _ _ _ _ hi,
    ByteBuffer.get_store _ _ _ hi, List.length_cons]
  by_cases hEq : i = off
  · subst hEq
    rw [if_neg (by omega), if_pos rfl, if_pos (by omega),
      Nat.sub_self, List.getD_cons_zero]
  · by_cases hIn : off + 1 ≤ i ∧ i < off + 1 + text.length
    · rw [if_pos hIn, if_pos (by omega),
        show i - off = (i - (off + 1)) + 1 by omega,
        List.getD_cons_succ]
    · rw [if_neg hIn, if_neg hEq, if_neg (by omega)]

/- A text of names ends in a character that is no slash. -/
theorem IsText.getLast?_ne
    {text : List UInt8}
    (hText : IsText text)
    (hNe : text ≠ []) :
    ∃ x, text.getLast? = some x ∧ x ≠ slash := by
  refine ⟨text.getLast hNe, List.getLast?_eq_some_getLast hNe,
    ?_⟩
  exact (hText _ (List.getLast_mem hNe)).2

/- A row of zeros shows the text copied into it. -/
theorem showsText_splice
    {rows : UnpackedPath}
    {off : Nat}
    (hZero : ZeroFrom rows off)
    (text : List UInt8)
    (hInside : off + text.length ≤ 2569) :
    (rows.splice off text.length
      fun i => text.getD i 0).ShowsText off text where
  shows k hk := by
    rw [ByteBuffer.get_splice_of_inside _ _ hk
      (show _ ≤ 2570 by omega),
      List.getD_eq_getElem _ _ hk]
  stop := by
    rw [ByteBuffer.get_splice_of_outside _ _ (by omega)]
    exact hZero _ (by omega)
  inside := Nat.lt_succ_of_le hInside

/-
  From here on `off` is the offset of row `j`.
-/
section Row

variable {j off : Nat} (hOff : j * rowLen = off)
include hOff

theorem UnpackedPath.put_of_le
    (rows : UnpackedPath)
    {k : Nat}
    (x : UInt8)
    (hLe : off + k ≤ 2569) :
    rows.put j k x = some (rows.store (off + k) x) := by
  subst hOff
  exact if_pos (Nat.lt_succ_of_le hLe)

/- The loop copies a text without slashes into a row. -/
theorem unpackLoop_text
    {text : List UInt8}
    (hText : IsText text)
    (rest : List UInt8)
    (last : Option UInt8)
    (k : Nat)
    (rows : UnpackedPath)
    (hRoom : off + k + text.length ≤ 2569) :
    unpackLoop (text ++ rest) last j k rows =
      unpackLoop rest (text.getLast?.or last) j
        (k + text.length)
        (rows.splice (off + k) text.length
          fun i => text.getD i 0) := by
  induction text generalizing last k rows with
  | nil => simp
  | cons x text ih =>
      have hx := hText x (by simp)
      rw [List.length_cons] at hRoom
      rw [List.cons_append, unpackLoop, if_neg hx.1,
        rows.put_of_le hOff x (by omega)]
      simp only [Option.bind_eq_bind, Option.bind_some,
        if_neg hx.2]
      rw [ih (fun y hy => hText y (by simp [hy])) _ _ _
        (by omega), ← Nat.add_assoc, splice_store_succ]
      congr 1
      · cases text with
        | nil => rfl
        | cons y text =>
            rw [List.getLast?_cons_cons,
              List.getLast?_eq_some_getLast (by simp)]
            rfl
      · rw [List.length_cons]
        omega

------------------------------------------------------------
-- Splitting
------------------------------------------------------------

/-
  The last component fills its row; the splitter's zero is
  one byte behind the end of the text.
-/
theorem unpackLast
    {text : List UInt8}
    (hText : IsText text)
    (hNe : text ≠ [])
    (last : Option UInt8)
    {rows : UnpackedPath}
    (hZero : ZeroFrom rows off)
    (hRoom : off + text.length + 1 ≤ 2569) :
    ∃ rows', (unpackLoop (text ++ [0]) last j 0 rows).bind
        finishUnpack = some (UInt16.ofNat (j + 1), rows') ∧
      (∀ x, x < off → rows'.get x = rows.get x) ∧
        rows'.ShowsText off text := by
  rcases hText.getLast?_ne hNe with ⟨x, hLast, hSlash⟩
  have hShows := showsText_splice hZero text (by omega)
  refine ⟨(rows.splice off text.length
    fun i => text.getD i 0).store
      (off + (text.length + 1)) 0, ?_, ?_, ?_⟩
  · have hPut := UnpackedPath.put_of_le hOff
      (k := text.length + 1)
      (rows.splice off text.length
        fun i => text.getD i 0) 0 (by omega)
    rw [unpackLoop_text hOff hText _ _ _ _ (by omega), hLast]
    simp only [unpackLoop, if_true, Option.some_or,
      Option.bind_some, finishUnpack, Option.bind_eq_bind,
      ne_eq, hSlash, not_false_eq_true, Nat.zero_add,
      Nat.add_zero, hPut]
  · intro i hi
    rw [ByteBuffer.get_store_of_ne _ _ (by omega),
      ByteBuffer.get_splice_of_outside _ _ (by omega)]
  · apply hShows.congr
    intro k hk
    exact ByteBuffer.get_store_of_ne _ _ (by omega)

/- A component before another one fills its row. -/
theorem unpackLoop_row
    {text : List UInt8}
    (hText : IsText text)
    (hLe : text.length ≤ ext2NameLen)
    (rest : List UInt8)
    (last : Option UInt8)
    (hj : j ≠ 0)
    (hRoom : off + 257 ≤ 2570)
    {rows : UnpackedPath}
    (hZero : ZeroFrom rows off) :
    ∃ rows', unpackLoop (text ++ slash :: rest) last j 0 rows =
        unpackLoop rest (some slash) (j + 1) 0 rows' ∧
      ZeroFrom rows' (off + 257) ∧
      (∀ x, x < off → rows'.get x = rows.get x) ∧
        rows'.ShowsText off text := by
  have hLen : text.length ≤ 255 := hLe
  have hShows := showsText_splice hZero text (by omega)
  have hSame {x : Nat}
      (hx : x < off ∨ off + text.length < x) :
      (((rows.splice off text.length
        fun i => text.getD i 0).store
          (off + text.length) slash).store
            (off + text.length) 0).get x = rows.get x := by
    rw [ByteBuffer.get_store_of_ne _ _ (by omega),
      ByteBuffer.get_store_of_ne _ _ (by omega),
      ByteBuffer.get_splice_of_outside _ _ (by omega)]
  refine ⟨((rows.splice off text.length
    fun i => text.getD i 0).store
      (off + text.length) slash).store
        (off + text.length) 0, ?_, ?_, ?_, ?_⟩
  · rw [unpackLoop_text hOff hText _ _ _ _ (by omega),
      unpackLoop, if_neg (by decide),
      UnpackedPath.put_of_le hOff _ _ (by omega)]
    simp only [if_true, if_neg hj, Option.bind_eq_bind,
      Option.bind_some, Nat.zero_add, Nat.add_zero]
    rw [UnpackedPath.put_of_le hOff _ _ (by omega)]
    rfl
  · intro x hx
    rw [hSame (by omega)]
    exact hZero x (by omega)
  · intro x hx
    exact hSame (.inl hx)
  · apply hShows.congr
    intro k hk
    by_cases hEnd : k = text.length
    · rw [hEnd, ByteBuffer.get_store_self _ _ hShows.inside,
        hShows.stop]
    · rw [ByteBuffer.get_store_of_ne _ _ (by omega),
        ByteBuffer.get_store_of_ne _ _ (by omega)]

/- The components of a path fill consecutive rows. -/
theorem unpackDirPath_tail
    {cs : List (List UInt8)}
    (hNames : ∀ c ∈ cs, IsName c)
    (hNe : cs ≠ [])
    (last : Option UInt8)
    (hj : j ≠ 0)
    (hRoom : j + cs.length ≤ maxPathDepth)
    {rows : UnpackedPath}
    (hZero : ZeroFrom rows off) :
    ∃ rows', (unpackLoop (tailBytes cs) last j 0 rows).bind
        finishUnpack =
          some (UInt16.ofNat (j + cs.length), rows') ∧
      (∀ x, x < off → rows'.get x = rows.get x) ∧
        ∀ i (hi : i < cs.length),
          rows'.ShowsText ((j + i) * rowLen) cs[i] := by
  induction cs generalizing last j off rows with
  | nil => exact absurd rfl hNe
  | cons c cs ih =>
      have hc := hNames c (by simp)
      have hLen : c.length ≤ 255 := hc.length_le
      have hRows : off + 257 ≤ 2570 := by
        have hMul : (j + 1) * rowLen ≤ maxPathDepth * rowLen :=
          Nat.mul_le_mul_right _ (by
            rw [List.length_cons] at hRoom
            omega)
        rwa [Nat.add_mul, hOff, Nat.one_mul] at hMul
      cases cs with
      | nil =>
          rcases unpackLast hOff hc.text hc.ne_nil last hZero
              (by omega) with ⟨rows', hRun, hLow, hShows⟩
          refine ⟨rows', hRun, hLow, ?_⟩
          intro i hi
          have hi0 : i = 0 := by simpa using hi
          subst hi0
          rw [Nat.add_zero, hOff]
          exact hShows
      | cons d cs =>
          rcases unpackLoop_row hOff hc.text hc.length_le
              (tailBytes (d :: cs)) last hj hRows hZero with
            ⟨rows₁, hRun₁, hZero₁, hLow₁, hShows₁⟩
          have hOff₁ : (j + 1) * rowLen = off + 257 := by
            rw [Nat.add_mul, hOff, Nat.one_mul]
          rcases ih hOff₁
              (fun e he => hNames e (by simp [he]))
              (by simp) (some slash) (Nat.succ_ne_zero j)
              (by
                rw [List.length_cons] at hRoom
                omega) hZero₁ with
            ⟨rows', hRun, hLow, hShows⟩
          refine ⟨rows', ?_, ?_, ?_⟩
          · rw [tailBytes_cons_cons, hRun₁, hRun,
              List.length_cons (a := c), Nat.succ_add,
              Nat.add_succ]
          · intro x hx
            rw [hLow x (by omega), hLow₁ x hx]
          · intro i hi
            cases i with
            | zero =>
                rw [Nat.add_zero, hOff]
                apply hShows₁.congr
                intro k hk
                change k ≤ c.length at hk
                apply hLow
                omega
            | succ i =>
                have hNext := hShows i (by simpa using hi)
                rwa [Nat.succ_add] at hNext

end Row

/- The slash of the root fills row 0. -/
theorem unpackLoop_root
    (rest : List UInt8)
    (last : Option UInt8)
    (rows : UnpackedPath)
    (hZero : ZeroFrom rows 0) :
    ∃ rows', unpackLoop (slash :: rest) last 0 0 rows =
        unpackLoop rest (some slash) 1 0 rows' ∧
      ZeroFrom rows' rowLen ∧
        rows'.ShowsText 0 [slash] := by
  refine ⟨(rows.store 0 slash).store 1 0, ?_, ?_, ?_⟩
  · rw [unpackLoop, if_neg (by decide),
      UnpackedPath.put_of_le (Nat.zero_mul _) _ _ (by decide)]
    simp only [if_true, Option.bind_eq_bind,
      Option.bind_some]
    rw [UnpackedPath.put_of_le (Nat.zero_mul _) _ _
      (by decide)]
    simp only [Nat.zero_add, Option.bind_some]
  · intro x hx
    have hRow : 257 ≤ x := hx
    rw [ByteBuffer.get_store_of_ne _ _ (by omega),
      ByteBuffer.get_store_of_ne _ _ (by omega)]
    exact hZero x (Nat.zero_le x)
  · constructor
    · intro k hk
      have hk0 : k = 0 := by simpa using hk
      subst hk0
      rw [ByteBuffer.get_store_of_ne _ _ (by decide),
        ByteBuffer.get_store_self _ _ (by decide)]
      rfl
    · exact ByteBuffer.get_store_self _ _ (by decide)
    · decide

/-
  On zeroed rows the splitter delivers exactly the components
  of an absolute path.
-/
theorem unpackDirPath_absPath
    (p : AbsPath)
    {rows : UnpackedPath}
    (hZero : ZeroFrom rows 0) :
    ∃ rows', unpackDirPath p.bytes rows =
        some (UInt16.ofNat (p.comps.length + 1), rows') ∧
      rows'.ShowsText 0 [slash] ∧
        ∀ i (hi : i < p.comps.length),
          rows'.ShowsText ((i + 1) * rowLen) p.comps[i] := by
  have hDepth := p.depth
  rcases unpackLoop_root (tailBytes p.comps) none rows hZero
    with ⟨rows₁, hRun₁, hZero₁, hShows₁⟩
  rw [unpackDirPath_eq, AbsPath.bytes, hRun₁]
  by_cases hNe : p.comps = []
  · refine ⟨rows₁, ?_, hShows₁, ?_⟩
    · rw [hNe]
      rfl
    · intro i hi
      rw [hNe] at hi
      exact absurd hi (Nat.not_lt_zero _)
  · rcases unpackDirPath_tail (Nat.one_mul rowLen) p.names hNe
        (some slash) Nat.one_ne_zero (by omega) hZero₁ with
      ⟨rows', hRun, hLow, hShows⟩
    refine ⟨rows', ?_, ?_, ?_⟩
    · rw [hRun, Nat.add_comm]
    · apply hShows₁.congr
      intro k hk
      have hk1 : k ≤ 1 := hk
      apply hLow
      show 0 + k < 257
      omega
    · intro i hi
      have hRow := hShows i hi
      rwa [Nat.add_comm 1 i] at hRow

end Ext2

end Ester
