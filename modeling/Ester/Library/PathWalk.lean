import Mathlib.Data.List.Basic

/-
  Following a list of names through a graph.

  `look n c` is the node that name `c` leads to from node
  `n`.  `resolve` follows all names and fails when one leads
  nowhere.  `walk` has no way to fail: it takes a name that
  leads nowhere, or back to the same node, for the end of the
  way and stops.  The two agree unless a name leads nowhere
  or some name leads from a node to itself.  `drift` goes on
  where it stands when a name leads nowhere; it agrees with
  `walk` unless a name behind the stop leads away from it.

  Key definitions include:
    * `resolve`, `walk`, `drift`
    * `FirstLoop`
    * `Stuck`
    * `Halts`, `Reaches`

  Key theorems include:
    * `walk_cases`
    * `walk_eq_iff_of_resolve`
    * `FirstLoop.resolve_eq`
    * `drift_eq_walk_iff`
-/

------------------------------------------------------------
-- Resolving and Walking
------------------------------------------------------------

section PathWalk

variable {ν γ : Type}

/- Follow all names. -/
def resolve
    (look : ν → γ → Option ν) :
    ν → List γ → Option ν
  | n, [] => some n
  | n, c :: cs => (look n c).bind fun m => resolve look m cs

/- Follow names up to one that does not move. -/
def walk [DecidableEq ν]
    (look : ν → γ → Option ν) :
    ν → List γ → ν
  | n, [] => n
  | n, c :: cs =>
      if (look n c).getD n = n then n
      else walk look ((look n c).getD n) cs

/- Follow names, staying where one leads nowhere. -/
def drift
    (look : ν → γ → Option ν) :
    ν → List γ → ν
  | n, [] => n
  | n, c :: cs => drift look ((look n c).getD n) cs

/-
  `d` is the first node on the way that some name leads back
  to itself, and `post` are the names behind that one.
-/
inductive FirstLoop
    (look : ν → γ → Option ν) :
    ν → List γ → (d : ν) → (post : List γ) → Prop
  | here
      {n : ν}
      {c : γ}
      {cs : List γ}
      (hSelf : look n c = some n) :
      FirstLoop look n (c :: cs) n cs
  | step
      {n m d : ν}
      {c : γ}
      {cs post : List γ}
      (hLook : look n c = some m)
      (hMoves : m ≠ n)
      (hRest : FirstLoop look m cs d post) :
      FirstLoop look n (c :: cs) d post

/-
  The way leads through ever new nodes to `d`, where a name
  leads nowhere.
-/
inductive Stuck
    (look : ν → γ → Option ν) :
    ν → List γ → (d : ν) → Prop
  | here
      {n : ν}
      {c : γ}
      {cs : List γ}
      (hNone : look n c = none) :
      Stuck look n (c :: cs) n
  | step
      {n m d : ν}
      {c : γ}
      {cs : List γ}
      (hLook : look n c = some m)
      (hMoves : m ≠ n)
      (hRest : Stuck look m cs d) :
      Stuck look n (c :: cs) d

variable {look : ν → γ → Option ν}
variable {n m d : ν} {c : γ} {cs post : List γ}

@[simp] theorem resolve_nil :
    resolve look n [] = some n := rfl

theorem resolve_cons_of_some
    (hLook : look n c = some m) :
    resolve look n (c :: cs) = resolve look m cs := by
  rw [resolve, hLook, Option.bind_some]

theorem resolve_cons_of_none
    (hLook : look n c = none) :
    resolve look n (c :: cs) = none := by
  rw [resolve, hLook, Option.bind_none]

/- The node of a first loop loops. -/
theorem FirstLoop.self
    (h : FirstLoop look n cs d post) :
    ∃ c, look d c = some d := by
  induction h with
  | here hSelf => exact ⟨_, hSelf⟩
  | step _ _ _ ih => exact ih

------------------------------------------------------------
-- Where a Drift Ends
------------------------------------------------------------

/- The names, without those that are missing, lead to `m`. -/
inductive Reaches
    (look : ν → γ → Option ν) :
    ν → List γ → (m : ν) → Prop
  | done
      {n : ν} :
      Reaches look n [] n
  | found
      {n k m : ν}
      {c : γ}
      {cs : List γ}
      (hLook : look n c = some k)
      (hRest : Reaches look k cs m) :
      Reaches look n (c :: cs) m
  | missing
      {n m : ν}
      {c : γ}
      {cs : List γ}
      (hNone : look n c = none)
      (hRest : Reaches look n cs m) :
      Reaches look n (c :: cs) m

@[simp] theorem drift_nil :
    drift look n [] = n := rfl

theorem drift_cons_of_some
    (hLook : look n c = some m) :
    drift look n (c :: cs) = drift look m cs := by
  rw [drift, hLook, Option.getD_some]

theorem drift_cons_of_none
    (hNone : look n c = none) :
    drift look n (c :: cs) = drift look n cs := by
  rw [drift, hNone, Option.getD_none]

/- A drift ends where the names it finds lead to. -/
theorem drift_eq_iff_reaches
    (look : ν → γ → Option ν)
    (n : ν)
    (cs : List γ)
    (m : ν) :
    drift look n cs = m ↔ Reaches look n cs m := by
  induction cs generalizing n with
  | nil =>
      constructor
      · rintro rfl
        exact .done
      · intro hReaches
        cases hReaches
        rfl
  | cons c cs ih =>
      cases hLook : look n c with
      | none =>
          rw [drift_cons_of_none hLook, ih]
          constructor
          · exact .missing hLook
          · intro hReaches
            cases hReaches with
            | found hSome =>
                rw [hLook] at hSome
                cases hSome
            | missing _ hRest => exact hRest
      | some k =>
          rw [drift_cons_of_some hLook, ih]
          constructor
          · exact .found hLook
          · intro hReaches
            cases hReaches with
            | found hSome hRest =>
                rw [hLook, Option.some.injEq] at hSome
                rwa [hSome]
            | missing hNone =>
                rw [hLook] at hNone
                cases hNone

------------------------------------------------------------
-- Where a Walk Ends
------------------------------------------------------------

variable [DecidableEq ν]

@[simp] theorem walk_nil :
    walk look n [] = n := rfl

theorem walk_cons_of_moves
    (hLook : look n c = some m)
    (hMoves : m ≠ n) :
    walk look n (c :: cs) = walk look m cs := by
  simp [walk, hLook, hMoves]

theorem walk_cons_of_self
    (hSelf : look n c = some n) :
    walk look n (c :: cs) = n := by
  simp [walk, hSelf]

theorem walk_cons_of_none
    (hNone : look n c = none) :
    walk look n (c :: cs) = n := by
  simp [walk, hNone]

theorem FirstLoop.walk_eq
    (h : FirstLoop look n cs d post) :
    walk look n cs = d := by
  induction h with
  | here hSelf => exact walk_cons_of_self hSelf
  | step hLook hMoves _ ih =>
      rw [walk_cons_of_moves hLook hMoves, ih]

theorem Stuck.walk_eq
    (h : Stuck look n cs d) :
    walk look n cs = d := by
  induction h with
  | here hNone => exact walk_cons_of_none hNone
  | step hLook hMoves _ ih =>
      rw [walk_cons_of_moves hLook hMoves, ih]

/-
  A walk resolves all names, or stops at a first loop, or
  gets stuck.
-/
theorem walk_cases
    (look : ν → γ → Option ν)
    (n : ν)
    (cs : List γ) :
    (resolve look n cs = some (walk look n cs) ∧
      ∀ d post, ¬ FirstLoop look n cs d post) ∨
      (∃ post, FirstLoop look n cs (walk look n cs) post) ∨
        Stuck look n cs (walk look n cs) := by
  induction cs generalizing n with
  | nil => exact .inl ⟨rfl, fun _ _ h => by cases h⟩
  | cons c cs ih =>
      cases hLook : look n c with
      | none =>
          rw [walk_cons_of_none hLook]
          exact .inr (.inr (.here hLook))
      | some m =>
          by_cases hMoves : m = n
          · subst hMoves
            rw [walk_cons_of_self hLook]
            exact .inr (.inl ⟨cs, .here hLook⟩)
          · rw [walk_cons_of_moves hLook hMoves,
              resolve_cons_of_some hLook]
            rcases ih m with
              ⟨hResolve, hNot⟩ | ⟨post, hLoop⟩ | hStuck
            · refine .inl ⟨hResolve, ?_⟩
              intro d post hLoop
              cases hLoop with
              | here hSelf =>
                  rw [hLook, Option.some.injEq] at hSelf
                  exact hMoves hSelf
              | step hLook' _ hRest =>
                  rw [hLook, Option.some.injEq] at hLook'
                  subst hLook'
                  exact hNot _ _ hRest
            · exact .inr (.inl
                ⟨post, .step hLook hMoves hLoop⟩)
            · exact .inr (.inr (.step hLook hMoves hStuck))

/-
  `d` is the first node on the way where a name leads nowhere
  or back to the node itself, and `post` are the names behind
  that one.
-/
inductive Halts
    (look : ν → γ → Option ν) :
    ν → List γ → (d : ν) → (post : List γ) → Prop
  | here
      {n : ν}
      {c : γ}
      {cs : List γ}
      (hStay : look n c = none ∨ look n c = some n) :
      Halts look n (c :: cs) n cs
  | step
      {n m d : ν}
      {c : γ}
      {cs post : List γ}
      (hLook : look n c = some m)
      (hMoves : m ≠ n)
      (hRest : Halts look m cs d post) :
      Halts look n (c :: cs) d post

/- Up to the stop both ways are one. -/
theorem Halts.walk_eq
    (h : Halts look n cs d post) :
    walk look n cs = d ∧
      drift look n cs = drift look d post := by
  induction h with
  | @here n c cs hStay =>
      rcases hStay with hNone | hSelf
      · exact ⟨walk_cons_of_none hNone,
          drift_cons_of_none hNone⟩
      · exact ⟨walk_cons_of_self hSelf,
          drift_cons_of_some hSelf⟩
  | step hLook hMoves _ ih =>
      rw [walk_cons_of_moves hLook hMoves,
        drift_cons_of_some hLook]
      exact ih

/- A walk that does not stop early drifts. -/
theorem drift_eq_walk_or_halts
    (look : ν → γ → Option ν)
    (n : ν)
    (cs : List γ) :
    drift look n cs = walk look n cs ∨
      ∃ d post, Halts look n cs d post := by
  induction cs generalizing n with
  | nil => exact .inl rfl
  | cons c cs ih =>
      cases hLook : look n c with
      | none => exact .inr ⟨n, cs, .here (.inl hLook)⟩
      | some m =>
          by_cases hMoves : m = n
          · subst hMoves
            exact .inr ⟨m, cs, .here (.inr hLook)⟩
          · rw [walk_cons_of_moves hLook hMoves,
              drift_cons_of_some hLook]
            rcases ih m with hSame | ⟨d, post, hHalts⟩
            · exact .inl hSame
            · exact .inr ⟨d, post, .step hLook hMoves hHalts⟩

/-
  Drifting ends where the walk does exactly when the names
  behind the stop, without the missing ones, lead back to it.
-/
theorem drift_eq_walk_iff
    (look : ν → γ → Option ν)
    (n : ν)
    (cs : List γ) :
    drift look n cs = walk look n cs ↔
      ∀ d post, Halts look n cs d post →
        Reaches look d post d := by
  constructor
  · intro hSame d post hHalts
    rcases hHalts.walk_eq with ⟨hWalk, hDrift⟩
    rw [← drift_eq_iff_reaches, ← hDrift, hSame, hWalk]
  · intro hBack
    rcases drift_eq_walk_or_halts look n cs with
      hSame | ⟨d, post, hHalts⟩
    · exact hSame
    · rcases hHalts.walk_eq with ⟨hWalk, hDrift⟩
      rw [hWalk, hDrift, drift_eq_iff_reaches]
      exact hBack d post hHalts

end PathWalk
