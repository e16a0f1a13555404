/-
  Loops whose rounds may fault.

  A round of a loop faults, leads to another round, or is the
  last one and leaves a result.  `loop` runs rounds within a
  budget; it has no result when a round faults or when the
  budget is used up.

  Key definitions include:
    * `Round`
    * `loop`

  Key theorems include:
    * `loop_mono`
    * `loop_total`
    * `loop_endless`
-/

------------------------------------------------------------
-- Rounds
------------------------------------------------------------

/- What a round of a loop leads to. -/
inductive Round (σ ρ : Type) where
  | again (s : σ)
  | done (r : ρ)

variable {σ ρ : Type}

/- Run rounds until the last one, within a budget. -/
def loop
    (round : σ → Option (Round σ ρ)) :
    Nat → σ → Option ρ
  | 0, _ => none
  | fuel + 1, s =>
      match round s with
      | none => none
      | some (.done r) => some r
      | some (.again t) => loop round fuel t

variable {round : σ → Option (Round σ ρ)}

theorem loop_done
    {s : σ}
    {r : ρ}
    (fuel : Nat)
    (h : round s = some (.done r)) :
    loop round (fuel + 1) s = some r := by
  rw [loop, h]

theorem loop_again
    {s t : σ}
    (fuel : Nat)
    (h : round s = some (.again t)) :
    loop round (fuel + 1) s = loop round fuel t := by
  rw [loop, h]

------------------------------------------------------------
-- Budgets
------------------------------------------------------------

/- A larger budget leaves the result. -/
theorem loop_mono
    {fuel more : Nat}
    {s : σ}
    {r : ρ}
    (hMore : fuel ≤ more)
    (h : loop round fuel s = some r) :
    loop round more s = some r := by
  induction fuel generalizing more s with
  | zero => simp [loop] at h
  | succ fuel ih =>
      cases more with
      | zero => omega
      | succ more =>
          unfold loop at h ⊢
          split at h
          · simp at h
          · exact h
          · exact ih (by omega) h

------------------------------------------------------------
-- Total Correctness
------------------------------------------------------------

/-
  An invariant that every round keeps, and a measure that
  every round but the last one decreases, give a result
  within any budget above the measure.
-/
theorem loop_total
    {Inv : σ → Prop}
    {Post : ρ → Prop}
    {size : σ → Nat}
    (hRound : ∀ s, Inv s →
      (∃ t, round s = some (.again t) ∧ Inv t ∧
        size t < size s) ∨
      ∃ r, round s = some (.done r) ∧ Post r)
    {fuel : Nat}
    {s : σ}
    (hInit : Inv s)
    (hFuel : size s < fuel) :
    ∃ r, loop round fuel s = some r ∧ Post r := by
  induction fuel generalizing s with
  | zero => omega
  | succ fuel ih =>
      rcases hRound s hInit with
        ⟨t, hAgain, hNext, hSize⟩ | ⟨r, hDone, hPost⟩
      · rw [loop_again fuel hAgain]
        exact ih hNext (by omega)
      · exact ⟨r, loop_done fuel hDone, hPost⟩

/-
  A loop none of whose rounds is the last one under an
  invariant has no result within any budget.
-/
theorem loop_endless
    {Inv : σ → Prop}
    (hRound : ∀ s, Inv s → round s = none ∨
      ∃ t, round s = some (.again t) ∧ Inv t)
    {s : σ}
    (hInit : Inv s)
    (fuel : Nat) :
    loop round fuel s = none := by
  induction fuel generalizing s with
  | zero => rfl
  | succ fuel ih =>
      rcases hRound s hInit with hFault | ⟨t, hAgain, hNext⟩
      · rw [loop, hFault]
      · rw [loop_again fuel hAgain]
        exact ih hNext
