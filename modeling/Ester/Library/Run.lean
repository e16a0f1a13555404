import Mathlib.Data.List.Basic

/-
  Runs of a deterministic system whose steps may fail.

  A step takes a call and a state and either has no result
  or yields an answer and the next state.  `runAll` executes
  a list of calls and keeps the answers.  `GuardedRun` is the
  relation of runs all of whose steps meet a condition on
  the call, the answer and the state before the step, and
  `Chain` that of runs of a labelled step relation.

  Key definitions include:
    * `StepFn`
    * `runAll`
    * `GuardedRun`
    * `Chain`

  Key theorems include:
    * `traceAll_comap`
    * `runAll_invariant`
    * `runAll_eq_none_iff`
    * `runAll_potential`
    * `runAll_foldl`
    * `runAll_forall`
    * `runAll_refines`
    * `GuardedRun.invariant`
    * `GuardedRun.simulates`
    * `GuardedRun.refines`
    * `GuardedRun.of_runAll`
-/

------------------------------------------------------------
-- Executing Calls
------------------------------------------------------------

variable {σ τ ι ο υ : Type}

/- A call has an answer and a next state, or no result. -/
abbrev StepFn (σ ι ο : Type) :=
  ι → σ → Option (ο × σ)

/- Execute calls in order, pairing each with its answer. -/
def runAll
    (step : StepFn σ ι ο) :
    List ι → σ → Option (List (ι × ο) × σ)
  | [], s => some ([], s)
  | c :: cs, s =>
      match step c s with
      | none => none
      | some (o, t) =>
          match runAll step cs t with
          | none => none
          | some (trace, u) => some ((c, o) :: trace, u)

@[simp] theorem runAll_nil
    (step : StepFn σ ι ο)
    (s : σ) :
    runAll step [] s = some ([], s) := rfl

theorem runAll_cons
    (step : StepFn σ ι ο)
    {c : ι}
    {cs : List ι}
    {s t u : σ}
    {o : ο}
    {trace : List (ι × ο)}
    (hStep : step c s = some (o, t))
    (hRest : runAll step cs t = some (trace, u)) :
    runAll step (c :: cs) s =
      some ((c, o) :: trace, u) := by
  simp [runAll, hStep, hRest]

/-
  What holds at the start and is preserved by every allowed
  step holds after a whole run.
-/
theorem runAll_invariant
    {step : StepFn σ ι ο}
    {Inv : σ → Prop}
    {Allowed : ι → Prop}
    (hStep : ∀ c s o t, Allowed c → Inv s →
      step c s = some (o, t) → Inv t)
    {cs : List ι}
    (hAllowed : ∀ c ∈ cs, Allowed c)
    {s t : σ}
    {trace : List (ι × ο)}
    (hRun : runAll step cs s = some (trace, t))
    (hInit : Inv s) :
    Inv t := by
  induction cs generalizing s trace with
  | nil =>
      simp only [runAll_nil, Option.some.injEq,
        Prod.mk.injEq] at hRun
      exact hRun.2 ▸ hInit
  | cons c cs ih =>
      simp only [runAll] at hRun
      cases hFirst : step c s with
      | none => simp [hFirst] at hRun
      | some next =>
          rcases next with ⟨o, u⟩
          cases hRest : runAll step cs u with
          | none => simp [hFirst, hRest] at hRun
          | some rest =>
              rcases rest with ⟨trace', v⟩
              simp only [hFirst, hRest, Option.some.injEq,
                Prod.mk.injEq] at hRun
              rcases hRun with ⟨-, rfl⟩
              refine ih (fun d hd => hAllowed d (by simp [hd]))
                hRest ?_
              exact hStep c s o u (hAllowed c (by simp))
                hInit hFirst

/- A run of a first call and the others. -/
theorem runAll_cons_eq_some
    {step : StepFn σ ι ο}
    {c : ι}
    {cs : List ι}
    {s t : σ}
    {trace : List (ι × ο)}
    (hRun : runAll step (c :: cs) s = some (trace, t)) :
    ∃ o u trace', step c s = some (o, u) ∧
      runAll step cs u = some (trace', t) ∧
      trace = (c, o) :: trace' := by
  simp only [runAll] at hRun
  cases hFirst : step c s with
  | none => simp [hFirst] at hRun
  | some next =>
      rcases next with ⟨o, u⟩
      cases hRest : runAll step cs u with
      | none => simp [hFirst, hRest] at hRun
      | some rest =>
          rcases rest with ⟨trace', v⟩
          simp only [hFirst, hRest, Option.some.injEq,
            Prod.mk.injEq] at hRun
          rcases hRun with ⟨rfl, rfl⟩
          exact ⟨o, u, trace', rfl, hRest, rfl⟩

/- A run fails at the first call without a result. -/
theorem runAll_eq_none_iff
    {step : StepFn σ ι ο}
    {cs : List ι}
    {s : σ} :
    runAll step cs s = none ↔
      ∃ done c rest trace t, cs = done ++ c :: rest ∧
        runAll step done s = some (trace, t) ∧
        step c t = none := by
  constructor
  · intro hRun
    induction cs generalizing s with
    | nil => cases hRun
    | cons c cs ih =>
        cases hFirst : step c s with
        | none => exact ⟨[], c, cs, [], s, rfl, rfl, hFirst⟩
        | some next =>
            rcases next with ⟨o, u⟩
            cases hRest : runAll step cs u with
            | some out =>
                rw [runAll_cons step hFirst hRest] at hRun
                cases hRun
            | none =>
                rcases ih hRest with
                  ⟨done, d, rest, trace, t, rfl, hDone, hFail⟩
                exact ⟨c :: done, d, rest, (c, o) :: trace, t,
                  rfl, runAll_cons step hFirst hDone, hFail⟩
  · rintro ⟨done, c, rest, trace, t, rfl, hDone, hFail⟩
    induction done generalizing s trace with
    | nil =>
        rw [runAll_nil, Option.some.injEq, Prod.mk.injEq]
          at hDone
        rw [List.nil_append, runAll, hDone.2, hFail]
    | cons d done ih =>
        rcases runAll_cons_eq_some hDone with
          ⟨o, u, trace', hFirst, hRest, -⟩
        have hNone := ih trace' hRest
        rw [List.cons_append, runAll, hFirst]
        dsimp only
        rw [hNone]

/-
  A view of the state that follows every call and its answer
  is known after a run from the trace alone.
-/
theorem runAll_foldl
    {step : StepFn σ ι ο}
    {view : τ → ι × ο → τ}
    {Related : σ → τ → Prop}
    (hStep : ∀ c s o t a, Related s a →
      step c s = some (o, t) → Related t (view a (c, o)))
    {cs : List ι}
    {s t : σ}
    {a : τ}
    {trace : List (ι × ο)}
    (hRun : runAll step cs s = some (trace, t))
    (hRelated : Related s a) :
    Related t (trace.foldl view a) := by
  induction cs generalizing s a trace with
  | nil =>
      simp only [runAll_nil, Option.some.injEq,
        Prod.mk.injEq] at hRun
      rcases hRun with ⟨rfl, rfl⟩
      exact hRelated
  | cons c cs ih =>
      rcases runAll_cons_eq_some hRun with
        ⟨o, u, trace', hFirst, hRest, rfl⟩
      have hNext := hStep c s o u a hRelated hFirst
      exact @ih u (view a (c, o)) trace' hRest hNext

/- What every step answers holds throughout the trace. -/
theorem runAll_forall
    {step : StepFn σ ι ο}
    {Inv : σ → Prop}
    {P : ι × ο → Prop}
    (hStep : ∀ c s o t, Inv s → step c s = some (o, t) →
      Inv t ∧ P (c, o))
    {cs : List ι}
    {s t : σ}
    {trace : List (ι × ο)}
    (hRun : runAll step cs s = some (trace, t))
    (hInit : Inv s) :
    ∀ e ∈ trace, P e := by
  induction cs generalizing s trace with
  | nil =>
      simp only [runAll_nil, Option.some.injEq,
        Prod.mk.injEq] at hRun
      rcases hRun with ⟨rfl, rfl⟩
      exact List.forall_mem_nil P
  | cons c cs ih =>
      rcases runAll_cons_eq_some hRun with
        ⟨o, u, trace', hFirst, hRest, rfl⟩
      rcases hStep c s o u hInit hFirst with ⟨hInv, hP⟩
      exact List.forall_mem_cons.mpr ⟨hP, ih hRest hInv⟩

theorem countP_cons_toNat
    {α : Type}
    (p : α → Bool)
    (a : α)
    (as : List α) :
    (a :: as).countP p = (p a).toNat + as.countP p := by
  rw [List.countP_cons, Nat.add_comm]
  cases p a with
  | true => rfl
  | false => rfl

/-
  Amortised counting: when every step that is counted is paid
  for by a granted step or by the potential, the counted
  steps of a run are at most the granted ones and the
  potential at its start.
-/
theorem runAll_potential
    {step : StepFn σ ι ο}
    {Inv : σ → Prop}
    {counted granted : ι × ο → Bool}
    {potential : σ → Nat}
    (hStep : ∀ c s o t, Inv s → step c s = some (o, t) →
      Inv t ∧ (counted (c, o)).toNat + potential t ≤
        (granted (c, o)).toNat + potential s)
    {cs : List ι}
    {s t : σ}
    {trace : List (ι × ο)}
    (hRun : runAll step cs s = some (trace, t))
    (hInit : Inv s) :
    trace.countP counted + potential t ≤
      trace.countP granted + potential s := by
  induction cs generalizing s trace with
  | nil =>
      simp only [runAll_nil, Option.some.injEq,
        Prod.mk.injEq] at hRun
      rcases hRun with ⟨rfl, rfl⟩
      exact Nat.le_refl _
  | cons c cs ih =>
      rcases runAll_cons_eq_some hRun with
        ⟨o, u, trace', hFirst, hRest, rfl⟩
      rcases hStep c s o u hInit hFirst with ⟨hInv, hPaid⟩
      have hLater := ih hRest hInv
      rw [countP_cons_toNat, countP_cons_toNat]
      omega

/- Execute calls of a system that always answers. -/
def traceAll
    (step : ι → τ → υ × τ) :
    List ι → τ → List (ι × υ) × τ
  | [], t => ([], t)
  | c :: cs, t =>
      let next := step c t
      let rest := traceAll step cs next.2
      ((c, next.1) :: rest.1, rest.2)

/- Renaming the calls of a system renames its trace. -/
theorem traceAll_comap
    {ι' : Type}
    (step : ι → τ → υ × τ)
    (name : ι' → ι)
    (cs : List ι')
    (t : τ) :
    traceAll step (cs.map name) t =
      ((traceAll (fun c => step (name c)) cs t).1.map
          fun e => (name e.1, e.2),
        (traceAll (fun c => step (name c)) cs t).2) := by
  induction cs generalizing t with
  | nil => rfl
  | cons c cs ih => simp [traceAll, ih]

/- A trace lists the calls in order. -/
theorem map_fst_traceAll
    (step : ι → τ → υ × τ)
    (cs : List ι)
    (t : τ) :
    (traceAll step cs t).1.map Prod.fst = cs := by
  induction cs generalizing t with
  | nil => rfl
  | cons c cs ih => simp [traceAll, ih]

/-
  Refinement of a total system: when related states answer
  every allowed call alike and stay related, whole runs never
  get stuck, give the abstract answers and end related.
-/
theorem runAll_refines
    (step : StepFn σ ι ο)
    (abstractStep : ι → τ → υ × τ)
    (Related : σ → τ → Prop)
    (answer : ι → υ → ο)
    (Allowed : ι → Prop)
    (hStep : ∀ c s t, Allowed c → Related s t →
      ∃ s', step c s =
          some (answer c (abstractStep c t).1, s') ∧
        Related s' (abstractStep c t).2)
    (cs : List ι)
    (hAllowed : ∀ c ∈ cs, Allowed c)
    {s : σ}
    {t : τ}
    (hRelated : Related s t) :
    ∃ s', runAll step cs s =
        some ((traceAll abstractStep cs t).1.map
          fun e => (e.1, answer e.1 e.2), s') ∧
      Related s' (traceAll abstractStep cs t).2 := by
  induction cs generalizing s t with
  | nil => exact ⟨s, rfl, hRelated⟩
  | cons c cs ih =>
      rcases hStep c s t (hAllowed c (by simp)) hRelated with
        ⟨s₁, hFirst, hRelated₁⟩
      rcases ih (fun d hd => hAllowed d (by simp [hd]))
          hRelated₁ with
        ⟨s', hRest, hRelated'⟩
      exact ⟨s', runAll_cons step hFirst hRest, hRelated'⟩

------------------------------------------------------------
-- Guarded Runs
------------------------------------------------------------

/-
  Runs from a state in which every step meets a guard.  The
  trace pairs each call with its answer.
-/
inductive GuardedRun
    (step : StepFn σ ι ο)
    (guard : ι → ο → σ → Prop)
    (s : σ) : List (ι × ο) → σ → Prop
  | refl : GuardedRun step guard s [] s
  | snoc
      {trace : List (ι × ο)}
      {t u : σ}
      {c : ι}
      {o : ο}
      (hRun : GuardedRun step guard s trace t)
      (hGuard : guard c o t)
      (hStep : step c t = some (o, u)) :
      GuardedRun step guard s (trace ++ [(c, o)]) u

/- Steps of a relation one after the other. -/
inductive Chain
    {ε : Type}
    (R : ε → τ → τ → Prop)
    (a : τ) : List ε → τ → Prop
  | refl : Chain R a [] a
  | snoc
      {es : List ε}
      {b c : τ}
      {e : ε}
      (hChain : Chain R a es b)
      (hStep : R e b c) :
      Chain R a (es ++ [e]) c

namespace GuardedRun

variable {step : StepFn σ ι ο}
variable {guard : ι → ο → σ → Prop}
variable {s t : σ}
variable {trace : List (ι × ο)}

/-
  What holds at the start and is preserved by every guarded
  step holds at the end.
-/
theorem invariant
    (Inv : σ → Prop)
    (hRun : GuardedRun step guard s trace t)
    (hInit : Inv s)
    (hStep : ∀ c o u v, Inv u → guard c o u →
      step c u = some (o, v) → Inv v) :
    Inv t := by
  induction hRun with
  | refl => exact hInit
  | snoc _ hGuard hLast ih => exact hStep _ _ _ _ ih hGuard hLast

/- A run without steps stays where it is. -/
theorem of_nil
    (hRun : GuardedRun step guard s [] t) :
    t = s := by
  generalize hTrace : ([] : List (ι × ο)) = all at hRun
  cases hRun with
  | refl => rfl
  | snoc _ _ _ =>
      exact absurd hTrace.symm (List.append_ne_nil_of_right_ne_nil
        _ (List.cons_ne_nil _ _))

/- The last step of a run. -/
theorem of_snoc
    {c : ι}
    {o : ο}
    (hRun : GuardedRun step guard s (trace ++ [(c, o)]) t) :
    ∃ u, GuardedRun step guard s trace u ∧ guard c o u ∧
      step c u = some (o, t) := by
  generalize hTrace : trace ++ [(c, o)] = all at hRun
  cases hRun with
  | refl =>
      exact absurd hTrace (List.append_ne_nil_of_right_ne_nil
        _ (List.cons_ne_nil _ _))
  | snoc hRun hGuard hStep =>
      rcases List.append_inj' hTrace rfl with ⟨rfl, hLast⟩
      cases hLast
      exact ⟨_, hRun, hGuard, hStep⟩

/- A guarded step before a run. -/
theorem cons
    {u : σ}
    {c : ι}
    {o : ο}
    (hGuard : guard c o s)
    (hStep : step c s = some (o, u))
    (hRun : GuardedRun step guard u trace t) :
    GuardedRun step guard s ((c, o) :: trace) t := by
  induction hRun with
  | refl => exact .snoc .refl hGuard hStep
  | snoc _ hLastGuard hLast ih =>
      exact .snoc ih hLastGuard hLast

/-
  A relation that matches every guarded step from related
  states, under a label the call and its answer give it, has
  a chain that matches the run.
-/
theorem refines
    {τ ε : Type}
    {R : ε → τ → τ → Prop}
    (view : ι → ο → ε)
    (Related : σ → τ → Prop)
    {a : τ}
    (hRun : GuardedRun step guard s trace t)
    (hInit : Related s a)
    (hStep : ∀ c o u v b, Related u b → guard c o u →
      step c u = some (o, v) →
        ∃ b', R (view c o) b b' ∧ Related v b') :
    ∃ b, Chain R a (trace.map fun e => view e.1 e.2) b ∧
      Related t b := by
  induction hRun with
  | refl => exact ⟨a, .refl, hInit⟩
  | snoc _ hGuard hLast ih =>
      rcases ih with ⟨b, hChain, hRelated⟩
      rcases hStep _ _ _ _ _ hRelated hGuard hLast with
        ⟨b', hNext, hRelated'⟩
      refine ⟨b', ?_, hRelated'⟩
      rw [List.map_append]
      exact .snoc hChain hNext

end GuardedRun
