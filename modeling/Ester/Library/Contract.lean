import Ester.Library.Polling

/-
  Contracts between drivers and devices.

  A contract says which registers a driver may read, what a
  device promises for the values that it presents and what
  the driver owes when it writes.  Its state follows the
  accesses.  A driver follows a contract
  when it never breaks a duty unless the device has broken a
  promise before; what it leaves is stated for the runs in
  which the device has kept all of them.  The rules build
  such statements up along the program.

  Key definitions include:
    * `Polling.Contract`
    * `Contract.Keeps`, `Contract.after`
    * `Contract.Follows`
    * `Polling.pollWhile`

  Key theorems include:
    * `Contract.keeps_append`
    * `Contract.Follows.bind`
    * `Contract.Follows.pollWhile`
-/

namespace Polling

variable {σ ρ ν α β φ : Type}

------------------------------------------------------------
-- Contracts
------------------------------------------------------------

/-
  What may be read, and the next state unless a promise or a
  duty is broken.
-/
structure Contract (φ ρ ν : Type) where
  mayRead : φ → ρ → Bool
  promise : φ → ρ → ν → Option φ
  duty : φ → ρ → ν → Option φ

namespace Contract

variable (c : Contract φ ρ ν)

/- The next state after an access that breaks nothing. -/
def next
    (s : φ) : Access ρ ν → Option φ
  | .read r v =>
      if c.mayRead s r then c.promise s r v else none
  | .write r v => c.duty s r v

/- The state after accesses that break nothing. -/
def after : φ → List (Access ρ ν) → Option φ
  | s, [] => some s
  | s, x :: xs =>
      match c.next s x with
      | none => none
      | some t => after t xs

/-
  No duty is broken, as long as no promise is: after a broken
  promise nothing is owed any more.
-/
def Keeps : φ → List (Access ρ ν) → Prop
  | _, [] => True
  | s, .read r v :: xs =>
      c.mayRead s r = true ∧
        ∀ t, c.promise s r v = some t → Keeps t xs
  | s, .write r v :: xs =>
      ∃ t, c.duty s r v = some t ∧ Keeps t xs

variable {c}

theorem after_append
    (s : φ)
    (xs ys : List (Access ρ ν)) :
    c.after s (xs ++ ys) =
      match c.after s xs with
      | none => none
      | some t => c.after t ys := by
  induction xs generalizing s with
  | nil => rfl
  | cons x xs ih =>
      rw [List.cons_append, after, after]
      cases c.next s x with
      | none => rfl
      | some t => exact ih t

theorem keeps_append
    (s : φ)
    (xs ys : List (Access ρ ν)) :
    c.Keeps s (xs ++ ys) ↔
      c.Keeps s xs ∧
        ∀ t, c.after s xs = some t → c.Keeps t ys := by
  induction xs generalizing s with
  | nil =>
      constructor
      · intro h
        refine ⟨trivial, fun t hAfter => ?_⟩
        rw [after, Option.some.injEq] at hAfter
        exact hAfter ▸ h
      · exact fun h => h.2 s rfl
  | cons x xs ih =>
      rw [List.cons_append]
      cases x with
      | read r v =>
          rw [Keeps, Keeps, after, next, and_assoc]
          refine and_congr_right fun hMay => ?_
          rw [if_pos hMay]
          cases c.promise s r v with
          | none =>
              constructor
              · intro _
                exact ⟨fun _ h => absurd h (by simp),
                  fun _ h => absurd h (by simp)⟩
              · intro _ _ h
                cases h
          | some t =>
              simp only [Option.some.injEq, forall_eq']
              exact ih t
      | write r v =>
          rw [Keeps, Keeps, after, next]
          cases c.duty s r v with
          | none =>
              constructor
              · rintro ⟨_, h, -⟩
                cases h
              · rintro ⟨⟨_, h, -⟩, -⟩
                cases h
          | some t =>
              simp only [Option.some.injEq, exists_eq_left']
              exact ih t

/- What holds of a run holds of every start of it. -/
theorem Keeps.of_append
    {s : φ}
    {xs ys : List (Access ρ ν)}
    (h : c.Keeps s (xs ++ ys)) :
    c.Keeps s xs :=
  ((keeps_append s xs ys).mp h).1

------------------------------------------------------------
-- Following a Contract
------------------------------------------------------------

/-
  What is demanded of a run: it keeps the contract, and where
  it has a result and no promise was broken, the result and
  the states it leaves meet the condition.
-/
def Meets
    (c : Contract φ ρ ν)
    (post : α → φ → σ → Prop)
    (s : φ)
    (out : Outcome σ ρ ν α) : Prop :=
  c.Keeps s out.accesses ∧
    ∀ t a, c.after s out.accesses = some t →
      out.result = some a → post a t out.memory

/- A run that first reads a value. -/
theorem Meets.read
    {post : α → φ → σ → Prop}
    {s : φ}
    {r : ρ}
    {v : ν}
    {out : Outcome σ ρ ν α}
    (hMay : c.mayRead s r = true)
    (h : ∀ t, c.promise s r v = some t → c.Meets post t out) :
    c.Meets post s (out.after [.read r v]) := by
  refine ⟨⟨hMay, fun t hPromise => (h t hPromise).1⟩, ?_⟩
  intro u a hAfter hResult
  change (match (if c.mayRead s r then c.promise s r v
      else none) with
    | none => none
    | some t => c.after t out.accesses) = some u at hAfter
  rw [if_pos hMay] at hAfter
  cases hPromise : c.promise s r v with
  | none => simp [hPromise] at hAfter
  | some t =>
      simp only [hPromise] at hAfter
      exact (h t hPromise).2 u a hAfter hResult

/- A run that has a result and makes no access. -/
theorem Meets.done
    {post : α → φ → σ → Prop}
    {s : φ}
    {a : α}
    {m : σ}
    {answers : List ν}
    (h : post a s m) :
    c.Meets post s ⟨some a, m, ([] : List (Access ρ ν)),
      answers⟩ := by
  refine ⟨trivial, fun t b hAfter hResult => ?_⟩
  cases hAfter
  cases hResult
  exact h

/- A run that is still waiting. -/
theorem Meets.waiting
    {post : α → φ → σ → Prop}
    {s : φ}
    {m : σ}
    {answers : List ν} :
    c.Meets post s ⟨none, m, ([] : List (Access ρ ν)),
      answers⟩ :=
  ⟨trivial, fun _ _ _ h => by cases h⟩

/- Every run of the driver, against every device. -/
def Follows
    (c : Contract φ ρ ν)
    (p : Driver σ ρ ν α)
    (post : α → φ → σ → Prop)
    (s : φ)
    (m : σ) : Prop :=
  ∀ answers, c.Meets post s (p m answers)

namespace Follows

variable {s : φ} {m : σ}
variable {p : Driver σ ρ ν α} {f : α → Driver σ ρ ν β}

theorem pure
    {post : α → φ → σ → Prop}
    {a : α}
    (h : post a s m) :
    c.Follows (Pure.pure a) post s m :=
  fun _ => .done h

/- One driver after another. -/
theorem bind
    {mid : α → φ → σ → Prop}
    {post : β → φ → σ → Prop}
    (hFirst : c.Follows p mid s m)
    (hNext : ∀ a t m', mid a t m' →
      c.Follows (f a) post t m') :
    c.Follows (p >>= f) post s m := by
  intro answers
  rcases hFirst answers with ⟨hKeeps, hMid⟩
  rw [bind_run]
  cases hResult : (p m answers).result with
  | none =>
      exact ⟨hKeeps, fun _ _ _ h => by cases h⟩
  | some a =>
      dsimp only [Outcome.after]
      constructor
      · rw [keeps_append]
        exact ⟨hKeeps, fun t hAfter =>
          (hNext a t _ (hMid t a hAfter hResult) _).1⟩
      · intro u b hAfter hLast
        rw [after_append] at hAfter
        cases hFirstAfter : c.after s (p m answers).accesses with
        | none => simp [hFirstAfter] at hAfter
        | some t =>
            simp only [hFirstAfter] at hAfter
            exact (hNext a t _ (hMid t a hFirstAfter hResult)
              _).2 u b hAfter hLast

theorem mono
    {post post' : α → φ → σ → Prop}
    (h : c.Follows p post s m)
    (hPost : ∀ a t m', post a t m' → post' a t m') :
    c.Follows p post' s m :=
  fun answers => ⟨(h answers).1, fun t a hAfter hResult =>
    hPost a t _ ((h answers).2 t a hAfter hResult)⟩

/- A value is read that keeps the promise. -/
theorem readReg
    {post : ν → φ → σ → Prop}
    {r : ρ}
    (hMay : c.mayRead s r = true)
    (h : ∀ v t, c.promise s r v = some t → post v t m) :
    c.Follows (Polling.readReg r) post s m := by
  intro answers
  cases answers with
  | nil => exact .waiting
  | cons v answers =>
      have hDone : ∀ t, c.promise s r v = some t →
          c.Meets post t
            ⟨some v, m, ([] : List (Access ρ ν)), answers⟩ :=
        fun t hPromise => .done (h v t hPromise)
      exact Meets.read hMay hDone

/- A word is written, as the duty allows. -/
theorem writeReg
    {post : Unit → φ → σ → Prop}
    {r : ρ}
    {v : ν}
    {t : φ}
    (hDuty : c.duty s r v = some t)
    (h : post () t m) :
    c.Follows (Polling.writeReg r v) post s m := by
  intro answers
  refine ⟨⟨t, hDuty, trivial⟩, fun u a hAfter _ => ?_⟩
  change (match c.duty s r v with
    | none => none
    | some t => some t) = some u at hAfter
  rw [hDuty, Option.some.injEq] at hAfter
  exact hAfter ▸ h

theorem modifyMemory
    {post : Unit → φ → σ → Prop}
    {g : σ → σ}
    (h : post () s (g m)) :
    c.Follows (Polling.modifyMemory g) post s m :=
  fun _ => .done h

/- A read, a write or a change of memory before a driver. -/
theorem readReg_bind
    {post : α → φ → σ → Prop}
    {r : ρ}
    {g : ν → Driver σ ρ ν α}
    (hMay : c.mayRead s r = true)
    (h : ∀ v t, c.promise s r v = some t →
      c.Follows (g v) post t m) :
    c.Follows (Polling.readReg r >>= g) post s m :=
  bind
    (readReg hMay (fun _ _ hPromise => And.intro hPromise rfl) :
      c.Follows _
        (fun v t m' => c.promise s r v = some t ∧ m' = m) s m)
    (fun v t _ hRead => hRead.2 ▸ h v t hRead.1)

theorem writeReg_bind
    {post : α → φ → σ → Prop}
    {r : ρ}
    {v : ν}
    {t : φ}
    {g : Unit → Driver σ ρ ν α}
    (hDuty : c.duty s r v = some t)
    (h : c.Follows (g ()) post t m) :
    c.Follows (Polling.writeReg r v >>= g) post s m :=
  bind
    (writeReg hDuty (And.intro rfl rfl) :
      c.Follows _ (fun _ u m' => u = t ∧ m' = m) s m)
    (fun _ _ _ hWrite => hWrite.1 ▸ hWrite.2 ▸ h)

theorem modifyMemory_bind
    {post : α → φ → σ → Prop}
    {change : σ → σ}
    {g : Unit → Driver σ ρ ν α}
    (h : c.Follows (g ()) post s (change m)) :
    c.Follows (Polling.modifyMemory change >>= g) post s m :=
  bind
    (modifyMemory (And.intro rfl rfl) :
      c.Follows _ (fun _ u m' => u = s ∧ m' = change m) s m)
    (fun _ _ _ hChange => hChange.1 ▸ hChange.2 ▸ h)

end Follows

end Contract

------------------------------------------------------------
-- Waiting
------------------------------------------------------------

/- The loop `while (busy(r))`. -/
def pollWhile
    (r : ρ)
    (busy : ν → Bool) : Driver σ ρ ν Unit
  | m, [] => ⟨none, m, [], []⟩
  | m, v :: answers =>
      if busy v then
        (pollWhile r busy m answers).after [.read r v]
      else ⟨some (), m, [.read r v], answers⟩

/-
  The loop that reads two conditions one after the other and
  starts again where one of them holds.
-/
def pollWhileEither
    (r : ρ)
    (first second : ν → Bool) : Driver σ ρ ν Unit
  | m, [] => ⟨none, m, [], []⟩
  | m, [v] => ⟨none, m, [.read r v], []⟩
  | m, v :: w :: answers =>
      if first v then
        (pollWhileEither r first second m (w :: answers)).after
          [.read r v]
      else if second w then
        (pollWhileEither r first second m answers).after
          [.read r v, .read r w]
      else ⟨some (), m, [.read r v, .read r w], answers⟩

namespace Contract.Follows

variable {c : Contract φ ρ ν} {s : φ} {m : σ} {r : ρ}
variable (Inv : φ → Prop) {post : Unit → φ → σ → Prop}

/- What busy values keep holds when the waiting starts anew. -/
theorem pollWhile
    {busy : ν → Bool}
    (hMay : ∀ s, Inv s → c.mayRead s r = true)
    (hRead : ∀ s v t, Inv s → c.promise s r v = some t →
      if busy v then Inv t else post () t m)
    (hInit : Inv s) :
    c.Follows (Polling.pollWhile r busy) post s m := by
  intro answers
  induction answers generalizing s with
  | nil => exact .waiting
  | cons v answers ih =>
      rw [Polling.pollWhile]
      by_cases hBusy : busy v = true
      · rw [if_pos hBusy]
        refine Meets.read (hMay s hInit) fun t hPromise => ih ?_
        have hNext := hRead s v t hInit hPromise
        rwa [if_pos hBusy] at hNext
      · rw [if_neg hBusy]
        have hDone : ∀ t, c.promise s r v = some t →
            c.Meets post t
              ⟨some (), m, ([] : List (Access ρ ν)),
                answers⟩ := by
          intro t hPromise
          have hNext := hRead s v t hInit hPromise
          rw [if_neg hBusy] at hNext
          exact .done hNext
        exact Meets.read (hMay s hInit) hDone

/- The same for two conditions in a row. -/
theorem pollWhileEither
    {first second : ν → Bool}
    (hMay : ∀ s, Inv s → c.mayRead s r = true)
    (hRead : ∀ s v t, Inv s → c.promise s r v = some t →
      if first v then Inv t
      else c.mayRead t r = true ∧ ∀ w u, c.promise t r w = some u →
        if second w then Inv u else post () u m)
    (hInit : Inv s) :
    c.Follows (Polling.pollWhileEither r first second) post s
      m := by
  intro answers
  fun_induction Polling.pollWhileEither r first second m
      answers generalizing s with
  | case1 => exact .waiting
  | case2 m v =>
      exact Meets.read (hMay s hInit) fun _ _ => .waiting
  | case3 m v w answers hFirst ih =>
      refine Meets.read (hMay s hInit) fun t hPromise =>
        ih hRead ?_
      have hNext := hRead s v t hInit hPromise
      rwa [if_pos hFirst] at hNext
  | case4 m v w answers hFirst hSecond ih =>
      have hBoth : ∀ t, c.promise s r v = some t →
          c.mayRead t r = true ∧
            ∀ u, c.promise t r w = some u → Inv u := by
        intro t hV
        have hNext := hRead s v t hInit hV
        rw [if_neg hFirst] at hNext
        refine ⟨hNext.1, fun u hW => ?_⟩
        have hLast := hNext.2 w u hW
        rwa [if_pos hSecond] at hLast
      exact Meets.read (hMay s hInit) fun t hV =>
        Meets.read (hBoth t hV).1 fun u hW =>
          ih hRead ((hBoth t hV).2 u hW)
  | case5 m v w answers hFirst hSecond =>
      have hBoth : ∀ t, c.promise s r v = some t →
          c.mayRead t r = true ∧
            ∀ u, c.promise t r w = some u →
              c.Meets post u
                ⟨some (), m, ([] : List (Access ρ ν)),
                  answers⟩ := by
        intro t hV
        have hNext := hRead s v t hInit hV
        rw [if_neg hFirst] at hNext
        refine ⟨hNext.1, fun u hW => ?_⟩
        have hLast := hNext.2 w u hW
        rw [if_neg hSecond] at hLast
        exact .done hLast
      exact Meets.read (hMay s hInit) fun t hV =>
        Meets.read (hBoth t hV).1 (hBoth t hV).2

end Contract.Follows

end Polling
