import Mathlib.Data.List.Basic

/-
  Drivers that poll the registers of a device.

  A driver runs against the list of the values that the
  device presents, one for each read.  It leaves its result,
  its memory and the accesses it made in order; where the
  device presents no more values while the driver still
  polls, there is no result.  What a driver does is thereby
  stated for every behaviour of the device.

  Key definitions include:
    * `Polling.Driver`
    * `Polling.spinWhile`
    * `Polling.awaitUnless`
    * `Polling.KeepsMemory`
    * `Polling.Accesses`

  Key theorems include:
    * `Polling.bind_eq_some`
    * `Polling.spinWhile_result`
    * `Polling.spinWhile_of_busy`
    * `Polling.awaitUnless_result`
-/

namespace Polling

------------------------------------------------------------
-- Drivers
------------------------------------------------------------

/- An access to a register of a device. -/
inductive Access (ρ ν : Type) where
  | read (r : ρ) (v : ν)
  | write (r : ρ) (v : ν)
deriving DecidableEq

/- What a run leaves, with the values that are not used. -/
structure Outcome (σ ρ ν α : Type) where
  result : Option α
  memory : σ
  accesses : List (Access ρ ν)
  answers : List ν

/- A driver with a memory, against the values of a device. -/
def Driver (σ ρ ν α : Type) :=
  σ → List ν → Outcome σ ρ ν α

variable {σ ρ ν α β : Type}

/- The accesses that came before. -/
def Outcome.after
    (log : List (Access ρ ν))
    (out : Outcome σ ρ ν α) : Outcome σ ρ ν α :=
  { out with accesses := log ++ out.accesses }

namespace Driver

def pure
    (a : α) : Driver σ ρ ν α :=
  fun m answers => ⟨some a, m, [], answers⟩

/- Run the second driver where the first has a result. -/
def bind
    (p : Driver σ ρ ν α)
    (f : α → Driver σ ρ ν β) : Driver σ ρ ν β :=
  fun m answers =>
    let out := p m answers
    match out.result with
    | some a =>
        (f a out.memory out.answers).after out.accesses
    | none => ⟨none, out.memory, out.accesses, out.answers⟩

instance : Monad (Driver σ ρ ν) where
  pure := Driver.pure
  bind := Driver.bind

end Driver

/- Read a register. -/
def readReg
    (r : ρ) : Driver σ ρ ν ν
  | m, [] => ⟨none, m, [], []⟩
  | m, v :: answers => ⟨some v, m, [.read r v], answers⟩

/- Write a register. -/
def writeReg
    (r : ρ)
    (v : ν) : Driver σ ρ ν Unit :=
  fun m answers => ⟨some (), m, [.write r v], answers⟩

/- Change the memory. -/
def modifyMemory
    (f : σ → σ) : Driver σ ρ ν Unit :=
  fun m answers => ⟨some (), f m, [], answers⟩

/-
  The loop `while (busy(r) && spin < budget) spin++`, with
  the counter at the end.
-/
def spinWhile
    (r : ρ)
    (busy : ν → Bool)
    (budget : Nat) : (spin : Nat) → Driver σ ρ ν Nat
  | _, m, [] => ⟨none, m, [], []⟩
  | spin, m, v :: answers =>
      if busy v && decide (spin < budget) then
        (spinWhile r busy budget (spin + 1) m answers).after
          [.read r v]
      else ⟨some spin, m, [.read r v], answers⟩

/-
  The loop that polls `r` until it is done and gives up when
  `e` has failed in between.
-/
def awaitUnless
    (r : ρ)
    (done : ν → Bool)
    (e : ρ)
    (failed : ν → Bool) : Driver σ ρ ν Bool
  | m, [] => ⟨none, m, [], []⟩
  | m, [v] =>
      if done v then ⟨some true, m, [.read r v], []⟩
      else ⟨none, m, [.read r v], []⟩
  | m, v :: w :: answers =>
      if done v then ⟨some true, m, [.read r v], w :: answers⟩
      else if failed w then
        ⟨some false, m, [.read r v, .read e w], answers⟩
      else
        (awaitUnless r done e failed m answers).after
          [.read r v, .read e w]

------------------------------------------------------------
-- Running a Driver
------------------------------------------------------------

theorem pure_run
    (a : α)
    (m : σ)
    (answers : List ν) :
    (pure a : Driver σ ρ ν α) m answers =
      ⟨some a, m, [], answers⟩ := rfl

theorem bind_run
    (p : Driver σ ρ ν α)
    (f : α → Driver σ ρ ν β)
    (m : σ)
    (answers : List ν) :
    (p >>= f) m answers =
      match (p m answers).result with
      | some a =>
          (f a (p m answers).memory
            (p m answers).answers).after (p m answers).accesses
      | none =>
          ⟨none, (p m answers).memory, (p m answers).accesses,
            (p m answers).answers⟩ := rfl

@[simp] theorem writeReg_bind
    (r : ρ)
    (v : ν)
    (f : Unit → Driver σ ρ ν β)
    (m : σ)
    (answers : List ν) :
    (writeReg r v >>= f) m answers =
      (f () m answers).after [.write r v] := rfl

/- A composed run that has a result, in its two parts. -/
theorem bind_eq_some
    {p : Driver σ ρ ν α}
    {f : α → Driver σ ρ ν β}
    {m : σ}
    {answers : List ν}
    {b : β}
    (h : ((p >>= f) m answers).result = some b) :
    ∃ a, (p m answers).result = some a ∧
      (f a (p m answers).memory
        (p m answers).answers).result = some b ∧
      ((p >>= f) m answers).accesses =
        (p m answers).accesses ++
          (f a (p m answers).memory
            (p m answers).answers).accesses := by
  rw [bind_run] at h ⊢
  cases hResult : (p m answers).result with
  | none => simp [hResult] at h
  | some a =>
      simp only [hResult] at h ⊢
      exact ⟨a, rfl, h, rfl⟩

/- A read is one access, of the value that it returns. -/
theorem readReg_eq_some
    {r : ρ}
    {m : σ}
    {answers : List ν}
    {v : ν}
    (h : (readReg r m answers).result = some v) :
    (readReg r m answers).accesses = [.read r v] := by
  cases answers with
  | nil => cases h
  | cons w answers =>
      cases h
      rfl

------------------------------------------------------------
-- What Every Run Keeps
------------------------------------------------------------

/- The memory is kept, whatever the device presents. -/
def KeepsMemory
    (p : Driver σ ρ ν α) : Prop :=
  ∀ m answers, (p m answers).memory = m

/- Every access meets a condition. -/
def Accesses
    (P : Access ρ ν → Prop)
    (p : Driver σ ρ ν α) : Prop :=
  ∀ m answers, ∀ x ∈ (p m answers).accesses, P x

/- A driver that keeps the memory adds nothing to it. -/
theorem bind_memory
    {p : Driver σ ρ ν α}
    {f : α → Driver σ ρ ν β}
    (hNext : ∀ a, KeepsMemory (f a))
    (m : σ)
    (answers : List ν) :
    ((p >>= f) m answers).memory = (p m answers).memory := by
  rw [bind_run]
  split
  · exact hNext _ _ _
  · rfl

/- The accesses of a composed run come from its two parts. -/
theorem mem_bind_accesses
    {p : Driver σ ρ ν α}
    {f : α → Driver σ ρ ν β}
    {m : σ}
    {answers : List ν}
    {x : Access ρ ν}
    (hx : x ∈ ((p >>= f) m answers).accesses) :
    x ∈ (p m answers).accesses ∨
      ∃ a m' answers', x ∈ (f a m' answers').accesses := by
  rw [bind_run] at hx
  split at hx
  · rcases List.mem_append.mp hx with hx | hx
    · exact Or.inl hx
    · exact Or.inr ⟨_, _, _, hx⟩
  · exact Or.inl hx

theorem mem_bind_accesses_left
    {p : Driver σ ρ ν α}
    (f : α → Driver σ ρ ν β)
    {m : σ}
    {answers : List ν}
    {x : Access ρ ν}
    (hx : x ∈ (p m answers).accesses) :
    x ∈ ((p >>= f) m answers).accesses := by
  rw [bind_run]
  split
  · exact List.mem_append_left _ hx
  · exact hx

theorem KeepsMemory.bind
    {p : Driver σ ρ ν α}
    {f : α → Driver σ ρ ν β}
    (hFirst : KeepsMemory p)
    (hNext : ∀ a, KeepsMemory (f a)) :
    KeepsMemory (p >>= f) := fun m answers =>
  (bind_memory hNext m answers).trans (hFirst m answers)

theorem Accesses.bind
    {P : Access ρ ν → Prop}
    {p : Driver σ ρ ν α}
    {f : α → Driver σ ρ ν β}
    (hFirst : Accesses P p)
    (hNext : ∀ a, Accesses P (f a)) :
    Accesses P (p >>= f) := by
  intro m answers x hx
  rcases mem_bind_accesses hx with hx | ⟨a, m', answers', hx⟩
  · exact hFirst m answers x hx
  · exact hNext a m' answers' x hx

theorem keepsMemory_pure
    (a : α) :
    KeepsMemory (pure a : Driver σ ρ ν α) :=
  fun _ _ => rfl

theorem accesses_pure
    (P : Access ρ ν → Prop)
    (a : α) :
    Accesses P (pure a : Driver σ ρ ν α) :=
  fun _ _ _ hx => absurd hx List.not_mem_nil

theorem keepsMemory_readReg
    (r : ρ) :
    KeepsMemory (readReg r : Driver σ ρ ν ν) := by
  intro m answers
  cases answers <;> rfl

theorem keepsMemory_writeReg
    (r : ρ)
    (v : ν) :
    KeepsMemory (writeReg r v : Driver σ ρ ν Unit) :=
  fun _ _ => rfl

theorem accesses_readReg
    {P : Access ρ ν → Prop}
    {r : ρ}
    (h : ∀ v, P (.read r v)) :
    Accesses P (readReg r : Driver σ ρ ν ν) := by
  intro m answers x hx
  cases answers with
  | nil => exact absurd hx List.not_mem_nil
  | cons v answers =>
      rw [List.mem_singleton.mp hx]
      exact h v

theorem accesses_writeReg
    {P : Access ρ ν → Prop}
    {r : ρ}
    {v : ν}
    (h : P (.write r v)) :
    Accesses P (writeReg r v : Driver σ ρ ν Unit) := by
  intro m answers x hx
  rw [List.mem_singleton.mp hx]
  exact h

theorem keepsMemory_spinWhile
    (r : ρ)
    (busy : ν → Bool)
    (budget spin : Nat) :
    KeepsMemory
      (spinWhile r busy budget spin : Driver σ ρ ν Nat) := by
  intro m answers
  induction answers generalizing spin with
  | nil => rfl
  | cons v answers ih =>
      rw [spinWhile]
      split
      · exact ih (spin + 1)
      · rfl

theorem accesses_spinWhile
    {P : Access ρ ν → Prop}
    {r : ρ}
    (busy : ν → Bool)
    (budget spin : Nat)
    (h : ∀ v, P (.read r v)) :
    Accesses P
      (spinWhile r busy budget spin : Driver σ ρ ν Nat) := by
  intro m answers
  induction answers generalizing spin with
  | nil => exact fun _ hx => absurd hx List.not_mem_nil
  | cons v answers ih =>
      intro x hx
      rw [spinWhile] at hx
      split at hx
      · rcases List.mem_append.mp hx with hx | hx
        · rw [List.mem_singleton.mp hx]
          exact h v
        · exact ih (spin + 1) x hx
      · rw [List.mem_singleton.mp hx]
        exact h v

theorem keepsMemory_awaitUnless
    (r : ρ)
    (done : ν → Bool)
    (e : ρ)
    (failed : ν → Bool) :
    KeepsMemory
      (awaitUnless r done e failed : Driver σ ρ ν Bool) := by
  intro m answers
  fun_induction awaitUnless r done e failed m answers with
  | case6 m v w answers hDone hFailed ih => exact ih
  | _ => rfl

theorem accesses_awaitUnless
    {P : Access ρ ν → Prop}
    {r e : ρ}
    (done failed : ν → Bool)
    (hRead : ∀ v, P (.read r v))
    (hError : ∀ v, P (.read e v)) :
    Accesses P
      (awaitUnless r done e failed : Driver σ ρ ν Bool) := by
  intro m answers
  fun_induction awaitUnless r done e failed m answers with
  | case6 m v w answers hDone hFailed ih =>
      simp only [Outcome.after, List.cons_append, List.nil_append,
        List.forall_mem_cons]
      exact ⟨hRead v, hError w, ih⟩
  | _ => simp [hRead, hError]

------------------------------------------------------------
-- Results of the Loops
------------------------------------------------------------

/-
  The loop ends within its budget, and before the budget is
  used up only on an idle value, the last that it read.
-/
theorem spinWhile_result
    {r : ρ}
    {busy : ν → Bool}
    {budget spin n : Nat}
    {m : σ}
    {answers : List ν}
    (hStart : spin ≤ budget)
    (h : (spinWhile r busy budget spin m answers).result =
      some n) :
    n ≤ budget ∧
      ∃ polls v,
        (spinWhile r busy budget spin m answers).accesses =
          polls ++ [.read r v] ∧
        (n < budget → busy v = false) := by
  induction answers generalizing spin with
  | nil => exact absurd h (by simp [spinWhile])
  | cons v answers ih =>
      rw [spinWhile] at h ⊢
      split at h
      · next hBusy =>
          rw [if_pos hBusy]
          rw [Bool.and_eq_true, decide_eq_true_eq] at hBusy
          rcases ih hBusy.2 h with ⟨hn, polls, w, hLog, hIdle⟩
          refine ⟨hn, .read r v :: polls, w, ?_, hIdle⟩
          exact congrArg _ hLog
      · next hIdle =>
          rw [if_neg hIdle]
          cases h
          refine ⟨hStart, [], v, rfl, ?_⟩
          intro hSpin
          simpa [hSpin] using hIdle

/- On busy values the loop uses up its budget. -/
theorem spinWhile_of_busy
    {r : ρ}
    {busy : ν → Bool}
    {budget spin : Nat}
    {m : σ}
    {answers : List ν}
    (hStart : spin ≤ budget)
    (hBusy : ∀ v ∈ answers.take (budget - spin), busy v = true) :
    (∀ n, (spinWhile r busy budget spin m answers).result =
        some n → n = budget) ∧
      (budget - spin < answers.length →
        (spinWhile r busy budget spin m answers).result =
          some budget) := by
  induction answers generalizing spin with
  | nil =>
      exact ⟨fun _ h => by simp [spinWhile] at h,
        fun h => by simp at h⟩
  | cons v answers ih =>
      rw [spinWhile]
      by_cases hSpin : spin < budget
      · have hSucc : budget - spin = budget - (spin + 1) + 1 := by
          omega
        rw [hSucc, List.take_succ_cons] at hBusy
        rw [if_pos (by
          simp [hSpin, hBusy v List.mem_cons_self])]
        have hRest := @ih (spin + 1) hSpin fun w hw =>
          hBusy w (List.mem_cons_of_mem _ hw)
        refine ⟨hRest.1, fun hLen => hRest.2 ?_⟩
        rw [List.length_cons] at hLen
        omega
      · have hEnd : spin = budget := by omega
        rw [if_neg (by simp [hSpin])]
        subst hEnd
        exact ⟨fun n h => (Option.some.inj h).symm, fun _ => rfl⟩

/- A loop that is done has seen it in its last read. -/
theorem awaitUnless_result
    {r e : ρ}
    {done failed : ν → Bool}
    {m : σ}
    {answers : List ν}
    (h : (awaitUnless r done e failed m answers).result =
      some true) :
    ∃ polls v,
      (awaitUnless r done e failed m answers).accesses =
        polls ++ [.read r v] ∧ done v = true := by
  fun_induction awaitUnless r done e failed m answers with
  | case2 m v hDone => exact ⟨[], v, rfl, hDone⟩
  | case4 m v w answers hDone => exact ⟨[], v, rfl, hDone⟩
  | case6 m v w answers hDone hFailed ih =>
      rcases ih h with ⟨polls, v', hLog, hDone'⟩
      refine ⟨.read r v :: .read e w :: polls, v', ?_, hDone'⟩
      exact congrArg ([.read r v, .read e w] ++ ·) hLog
  | _ => simp at h

end Polling
