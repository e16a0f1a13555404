import Mathlib.Data.Finset.Max
import Mathlib.Data.Finset.Card
import Ester.Library.Run

/-
  First-fit allocation from disjoint pools.

  A family of pools holds the free items of each kind.
  Taking from a pool removes its least visible item; items
  the allocator cannot see stay free.  A run hands out no
  item twice and only items that were free at the start, and
  what it handed out is exactly what the pools lost.

  Key definitions include:
    * `FirstFit.candidates`
    * `FirstFit.take`
    * `FirstFit.granted`

  Key theorems include:
    * `FirstFit.take_eq_some_iff`
    * `FirstFit.granted_nodup`
    * `FirstFit.granted_free`
-/

------------------------------------------------------------
-- Taking One Item
------------------------------------------------------------

namespace FirstFit

variable {κ α : Type} [DecidableEq κ] [LinearOrder α]
variable (visible : κ → α → Prop)
variable [∀ k, DecidablePred (visible k)]

/- The free items of a pool that the allocator can see. -/
def candidates
    (pools : κ → Finset α)
    (k : κ) : Finset α :=
  (pools k).filter (visible k)

omit [DecidableEq κ] [LinearOrder α] in
@[simp] theorem mem_candidates
    (pools : κ → Finset α)
    (k : κ)
    (a : α) :
    a ∈ candidates visible pools k ↔
      a ∈ pools k ∧ visible k a := by
  simp [candidates]

/- Remove an item from one pool. -/
def remove
    (pools : κ → Finset α)
    (k : κ)
    (a : α) : κ → Finset α :=
  Function.update pools k ((pools k).erase a)

theorem mem_remove_iff
    (pools : κ → Finset α)
    (k j : κ)
    (a b : α) :
    b ∈ remove pools k a j ↔
      b ∈ pools j ∧ (j, b) ≠ (k, a) := by
  by_cases hj : j = k
  · subst hj
    simp [remove, and_comm]
  · simp [remove, hj]

/- Hand out the least visible item of a pool. -/
def take
    (k : κ)
    (pools : κ → Finset α) :
    Option α × (κ → Finset α) :=
  if h : (candidates visible pools k).Nonempty then
    let a := (candidates visible pools k).min' h
    (some a, remove pools k a)
  else
    (none, pools)

/- Nothing is handed out exactly when nothing is visible. -/
theorem take_eq_none_iff
    (k : κ)
    (pools : κ → Finset α) :
    (take visible k pools).1 = none ↔
      ∀ a ∈ pools k, ¬ visible k a := by
  by_cases h : (candidates visible pools k).Nonempty
  · rcases h with ⟨a, ha⟩
    have hNonempty :
        (candidates visible pools k).Nonempty := ⟨a, ha⟩
    rw [mem_candidates] at ha
    simp only [take, hNonempty, dif_pos, reduceCtorEq,
      false_iff, not_forall, not_not]
    exact ⟨a, ha.1, ha.2⟩
  · simp only [take, h, dif_neg, not_false_iff, true_iff]
    intro a ha hVisible
    exact h ⟨a, by simp [ha, hVisible]⟩

/- The item handed out is the least visible one. -/
theorem take_eq_some_iff
    (k : κ)
    (pools : κ → Finset α)
    (a : α) :
    (take visible k pools).1 = some a ↔
      a ∈ pools k ∧ visible k a ∧
        ∀ b ∈ pools k, visible k b → a ≤ b := by
  by_cases h : (candidates visible pools k).Nonempty
  · have hMin := Finset.min'_mem _ h
    rw [mem_candidates] at hMin
    simp only [take, h, dif_pos, Option.some.injEq]
    constructor
    · intro hEq
      subst hEq
      refine ⟨hMin.1, hMin.2, ?_⟩
      intro b hb hVisible
      exact Finset.min'_le _ _ (by simp [hb, hVisible])
    · rintro ⟨ha, hVisible, hLeast⟩
      apply le_antisymm
      · exact Finset.min'_le _ _ (by simp [ha, hVisible])
      · exact hLeast _ hMin.1 hMin.2
  · simp only [take, h, dif_neg, not_false_iff,
      reduceCtorEq, false_iff, not_and]
    intro ha hVisible
    exact absurd ⟨a, by simp [ha, hVisible]⟩ h

/- Without an answer the pools are unchanged. -/
theorem take_pools_of_none
    {k : κ}
    {pools : κ → Finset α}
    (h : (take visible k pools).1 = none) :
    (take visible k pools).2 = pools := by
  unfold take at h ⊢
  split at h <;> simp_all

/- An answer leaves its pool and nothing else does. -/
theorem take_pools_of_some
    {k : κ}
    {pools : κ → Finset α}
    {a : α}
    (h : (take visible k pools).1 = some a) :
    (take visible k pools).2 = remove pools k a := by
  unfold take at h ⊢
  split at h <;> simp_all

------------------------------------------------------------
-- Runs
------------------------------------------------------------

/- The items handed out along a trace, with their pools. -/
def granted
    (trace : List (κ × Option α)) : List (κ × α) :=
  trace.filterMap fun e => e.2.map fun a => (e.1, a)

omit [DecidableEq κ] [LinearOrder α] in
@[simp] theorem granted_nil :
    granted ([] : List (κ × Option α)) = [] := rfl

omit [DecidableEq κ] [LinearOrder α] in
@[simp] theorem granted_cons_none
    (k : κ)
    (trace : List (κ × Option α)) :
    granted ((k, none) :: trace) = granted trace := rfl

omit [DecidableEq κ] [LinearOrder α] in
@[simp] theorem granted_cons_some
    (k : κ)
    (a : α)
    (trace : List (κ × Option α)) :
    granted ((k, some a) :: trace) =
      (k, a) :: granted trace := rfl

/- Everything handed out was free and visible. -/
theorem granted_free
    (ks : List κ)
    (pools : κ → Finset α)
    {k : κ}
    {a : α}
    (h : (k, a) ∈
      granted (traceAll (take visible) ks pools).1) :
    a ∈ pools k ∧ visible k a := by
  induction ks generalizing pools with
  | nil => simp [traceAll] at h
  | cons j ks ih =>
      simp only [traceAll] at h
      cases hTake : (take visible j pools).1 with
      | none =>
          rw [hTake, granted_cons_none,
            take_pools_of_none visible hTake] at h
          exact ih pools h
      | some b =>
          rw [hTake, granted_cons_some,
            take_pools_of_some visible hTake,
            List.mem_cons] at h
          rcases h with hHead | hTail
          · have hb := (take_eq_some_iff visible j pools b).mp
              hTake
            cases hHead
            exact ⟨hb.1, hb.2.1⟩
          · have hRest := ih _ hTail
            rw [mem_remove_iff] at hRest
            exact ⟨hRest.1.1, hRest.2⟩

/- No item is handed out twice. -/
theorem granted_nodup
    (ks : List κ)
    (pools : κ → Finset α) :
    (granted (traceAll (take visible) ks pools).1).Nodup := by
  induction ks generalizing pools with
  | nil => simp [traceAll]
  | cons j ks ih =>
      simp only [traceAll]
      cases hTake : (take visible j pools).1 with
      | none => exact ih _
      | some b =>
          rw [granted_cons_some, List.nodup_cons]
          refine ⟨?_, ih _⟩
          intro hMem
          have hFree := granted_free visible ks _ hMem
          rw [take_pools_of_some visible hTake,
            mem_remove_iff] at hFree
          exact hFree.1.2 rfl

end FirstFit
