import Mathlib.Data.List.Sort
import Ester.Library.Bitmap

/-
  Lines held as the bits of a register, by priority.

  A register of eight bits stands for the set of the lines
  whose bits are set.  The lower a line, the more urgent it
  is, so the set is listed from the lowest line on.  A line
  that is more urgent than everything in a register is
  pushed on this list when its bit is set, and clearing the
  bit of the first line pops it: under nested service the
  register is a stack.

  Key definitions include:
    * `Lines.of`
    * `Lines.clear`
    * `Lines.urgent`

  Key theorems include:
    * `Lines.mem_of_or`, `Lines.mem_of_clear`
    * `Lines.of_set_first`
    * `Lines.of_clear_first`
    * `Lines.urgent_eq_some_iff`
    * `Lines.length_le`
-/

namespace Lines

------------------------------------------------------------
-- The Lines of a Register
------------------------------------------------------------

/- The lines whose bits are set, the most urgent first. -/
def of
    (r : UInt8) : List Nat :=
  (List.range 8).filter fun n => r.toNat.testBit n

theorem mem_of
    {r : UInt8}
    {n : Nat} :
    n ∈ of r ↔ n < 8 ∧ r.toNat.testBit n = true := by
  rw [of, List.mem_filter, List.mem_range]

theorem pairwise_of
    (r : UInt8) :
    (of r).Pairwise (· < ·) :=
  List.pairwise_lt_range.filter _

@[simp] theorem of_zero :
    of 0 = [] := rfl

theorem of_eq_nil_iff
    {r : UInt8} :
    of r = [] ↔ r = 0 := by
  constructor
  · intro h
    apply UInt8.toNat_inj.mp
    apply Nat.eq_of_testBit_eq
    intro n
    rw [UInt8.toNat_zero, Nat.zero_testBit]
    by_cases hn : n < 8
    · have hOut : n ∉ of r := by
        rw [h]
        exact List.not_mem_nil
      rw [mem_of] at hOut
      simpa [hn] using hOut
    · exact Nat.testBit_lt_two_pow (Nat.lt_of_lt_of_le
        r.toNat_lt (Nat.pow_le_pow_right (by omega)
          (Nat.not_lt.mp hn)))
  · rintro rfl
    rfl

/- The sorted list of the lines of a register is unique. -/
theorem of_eq
    {r : UInt8}
    {ns : List Nat}
    (hSorted : ns.Pairwise (· < ·))
    (hMem : ∀ n, n ∈ of r ↔ n ∈ ns) :
    of r = ns :=
  (pairwise_of r).eq_of_mem_iff hSorted hMem

/- Sorted lines below a bound are not more than the bound. -/
theorem length_le
    {ns : List Nat}
    {bound : Nat}
    (hSorted : ns.Pairwise (· < ·))
    (hBound : ∀ n ∈ ns, n < bound) :
    ns.length ≤ bound := by
  have hNodup : ns.Nodup := hSorted.imp Nat.ne_of_lt
  have hSub : ns ⊆ List.range bound :=
    fun n hn => List.mem_range.mpr (hBound n hn)
  have hLe := (List.subperm_of_subset hNodup hSub).length_le
  rwa [List.length_range] at hLe

theorem lt_of_mem
    {r : UInt8}
    {n : Nat}
    (h : n ∈ of r) :
    n < 8 :=
  (mem_of.mp h).1

------------------------------------------------------------
-- Registers as Sets
------------------------------------------------------------

theorem mem_of_or
    {a b : UInt8}
    {n : Nat} :
    n ∈ of (a ||| b) ↔ n ∈ of a ∨ n ∈ of b := by
  rw [mem_of, mem_of, mem_of, UInt8.toNat_or, Nat.testBit_or,
    Bool.or_eq_true]
  exact and_or_left

theorem mem_of_and_not
    {a b : UInt8}
    {n : Nat} :
    n ∈ of (a &&& ~~~b) ↔ n ∈ of a ∧ n ∉ of b := by
  have hNot : (~~~b).toNat = 2 ^ 8 - (b.toNat + 1) := by
    rw [UInt8.toNat_not]
    have hSize : UInt8.size = 2 ^ 8 := rfl
    omega
  rw [mem_of, mem_of, mem_of, UInt8.toNat_and, Nat.testBit_and,
    hNot, Nat.testBit_two_pow_sub_succ b.toNat_lt]
  by_cases hn : n < 8
  · simp [hn]
  · simp [hn]

theorem mem_of_bitMask
    {m n : Nat}
    (hn : n < 8) :
    m ∈ of (bitMask n) ↔ m = n := by
  rw [mem_of, toNat_bitMask hn, Nat.testBit_two_pow,
    decide_eq_true_iff]
  omega

/- The register with the bit of a line cleared. -/
def clear
    (n : Nat)
    (r : UInt8) : UInt8 :=
  r &&& ~~~bitMask n

theorem mem_of_clear
    {r : UInt8}
    {m n : Nat}
    (hn : n < 8) :
    m ∈ of (clear n r) ↔ m ∈ of r ∧ m ≠ n := by
  rw [clear, mem_of_and_not, mem_of_bitMask hn]

------------------------------------------------------------
-- Pushing and Popping
------------------------------------------------------------

/- A line above all the others is pushed. -/
theorem of_set_first
    {r : UInt8}
    {n : Nat}
    (hn : n < 8)
    (hFirst : ∀ m ∈ of r, n < m) :
    of (r ||| bitMask n) = n :: of r := by
  apply of_eq
  · exact List.pairwise_cons.mpr ⟨hFirst, pairwise_of r⟩
  · intro m
    rw [mem_of_or, mem_of_bitMask hn, List.mem_cons, or_comm]

theorem of_bitMask
    {n : Nat}
    (hn : n < 8) :
    of (bitMask n) = [n] := by
  apply of_eq (List.pairwise_singleton _ _)
  intro m
  rw [mem_of_bitMask hn, List.mem_singleton]

/- The first line is popped when its bit is cleared. -/
theorem of_clear_first
    {r : UInt8}
    {n : Nat}
    {ns : List Nat}
    (h : of r = n :: ns) :
    of (clear n r) = ns := by
  have hSorted := pairwise_of r
  rw [h, List.pairwise_cons] at hSorted
  have hn : n < 8 := lt_of_mem (h ▸ List.mem_cons_self)
  apply of_eq hSorted.2
  intro m
  rw [mem_of_clear hn, h, List.mem_cons]
  constructor
  · rintro ⟨rfl | hm, hNe⟩
    · exact absurd rfl hNe
    · exact hm
  · intro hm
    exact ⟨.inr hm, Nat.ne_of_gt (hSorted.1 m hm)⟩

------------------------------------------------------------
-- Urgency
------------------------------------------------------------

/-
  The most urgent of the requested lines, when it is more
  urgent than every line in service.
-/
def urgent
    (requests service : UInt8) : Option Nat :=
  match of requests with
  | [] => none
  | n :: _ => if ∀ m ∈ of service, n < m then some n else none

theorem urgent_eq_some_iff
    {requests service : UInt8}
    {n : Nat} :
    urgent requests service = some n ↔
      n ∈ of requests ∧ (∀ m ∈ of requests, n ≤ m) ∧
        ∀ m ∈ of service, n < m := by
  have hSorted := pairwise_of requests
  unfold urgent
  cases hRequests : of requests with
  | nil => simp
  | cons first rest =>
      rw [hRequests, List.pairwise_cons] at hSorted
      have hLeast : ∀ m ∈ first :: rest, first ≤ m := by
        intro m hm
        rcases List.mem_cons.mp hm with rfl | hm
        · exact Nat.le_refl _
        · exact Nat.le_of_lt (hSorted.1 m hm)
      constructor
      · intro h
        by_cases hAbove : ∀ m ∈ of service, first < m
        · simp only [if_pos hAbove, Option.some.injEq] at h
          rw [← h]
          exact ⟨List.mem_cons_self, hLeast, hAbove⟩
        · simp [if_neg hAbove] at h
      · rintro ⟨hIn, hLe, hAbove⟩
        have hEq : n = first := Nat.le_antisymm
          (hLe first List.mem_cons_self) (hLeast n hIn)
        subst hEq
        exact if_pos hAbove

/- With nothing in service the first request is urgent. -/
theorem urgent_eq_none_iff
    {requests : UInt8} :
    urgent requests 0 = none ↔ of requests = [] := by
  unfold urgent
  cases of requests with
  | nil => simp
  | cons first rest => simp

end Lines
