import Mathlib.Tactic.IntervalCases
import Ester.Kernel.Paging.Mapping

/-
  The tree of the page tables.

  `palloc` may return a table that another entry points to
  already, as its slots may all be absent but one.  In runs
  in which a table is only taken while it is unused, no two
  entries point to the same table, and then a leaf entry
  belongs to one page, so that mapping a page leaves the
  walk of every other mapped page alone.

  Key definitions include:
    * `Call.TakesUnused`
    * `Machine.Unshared`
    * `Machine.NonLeaf`
    * `KeepsTree`

  Key theorems include:
    * `Mapped.unshared`
    * `Mapped.pageWalk_of_ne`
    * `pmap_keeps_tree`
    * `pmap_shares_table`
-/

namespace Ester

namespace Paging

------------------------------------------------------------
-- Unused Tables
------------------------------------------------------------

namespace Machine

/- No entry above the P1 tables points to table `u`. -/
def Unused
    (s : Machine)
    (u : Nat) : Prop :=
  ∀ t < 8, ∀ i < 512, ¬ s.Points (s.entry t i) u

instance
    (s : Machine)
    (u : Nat) : Decidable (s.Unused u) :=
  (inferInstance : Decidable (∀ t < 8, ∀ i < 512,
    ¬ s.Points (s.entry t i) u))

/- Different entries point to different tables. -/
def Unshared
    (s : Machine) : Prop :=
  ∀ t < 8, ∀ i < 512, ∀ t' < 8, ∀ i' < 512, ∀ u < 16,
    s.Points (s.entry t i) u →
      s.Points (s.entry t' i') u → t = t' ∧ i = i'

end Machine

/-
  Each entry on the way to the page points to a table, or is
  absent while the first slot that `palloc` finds is the
  first one of an unused table of the level below.
-/
def Call.TakesUnused
    (c : Call)
    (s : Machine) : Prop :=
  ∃ t₂ < 8, ∃ t₁ < 16, c.Path s t₂ t₁ ∧
    (isPresent (s.entry 1 (index c.vaddr 1)) = false →
      s.Unused t₂) ∧
    (isPresent (s.entry t₂ (index c.vaddr t₂)) = false →
      s.Unused t₁)

instance
    (c : Call)
    (s : Machine) : Decidable (c.TakesUnused s) :=
  inferInstanceAs (Decidable (∃ t₂ < 8, ∃ t₁ < 16,
    c.Path s t₂ t₁ ∧
      (isPresent (s.entry 1 (index c.vaddr 1)) = false →
        s.Unused t₂) ∧
      (isPresent (s.entry t₂ (index c.vaddr t₂)) = false →
        s.Unused t₁)))

namespace Machine

variable {s : Machine}

/- Only the first entries of P4 and P3 point to tables. -/
theorem Boot.points_first
    (hBoot : s.Boot)
    {t i u : Nat}
    (ht : t < 8)
    (hi : i < 512)
    (hu : u < 16)
    (hPoints : s.Points (s.entry t i) u) :
    t < 2 ∧ i = 0 ∧ u = t + 1 := by
  have hId := hBoot.tablesOk.identity
  have hOnly : t < 2 ∧ i = 0 := by
    by_contra hOther
    have hPresent := hPoints.1
    by_cases h2 : t = 2
    · subst h2
      have hHuge := hPoints.2.2
      rw [hBoot.p2 i hi, (huge_entry _).2] at hHuge
      cases hHuge
    · have hZero : s.entry t i = 0 := by
        rcases Nat.lt_or_ge t 2 with hLow | hHigh
        · interval_cases t
          · exact hBoot.p4_zero i hi (by omega)
          · exact hBoot.p3_zero i hi (by omega)
        · exact hBoot.rest_zero t (by omega) (by omega) i hi
      rw [hZero, isPresent_zero] at hPresent
      cases hPresent
  have hFirst : s.Points (s.entry 0 0) 1 := by
    have hLink : s.entry 0 0 = link (s.table 1) 0 := by
      rw [hBoot.p4, link, UInt64.or_zero]
    rw [hLink]
    exact hId.points_link (by decide) (by decide)
  have hSecond : s.Points (s.entry 1 0) 2 := by
    have hLink : s.entry 1 0 = link (s.table 2) 0 := by
      rw [hBoot.p3, link, UInt64.or_zero]
    rw [hLink]
    exact hId.points_link (by decide) (by decide)
  rcases hOnly with ⟨hLow, rfl⟩
  refine ⟨hLow, rfl, ?_⟩
  interval_cases t
  · exact hId.points_inj hu (by decide) hPoints hFirst
  · exact hId.points_inj hu (by decide) hPoints hSecond

/- The boot entries point to one table each. -/
theorem Boot.unshared
    (hBoot : s.Boot) :
    s.Unshared := by
  intro t ht i hi t' ht' i' hi' u hu hPoints hPoints'
  have hFirst := hBoot.points_first ht hi hu hPoints
  have hFirst' := hBoot.points_first ht' hi' hu hPoints'
  omega

/- The tables behind the first three are not used. -/
theorem Boot.unused
    (hBoot : s.Boot)
    {u : Nat}
    (h3 : 3 ≤ u)
    (h16 : u < 16) :
    s.Unused u := by
  intro t ht i hi hPoints
  have hFirst := hBoot.points_first ht hi h16 hPoints
  omega

end Machine

------------------------------------------------------------
-- One Call Keeps the Tree
------------------------------------------------------------

namespace Mapped

variable {c : Call}
variable {s t : Machine}
variable {t₂ t₁ : Nat}

/-
  An entry that points to a table did so before, or is one
  of the two that the call has set.
-/
theorem points_cases
    (hMapped : Mapped c s t t₂ t₁)
    (hOk : s.TablesOk)
    (hPath : c.Path s t₂ t₁)
    {v j u : Nat}
    (hv : v < 8)
    (hj : j < 512)
    (hu : u < 16)
    (hPoints : t.Points (t.entry v j) u) :
    s.Points (s.entry v j) u ∨
      (v = 1 ∧ j = index c.vaddr 1 ∧ u = t₂ ∧
        isPresent (s.entry 1 (index c.vaddr 1)) = false) ∨
      (v = t₂ ∧ j = index c.vaddr t₂ ∧ u = t₁ ∧
        isPresent (s.entry t₂ (index c.vaddr t₂)) =
          false) := by
  rcases hOk.path_bounds hPath with ⟨h3, h8, h8', h16⟩
  rcases hMapped.path_points hOk hPath with ⟨-, hP3, hP2⟩
  have hId := hMapped.ok.identity
  by_cases hOld : isPresent (s.entry v j) = true
  · left
    rw [hMapped.points_iff,
      hMapped.entry_of_present h8' hv hj hOld] at hPoints
    exact hPoints
  · right
    rw [Bool.not_eq_true] at hOld
    by_cases hOne : v = 1 ∧ j = index c.vaddr 1
    · left
      rcases hOne with ⟨rfl, rfl⟩
      exact ⟨rfl, rfl,
        hId.points_inj hu (by omega) hPoints hP3, hOld⟩
    · by_cases hTwo : v = t₂ ∧ j = index c.vaddr t₂
      · right
        rcases hTwo with ⟨rfl, rfl⟩
        exact ⟨rfl, rfl,
          hId.points_inj hu h16 hPoints hP2, hOld⟩
      · have hPresent := hPoints.1
        rw [hMapped.entry v (by omega) j hj, if_neg (by omega),
          if_neg hTwo, if_neg hOne, hOld] at hPresent
        cases hPresent

/- An entry that the call has set links to its table. -/
theorem entry_of_changed
    (hMapped : Mapped c s t t₂ t₁)
    (hOk : s.TablesOk)
    (hPath : c.Path s t₂ t₁)
    {v j u : Nat}
    (hv : v < 8)
    (hj : j < 512)
    (hu : u < 16)
    (hPoints : t.Points (t.entry v j) u)
    (hChanged : t.entry v j ≠ s.entry v j) :
    t.entry v j = link (t.table u) c.flags := by
  rcases hOk.path_bounds hPath with ⟨h3, h8, h8', h16⟩
  rcases hMapped.points_cases hOk hPath hv hj hu hPoints with
    hOld | ⟨rfl, rfl, rfl, hAbsent⟩ | ⟨rfl, rfl, rfl, hAbsent⟩
  · exact absurd (hMapped.entry_of_present h8' hv hj hOld.1)
      hChanged
  · rw [hMapped.entry 1 (by decide) _ hj, if_neg (by omega),
      if_neg (by omega), if_pos ⟨rfl, rfl⟩, Machine.leadEntry,
      if_neg (by simp [hAbsent]), hMapped.table]
  · rw [hMapped.entry v (by omega) _ hj, if_neg (by omega),
      if_pos ⟨rfl, rfl⟩, Machine.leadEntry,
      if_neg (by simp [hAbsent]), hMapped.table]

/- Taking unused tables keeps the targets different. -/
theorem unshared
    (hMapped : Mapped c s t t₂ t₁)
    (hOk : s.TablesOk)
    (hUnshared : s.Unshared)
    (hPath : c.Path s t₂ t₁)
    (hUnused₂ :
      isPresent (s.entry 1 (index c.vaddr 1)) = false →
        s.Unused t₂)
    (hUnused₁ :
      isPresent (s.entry t₂ (index c.vaddr t₂)) = false →
        s.Unused t₁) :
    t.Unshared := by
  rcases hOk.path_bounds hPath with ⟨h3, h8, h8', h16⟩
  intro v hv j hj v' hv' j' hj' u hu hPoints hPoints'
  have hCase := hMapped.points_cases hOk hPath hv hj hu hPoints
  have hCase' :=
    hMapped.points_cases hOk hPath hv' hj' hu hPoints'
  rcases hCase with hOld | ⟨rfl, rfl, rfl, hAbsent⟩ |
    ⟨rfl, rfl, rfl, hAbsent⟩
  · rcases hCase' with hOld' | ⟨rfl, rfl, rfl, hAbsent'⟩ |
      ⟨rfl, rfl, rfl, hAbsent'⟩
    · exact hUnshared v hv j hj v' hv' j' hj' u hu hOld hOld'
    · exact absurd hOld (hUnused₂ hAbsent' v hv j hj)
    · exact absurd hOld (hUnused₁ hAbsent' v hv j hj)
  · rcases hCase' with hOld' | ⟨rfl, rfl, -, -⟩ | ⟨-, -, hEq, -⟩
    · exact absurd hOld' (hUnused₂ hAbsent v' hv' j' hj')
    · exact ⟨rfl, rfl⟩
    · omega
  · rcases hCase' with hOld' | ⟨-, -, hEq, -⟩ | ⟨rfl, rfl, -, -⟩
    · exact absurd hOld' (hUnused₁ hAbsent v' hv' j' hj')
    · omega
    · exact ⟨rfl, rfl⟩

end Mapped

------------------------------------------------------------
-- Walks of Other Pages
------------------------------------------------------------

/- An address whose upper bits repeat bit 47. -/
def Canonical
    (vaddr : UInt64) : Prop :=
  vaddr.toNat < 2 ^ 47 ∨ 2 ^ 64 - 2 ^ 47 ≤ vaddr.toNat

/- Pages with the same indices are the same page. -/
theorem page_eq_of_index_eq
    {v w : UInt64}
    {t₂ t₁ : Nat}
    (h2 : 2 ≤ t₂)
    (h8 : t₂ < 8)
    (h8' : 8 ≤ t₁)
    (hCanonical : Canonical v)
    (hw : w.toNat < 2 ^ 39)
    (e₀ : index v 0 = index w 0)
    (e₁ : index v 1 = index w 1)
    (e₂ : index v t₂ = index w t₂)
    (e₃ : index v t₁ = index w t₁) :
    v.toNat / 4096 = w.toNat / 4096 := by
  have hP2 : ∀ x, index x t₂ = x.toNat / 2 ^ 21 % 512 := by
    intro x
    rw [index, if_neg (by omega), if_neg (by omega), if_pos h8,
      toNat_pdIndex]
  have hP1 : ∀ x, index x t₁ = x.toNat / 2 ^ 12 % 512 := by
    intro x
    rw [index, if_neg (by omega), if_neg (by omega),
      if_neg (by omega), toNat_ptIndex]
  rw [hP2, hP2] at e₂
  rw [hP1, hP1] at e₃
  simp only [index, if_true, toNat_pml4Index,
    toNat_pdpIndex, one_ne_zero, if_false] at e₀ e₁
  have hv : v.toNat < 2 ^ 64 := v.toNat_lt
  have hLow : v.toNat < 2 ^ 47 := by
    rcases hCanonical with hLow | hUpper
    · exact hLow
    · omega
  have hPage : v.toNat / 2 ^ 21 = w.toNat / 2 ^ 21 := by
    omega
  omega

namespace Machine

variable {s : Machine}

/- The P4 entry of a walk points to the P3 table. -/
theorem TablesOk.points_p4
    (hOk : s.TablesOk)
    {i : Nat}
    (hi : i < 512)
    (hPresent : isPresent (s.entry 0 i) = true) :
    i = 0 ∧ s.Points (s.entry 0 i) 1 := by
  have hZero : i = 0 := by
    by_contra hNonzero
    rw [hOk.p4_rest i hi (by omega)] at hPresent
    cases hPresent
  have hLink : s.entry 0 0 = link (s.table 1) 0 := by
    rw [hOk.identity.p4, link, UInt64.or_zero]
  subst hZero
  rw [hLink]
  exact ⟨rfl, hOk.identity.points_link (by decide) (by decide)⟩

/- A present entry was found at a reserved table. -/
theorem entry_of_presentEntry
    {t : Nat}
    {i e : UInt64}
    (hEntry : s.presentEntry (s.table t) i = some e) :
    isPresent (s.entry t i.toNat) = true ∧
      e = s.entry t i.toNat := by
  rw [presentEntry_table] at hEntry
  by_cases hPresent : isPresent (s.entry t i.toNat) = true
  · rw [if_pos hPresent, Option.some_inj] at hEntry
    exact ⟨hPresent, hEntry.symm⟩
  · rw [if_neg hPresent] at hEntry
    cases hEntry

/- The walk inside the first gigabyte's 2 MiB pages. -/
theorem TablesOk.pageWalk_huge
    (hOk : s.TablesOk)
    {vaddr : UInt64}
    (h4 : s.Points (s.entry 0 (index vaddr 0)) 1)
    (h3 : s.Points (s.entry 1 (index vaddr 1)) 2) :
    s.pageWalk vaddr =
      some ((s.entry 2 (index vaddr 2) &&& ~~~0x1FFFFF) +
        (vaddr &&& 0x1FF000)) := by
  have hTable : s.cr3 = s.table 0 := by simp [table]
  have hHuge := huge_entry
    (0x200000 * UInt64.ofNat (index vaddr 2))
  rw [← hOk.identity.p2 _ (index_lt _ _)] at hHuge
  have e₄ : s.presentEntry s.cr3 (pml4Index vaddr) =
      some (s.entry 0 (index vaddr 0)) := by
    rw [hTable, presentEntry_table]
    exact if_pos h4.1
  have e₃ : s.presentEntry (s.table 1) (pdpIndex vaddr) =
      some (s.entry 1 (index vaddr 1)) := by
    rw [presentEntry_table]
    exact if_pos h3.1
  have e₂ : s.presentEntry (s.table 2) (pdIndex vaddr) =
      some (s.entry 2 (index vaddr 2)) := by
    rw [presentEntry_table]
    exact if_pos hHuge.1
  simp only [pageWalk, e₄, e₃, e₂, h4.2.1, h3.2.1, hHuge.2,
    if_true]

/-
  A mapped page lies in a 2 MiB page of the boot code or has
  a present leaf entry.
-/
theorem TablesOk.walk_cases
    (hOk : s.TablesOk)
    {vaddr p : UInt64}
    (hWalk : s.pageWalk vaddr = some p) :
    s.Points (s.entry 0 (index vaddr 0)) 1 ∧
      (s.Points (s.entry 1 (index vaddr 1)) 2 ∨
        ∃ u₂ u₁, (3 ≤ u₂ ∧ u₂ < 8) ∧ (8 ≤ u₁ ∧ u₁ < 16) ∧
          s.Points (s.entry 1 (index vaddr 1)) u₂ ∧
          s.Points (s.entry u₂ (index vaddr u₂)) u₁ ∧
          isPresent (s.entry u₁ (index vaddr u₁)) = true) := by
  have hTable : s.cr3 = s.table 0 := by simp [table]
  rw [pageWalk, hTable] at hWalk
  cases h4 : s.presentEntry (s.table 0) (pml4Index vaddr) with
  | none => simp [h4] at hWalk
  | some e₄ =>
      rcases entry_of_presentEntry h4 with ⟨hPresent₄, rfl⟩
      have hPoints₄ :=
        (hOk.points_p4 (index_lt vaddr 0) hPresent₄).2
      refine ⟨hPoints₄, ?_⟩
      have hNext₄ : address (s.entry 0 (pml4Index vaddr).toNat) =
          s.table 1 := hPoints₄.2.1
      simp only [h4, hNext₄] at hWalk
      cases h3 : s.presentEntry (s.table 1)
          (pdpIndex vaddr) with
      | none => simp [h3] at hWalk
      | some e₃ =>
          rcases entry_of_presentEntry h3 with ⟨hPresent₃, rfl⟩
          rcases hOk.points 1 (by decide) (by decide)
              (by decide) _ (index_lt vaddr 1) hPresent₃ with
            ⟨u₂, hRange₂, hPoints₃⟩
          by_cases hFirst : u₂ = 2
          · exact .inl (hFirst ▸ hPoints₃)
          · right
            have hBounds₂ : 2 ≤ u₂ ∧ u₂ < 8 := hRange₂
            have hIndex₂ : (pdIndex vaddr).toNat =
                index vaddr u₂ := by
              rw [index, if_neg (by omega), if_neg (by omega),
                if_pos hBounds₂.2]
            have hNext₃ : address
                (s.entry 1 (pdpIndex vaddr).toNat) =
                s.table u₂ := hPoints₃.2.1
            simp only [h3, hNext₃] at hWalk
            cases h2 : s.presentEntry (s.table u₂)
                (pdIndex vaddr) with
            | none => simp [h2] at hWalk
            | some e₂ =>
                rcases entry_of_presentEntry h2 with
                  ⟨hPresent₂, rfl⟩
                rw [hIndex₂] at h2 hPresent₂
                rcases hOk.points u₂ (by omega) (by omega)
                    hFirst _ (index_lt vaddr u₂) hPresent₂ with
                  ⟨u₁, hRange₁, hPoints₂⟩
                have hBounds₁ : 8 ≤ u₁ ∧ u₁ < 16 := by
                  simp only [firstNext, endNext,
                    show u₂ ≠ 0 by omega,
                    show u₂ ≠ 1 by omega, if_false] at hRange₁
                  exact hRange₁
                have hIndex₁ : (ptIndex vaddr).toNat =
                    index vaddr u₁ := by
                  rw [index, if_neg (by omega),
                    if_neg (by omega), if_neg (by omega)]
                simp only [h2, hPoints₂.2.1, hPoints₂.2.2,
                  Bool.false_eq_true, if_false] at hWalk
                cases h1 : s.presentEntry (s.table u₁)
                    (ptIndex vaddr) with
                | none => simp [h1] at hWalk
                | some e₁ =>
                    rcases entry_of_presentEntry h1 with
                      ⟨hPresent₁, -⟩
                    rw [hIndex₁] at hPresent₁
                    exact ⟨u₂, u₁, ⟨by omega, hBounds₂.2⟩,
                      hBounds₁, hPoints₃, hPoints₂, hPresent₁⟩

end Machine

/-
  A mapped page other than the call's keeps its frame: its
  leaf entry is another one, as the tables form a tree.
-/
theorem Mapped.pageWalk_of_ne
    {c : Call}
    {s t : Machine}
    {t₂ t₁ : Nat}
    (hMapped : Mapped c s t t₂ t₁)
    (hOk : s.TablesOk)
    (hPath : c.Path s t₂ t₁)
    (hUnshared : t.Unshared)
    (hHigh : c.vaddr.toNat < 2 ^ 39)
    {v p : UInt64}
    (hCanonical : Canonical v)
    (hNe : v.toNat / 4096 ≠ c.vaddr.toNat / 4096)
    (hWalk : s.pageWalk v = some p) :
    t.pageWalk v = some p := by
  rcases hOk.path_bounds hPath with ⟨h3, h8, h8', h16⟩
  rcases hMapped.path_points hOk hPath with ⟨hNew₄, hNew₃, hNew₂⟩
  have hKeep : ∀ u < 8, ∀ w,
      s.Points (s.entry u (index v u)) w →
        t.Points (t.entry u (index v u)) w := by
    intro u hu w hPoints
    rw [hMapped.points_iff, hMapped.entry_of_present h8' hu
      (index_lt _ _) hPoints.1]
    exact hPoints
  rcases hOk.walk_cases hWalk with ⟨hPoints₄, hHuge | hTables⟩
  · have hPresent := (huge_entry
      (0x200000 * UInt64.ofNat (index v 2))).1
    rw [← hOk.identity.p2 _ (index_lt _ _)] at hPresent
    rw [hOk.pageWalk_huge hPoints₄ hHuge] at hWalk
    rw [hMapped.ok.pageWalk_huge (hKeep 0 (by decide) 1 hPoints₄)
      (hKeep 1 (by decide) 2 hHuge),
      hMapped.entry_of_present h8' (by decide) (index_lt _ _)
        hPresent]
    exact hWalk
  · rcases hTables with
      ⟨u₂, u₁, hu₂, hu₁, hPoints₃, hPoints₂, hPresent⟩
    have hKeep₄ := hKeep 0 (by decide) 1 hPoints₄
    have hKeep₃ := hKeep 1 (by decide) u₂ hPoints₃
    have hKeep₂ := hKeep u₂ hu₂.2 u₁ hPoints₂
    have hLeaf : t.entry u₁ (index v u₁) =
        s.entry u₁ (index v u₁) := by
      rw [hMapped.entry u₁ hu₁.2 _ (index_lt _ _), if_neg,
        if_neg (by omega), if_neg (by omega)]
      rintro ⟨rfl, hIndex₁⟩
      -- the same leaf table has the same entries above it
      have hSame₂ := hUnshared u₂ hu₂.2 _ (index_lt _ _) t₂ h8 _
        (index_lt _ _) u₁ hu₁.2 hKeep₂ hNew₂
      rcases hSame₂ with ⟨rfl, hIndex₂⟩
      have hSame₃ := hUnshared 1 (by decide) _ (index_lt _ _) 1
        (by decide) _ (index_lt _ _) u₂ (by omega) hKeep₃ hNew₃
      have hZero := (hMapped.ok.points_p4 (index_lt v 0)
        hKeep₄.1).1
      have hZero' := (hMapped.ok.points_p4 (index_lt c.vaddr 0)
        hNew₄.1).1
      exact hNe (page_eq_of_index_eq (by omega) hu₂.2 hu₁.1
        hCanonical hHigh (hZero.trans hZero'.symm) hSame₃.2
        hIndex₂ hIndex₁)
    rw [Machine.pageWalk_of_points (by omega) hu₂.2 hu₁.1
      hPoints₄ hPoints₃ hPoints₂, if_pos hPresent] at hWalk
    rw [Machine.pageWalk_of_points (by omega) hu₂.2 hu₁.1
      hKeep₄ hKeep₃ hKeep₂, hLeaf, if_pos hPresent]
    exact hWalk

------------------------------------------------------------
-- Runs That Keep the Tree
------------------------------------------------------------

/- A step of such a call keeps the tree. -/
theorem Call.TakesUnused.step_tree
    {c : Call}
    {o : Unit}
    {s t : Machine}
    (hTakes : c.TakesUnused s)
    (hTree : s.TablesOk ∧ s.Unshared)
    (hStep : c.step s = some (o, t)) :
    t.TablesOk ∧ t.Unshared := by
  rcases hTakes with
    ⟨t₂, -, t₁, -, hPath, hUnused₂, hUnused₁⟩
  rcases hTree.1.pmap_mapped hPath with ⟨t', hMap, hMapped⟩
  rw [Call.step, hMap] at hStep
  cases hStep
  exact ⟨hMapped.ok, hMapped.unshared hTree.1 hTree.2 hPath
    hUnused₂ hUnused₁⟩

/- The invariant of such runs. -/
theorem tree_of_run
    {s₀ s : Machine}
    {trace : List (Call × Unit)}
    (hBoot : s₀.Boot)
    (hRun : GuardedRun Call.step
      (fun c _ s => c.TakesUnused s) s₀ trace s) :
    s.TablesOk ∧ s.Unshared :=
  hRun.invariant
    (fun s => Machine.TablesOk s ∧ Machine.Unshared s)
    ⟨hBoot.tablesOk, hBoot.unshared⟩
    fun _ _ _ _ hTree hTakes hStep =>
      hTakes.step_tree hTree hStep

------------------------------------------------------------
-- Entries the Hardware Follows
------------------------------------------------------------

namespace Machine

/-
  The tables of each level that the hardware can reach: the
  P4 table, and what present entries above the P1 tables
  hold, apart from 2 MiB pages.
-/
inductive Table (s : Machine) : Nat → UInt64 → Prop
  | root : Table s 4 s.cr3
  | next
      {level : Nat}
      {table : UInt64}
      {i : Nat}
      (hTable : Table s (level + 1) table)
      (hLevel : 1 ≤ level)
      (hIndex : i < 512)
      (hPresent : isPresent
        (s.mem (slot table (UInt64.ofNat i))) = true)
      (hPage : level = 1 → isHuge
        (s.mem (slot table (UInt64.ofNat i))) = false) :
      Table s level
        (address (s.mem (slot table (UInt64.ofNat i))))

/- The entry at address `a` points to a table at `target`. -/
def NonLeaf
    (s : Machine)
    (a target : UInt64) : Prop :=
  ∃ level table i, s.Table (level + 1) table ∧ 1 ≤ level ∧
    i < 512 ∧ a = slot table (UInt64.ofNat i) ∧
    isPresent (s.mem a) = true ∧
    (level = 1 → isHuge (s.mem a) = false) ∧
    target = address (s.mem a)

variable {s : Machine}

/- The reserved tables of a level. -/
def levelTables
    (level t : Nat) : Prop :=
  level = 4 ∧ t = 0 ∨ level = 3 ∧ t = 1 ∨
    level = 2 ∧ (2 ≤ t ∧ t < 8) ∨ level = 1 ∧ (8 ≤ t ∧ t < 16)

/- A followed entry is in a reserved table and points to one. -/
theorem TablesOk.points_of_level
    (hOk : s.TablesOk)
    {level t i : Nat}
    (hTable : levelTables (level + 1) t)
    (hLevel : 1 ≤ level)
    (hi : i < 512)
    (hPresent : isPresent (s.entry t i) = true)
    (hPage : level = 1 → isHuge (s.entry t i) = false) :
    ∃ u, levelTables level u ∧ s.Points (s.entry t i) u := by
  rcases hTable with ⟨hTop, rfl⟩ | ⟨hThree, rfl⟩ |
    ⟨hTwo, hRange⟩ | ⟨hOne, -⟩
  · exact ⟨1, .inr (.inl ⟨by omega, rfl⟩),
      (hOk.points_p4 hi hPresent).2⟩
  · rcases hOk.points 1 (by decide) (by decide) (by decide) i
      hi hPresent with ⟨u, hNext, hPoints⟩
    exact ⟨u, .inr (.inr (.inl ⟨by omega, hNext⟩)), hPoints⟩
  · have hNot : t ≠ 2 := by
      intro hEq
      have hHuge := (huge_entry
        (0x200000 * UInt64.ofNat i)).2
      rw [← hOk.identity.p2 i hi, ← hEq, hPage (by omega)]
        at hHuge
      cases hHuge
    rcases hOk.points t hRange.2 (by omega) hNot i hi hPresent
      with ⟨u, hNext, hPoints⟩
    simp only [firstNext, endNext, show t ≠ 0 by omega,
      show t ≠ 1 by omega, if_false] at hNext
    exact ⟨u, .inr (.inr (.inr ⟨by omega, hNext⟩)), hPoints⟩
  · omega

/- The hardware stays in the reserved tables. -/
theorem TablesOk.table_reserved
    (hOk : s.TablesOk)
    {level : Nat}
    {table : UInt64}
    (hTable : s.Table level table) :
    ∃ t, levelTables level t ∧ table = s.table t := by
  induction hTable with
  | root => exact ⟨0, .inl ⟨rfl, rfl⟩, by simp [Machine.table]⟩
  | next hAbove hLevel hIndex hPresent hPage ih =>
      rcases ih with ⟨t, hLevels, rfl⟩
      rcases hOk.points_of_level hLevels hLevel hIndex hPresent
        hPage with ⟨u, hNext, hPoints⟩
      exact ⟨u, hNext, hPoints.2.1⟩

theorem TablesOk.nonLeaf_points
    (hOk : s.TablesOk)
    {a target : UInt64}
    (hNonLeaf : s.NonLeaf a target) :
    ∃ t i u, t < 8 ∧ i < 512 ∧ u < 16 ∧
      a = slot (s.table t) (UInt64.ofNat i) ∧
      s.Points (s.entry t i) u ∧ target = s.table u := by
  rcases hNonLeaf with
    ⟨level, table, i, hTable, hLevel, hi, rfl, hPresent, hPage,
      rfl⟩
  rcases hOk.table_reserved hTable with ⟨t, hLevels, rfl⟩
  rcases hOk.points_of_level hLevels hLevel hi hPresent hPage
    with ⟨u, hNext, hPoints⟩
  refine ⟨t, i, u, ?_, hi, ?_, rfl, hPoints, hPoints.2.1⟩
  · rw [levelTables] at hLevels
    omega
  · rw [levelTables] at hNext
    omega

end Machine

/-
  What a call promises about the tree: other mapped pages
  keep their frames, an entry it sets holds the address of a
  whole reserved table, and different entries point to
  different tables.
-/
def KeepsTree
    (c : Call)
    (s t : Machine) : Prop :=
  (∀ v p, Canonical v →
    v.toNat / 4096 ≠ c.vaddr.toNat / 4096 →
      s.pageWalk v = some p → t.pageWalk v = some p) ∧
  (∀ a target, t.NonLeaf a target →
    (target.toNat % 4096 = 0 ∧ t.cr3.toNat ≤ target.toNat ∧
      target.toNat + 4096 ≤ t.cr3.toNat + 16 * 4096) ∧
    (t.mem a ≠ s.mem a → t.mem a = target ||| pagePresent |||
      pageWritable ||| c.flags)) ∧
  (∀ a b target, t.NonLeaf a target → t.NonLeaf b target →
    a = b)

/-
  After a run of calls that take unused whole tables, one
  more such call keeps the tree.
-/
theorem pmap_keeps_tree
    {s₀ s : Machine}
    {trace : List (Call × Unit)}
    (hBoot : s₀.Boot)
    (hRun : GuardedRun Call.step
      (fun c _ s => c.TakesUnused s) s₀ trace s)
    (c : Call)
    (hHigh : c.vaddr.toNat < 2 ^ 39)
    (hTakes : c.TakesUnused s) :
    ∃ t, pmap c.paddr c.vaddr c.flags s = some t ∧
      KeepsTree c s t := by
  rcases tree_of_run hBoot hRun with ⟨hOk, hUnshared⟩
  rcases hTakes with
    ⟨t₂, -, t₁, -, hPath, hUnused₂, hUnused₁⟩
  rcases hOk.pmap_mapped hPath with ⟨t, hMap, hMapped⟩
  have hTree := hMapped.unshared hOk hUnshared hPath hUnused₂
    hUnused₁
  have hId := hMapped.ok.identity
  refine ⟨t, hMap, ?_, ?_, ?_⟩
  · intro v p hCanonical hNe hWalk
    exact hMapped.pageWalk_of_ne hOk hPath hTree hHigh
      hCanonical hNe hWalk
  · intro a target hNonLeaf
    rcases hMapped.ok.nonLeaf_points hNonLeaf with
      ⟨v, j, u, hv, hj, hu, rfl, hPoints, rfl⟩
    refine ⟨?_, ?_⟩
    · have hAligned := hId.table_aligned hu
      have hTable := hId.toNat_table hu
      omega
    · intro hChanged
      have hPlace : slot (t.table v) (UInt64.ofNat j) =
          slot (s.table v) (UInt64.ofNat j) := by
        rw [hMapped.table]
      have hEntry : t.entry v j ≠ s.entry v j := by
        rw [hPlace] at hChanged
        rw [Machine.entry, Machine.entry, hPlace]
        exact hChanged
      exact hMapped.entry_of_changed hOk hPath hv hj hu hPoints
        hEntry
  · intro a b target hA hB
    rcases hMapped.ok.nonLeaf_points hA with
      ⟨v, j, u, hv, hj, hu, rfl, hPoints, hTarget⟩
    rcases hMapped.ok.nonLeaf_points hB with
      ⟨v', j', u', hv', hj', hu', rfl, hPoints', hTarget'⟩
    have hSame := hId.table_inj hu hu'
      (hTarget.symm.trans hTarget')
    rw [← hSame] at hPoints'
    rcases hTree v hv j hj v' hv' j' hj' u hu hPoints hPoints'
      with ⟨rfl, rfl⟩
    rfl

theorem registerCall_unused_run :
    GuardedRun Call.step (fun c _ s => c.TakesUnused s)
      bootMachine [(registerCall, ())] registerMachine :=
  .snoc .refl
    ⟨3, by decide, 8, by decide, registerCall_path,
      fun _ => bootMachine_boot.unused (by decide) (by decide),
      fun _ => bootMachine_boot.unused (by decide) (by decide)⟩
    registerCall_step

/- The page after the registers keeps the tree. -/
theorem pmap_keeps_tree_sample :
    ∃ t, pmap 0x5000 0xFEBF2000 0 registerMachine = some t ∧
      KeepsTree ⟨0x5000, 0xFEBF2000, 0⟩ registerMachine t :=
  pmap_keeps_tree bootMachine_boot registerCall_unused_run
    ⟨0x5000, 0xFEBF2000, 0⟩ (by decide)
    ⟨3, by decide, 8, by decide, nextPage_path 0x5000,
      fun hAbsent => absurd nextPage_points.2.1.1
        (Bool.eq_false_iff.mp hAbsent),
      fun hAbsent => absurd nextPage_points.2.2.1
        (Bool.eq_false_iff.mp hAbsent)⟩

/- An address between one gigabyte and 512 gigabytes. -/
def InRange
    (vaddr : UInt64) : Prop :=
  2 ^ 30 ≤ vaddr.toNat ∧ vaddr.toNat < 2 ^ 39

/-
  A page two gigabytes below the registers gets the same P2
  table, as its first slot is still absent, and with it the
  leaf entry of the registers.
-/
theorem pmap_shares_table :
    ¬ ∀ (s₀ s : Machine) (trace : List (Call × Unit)),
      s₀.Boot →
      GuardedRun Call.step (fun c _ _ => InRange c.vaddr)
        s₀ trace s →
      ∀ (paddr vaddr : UInt64) (t : Machine),
        InRange vaddr → pmap paddr vaddr 0 s = some t →
          KeepsTree ⟨paddr, vaddr, 0⟩ s t := by
  intro hClaim
  have hRun : GuardedRun Call.step
      (fun c _ _ => InRange c.vaddr)
      bootMachine [(registerCall, ())] registerMachine :=
    .snoc .refl ⟨by decide, by decide⟩ registerCall_step
  have hAfter : (pmap 0x5000 0x7EBF1000 0
      registerMachine).map (fun t => t.pageWalk 0xFEBF1000) =
        some (some 0x5000) := by
    decide +kernel
  rcases Option.map_eq_some_iff.mp hAfter with
    ⟨t, hMap, hWalk⟩
  have hClaimed := hClaim _ _ _ bootMachine_boot hRun
    0x5000 0x7EBF1000 t ⟨by decide, by decide⟩ hMap
  have hBefore : registerMachine.pageWalk 0xFEBF1000 =
      some 0xFEBF1000 :=
    registerCall_mapped.2.pageWalk_eq
      bootMachine_boot.tablesOk registerCall_path
  have hKept := hClaimed.1 0xFEBF1000 0xFEBF1000
    (.inl (by decide)) (by decide) hBefore
  rw [hKept] at hWalk
  exact absurd hWalk (by decide)

end Paging

end Ester
