import Ester.Library.Run
import Ester.Kernel.Paging.Levels

/-
  Runs of `pmap` from the boot page tables.

  The scan of `palloc` looks at single slots, so the slot it
  returns need not be the first one of a table, and `pmap`
  takes a present entry for a table even when it is a 2 MiB
  page.  In runs that meet neither, every mapped page walks
  to its frame.

  Key definitions include:
    * `Call.TakesTables`

  Key theorems include:
    * `pmap_maps_page`
    * `pmap_misses_huge_page`
-/

namespace Ester

namespace Paging

------------------------------------------------------------
-- Calls That Take Whole Tables
------------------------------------------------------------

/-
  Each entry on the way to the page points to a table, or is
  absent while the first slot that `palloc` finds is the
  first one of a reserved table of the level below.
-/
def Call.TakesTables
    (c : Call)
    (s : Machine) : Prop :=
  ∃ t₂ < 8, ∃ t₁ < 16, c.Path s t₂ t₁

instance
    (c : Call)
    (s : Machine) : Decidable (c.TakesTables s) :=
  inferInstanceAs (Decidable (∃ t₂ < 8, ∃ t₁ < 16, _))

/- A step of such a call keeps the invariant. -/
theorem Call.TakesTables.step_ok
    {c : Call}
    {o : Unit}
    {s t : Machine}
    (hTakes : c.TakesTables s)
    (hOk : s.TablesOk)
    (hStep : c.step s = some (o, t)) :
    t.TablesOk := by
  rcases hTakes with ⟨t₂, -, t₁, -, hPath⟩
  rcases hOk.pmap_mapped hPath with ⟨t', hMap, hMapped⟩
  rw [Call.step, hMap] at hStep
  cases hStep
  exact hMapped.ok

/- Runs of such calls keep the invariant. -/
theorem tablesOk_of_run
    {s₀ s : Machine}
    {trace : List (Call × Unit)}
    (hBoot : s₀.Boot)
    (hRun : GuardedRun Call.step
      (fun c _ s => c.TakesTables s) s₀ trace s) :
    s.TablesOk :=
  hRun.invariant Machine.TablesOk hBoot.tablesOk
    fun _ _ _ _ hOk hTakes hStep => hTakes.step_ok hOk hStep

/-
  After a run of calls that take whole tables, one more such
  call without flags maps its page to its frame.
-/
theorem pmap_maps_page
    {s₀ s : Machine}
    {trace : List (Call × Unit)}
    (hBoot : s₀.Boot)
    (hRun : GuardedRun Call.step
      (fun c _ s => c.TakesTables s) s₀ trace s)
    (paddr vaddr : UInt64)
    (hTakes : (⟨paddr, vaddr, 0⟩ : Call).TakesTables s) :
    ∃ t, pmap paddr vaddr 0 s = some t ∧
      t.pageWalk vaddr = some (paddr &&& ~~~0xFFF) := by
  have hOk := tablesOk_of_run hBoot hRun
  rcases hTakes with ⟨t₂, -, t₁, -, hPath⟩
  rcases hOk.pmap_mapped hPath with ⟨t, hMap, hMapped⟩
  refine ⟨t, hMap, ?_⟩
  have hWalk := hMapped.pageWalk_eq hOk hPath
  have hAligned : (address paddr).toNat % 4096 = 0 := by
    rw [toNat_address]
    omega
  rw [address_link _ (show PlainFlags 0 by decide),
    address_eq_self hAligned] at hWalk
  exact hWalk

/- The boot page tables at the first megabyte. -/
def bootMachine : Machine where
  cr3 := 0x100000
  mem a :=
    if a = 0x100000 then 0x101003
    else if a = 0x101000 then 0x102003
    else if 0x102000 ≤ a ∧ a < 0x103000 then
      0x200000 * ((a - 0x102000) / 8) ||| 0x83
    else 0

theorem bootMachine_identity :
    bootMachine.Identity where
  aligned := by decide
  below := by decide
  p4 := by decide +kernel
  p3 := by decide +kernel
  p2 := by decide +kernel

/- Behind the three tables of the boot code all is zero. -/
theorem bootMachine_rest
    {t i : Nat}
    (h3 : 3 ≤ t)
    (h16 : t < 16)
    (hi : i < 512) :
    bootMachine.entry t i = 0 := by
  have hSlot := bootMachine_identity.toNat_slot_table h16
    (show i ≤ 512 * (16 - t) by omega)
  have hCr3 : bootMachine.cr3.toNat = 0x100000 := rfl
  rw [hCr3] at hSlot
  rw [Machine.entry]
  generalize slot (bootMachine.table t) (UInt64.ofNat i) = a
    at hSlot ⊢
  have hBehind : ¬ a < 0x103000 := by
    rw [UInt64.lt_iff_toNat_lt, hSlot]
    exact Nat.not_lt.mpr
      (show 0x103000 ≤ 0x100000 + 4096 * t + 8 * i by omega)
  have hNe {b : UInt64} (hb : b < 0x103000) : a ≠ b :=
    fun hEq => hBehind (hEq ▸ hb)
  unfold bootMachine
  dsimp only
  rw [if_neg (hNe (by decide)), if_neg (hNe (by decide)),
    if_neg fun h => hBehind h.2]

theorem bootMachine_boot :
    bootMachine.Boot where
  aligned := bootMachine_identity.aligned
  below := bootMachine_identity.below
  p4 := bootMachine_identity.p4
  p3 := bootMachine_identity.p3
  p2 := bootMachine_identity.p2
  p4_zero := by decide +kernel
  p3_zero := by decide +kernel
  rest_zero _ h3 h16 _ hi := bootMachine_rest h3 h16 hi

/- The controller's registers are mapped to themselves. -/
def registerCall : Call :=
  ⟨0xFEBF1000, 0xFEBF1000, 0⟩

/- The boot machine after that call. -/
def registerMachine : Machine :=
  (pmap 0xFEBF1000 0xFEBF1000 0 bootMachine).getD bootMachine

/- It takes the first free P2 table and a P1 table. -/
theorem registerCall_path :
    registerCall.Path bootMachine 3 8 := by
  decide +kernel

theorem registerCall_mapped :
    pmap 0xFEBF1000 0xFEBF1000 0 bootMachine =
        some registerMachine ∧
      Mapped registerCall bootMachine registerMachine 3 8 := by
  rcases bootMachine_boot.tablesOk.pmap_mapped
    registerCall_path with ⟨t, hMap, hMapped⟩
  have hSame : registerMachine = t := by
    rw [registerMachine]
    exact congrArg (fun r => r.getD bootMachine) hMap
  rw [hSame]
  exact ⟨hMap, hMapped⟩

theorem registerCall_step :
    registerCall.step bootMachine =
      some ((), registerMachine) := by
  rw [Call.step, registerCall, registerCall_mapped.1]
  rfl

theorem registerCall_run :
    GuardedRun Call.step (fun c _ s => c.TakesTables s)
      bootMachine [(registerCall, ())] registerMachine :=
  .snoc .refl ⟨3, by decide, 8, by decide, registerCall_path⟩
    registerCall_step

/- The next page has the same tables, which are in place. -/
theorem nextPage_points :
    registerMachine.Points
        (registerMachine.entry 0 (index 0xFEBF2000 0)) 1 ∧
      registerMachine.Points
        (registerMachine.entry 1 (index 0xFEBF2000 1)) 3 ∧
      registerMachine.Points
        (registerMachine.entry 3 (index 0xFEBF2000 3)) 8 :=
  registerCall_mapped.2.path_points bootMachine_boot.tablesOk
    registerCall_path

theorem nextPage_path
    (paddr : UInt64) :
    (⟨paddr, 0xFEBF2000, 0⟩ : Call).Path registerMachine 3 8 :=
  ⟨⟨by decide, .inl nextPage_points.1⟩,
    ⟨by decide, .inl nextPage_points.2.1⟩,
    ⟨by decide, .inl nextPage_points.2.2⟩⟩

/- The page after the registers is mapped next. -/
theorem pmap_maps_page_sample :
    ∃ t, pmap 0x5000 0xFEBF2000 0 registerMachine = some t ∧
      t.pageWalk 0xFEBF2000 = some 0x5000 :=
  pmap_maps_page bootMachine_boot registerCall_run
    0x5000 0xFEBF2000
    ⟨3, by decide, 8, by decide, nextPage_path 0x5000⟩

/-
  A program segment at 0x401000 lies in a 2 MiB page of the
  boot code.  The entry of that page is taken for a table,
  and the address still walks to itself.
-/
theorem pmap_misses_huge_page :
    ¬ ∀ (s₀ s : Machine) (trace : List (Call × Unit)),
      s₀.Boot →
      GuardedRun Call.step (fun _ _ _ => True) s₀ trace s →
      ∀ (paddr vaddr : UInt64) (t : Machine),
        (vaddr.toNat < 2 ^ 47 ∨
          2 ^ 64 - 2 ^ 47 ≤ vaddr.toNat) →
        pmap paddr vaddr 0 s = some t →
          t.pageWalk vaddr = some (paddr &&& ~~~0xFFF) := by
  intro hClaim
  have hFacts : (pmap 0x80401000 0x401000 0 bootMachine).map
      (fun t => t.pageWalk 0x401000) =
        some (some 0x401000) := by
    decide +kernel
  rcases Option.map_eq_some_iff.mp hFacts with
    ⟨t, hMap, hWalk⟩
  have hClaimed := hClaim _ _ _ bootMachine_boot .refl
    0x80401000 0x401000 t (by decide) hMap
  rw [hClaimed] at hWalk
  exact absurd hWalk (by decide)

end Paging

end Ester
