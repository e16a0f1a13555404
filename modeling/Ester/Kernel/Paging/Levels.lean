import Ester.Kernel.Paging.Tables

/-
  What one call of `pmap` does to the reserved tables.

  The invariant says that the present entries of the P4, P3
  and P2 tables lead to whole reserved tables of the next
  level, apart from the 2 MiB pages of the first P2 table.
  A call that finds such tables, or takes whole ones, sets
  at most one entry at each level and keeps the invariant.

  Key definitions include:
    * `Machine.Points`
    * `Machine.FreeTable`
    * `Machine.TablesOk`
    * `Call.Path`
    * `Mapped`

  Key theorems include:
    * `Machine.TablesOk.setEntry`
    * `Machine.TablesOk.nextTable_eq`
    * `Machine.TablesOk.pmap_mapped`
    * `Mapped.pageWalk_eq`
-/

namespace Ester

namespace Paging

------------------------------------------------------------
-- Tables of a Level
------------------------------------------------------------

/- The first reserved table of the level below a table. -/
def firstNext
    (t : Nat) : Nat :=
  if t = 0 then 1 else if t = 1 then 2 else 8

/- The end of the reserved tables of the level below. -/
def endNext
    (t : Nat) : Nat :=
  if t = 0 then 2 else if t = 1 then 8 else 16

theorem next_bounds
    {t u : Nat}
    (ht : t < 8)
    (hFirst : firstNext t ≤ u)
    (hEnd : u < endNext t) :
    t < u ∧ u < 16 := by
  simp only [firstNext, endNext] at hFirst hEnd
  split at hFirst
  · simp_all
    omega
  · split at hFirst
    · simp_all
      omega
    · simp_all
      omega

namespace Machine

variable {s : Machine}

/- An entry that points to reserved table `u`. -/
def Points
    (s : Machine)
    (e : UInt64)
    (u : Nat) : Prop :=
  isPresent e = true ∧ address e = s.table u ∧
    isHuge e = false

/-
  The first slot from table `lo` on that is not present is
  the first slot of table `u`.
-/
def FreeTable
    (s : Machine)
    (lo u : Nat) : Prop :=
  (∀ t < u, lo ≤ t → ∀ i < 512,
      isPresent (s.entry t i) = true) ∧
    isPresent (s.entry u 0) = false

/-
  Entry `i` of table `t` leads to table `u`, which it points
  to or which `palloc` supplies whole.
-/
def Leads
    (s : Machine)
    (flags : UInt64)
    (t i u : Nat) : Prop :=
  (firstNext t ≤ u ∧ u < endNext t) ∧
    (s.Points (s.entry t i) u ∨
      isPresent (s.entry t i) = false ∧ PlainFlags flags ∧
        s.FreeTable (firstNext t) u)

instance
    (s : Machine)
    (e : UInt64)
    (u : Nat) : Decidable (s.Points e u) :=
  inferInstanceAs (Decidable (_ ∧ _ ∧ _))

instance
    (s : Machine)
    (lo u : Nat) : Decidable (s.FreeTable lo u) :=
  inferInstanceAs (Decidable (_ ∧ _))

instance
    (s : Machine)
    (flags : UInt64)
    (t i u : Nat) : Decidable (s.Leads flags t i u) :=
  inferInstanceAs (Decidable ((_ ∧ _) ∧ (_ ∨ _)))

/-
  The invariant of the reserved tables: the identity map, a
  P4 table with one entry, and present entries that point to
  tables of the next level.
-/
structure TablesOk (s : Machine) : Prop where
  identity : s.Identity
  p4_rest : ∀ i < 512, 0 < i → isPresent (s.entry 0 i) = false
  points : ∀ t < 8, t ≠ 0 → t ≠ 2 → ∀ i < 512,
    isPresent (s.entry t i) = true →
      ∃ u, (firstNext t ≤ u ∧ u < endNext t) ∧
        s.Points (s.entry t i) u

/- The boot code establishes the invariant. -/
theorem Boot.tablesOk
    (hBoot : s.Boot) :
    s.TablesOk := by
  have hId : s.Identity :=
    ⟨hBoot.aligned, hBoot.below, hBoot.p4, hBoot.p3, hBoot.p2⟩
  refine ⟨hId, ?_, ?_⟩
  · intro i hi hPos
    rw [hBoot.p4_zero i hi hPos, isPresent_zero]
  · intro t ht h0 h2 i hi hPresent
    by_cases h1 : t = 1
    · subst h1
      by_cases hFirst : i = 0
      · subst hFirst
        have hLink : s.entry 1 0 = link (s.table 2) 0 := by
          rw [hBoot.p3, link, UInt64.or_zero]
        have hAligned := hId.table_aligned (t := 2) (by decide)
        refine ⟨2, by decide, ?_⟩
        rw [hLink]
        refine ⟨isPresent_link _ _, ?_,
          isHuge_link hAligned (by decide)⟩
        rw [address_link _ (by decide), address_eq_self hAligned]
      · rw [hBoot.p3_zero i hi (by omega), isPresent_zero]
          at hPresent
        cases hPresent
    · rw [hBoot.rest_zero t (by omega) (by omega) i hi,
        isPresent_zero] at hPresent
      cases hPresent

------------------------------------------------------------
-- Setting an Entry
------------------------------------------------------------

/- The machine with entry `i` of table `t` set. -/
def setEntry
    (s : Machine)
    (t i : Nat)
    (value : UInt64) : Machine :=
  s.setWord (slot (s.table t) (UInt64.ofNat i)) value

@[simp] theorem setEntry_cr3
    (s : Machine)
    (t i : Nat)
    (value : UInt64) :
    (s.setEntry t i value).cr3 = s.cr3 := rfl

@[simp] theorem table_setEntry
    (s : Machine)
    (t i u : Nat)
    (value : UInt64) :
    (s.setEntry t i value).table u = s.table u := rfl

/- The address of an entry of a reserved table. -/
def IsSlot
    (s : Machine)
    (a : UInt64) : Prop :=
  ∃ t < 16, ∃ i < 512, a = slot (s.table t) (UInt64.ofNat i)

theorem isSlot_congr
    {s' : Machine}
    (hCr3 : s'.cr3 = s.cr3)
    (a : UInt64) :
    s'.IsSlot a ↔ s.IsSlot a := by
  simp only [IsSlot, table, hCr3]

/- Setting an entry changes no word outside the tables. -/
theorem mem_setEntry
    {t i : Nat}
    (value : UInt64)
    (ht : t < 16)
    (hi : i < 512)
    {a : UInt64}
    (hOther : ¬ s.IsSlot a) :
    (s.setEntry t i value).mem a = s.mem a :=
  if_neg fun hEq => hOther ⟨t, ht, i, hi, hEq⟩

/- Setting an entry changes that entry only. -/
theorem Identity.entry_setEntry
    (hId : s.Identity)
    {t i u j : Nat}
    (value : UInt64)
    (ht : t < 16)
    (hi : i < 512)
    (hu : u < 16)
    (hj : j < 512) :
    (s.setEntry t i value).entry u j =
      if u = t ∧ j = i then value else s.entry u j := by
  rw [entry, entry, table_setEntry, setEntry, setWord]
  by_cases hSame : u = t ∧ j = i
  · rcases hSame with ⟨rfl, rfl⟩
    simp
  · rw [if_neg hSame]
    apply if_neg
    intro hSlot
    exact hSame (hId.slot_inj hu ht hj hi hSlot)

/- The identity map is kept by stores to other entries. -/
theorem Identity.setEntry
    (hId : s.Identity)
    {t i : Nat}
    (value : UInt64)
    (ht : t < 16)
    (hi : i < 512)
    (hKeep : (t = 1 ∧ 0 < i) ∨ 3 ≤ t) :
    (s.setEntry t i value).Identity := by
  have hEntry : ∀ u < 3, ∀ j < 512, (u = 1 → j = 0) →
      (s.setEntry t i value).entry u j = s.entry u j := by
    intro u hu j hj hZero
    rw [hId.entry_setEntry value ht hi (by omega) hj, if_neg]
    omega
  refine ⟨hId.aligned, hId.below, ?_, ?_, ?_⟩
  · rw [hEntry 0 (by decide) 0 (by decide) (by omega)]
    exact hId.p4
  · rw [hEntry 1 (by decide) 0 (by decide) (by omega)]
    exact hId.p3
  · intro j hj
    rw [hEntry 2 (by decide) j hj (by omega)]
    exact hId.p2 j hj

/- A link to a reserved table points to it. -/
theorem Identity.points_link
    (hId : s.Identity)
    {u : Nat}
    {flags : UInt64}
    (hu : u < 16)
    (hFlags : PlainFlags flags) :
    s.Points (link (s.table u) flags) u := by
  have hAligned := hId.table_aligned hu
  refine ⟨isPresent_link _ _, ?_, isHuge_link hAligned hFlags⟩
  rw [address_link _ hFlags, address_eq_self hAligned]

/- An entry points to one table. -/
theorem Identity.points_inj
    (hId : s.Identity)
    {e : UInt64}
    {u v : Nat}
    (hu : u < 16)
    (hv : v < 16)
    (h : s.Points e u)
    (h' : s.Points e v) :
    u = v :=
  hId.table_inj hu hv (h.2.1.symm.trans h'.2.1)

/-
  The invariant is kept when an entry of a P3 or P2 table is
  made to point to the next level, and by any store to a P1
  table.
-/
theorem TablesOk.setEntry
    (hOk : s.TablesOk)
    {t i : Nat}
    {value : UInt64}
    (ht : t < 16)
    (hi : i < 512)
    (hKeep : (t = 1 ∧ 0 < i) ∨ 3 ≤ t)
    (hPoints : t < 8 → ∃ u,
      (firstNext t ≤ u ∧ u < endNext t) ∧ s.Points value u) :
    (s.setEntry t i value).TablesOk := by
  have hEntry : ∀ u < 16, ∀ j < 512,
      (s.setEntry t i value).entry u j =
        if u = t ∧ j = i then value else s.entry u j :=
    fun u hu j hj =>
      hOk.identity.entry_setEntry value ht hi hu hj
  refine ⟨hOk.identity.setEntry value ht hi hKeep, ?_, ?_⟩
  · intro j hj hPos
    rw [hEntry 0 (by decide) j hj, if_neg (by omega)]
    exact hOk.p4_rest j hj hPos
  · intro u hu h0 h2 j hj hPresent
    rw [hEntry u (by omega) j hj] at hPresent ⊢
    by_cases hSame : u = t ∧ j = i
    · rw [if_pos hSame]
      rw [hSame.1]
      exact hPoints (by omega)
    · rw [if_neg hSame] at hPresent ⊢
      exact hOk.points u hu h0 h2 j hj hPresent

------------------------------------------------------------
-- One Level of a Call
------------------------------------------------------------

/- The slots after a table are the slots of the next ones. -/
theorem Identity.slot_table_add
    (hId : s.Identity)
    {t k i : Nat}
    (ht : t + k < 16)
    (hi : i < 512) :
    slot (s.table t) (UInt64.ofNat (512 * k + i)) =
      slot (s.table (t + k)) (UInt64.ofNat i) := by
  rw [← UInt64.toNat_inj,
    hId.toNat_slot_table (by omega) (by omega),
    hId.toNat_slot_table ht (by omega)]
  omega

/- `palloc` supplies a free table. -/
theorem Identity.palloc_eq
    (hId : s.Identity)
    {lo u : Nat}
    (hLow : lo ≤ u)
    (hu : u < 16)
    (hFree : s.FreeTable lo u) :
    palloc s (s.table lo) = some (s.table u) := by
  have hBelow := hId.below
  have hTable := hId.toNat_table (t := lo) (by omega)
  have hSlot : slot (s.table lo)
      (UInt64.ofNat (512 * (u - lo))) = s.table u := by
    have hAdd := hId.slot_table_add (t := lo) (k := u - lo)
      (i := 0) (by omega) (by decide)
    rw [Nat.add_zero, show lo + (u - lo) = u by omega] at hAdd
    rw [hAdd]
    exact slot_zero _
  rw [palloc, hId.pallocLoop_eq (512 * (u - lo)) (by omega)
    (by omega), hSlot]
  · intro j hj
    have hAdd := hId.slot_table_add (t := lo) (k := j / 512)
      (i := j % 512) (by omega) (by omega)
    rw [Nat.div_add_mod] at hAdd
    rw [hAdd]
    exact hFree.1 (lo + j / 512) (by omega) (by omega)
      (j % 512) (by omega)
  · have hFirst : slot (s.table u) (UInt64.ofNat 0) =
        s.table u := slot_zero _
    have hAbsent := hFree.2
    rw [entry, hFirst] at hAbsent
    rw [hSlot]
    exact hAbsent

/- The entry that a level of `pmap` leaves behind. -/
def leadEntry
    (s : Machine)
    (flags : UInt64)
    (t i u : Nat) : UInt64 :=
  if isPresent (s.entry t i) then s.entry t i
  else link (s.table u) flags

theorem Identity.points_leadEntry
    (hId : s.Identity)
    {t i u : Nat}
    {flags : UInt64}
    (hu : u < 16)
    (hLeads : s.Leads flags t i u) :
    s.Points (s.leadEntry flags t i u) u := by
  rw [leadEntry]
  rcases hLeads.2 with hPoints | ⟨hAbsent, hPlain, -⟩
  · rw [if_pos hPoints.1]
    exact hPoints
  · rw [if_neg (by simp [hAbsent])]
    exact hId.points_link hu hPlain

/- The pools of `pmap` are the reserved tables of a level. -/
theorem slot_pools
    (s : Machine) :
    slot s.cr3 512 = s.table 1 ∧
      slot (s.table 1) 512 = s.table 2 ∧
      slot (s.table 2) (512 * 6) = s.table 8 := by
  refine ⟨rfl, ?_, ?_⟩
  · rw [slot, table, UInt64.add_assoc]
    rfl
  · rw [slot, table, UInt64.add_assoc]
    rfl

/-
  The machine `s'` is `s` with entry `i` of table `t` set,
  and keeps the invariant.
-/
structure EntrySet
    (s s' : Machine)
    (t i : Nat)
    (value : UInt64) : Prop where
  cr3 : s'.cr3 = s.cr3
  ok : s'.TablesOk
  entry : ∀ v < 16, ∀ j < 512, s'.entry v j =
    if v = t ∧ j = i then value else s.entry v j
  other : ∀ a, ¬ s.IsSlot a → s'.mem a = s.mem a

theorem EntrySet.table
    {s' : Machine}
    {t i : Nat}
    {value : UInt64}
    (hSet : s.EntrySet s' t i value)
    (u : Nat) :
    s'.table u = s.table u := by
  rw [Machine.table, Machine.table, hSet.cr3]

namespace TablesOk

variable {t i u : Nat}
variable {flags : UInt64}
variable {index : UInt64}

/- The entries of the boot code are present. -/
theorem keep_of_absent
    (hOk : s.TablesOk)
    (hi : i < 512)
    (h0 : t ≠ 0)
    (hAbsent : isPresent (s.entry t i) = false) :
    (t = 1 ∧ 0 < i) ∨ 3 ≤ t := by
  by_cases h1 : t = 1
  · refine .inl ⟨h1, Nat.pos_of_ne_zero ?_⟩
    intro hZero
    have hPresent := isPresent_link (s.table 2) 0
    rw [link, UInt64.or_zero, ← hOk.identity.p3, ← h1, ← hZero,
      hAbsent] at hPresent
    cases hPresent
  · by_cases h2 : t = 2
    · have hPresent :=
        (huge_entry (0x200000 * UInt64.ofNat i)).1
      rw [← hOk.identity.p2 i hi, ← h2, hAbsent] at hPresent
      cases hPresent
    · omega

/-
  One level returns the table that the entry leads to and
  sets that entry.
-/
theorem nextTable_eq
    (hOk : s.TablesOk)
    (hIndex : index.toNat = i)
    (ht : t < 8)
    (h0 : t ≠ 0)
    (hi : i < 512)
    (hLeads : s.Leads flags t i u) :
    ∃ s', nextTable (s.table t) index (s.table (firstNext t))
          flags s =
        some (s.table u, s') ∧
      s.EntrySet s' t i (s.leadEntry flags t i u) := by
  have hId := hOk.identity
  have hBounds := next_bounds ht hLeads.1.1 hLeads.1.2
  have hBelow := hId.below
  have hOf : UInt64.ofNat i = index := by
    rw [← hIndex, UInt64.ofNat_toNat]
  have hSlot := hId.toNat_slot_table (t := t) (i := i)
    (by omega) (by omega)
  rw [hOf] at hSlot
  have hEntry : s.mem (slot (s.table t) index) =
      s.entry t i := by
    rw [entry, hOf]
  have hPoints := hId.points_leadEntry hBounds.2 hLeads
  rw [nextTable, hId.load_eq (by omega), hEntry]
  rw [leadEntry] at hPoints ⊢
  rcases hLeads.2 with hOld | ⟨hAbsent, -, hFree⟩
  · refine ⟨s, ?_, rfl, hOk, ?_, fun _ _ => rfl⟩
    · simp [hOld.1, hOld.2.1]
    · intro v _ j _
      rw [if_pos hOld.1]
      by_cases hSame : v = t ∧ j = i
      · rw [if_pos hSame, hSame.1, hSame.2]
      · rw [if_neg hSame]
  · rw [if_neg (by simp [hAbsent])] at hPoints ⊢
    have hStore := hId.store_eq (link (s.table u) flags)
      (show (slot (s.table t) index).toNat < 2 ^ 30 by omega)
    refine ⟨s.setEntry t i (link (s.table u) flags), ?_, rfl,
      ?_, ?_, fun a hOther => mem_setEntry _ (by omega) hi hOther⟩
    · simp [hAbsent,
        hId.palloc_eq hLeads.1.1 hBounds.2 hFree, hStore,
        Machine.setEntry, hOf]
    · exact hOk.setEntry (by omega) hi
        (hOk.keep_of_absent hi h0 hAbsent)
        fun _ => ⟨u, hLeads.1, hPoints⟩
    · intro v hv j hj
      exact hId.entry_setEntry _ (by omega) hi hv hj

/- The store of a leaf entry. -/
theorem store_leaf
    (hOk : s.TablesOk)
    (hIndex : index.toNat = i)
    (h8 : 8 ≤ t)
    (ht : t < 16)
    (hi : i < 512)
    (value : UInt64) :
    ∃ s', s.store (slot (s.table t) index) value = some s' ∧
      s.EntrySet s' t i value := by
  have hOf : UInt64.ofNat i = index := by
    rw [← hIndex, UInt64.ofNat_toNat]
  have hSlot := hOk.identity.toNat_slot_table (t := t) (i := i)
    (by omega) (by omega)
  have hBelow := hOk.identity.below
  rw [hOf] at hSlot
  refine ⟨s.setEntry t i value, ?_, rfl, ?_, ?_,
    fun a hOther => mem_setEntry _ ht hi hOther⟩
  · rw [hOk.identity.store_eq _ (by omega), Machine.setEntry, hOf]
  · exact hOk.setEntry ht hi (by omega) fun h => by omega
  · intro v hv j hj
    exact hOk.identity.entry_setEntry _ ht hi hv hj

end TablesOk

end Machine

------------------------------------------------------------
-- One Call
------------------------------------------------------------

/- The index of an address in a reserved table. -/
def index
    (vaddr : UInt64)
    (t : Nat) : Nat :=
  if t = 0 then (pml4Index vaddr).toNat
  else if t = 1 then (pdpIndex vaddr).toNat
  else if t < 8 then (pdIndex vaddr).toNat
  else (ptIndex vaddr).toNat

theorem index_lt
    (vaddr : UInt64)
    (t : Nat) :
    index vaddr t < 512 := by
  simp only [index, toNat_pml4Index, toNat_pdpIndex,
    toNat_pdIndex, toNat_ptIndex]
  split_ifs <;> omega

/-
  The tables that the entries of a call lead to: a P2 table
  `t₂` and a P1 table `t₁`.
-/
def Call.Path
    (c : Call)
    (s : Machine)
    (t₂ t₁ : Nat) : Prop :=
  s.Leads c.flags 0 (index c.vaddr 0) 1 ∧
    s.Leads c.flags 1 (index c.vaddr 1) t₂ ∧
    s.Leads c.flags t₂ (index c.vaddr t₂) t₁

instance
    (c : Call)
    (s : Machine)
    (t₂ t₁ : Nat) : Decidable (c.Path s t₂ t₁) :=
  inferInstanceAs (Decidable (_ ∧ _ ∧ _))

/- The effect of a call along its path. -/
structure Mapped
    (c : Call)
    (s t : Machine)
    (t₂ t₁ : Nat) : Prop where
  cr3 : t.cr3 = s.cr3
  ok : t.TablesOk
  entry : ∀ v < 16, ∀ j < 512, t.entry v j =
    if v = t₁ ∧ j = index c.vaddr t₁ then
      link (address c.paddr) c.flags
    else if v = t₂ ∧ j = index c.vaddr t₂ then
      s.leadEntry c.flags t₂ (index c.vaddr t₂) t₁
    else if v = 1 ∧ j = index c.vaddr 1 then
      s.leadEntry c.flags 1 (index c.vaddr 1) t₂
    else s.entry v j
  other : ∀ a, ¬ s.IsSlot a → t.mem a = s.mem a

namespace Machine

variable {s : Machine}
variable {c : Call}
variable {t₂ t₁ : Nat}

/- The entry of a lead only depends on its own word. -/
theorem leadEntry_congr
    {s' : Machine}
    {flags : UInt64}
    {t i u : Nat}
    (hCr3 : s'.cr3 = s.cr3)
    (hEntry : s'.entry t i = s.entry t i) :
    s'.leadEntry flags t i u = s.leadEntry flags t i u := by
  have hTable : s'.table u = s.table u := by
    rw [table, table, hCr3]
  rw [leadEntry, leadEntry, hEntry, hTable]

/- A lead only depends on its entry and the tables below. -/
theorem leads_congr
    {s' : Machine}
    {flags : UInt64}
    {t i u : Nat}
    (hCr3 : s'.cr3 = s.cr3)
    (hEntry : s'.entry t i = s.entry t i)
    (hBelow : ∀ v ≤ u, firstNext t ≤ v → ∀ j < 512,
      s'.entry v j = s.entry v j)
    (hLeads : s.Leads flags t i u) :
    s'.Leads flags t i u := by
  have hTable : s'.table u = s.table u := by
    rw [table, table, hCr3]
  refine ⟨hLeads.1, ?_⟩
  rcases hLeads.2 with hPoints | ⟨hAbsent, hPlain, hFree⟩
  · left
    rw [hEntry]
    exact ⟨hPoints.1, hPoints.2.1.trans hTable.symm, hPoints.2.2⟩
  · right
    rw [hEntry]
    refine ⟨hAbsent, hPlain, ?_, ?_⟩
    · intro v hv hLow j hj
      rw [hBelow v (by omega) hLow j hj]
      exact hFree.1 v hv hLow j hj
    · rw [hBelow u (by omega) hLeads.1.1 0 (by decide)]
      exact hFree.2

namespace TablesOk

/- The P4 entry of a path is the one of the boot code. -/
theorem leads_p4
    (hOk : s.TablesOk)
    {flags : UInt64}
    {i : Nat}
    (hi : i < 512)
    (hLeads : s.Leads flags 0 i 1) :
    i = 0 ∧ isPresent (s.entry 0 i) = true := by
  have hP3 : isPresent (s.entry 1 0) = true := by
    rw [hOk.identity.p3, ← UInt64.or_zero
      (a := s.table 2 ||| pagePresent ||| pageWritable)]
    exact isPresent_link _ _
  have hPresent : isPresent (s.entry 0 i) = true := by
    rcases hLeads.2 with hPoints | ⟨-, -, hFree⟩
    · exact hPoints.1
    · rw [hFree.2] at hP3
      cases hP3
  refine ⟨?_, hPresent⟩
  by_contra hNonzero
  rw [hOk.p4_rest i hi (by omega)] at hPresent
  cases hPresent

/- The P2 table of a path is not the one of 2 MiB pages. -/
theorem path_bounds
    (hOk : s.TablesOk)
    (hPath : c.Path s t₂ t₁) :
    3 ≤ t₂ ∧ t₂ < 8 ∧ 8 ≤ t₁ ∧ t₁ < 16 := by
  rcases hPath with ⟨-, h3, h2⟩
  have hLow : 2 ≤ t₂ := h3.1.1
  have hHigh : t₂ < 8 := h3.1.2
  have hNot : t₂ ≠ 2 := by
    intro hEq
    subst hEq
    have hHuge := huge_entry
      (0x200000 * UInt64.ofNat (index c.vaddr 2))
    rw [← hOk.identity.p2 _ (index_lt _ _)] at hHuge
    rcases h2.2 with hPoints | ⟨hAbsent, -⟩
    · rw [hPoints.2.2] at hHuge
      cases hHuge.2
    · rw [hAbsent] at hHuge
      cases hHuge.1
  have hFirst := h2.1
  simp only [firstNext, endNext, show t₂ ≠ 0 by omega,
    show t₂ ≠ 1 by omega, if_false] at hFirst
  omega

/- The first level finds the P3 table. -/
theorem nextTable_p4
    (hOk : s.TablesOk)
    {flags pool i₄ : UInt64}
    {i : Nat}
    (hIndex : i₄.toNat = i)
    (hi : i < 512)
    (hLeads : s.Leads flags 0 i 1) :
    nextTable s.cr3 i₄ pool flags s = some (s.table 1, s) := by
  rcases hOk.leads_p4 hi hLeads with ⟨rfl, hPresent⟩
  have hZero : i₄ = 0 := by
    rw [← UInt64.toNat_inj, hIndex]
    rfl
  have hBelow := hOk.identity.below
  have hEntry := Identity.mem_slot_cr3 s
  have hPoints : s.Points (s.entry 0 0) 1 := by
    rcases hLeads.2 with hPoints | ⟨hAbsent, -⟩
    · exact hPoints
    · rw [hAbsent] at hPresent
      cases hPresent
  rw [hZero, nextTable, hOk.identity.load_eq (by
    rw [slot_zero]
    omega), hEntry]
  simp [hPoints.1, hPoints.2.1]

/-
  A call whose entries lead to whole tables succeeds and
  sets one entry at each level.
-/
theorem pmap_mapped
    (hOk : s.TablesOk)
    (hPath : c.Path s t₂ t₁) :
    ∃ t, pmap c.paddr c.vaddr c.flags s = some t ∧
      Mapped c s t t₂ t₁ := by
  rcases hOk.path_bounds hPath with ⟨h3, h8, h8', h16⟩
  rcases hPath with ⟨hLead₄, hLead₃, hLead₂⟩
  have hLast : firstNext t₂ = 8 := by
    rw [firstNext, if_neg (by omega), if_neg (by omega)]
  have hIndex₂ : (pdIndex c.vaddr).toNat = index c.vaddr t₂ := by
    rw [index, if_neg (by omega), if_neg (by omega), if_pos h8]
  have hIndex₁ : (ptIndex c.vaddr).toNat = index c.vaddr t₁ := by
    rw [index, if_neg (by omega), if_neg (by omega),
      if_neg (by omega)]
  have hIndex₃ : (pdpIndex c.vaddr).toNat = index c.vaddr 1 :=
    rfl
  have hNext₄ : nextTable s.cr3 (pml4Index c.vaddr) (s.table 1)
      c.flags s = some (s.table 1, s) :=
    hOk.nextTable_p4 rfl (index_lt c.vaddr 0) hLead₄
  rcases hOk.nextTable_eq hIndex₃
      (by decide) (by decide) (index_lt c.vaddr 1) hLead₃ with
    ⟨s₂, hNext₃, hSet₃⟩
  -- the P3 level leaves the tables below it alone
  have hBelow : ∀ v < 16, 2 ≤ v → ∀ j < 512,
      s₂.entry v j = s.entry v j := by
    intro v hv hLow j hj
    rw [hSet₃.entry v hv j hj, if_neg (by omega)]
  have hOwn := hBelow t₂ (by omega) (by omega)
    (index c.vaddr t₂) (index_lt _ _)
  have hLead₂' : s₂.Leads c.flags t₂ (index c.vaddr t₂) t₁ := by
    refine leads_congr hSet₃.cr3 hOwn ?_ hLead₂
    intro v hv hLow j hj
    exact hBelow v (by omega) (by omega) j hj
  rcases hSet₃.ok.nextTable_eq hIndex₂ h8 (by omega)
      (index_lt _ _) hLead₂' with
    ⟨s₁, hNext₂, hSet₂⟩
  rcases hSet₂.ok.store_leaf hIndex₁ h8' h16 (index_lt _ _)
      (link (address c.paddr) c.flags) with
    ⟨t, hStore, hSet₁⟩
  rw [hSet₃.table, hSet₃.table, hSet₃.table, hLast] at hNext₂
  rw [hSet₂.table, hSet₃.table] at hStore
  refine ⟨t, ?_, ?_, hSet₁.ok, ?_, ?_⟩
  · have hPools := s.slot_pools
    simp only [pmap, hPools.1, hPools.2.1, hPools.2.2, hNext₄]
    rw [firstNext, if_neg (by decide), if_pos rfl] at hNext₃
    simp only [hNext₃, hNext₂, hStore]
  · rw [hSet₁.cr3, hSet₂.cr3, hSet₃.cr3]
  · intro v hv j hj
    rw [hSet₁.entry v hv j hj, hSet₂.entry v hv j hj,
      hSet₃.entry v hv j hj,
      leadEntry_congr hSet₃.cr3 hOwn]
  · intro a hOther
    have hOther₃ := (isSlot_congr hSet₃.cr3 a).not.mpr hOther
    have hOther₂ := (isSlot_congr hSet₂.cr3 a).not.mpr hOther₃
    rw [hSet₁.other a hOther₂, hSet₂.other a hOther₃,
      hSet₃.other a hOther]

end TablesOk

------------------------------------------------------------
-- The Walk
------------------------------------------------------------

theorem presentEntry_table
    (s : Machine)
    (t : Nat)
    (i : UInt64) :
    s.presentEntry (s.table t) i =
      if isPresent (s.entry t i.toNat) then
        some (s.entry t i.toNat)
      else none := by
  rw [presentEntry, entry, UInt64.ofNat_toNat]

/- The walk along entries that point to tables. -/
theorem pageWalk_of_points
    {vaddr : UInt64}
    (hLow : 2 ≤ t₂)
    (hHigh : t₂ < 8)
    (hLeaf : 8 ≤ t₁)
    (h4 : s.Points (s.entry 0 (index vaddr 0)) 1)
    (h3 : s.Points (s.entry 1 (index vaddr 1)) t₂)
    (h2 : s.Points (s.entry t₂ (index vaddr t₂)) t₁) :
    s.pageWalk vaddr =
      if isPresent (s.entry t₁ (index vaddr t₁)) then
        some (address (s.entry t₁ (index vaddr t₁)))
      else none := by
  have hTable : s.cr3 = s.table 0 := by simp [table]
  have hIndex₂ : index vaddr t₂ = (pdIndex vaddr).toNat := by
    rw [index, if_neg (by omega), if_neg (by omega),
      if_pos hHigh]
  have hIndex₁ : index vaddr t₁ = (ptIndex vaddr).toNat := by
    rw [index, if_neg (by omega), if_neg (by omega),
      if_neg (by omega)]
  have e₄ : s.presentEntry s.cr3 (pml4Index vaddr) =
      some (s.entry 0 (index vaddr 0)) := by
    rw [hTable, presentEntry_table]
    exact if_pos h4.1
  have e₃ : s.presentEntry (s.table 1) (pdpIndex vaddr) =
      some (s.entry 1 (index vaddr 1)) := by
    rw [presentEntry_table]
    exact if_pos h3.1
  have e₂ : s.presentEntry (s.table t₂) (pdIndex vaddr) =
      some (s.entry t₂ (index vaddr t₂)) := by
    rw [presentEntry_table, ← hIndex₂]
    exact if_pos h2.1
  simp only [pageWalk, e₄, e₃, e₂, h4.2.1, h3.2.1, h2.2.1,
    h2.2.2, Bool.false_eq_true, if_false, presentEntry_table]
  rw [← hIndex₁]
  cases isPresent (s.entry t₁ (index vaddr t₁)) with
  | false => rfl
  | true => rfl

end Machine

namespace Mapped

variable {c : Call}
variable {s t : Machine}
variable {t₂ t₁ : Nat}

/- The tables stay where they are. -/
theorem table
    (hMapped : Mapped c s t t₂ t₁)
    (u : Nat) :
    t.table u = s.table u := by
  rw [Machine.table, Machine.table, hMapped.cr3]

theorem points_iff
    (hMapped : Mapped c s t t₂ t₁)
    (e : UInt64)
    (u : Nat) :
    t.Points e u ↔ s.Points e u := by
  rw [Machine.Points, Machine.Points, hMapped.table]

/- A present entry of a P4, P3 or P2 table is kept. -/
theorem entry_of_present
    (hMapped : Mapped c s t t₂ t₁)
    (hLeaf : 8 ≤ t₁)
    {v j : Nat}
    (hv : v < 8)
    (hj : j < 512)
    (hPresent : isPresent (s.entry v j) = true) :
    t.entry v j = s.entry v j := by
  rw [hMapped.entry v (by omega) j hj, if_neg (by omega)]
  split_ifs with h2 h1
  · rw [Machine.leadEntry, ← h2.2, ← h2.1, if_pos hPresent]
  · rw [Machine.leadEntry, ← h1.2, ← h1.1, if_pos hPresent]
  · rfl

/- The path of the call is in place afterwards. -/
theorem path_points
    (hMapped : Mapped c s t t₂ t₁)
    (hOk : s.TablesOk)
    (hPath : c.Path s t₂ t₁) :
    t.Points (t.entry 0 (index c.vaddr 0)) 1 ∧
      t.Points (t.entry 1 (index c.vaddr 1)) t₂ ∧
      t.Points (t.entry t₂ (index c.vaddr t₂)) t₁ := by
  rcases hOk.path_bounds hPath with ⟨h3, h8, h8', h16⟩
  rcases hPath with ⟨hLead₄, hLead₃, hLead₂⟩
  have hId := hOk.identity
  have hFour := hOk.leads_p4 (index_lt c.vaddr 0) hLead₄
  rw [hMapped.points_iff, hMapped.points_iff,
    hMapped.points_iff]
  refine ⟨?_, ?_, ?_⟩
  · rw [hMapped.entry_of_present h8' (by decide)
      (index_lt _ _) hFour.2]
    rcases hLead₄.2 with hPoints | ⟨hAbsent, -⟩
    · exact hPoints
    · rw [hAbsent] at hFour
      cases hFour.2
  · rw [hMapped.entry 1 (by decide) _ (index_lt _ _),
      if_neg (by omega), if_neg (by omega), if_pos ⟨rfl, rfl⟩]
    exact hId.points_leadEntry (by omega) hLead₃
  · rw [hMapped.entry t₂ (by omega) _ (index_lt _ _),
      if_neg (by omega), if_pos ⟨rfl, rfl⟩]
    exact hId.points_leadEntry h16 hLead₂

/- The walk of the call's page finds its leaf entry. -/
theorem pageWalk_eq
    (hMapped : Mapped c s t t₂ t₁)
    (hOk : s.TablesOk)
    (hPath : c.Path s t₂ t₁) :
    t.pageWalk c.vaddr =
      some (address (link (address c.paddr) c.flags)) := by
  rcases hOk.path_bounds hPath with ⟨h3, h8, h8', h16⟩
  rcases hMapped.path_points hOk hPath with ⟨hP4, hP3, hP2⟩
  have hLeaf : t.entry t₁ (index c.vaddr t₁) =
      link (address c.paddr) c.flags := by
    rw [hMapped.entry t₁ h16 _ (index_lt _ _), if_pos ⟨rfl, rfl⟩]
  rw [Machine.pageWalk_of_points (by omega) h8 h8' hP4 hP3 hP2,
    hLeaf, if_pos (isPresent_link _ _)]

end Mapped

end Paging

end Ester
