import Ester.Library.Memory
import Ester.Kernel.Paging.Tree

/-
  Bytes behind the page tables.

  The words that `pmap` stores and the bytes of a program lie
  in one memory.  A byte is read and written through the page
  walk of its address.  Memory that does not belong to the
  reserved tables can change without a change of any walk,
  and a call of `pmap` for a page of the first gigabyte makes
  such a change only: it takes the 2 MiB page of the address
  for a table.

  Key definitions include:
    * `Machine.loadByte`, `Machine.storeByte`
    * `Machine.Apart`
    * `SameTables`

  Key theorems include:
    * `Machine.byte_setByte`
    * `Machine.byte_setWord`
    * `SameTables.pageWalk`
    * `SameTables.pmap`
    * `Machine.TablesOk.pmap_low`
-/

namespace Ester

namespace Paging

open PackedCodec

------------------------------------------------------------
-- Accesses
------------------------------------------------------------

/- The address of the word that a byte belongs to. -/
def wordOf
    (a : UInt64) : UInt64 :=
  a / 8 * 8

theorem toNat_wordOf
    (a : UInt64) :
    (wordOf a).toNat = a.toNat / 8 * 8 := by
  have hEight : (8 : UInt64).toNat = 8 := rfl
  have hLt := a.toNat_lt
  rw [wordOf, UInt64.toNat_mul, UInt64.toNat_div, hEight]
  omega

namespace Machine

/- The byte at a physical address. -/
def byte
    (s : Machine)
    (a : UInt64) : UInt8 :=
  word64.encode (s.mem (wordOf a)) (a.toNat % 8)

/- The machine with the byte at a physical address set. -/
def setByte
    (s : Machine)
    (a : UInt64)
    (v : UInt8) : Machine :=
  s.setWord (wordOf a) (word64.decode fun i =>
    if i = a.toNat % 8 then v
    else word64.encode (s.mem (wordOf a)) i)

/- Write the byte at a virtual address. -/
def storeByte
    (s : Machine)
    (vaddr : UInt64)
    (v : UInt8) : Option Machine :=
  (s.translate vaddr).map fun a => s.setByte a v

variable {s : Machine}

/- A byte that is set is the only one to change. -/
theorem byte_setByte
    (s : Machine)
    (a b : UInt64)
    (v : UInt8) :
    (s.setByte a v).byte b = if b = a then v else s.byte b := by
  have hOffset : b.toNat % 8 < word64.size :=
    Nat.mod_lt _ (by decide)
  rw [byte, setByte, setWord]
  dsimp only
  by_cases hWord : wordOf b = wordOf a
  · rw [if_pos hWord, word64.encode_decode _ _ hOffset]
    have hNat := congrArg UInt64.toNat hWord
    rw [toNat_wordOf, toNat_wordOf] at hNat
    by_cases hSame : b = a
    · rw [if_pos (by rw [hSame]), if_pos hSame]
    · have hNe : b.toNat ≠ a.toNat :=
        fun h => hSame (UInt64.toNat.inj h)
      rw [if_neg (by omega), if_neg hSame, byte, hWord]
  · rw [if_neg hWord, if_neg fun h => hWord (by rw [h]), byte]

/- A word that is set changes its eight bytes. -/
theorem byte_setWord
    (s : Machine)
    {a : UInt64}
    (hAligned : a.toNat % 8 = 0)
    (b value : UInt64) :
    (s.setWord a value).byte b =
      if a.toNat ≤ b.toNat ∧ b.toNat < a.toNat + 8 then
        word64.encode value (b.toNat - a.toNat)
      else s.byte b := by
  have hWord : wordOf b = a ↔ b.toNat / 8 * 8 = a.toNat := by
    rw [← UInt64.toNat_inj, toNat_wordOf]
  rw [byte, setWord]
  dsimp only
  by_cases hSame : wordOf b = a
  · have hNat := hWord.mp hSame
    rw [if_pos hSame, if_pos (by omega)]
    congr 1
    omega
  · have hNat := mt hWord.mpr hSame
    rw [if_neg hSame, if_neg (by omega), byte]

------------------------------------------------------------
-- Apart from the Tables
------------------------------------------------------------

/- The physical address lies outside the reserved tables. -/
def Apart
    (s : Machine)
    (a : Nat) : Prop :=
  a < s.cr3.toNat ∨ s.cr3.toNat + 16 * 4096 ≤ a

instance
    (s : Machine)
    (a : Nat) : Decidable (s.Apart a) :=
  inferInstanceAs (Decidable (_ ∨ _))

theorem Identity.not_isSlot
    (hId : s.Identity)
    {a : UInt64}
    (hApart : s.Apart a.toNat) :
    ¬ s.IsSlot a := by
  rintro ⟨t, ht, i, hi, rfl⟩
  rw [hId.toNat_slot_table ht (by omega)] at hApart
  rcases hApart with hBelow | hAbove
  · omega
  · omega

/- The word of a byte outside the tables lies outside. -/
theorem Identity.apart_wordOf
    (hId : s.Identity)
    {a : UInt64}
    (hApart : s.Apart a.toNat) :
    s.Apart (wordOf a).toNat := by
  have hAligned := hId.aligned
  rw [toNat_wordOf]
  rcases hApart with hBelow | hAbove
  · exact .inl (by omega)
  · exact .inr (by omega)

end Machine

------------------------------------------------------------
-- The Same Tables
------------------------------------------------------------

/- Two machines with the same reserved tables. -/
structure SameTables (s t : Machine) : Prop where
  cr3 : t.cr3 = s.cr3
  entry : ∀ v < 16, ∀ j < 512, t.entry v j = s.entry v j

namespace SameTables

variable {s t u : Machine}

theorem refl
    (s : Machine) :
    SameTables s s :=
  ⟨rfl, fun _ _ _ _ => rfl⟩

theorem symm
    (h : SameTables s t) :
    SameTables t s :=
  ⟨h.cr3.symm, fun v hv j hj => (h.entry v hv j hj).symm⟩

theorem trans
    (h : SameTables s t)
    (h' : SameTables t u) :
    SameTables s u :=
  ⟨h'.cr3.trans h.cr3, fun v hv j hj =>
    (h'.entry v hv j hj).trans (h.entry v hv j hj)⟩

/- A word outside the tables can be set. -/
theorem setWord
    (hId : s.Identity)
    {a : UInt64}
    (hApart : s.Apart a.toNat)
    (value : UInt64) :
    SameTables s (s.setWord a value) := by
  refine ⟨rfl, fun v hv j hj => if_neg fun hEq => ?_⟩
  exact hId.not_isSlot hApart ⟨v, hv, j, hj, hEq.symm⟩

theorem setByte
    (hId : s.Identity)
    {a : UInt64}
    (hApart : s.Apart a.toNat)
    (v : UInt8) :
    SameTables s (s.setByte a v) :=
  setWord hId (hId.apart_wordOf hApart) _

theorem table
    (h : SameTables s t)
    (u : Nat) :
    t.table u = s.table u := by
  rw [Machine.table, Machine.table, h.cr3]

theorem points_iff
    (h : SameTables s t)
    {v j : Nat}
    (hv : v < 16)
    (hj : j < 512)
    (u : Nat) :
    t.Points (t.entry v j) u ↔ s.Points (s.entry v j) u := by
  rw [Machine.Points, Machine.Points, h.table, h.entry v hv j hj]

/- The invariants are about the tables. -/
theorem tablesOk
    (h : SameTables s t)
    (hOk : s.TablesOk) :
    t.TablesOk := by
  have hId := hOk.identity
  refine ⟨⟨?_, ?_, ?_, ?_, ?_⟩, ?_, ?_⟩
  · rw [h.cr3]
    exact hId.aligned
  · rw [h.cr3]
    exact hId.below
  · rw [h.entry 0 (by decide) 0 (by decide), h.table]
    exact hId.p4
  · rw [h.entry 1 (by decide) 0 (by decide), h.table]
    exact hId.p3
  · intro i hi
    rw [h.entry 2 (by decide) i hi]
    exact hId.p2 i hi
  · intro i hi hPos
    rw [h.entry 0 (by decide) i hi]
    exact hOk.p4_rest i hi hPos
  · intro v hv h0 h2 i hi hPresent
    rw [h.entry v (by omega) i hi] at hPresent
    rcases hOk.points v hv h0 h2 i hi hPresent
      with ⟨u, hRange, hPoints⟩
    exact ⟨u, hRange, (h.points_iff (by omega) hi u).mpr hPoints⟩

theorem unshared
    (h : SameTables s t)
    (hUnshared : s.Unshared) :
    t.Unshared := by
  intro v hv i hi v' hv' i' hi' u hu hPoints hPoints'
  exact hUnshared v hv i hi v' hv' i' hi' u hu
    ((h.points_iff (by omega) hi u).mp hPoints)
    ((h.points_iff (by omega) hi' u).mp hPoints')

/- And so is a walk. -/
theorem pageWalk
    (h : SameTables s t)
    (hOk : s.TablesOk)
    {vaddr p : UInt64}
    (hWalk : s.pageWalk vaddr = some p) :
    t.pageWalk vaddr = some p := by
  have hPoints : ∀ v < 16, ∀ u,
      s.Points (s.entry v (index vaddr v)) u →
        t.Points (t.entry v (index vaddr v)) u :=
    fun v hv u => (h.points_iff hv (index_lt _ _) u).mpr
  rcases hOk.walk_cases hWalk with ⟨h₄, hHuge | hTables⟩
  · rw [hOk.pageWalk_huge h₄ hHuge] at hWalk
    rw [(h.tablesOk hOk).pageWalk_huge
      (hPoints 0 (by decide) 1 h₄) (hPoints 1 (by decide) 2 hHuge),
      h.entry 2 (by decide) _ (index_lt _ _)]
    exact hWalk
  · rcases hTables with
      ⟨u₂, u₁, hu₂, hu₁, h₃, h₂, hPresent⟩
    rw [Machine.pageWalk_of_points (by omega) hu₂.2 hu₁.1
      h₄ h₃ h₂] at hWalk
    rw [Machine.pageWalk_of_points (by omega) hu₂.2 hu₁.1
      (hPoints 0 (by decide) 1 h₄) (hPoints 1 (by decide) u₂ h₃)
      (hPoints u₂ (by omega) u₁ h₂),
      h.entry u₁ hu₁.2 _ (index_lt _ _)]
    exact hWalk

/- A call finds the same path. -/
theorem path
    (h : SameTables s t)
    (hOk : s.TablesOk)
    {c : Call}
    {t₂ t₁ : Nat}
    (hPath : c.Path s t₂ t₁) :
    c.Path t t₂ t₁ := by
  rcases hOk.path_bounds hPath with ⟨h3, h8, h8', h16⟩
  have hLeads : ∀ {v i u : Nat}, v < 16 → i < 512 → u < 16 →
      s.Leads c.flags v i u → t.Leads c.flags v i u := by
    intro v i u hv hi hu hLead
    exact Machine.leads_congr h.cr3 (h.entry v hv i hi)
      (fun w hw _ j hj => h.entry w (by omega) j hj) hLead
  exact ⟨hLeads (by decide) (index_lt _ _) (by decide) hPath.1,
    hLeads (by decide) (index_lt _ _) (by omega) hPath.2.1,
    hLeads (by omega) (index_lt _ _) h16 hPath.2.2⟩

/- A call that takes unused tables does so on both. -/
theorem takesUnused
    (h : SameTables s t)
    (hOk : s.TablesOk)
    {c : Call}
    (hTakes : c.TakesUnused s) :
    c.TakesUnused t := by
  rcases hTakes with
    ⟨t₂, h8, t₁, h16, hPath, hUnused₂, hUnused₁⟩
  have hKeep : ∀ u, s.Unused u → t.Unused u :=
    fun u hUnused v hv i hi hPoints => hUnused v hv i hi
      ((h.points_iff (by omega) hi u).mp hPoints)
  refine ⟨t₂, h8, t₁, h16, h.path hOk hPath, ?_, ?_⟩
  · intro hAbsent
    rw [h.entry 1 (by decide) _ (index_lt _ _)] at hAbsent
    exact hKeep t₂ (hUnused₂ hAbsent)
  · intro hAbsent
    rw [h.entry t₂ (by omega) _ (index_lt _ _)] at hAbsent
    exact hKeep t₁ (hUnused₁ hAbsent)

/- It leaves the same tables behind. -/
theorem mapped
    (h : SameTables s t)
    {c : Call}
    {s' t' : Machine}
    {t₂ t₁ : Nat}
    (h8 : t₂ < 8)
    (hMapped : Mapped c s s' t₂ t₁)
    (hMapped' : Mapped c t t' t₂ t₁) :
    SameTables s' t' := by
  refine ⟨?_, ?_⟩
  · rw [hMapped'.cr3, h.cr3, hMapped.cr3]
  · intro v hv j hj
    rw [hMapped'.entry v hv j hj, hMapped.entry v hv j hj,
      h.entry v hv j hj,
      Machine.leadEntry_congr h.cr3
        (h.entry t₂ (by omega) _ (index_lt _ _)),
      Machine.leadEntry_congr h.cr3
        (h.entry 1 (by decide) _ (index_lt _ _))]

end SameTables

------------------------------------------------------------
-- Pages of the First Gigabyte
------------------------------------------------------------

/-
  Where a call for a page of the first gigabyte stores its
  entry: the 2 MiB page is taken for a table.
-/
def entryPlace
    (vaddr : UInt64) : Nat :=
  vaddr.toNat / 2 ^ 21 * 2 ^ 21 + vaddr.toNat / 4096 % 512 * 8

/- The address in an entry of the first P2 table. -/
theorem address_hugeEntry
    {i : Nat}
    (hi : i < 512) :
    (address (0x200000 * UInt64.ofNat i ||| 0x83)).toNat =
      2 ^ 21 * i := by
  have hFlags : (0x83 : UInt64) &&& ~~~0xFFF = 0 := by decide
  have hSize : (0x200000 : UInt64).toNat = 2 ^ 21 := rfl
  have hOf : (UInt64.ofNat i).toNat = i :=
    UInt64.toNat_ofNat_of_lt' (by
      simp only [UInt64.size]
      omega)
  have hProduct : (0x200000 * UInt64.ofNat i).toNat =
      2 ^ 21 * i := by
    rw [UInt64.toNat_mul, hOf, hSize]
    omega
  rw [address, UInt64.or_and_right, hFlags, UInt64.or_zero,
    ← address, toNat_address, hProduct]
  omega

/- The indices of an address of the first gigabyte. -/
theorem index_low
    {vaddr : UInt64}
    (hLow : vaddr.toNat < 2 ^ 30) :
    pml4Index vaddr = 0 ∧ pdpIndex vaddr = 0 ∧
      pdIndex vaddr = UInt64.ofNat (vaddr.toNat / 2 ^ 21) := by
  refine ⟨?_, ?_, ?_⟩
  · rw [← UInt64.toNat_inj, toNat_pml4Index, UInt64.toNat_zero]
    omega
  · rw [← UInt64.toNat_inj, toNat_pdpIndex, UInt64.toNat_zero]
    omega
  · rw [← UInt64.toNat_inj, toNat_pdIndex,
      UInt64.toNat_ofNat_of_lt' (by
        simp only [UInt64.size]
        omega)]
    omega

namespace Machine

variable {s : Machine}

/- A level whose entry is present changes nothing. -/
theorem TablesOk.nextTable_of_present
    (hOk : s.TablesOk)
    {t i : Nat}
    (ht : t < 16)
    (hi : i < 512)
    (hPresent : isPresent (s.entry t i) = true)
    (pool flags : UInt64) :
    nextTable (s.table t) (UInt64.ofNat i) pool flags s =
      some (address (s.entry t i), s) := by
  have hBelow := hOk.identity.below
  have hSlot := hOk.identity.toNat_slot_table ht
    (show i ≤ 512 * (16 - t) by omega)
  have hLoad : s.load (slot (s.table t) (UInt64.ofNat i)) =
      some (s.entry t i) :=
    hOk.identity.load_eq (by omega)
  simp [nextTable, hLoad, hPresent]

/- The entries of the boot code lead to the 2 MiB page. -/
theorem TablesOk.nextTable_low
    (hOk : s.TablesOk)
    {vaddr : UInt64}
    (hLow : vaddr.toNat < 2 ^ 30)
    (pool flags : UInt64) :
    nextTable s.cr3 (pml4Index vaddr) pool flags s =
        some (s.table 1, s) ∧
      nextTable (s.table 1) (pdpIndex vaddr) pool flags s =
        some (s.table 2, s) ∧
      ∃ base, base.toNat = vaddr.toNat / 2 ^ 21 * 2 ^ 21 ∧
        nextTable (s.table 2) (pdIndex vaddr) pool flags s =
          some (base, s) := by
  have hId := hOk.identity
  have hTop : s.cr3 = s.table 0 := by simp [table]
  have hLink : ∀ t < 16, isPresent (link (s.table t) 0) =
      true ∧ address (link (s.table t) 0) = s.table t := by
    intro t ht
    refine ⟨isPresent_link _ _, ?_⟩
    rw [address_link _ (show PlainFlags 0 by decide),
      address_eq_self (hId.table_aligned ht)]
  have hFirst : s.entry 0 0 = link (s.table 1) 0 := by
    rw [hId.p4, link, UInt64.or_zero]
  have hSecond : s.entry 1 0 = link (s.table 2) 0 := by
    rw [hId.p3, link, UInt64.or_zero]
  have hIndex : vaddr.toNat / 2 ^ 21 < 512 := by omega
  have hHuge := hId.p2 _ hIndex
  rcases index_low hLow with ⟨h4, h3, h2⟩
  refine ⟨?_, ?_, address (s.entry 2 (vaddr.toNat / 2 ^ 21)),
    ?_, ?_⟩
  · have hNext := hOk.nextTable_of_present (t := 0) (i := 0)
      (by decide) (by decide)
      (by rw [hFirst]; exact (hLink 1 (by decide)).1) pool flags
    rw [hFirst, (hLink 1 (by decide)).2] at hNext
    rw [h4, hTop]
    exact hNext
  · have hNext := hOk.nextTable_of_present (t := 1) (i := 0)
      (by decide) (by decide)
      (by rw [hSecond]; exact (hLink 2 (by decide)).1) pool flags
    rw [hSecond, (hLink 2 (by decide)).2] at hNext
    rw [h3]
    exact hNext
  · rw [hHuge, address_hugeEntry hIndex, Nat.mul_comm]
  · rw [h2]
    exact hOk.nextTable_of_present (by decide) hIndex
      (by rw [hHuge]; exact (huge_entry _).1) pool flags

/- Such a call stores its entry in the 2 MiB page. -/
theorem TablesOk.pmap_low
    (hOk : s.TablesOk)
    (paddr : UInt64)
    {vaddr : UInt64}
    (hLow : vaddr.toNat < 2 ^ 30)
    (flags : UInt64) :
    ∃ a : UInt64, a.toNat = entryPlace vaddr ∧
      pmap paddr vaddr flags s =
        some (s.setWord a (link (address paddr) flags)) := by
  have hPools := s.slot_pools
  rcases hOk.nextTable_low hLow (s.table 1) flags
    with ⟨hNext₄, -, -⟩
  rcases hOk.nextTable_low hLow (s.table 2) flags
    with ⟨-, hNext₃, -⟩
  rcases hOk.nextTable_low hLow (s.table 8) flags
    with ⟨-, -, base, hBase, hNext₂⟩
  have hIndex := toNat_ptIndex vaddr
  have hPlace : (slot base (ptIndex vaddr)).toNat =
      entryPlace vaddr := by
    rw [toNat_slot (by omega), hBase, hIndex, entryPlace]
    omega
  refine ⟨slot base (ptIndex vaddr), hPlace, ?_⟩
  have hStore := hOk.identity.store_eq
    (a := slot base (ptIndex vaddr)) (link (address paddr) flags)
    (by
      rw [hPlace, entryPlace]
      omega)
  simp only [pmap, hPools.1, hPools.2.1, hPools.2.2, hNext₄,
    hNext₃, hNext₂, hStore]

end Machine

end Paging

end Ester
