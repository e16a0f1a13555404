import Ester.Kernel.Paging

/-
  The view of the kernel: reserved tables in memory that is
  mapped to itself.

  While the first P4 and P3 entries and the first P2 table
  are as the boot code left them, an address of the first
  gigabyte translates to itself, so that `load` and `store`
  are accesses to physical memory, and `palloc` returns the
  first slot that is not present.

  Key definitions include:
    * `Machine.Identity`

  Key theorems include:
    * `address_link`
    * `Machine.Identity.translate_eq`
    * `Machine.Identity.store_eq`
    * `Machine.Identity.pallocLoop_eq`
-/

namespace Ester

namespace Paging

------------------------------------------------------------
-- Entries
------------------------------------------------------------

theorem toNat_address
    (entry : UInt64) :
    (address entry).toNat = entry.toNat / 4096 * 4096 := by
  have hMask : (~~~(0xFFF : UInt64)).toNat =
      2 ^ 12 * (2 ^ 52 - 1) := by decide
  rw [address, UInt64.toNat_and, hMask,
    and_high_mask 12 52 (by simpa using entry.toNat_lt)]
  rfl

/- The address of an aligned word is the word. -/
theorem address_eq_self
    {table : UInt64}
    (hAligned : table.toNat % 4096 = 0) :
    address table = table := by
  rw [← UInt64.toNat_inj, toNat_address]
  omega

/- Flags that leave the address and the page size alone. -/
def PlainFlags
    (flags : UInt64) : Prop :=
  flags &&& ~~~0xFFF = 0 ∧ flags &&& pageSize2MB = 0

instance
    (flags : UInt64) : Decidable (PlainFlags flags) :=
  inferInstanceAs (Decidable (_ ∧ _))

/- The entry that `pmap` makes of an address and flags. -/
abbrev link
    (table flags : UInt64) : UInt64 :=
  table ||| pagePresent ||| pageWritable ||| flags

theorem isPresent_link
    (table flags : UInt64) :
    isPresent (link table flags) = true := by
  have hOne : pagePresent &&& pagePresent ≠ 0 := by decide
  rw [isPresent, bne_iff_ne, link, UInt64.or_and_right,
    UInt64.or_and_right, UInt64.or_and_right]
  intro hZero
  simp only [UInt64.or_eq_zero_iff] at hZero
  exact hOne hZero.1.1.2

/- Plain flags are lost in the address of an entry. -/
theorem address_link
    (table : UInt64)
    {flags : UInt64}
    (hFlags : PlainFlags flags) :
    address (link table flags) = address table := by
  have hPresent : pagePresent &&& ~~~0xFFF = 0 := by decide
  have hWritable : pageWritable &&& ~~~0xFFF = 0 := by decide
  simp only [address, link, UInt64.or_and_right, hPresent,
    hWritable, hFlags.1, UInt64.or_zero]

/- An aligned table with plain flags is no 2 MiB page. -/
theorem isHuge_link
    {table flags : UInt64}
    (hAligned : table.toNat % 4096 = 0)
    (hFlags : PlainFlags flags) :
    isHuge (link table flags) = false := by
  have hPresent : pagePresent &&& pageSize2MB = 0 := by decide
  have hWritable : pageWritable &&& pageSize2MB = 0 := by
    decide
  have hMask : ~~~(0xFFF : UInt64) &&& pageSize2MB = 0 := by
    decide
  have hTable : table &&& pageSize2MB = 0 := by
    rw [← address_eq_self hAligned, address, UInt64.and_assoc,
      hMask, UInt64.and_zero]
  simp [isHuge, link, UInt64.or_and_right, hPresent,
    hWritable, hTable, hFlags.2]

theorem isPresent_zero : isPresent 0 = false := by
  decide

------------------------------------------------------------
-- Indices and Slots
------------------------------------------------------------

theorem toNat_pml4Index
    (vaddr : UInt64) :
    (pml4Index vaddr).toNat = vaddr.toNat / 2 ^ 39 % 512 :=
  UInt64.toNat_field vaddr (k := 39) (w := 9) (by decide)
    (by decide)

theorem toNat_pdpIndex
    (vaddr : UInt64) :
    (pdpIndex vaddr).toNat = vaddr.toNat / 2 ^ 30 % 512 :=
  UInt64.toNat_field vaddr (k := 30) (w := 9) (by decide)
    (by decide)

theorem toNat_pdIndex
    (vaddr : UInt64) :
    (pdIndex vaddr).toNat = vaddr.toNat / 2 ^ 21 % 512 :=
  UInt64.toNat_field vaddr (k := 21) (w := 9) (by decide)
    (by decide)

theorem toNat_ptIndex
    (vaddr : UInt64) :
    (ptIndex vaddr).toNat = vaddr.toNat / 2 ^ 12 % 512 :=
  UInt64.toNat_field vaddr (k := 12) (w := 9) (by decide)
    (by decide)

theorem toNat_slot
    {base index : UInt64}
    (hBound : base.toNat + 8 * index.toNat < 2 ^ 64) :
    (slot base index).toNat = base.toNat + 8 * index.toNat := by
  have hEight : (8 : UInt64).toNat = 8 := rfl
  rw [slot, UInt64.toNat_add, UInt64.toNat_mul, hEight]
  omega

theorem slot_zero
    (base : UInt64) :
    slot base 0 = base := by
  simp [slot]

/- The slots after the first one. -/
theorem slot_succ
    (base : UInt64)
    (j : Nat) :
    slot (base + 8) (UInt64.ofNat j) =
      slot base (UInt64.ofNat (j + 1)) := by
  rw [slot, slot, UInt64.ofNat_add, UInt64.mul_add,
    UInt64.add_assoc, UInt64.add_comm 8]
  rfl

/- The offset of an address in its page. -/
theorem toNat_pageOffset
    (vaddr : UInt64) :
    (vaddr &&& 0xFFF).toNat = vaddr.toNat % 4096 := by
  have hMask : (0xFFF : UInt64).toNat = 2 ^ 12 - 1 := by decide
  rw [UInt64.toNat_and, hMask, Nat.and_two_pow_sub_one_eq_mod]

/- The offset of a page in its 2 MiB page. -/
theorem toNat_hugeOffset
    (vaddr : UInt64) :
    (vaddr &&& 0x1FF000).toNat =
      vaddr.toNat % 2 ^ 21 / 4096 * 4096 := by
  have hSplit : (0x1FF000 : UInt64) =
      0x1FFFFF &&& ~~~0xFFF := by decide
  have hMask : (0x1FFFFF : UInt64).toNat = 2 ^ 21 - 1 := by
    decide
  rw [hSplit, ← UInt64.and_assoc, ← address, toNat_address,
    UInt64.toNat_and, hMask, Nat.and_two_pow_sub_one_eq_mod]

/- The 2 MiB page of an entry of the first P2 table. -/
theorem toNat_hugePage
    {i : Nat}
    (hi : i < 512) :
    ((0x200000 * UInt64.ofNat i ||| 0x83) &&&
      ~~~0x1FFFFF).toNat = 2 ^ 21 * i := by
  have hFlags : (0x83 : UInt64) &&& ~~~0x1FFFFF = 0 := by
    decide
  have hMask : (~~~(0x1FFFFF : UInt64)).toNat =
      2 ^ 21 * (2 ^ 43 - 1) := by decide
  have hSize : (0x200000 : UInt64).toNat = 2 ^ 21 := rfl
  have hOf : (UInt64.ofNat i).toNat = i :=
    UInt64.toNat_ofNat_of_lt' (by
      simp only [UInt64.size]
      omega)
  have hProduct : (0x200000 * UInt64.ofNat i).toNat =
      2 ^ 21 * i := by
    rw [UInt64.toNat_mul, hOf, hSize]
    omega
  rw [UInt64.or_and_right, hFlags, UInt64.or_zero,
    UInt64.toNat_and, hMask, hProduct,
    and_high_mask 21 43 (by omega)]
  omega

/- The entries of the first P2 table are 2 MiB pages. -/
theorem huge_entry
    (page : UInt64) :
    isPresent (page ||| 0x83) = true ∧
      isHuge (page ||| 0x83) = true := by
  have hPresent : (0x83 : UInt64) &&& pagePresent ≠ 0 := by
    decide
  have hHuge : (0x83 : UInt64) &&& pageSize2MB ≠ 0 := by decide
  constructor
  · rw [isPresent, bne_iff_ne, UInt64.or_and_right, Ne,
      UInt64.or_eq_zero_iff]
    exact fun h => hPresent h.2
  · rw [isHuge, bne_iff_ne, UInt64.or_and_right, Ne,
      UInt64.or_eq_zero_iff]
    exact fun h => hHuge h.2

------------------------------------------------------------
-- The Identity Map
------------------------------------------------------------

namespace Machine

/-
  The entries of the boot code that map the first gigabyte
  to itself.
-/
structure Identity (s : Machine) : Prop where
  aligned : s.cr3.toNat % 4096 = 0
  below : s.cr3.toNat + 16 * 4096 ≤ 2 ^ 30
  p4 : s.entry 0 0 = s.table 1 ||| pagePresent ||| pageWritable
  p3 : s.entry 1 0 = s.table 2 ||| pagePresent ||| pageWritable
  p2 : ∀ i < 512, s.entry 2 i =
    0x200000 * UInt64.ofNat i ||| 0x83

namespace Identity

variable {s : Machine}

theorem toNat_table
    (hId : s.Identity)
    {t : Nat}
    (ht : t < 16) :
    (s.table t).toNat = s.cr3.toNat + 4096 * t := by
  have hOf : (UInt64.ofNat t).toNat = t :=
    UInt64.toNat_ofNat_of_lt' (by
      simp only [UInt64.size]
      omega)
  have hSize : (4096 : UInt64).toNat = 4096 := rfl
  have hBelow := hId.below
  rw [table, UInt64.toNat_add, UInt64.toNat_mul, hOf, hSize]
  omega

theorem table_aligned
    (hId : s.Identity)
    {t : Nat}
    (ht : t < 16) :
    (s.table t).toNat % 4096 = 0 := by
  have hAligned := hId.aligned
  rw [hId.toNat_table ht]
  omega

/- Different reserved tables have different addresses. -/
theorem table_inj
    (hId : s.Identity)
    {t u : Nat}
    (ht : t < 16)
    (hu : u < 16)
    (h : s.table t = s.table u) :
    t = u := by
  have hNat := congrArg UInt64.toNat h
  rw [hId.toNat_table ht, hId.toNat_table hu] at hNat
  omega

theorem toNat_slot_table
    (hId : s.Identity)
    {t i : Nat}
    (ht : t < 16)
    (hi : i ≤ 512 * (16 - t)) :
    (slot (s.table t) (UInt64.ofNat i)).toNat =
      s.cr3.toNat + 4096 * t + 8 * i := by
  have hOf : (UInt64.ofNat i).toNat = i :=
    UInt64.toNat_ofNat_of_lt' (by
      simp only [UInt64.size]
      omega)
  have hBelow := hId.below
  have hTable := hId.toNat_table ht
  rw [toNat_slot (by omega), hOf, hTable]

/- Different entries are different words. -/
theorem slot_inj
    (hId : s.Identity)
    {t u i j : Nat}
    (ht : t < 16)
    (hu : u < 16)
    (hi : i < 512)
    (hj : j < 512)
    (h : slot (s.table t) (UInt64.ofNat i) =
      slot (s.table u) (UInt64.ofNat j)) :
    t = u ∧ i = j := by
  have hNat := congrArg UInt64.toNat h
  rw [hId.toNat_slot_table ht (by omega),
    hId.toNat_slot_table hu (by omega)] at hNat
  omega

theorem mem_slot_cr3
    (s : Machine) :
    s.mem (slot s.cr3 0) = s.entry 0 0 := by
  rw [entry, table]
  simp

/- The first gigabyte lies in the 2 MiB pages. -/
theorem pageWalk_eq
    (hId : s.Identity)
    {a : UInt64}
    (ha : a.toNat < 2 ^ 30) :
    s.pageWalk a = some
      (((0x200000 * UInt64.ofNat (a.toNat / 2 ^ 21) ||| 0x83)
        &&& ~~~0x1FFFFF) + (a &&& 0x1FF000)) := by
  have h4 : pml4Index a = 0 := by
    rw [← UInt64.toNat_inj, toNat_pml4Index]
    simp only [UInt64.toNat_zero]
    omega
  have h3 : pdpIndex a = 0 := by
    rw [← UInt64.toNat_inj, toNat_pdpIndex]
    simp only [UInt64.toNat_zero]
    omega
  have h2 : pdIndex a = UInt64.ofNat (a.toNat / 2 ^ 21) := by
    rw [← UInt64.toNat_inj, toNat_pdIndex,
      UInt64.toNat_ofNat_of_lt' (by
        simp only [UInt64.size]
        omega)]
    omega
  have hLink : ∀ t < 16, isPresent (s.table t ||| pagePresent
      ||| pageWritable) = true ∧ address (s.table t |||
      pagePresent ||| pageWritable) = s.table t := by
    intro t ht
    have hPlain : PlainFlags 0 := by decide
    have hZero : link (s.table t) 0 =
        s.table t ||| pagePresent ||| pageWritable := by
      simp [link]
    rw [← hZero, address_link _ hPlain,
      address_eq_self (hId.table_aligned ht)]
    exact ⟨isPresent_link _ _, rfl⟩
  have e4 : s.presentEntry s.cr3 (pml4Index a) =
      some (s.table 1 ||| pagePresent ||| pageWritable) := by
    rw [presentEntry, h4, mem_slot_cr3, hId.p4,
      if_pos (hLink 1 (by decide)).1]
  have e3 : s.presentEntry (s.table 1) (pdpIndex a) =
      some (s.table 2 ||| pagePresent ||| pageWritable) := by
    have hEntry : s.mem (slot (s.table 1) 0) = s.entry 1 0 :=
      rfl
    rw [presentEntry, h3, hEntry, hId.p3,
      if_pos (hLink 2 (by decide)).1]
  have e2 : s.presentEntry (s.table 2) (pdIndex a) =
      some (0x200000 * UInt64.ofNat (a.toNat / 2 ^ 21) |||
        0x83) := by
    have hEntry := hId.p2 (a.toNat / 2 ^ 21) (by omega)
    rw [entry] at hEntry
    rw [presentEntry, h2, hEntry, if_pos (huge_entry _).1]
  simp only [pageWalk, e4, e3, e2, (hLink 1 (by decide)).2,
    (hLink 2 (by decide)).2, (huge_entry _).2, if_true]

/- An address of the first gigabyte translates to itself. -/
theorem translate_eq
    (hId : s.Identity)
    {a : UInt64}
    (ha : a.toNat < 2 ^ 30) :
    s.translate a = some a := by
  have hPage := toNat_hugePage (i := a.toNat / 2 ^ 21)
    (by omega)
  have hHuge := toNat_hugeOffset a
  have hOffset := toNat_pageOffset a
  rw [translate, hId.pageWalk_eq ha, Option.map_some,
    Option.some_inj, ← UInt64.toNat_inj, UInt64.toNat_add,
    UInt64.toNat_add, hPage, hHuge, hOffset]
  omega

theorem load_eq
    (hId : s.Identity)
    {a : UInt64}
    (ha : a.toNat < 2 ^ 30) :
    s.load a = some (s.mem a) := by
  rw [load, hId.translate_eq ha, Option.map_some]

theorem store_eq
    (hId : s.Identity)
    {a : UInt64}
    (value : UInt64)
    (ha : a.toNat < 2 ^ 30) :
    s.store a value = some (s.setWord a value) := by
  rw [store, hId.translate_eq ha, Option.map_some]

/-
  After present slots, `palloc` returns the first one that
  is not.
-/
theorem pallocLoop_eq
    (hId : s.Identity)
    (k : Nat) :
    ∀ {fuel : Nat} {b : UInt64}, k < fuel →
      b.toNat + 8 * k < 2 ^ 30 →
      (∀ j < k, isPresent
        (s.mem (slot b (UInt64.ofNat j))) = true) →
      isPresent (s.mem (slot b (UInt64.ofNat k))) = false →
      pallocLoop s fuel b = some (slot b (UInt64.ofNat k)) := by
  induction k with
  | zero =>
      intro fuel b hFuel hb _ hFree
      rcases fuel with _ | fuel
      · omega
      · have hSlot : slot b (UInt64.ofNat 0) = b := slot_zero b
        rw [hSlot] at hFree ⊢
        simp [pallocLoop, hId.load_eq (a := b) (by omega),
          hFree]
  | succ k ih =>
      intro fuel b hFuel hb hFull hFree
      rcases fuel with _ | fuel
      · omega
      · have hb8 : (b + 8).toNat = b.toNat + 8 := by
          have hEight : (8 : UInt64).toNat = 8 := rfl
          rw [UInt64.toNat_add, hEight]
          omega
        have hFirst := hFull 0 (by omega)
        have hSlot : slot b (UInt64.ofNat 0) = b := slot_zero b
        rw [hSlot] at hFirst
        rw [pallocLoop, hId.load_eq (by omega)]
        simp only [hFirst, if_true]
        rw [← slot_succ]
        apply ih (by omega) (by omega)
        · intro j hj
          rw [slot_succ]
          exact hFull (j + 1) (by omega)
        · rw [slot_succ]
          exact hFree

end Identity

end Machine

end Paging

end Ester
