import Ester.Kernel.Paging.Tables
import Ester.Library.Memory

/-
  The page tables of arch/x86_64/boot.asm.

  The boot code runs without paging and with registers of 32
  bits: it stores the low half of an entry and leaves the
  high half as the cleared section has it.  One P4 entry, one
  P3 entry and a full P2 table of huge pages map the first
  gigabyte to itself and nothing else.

  Key definitions include:
    * `mapP2Table`
    * `setupPageTables`
    * `bootCodeMachine`

  Key theorems include:
    * `setupPageTables_boot`
    * `boot_translate`
    * `bootCode_translate`
-/

namespace Ester

namespace Paging

open PackedCodec

------------------------------------------------------------
-- The Code
------------------------------------------------------------

/- The loop `.map_p2_table_0`, with the counter at its end. -/
def mapP2Table
    (p2Table : Nat) : (ecx : Nat) → Memory → Memory
  | 0, m => m
  | ecx + 1, m =>
      (mapP2Table p2Table ecx m).store word32
        (p2Table + ecx * 8)
        (0x200000 * UInt32.ofNat ecx ||| 0b10000011)

/- The tables follow one another from `p4_table` on. -/
def setupPageTables
    (p4Table : UInt32)
    (m : Memory) : Memory :=
  let p3Table := p4Table + 0x1000
  let p2Table := p4Table + 0x2000
  let m := m.store word32 p4Table.toNat (p3Table ||| 0b11)
  let m := m.store word32 p3Table.toNat (p2Table ||| 0b11)
  mapP2Table p2Table.toNat 512 m

/- The machine with paging on, which sees words of 64 bits. -/
def bootCodeMachine
    (p4Table : UInt32)
    (m : Memory) : Machine where
  cr3 := p4Table.toUInt64
  mem a := (setupPageTables p4Table m).load word64 a.toNat

------------------------------------------------------------
-- Halves of Words
------------------------------------------------------------

/- A word whose high half is zero is its low half. -/
theorem load_word64_of_low
    {m : Memory}
    {addr : Nat}
    (hHigh : ∀ j, addr + 4 ≤ j → j < addr + 8 → m j = 0) :
    m.load word64 addr = (m.load word32 addr).toUInt64 := by
  have hLow : ∀ i, i < 4 →
      LittleEndian.toByte (m.load word32 addr).toNat i =
        m (addr + i) :=
    fun i hi => word32.encode_decode (fun i => m (addr + i)) i hi
  have hLt := (m.load word32 addr).toNat_lt
  rw [← word64.decode_encode (m.load word32 addr).toUInt64]
  refine word64.decode_congr _ _ fun i hi => ?_
  change m (addr + i) = LittleEndian.toByte
    (m.load word32 addr).toUInt64.toNat i
  rw [UInt32.toNat_toUInt64]
  by_cases hHalf : i < 4
  · rw [hLow i hHalf]
  · have hPow : 256 ^ 4 ≤ 256 ^ i :=
      Nat.pow_le_pow_right (by decide) (by omega)
    rw [hHigh _ (by omega) (by
        rw [word64_size] at hi
        omega),
      LittleEndian.toByte, Nat.div_eq_of_lt (by omega)]
    rfl

section Tables

variable {p4Table : UInt32} {m : Memory}

/- The loop stores in its table only, and in low halves. -/
theorem mapP2Table_other
    {p2Table n j : Nat}
    (hOther : j < p2Table ∨ p2Table + n * 8 ≤ j ∨
      4 ≤ (j - p2Table) % 8) :
    mapP2Table p2Table n m j = m j := by
  induction n with
  | zero => rfl
  | succ n ih =>
      rw [mapP2Table, Memory.store, if_neg (by
        rw [word32_size]
        omega)]
      exact ih (by omega)

theorem mapP2Table_entry
    {p2Table n i : Nat}
    (hi : i < n) :
    (mapP2Table p2Table n m).load word32 (p2Table + i * 8) =
      0x200000 * UInt32.ofNat i ||| 0b10000011 := by
  induction n with
  | zero => omega
  | succ n ih =>
      rw [mapP2Table]
      by_cases hLast : i = n
      · subst hLast
        exact Memory.load_store_self _ _ _ _
      · rw [Memory.load_store_of_disjoint word32 word32 _ _ (by
          simp only [word32_size]
          omega)]
        exact ih (by omega)

------------------------------------------------------------
-- What the Code Leaves
------------------------------------------------------------

variable (hAligned : p4Table.toNat % 4096 = 0)
variable (hBelow : p4Table.toNat + 16 * 4096 ≤ 2 ^ 30)
variable (hCleared : ∀ j, p4Table.toNat ≤ j →
  j < p4Table.toNat + 16 * 4096 → m j = 0)

include hBelow

theorem toNat_p3Table :
    (p4Table + 0x1000).toNat = p4Table.toNat + 4096 := by
  rw [UInt32.toNat_add, show (0x1000 : UInt32).toNat = 4096
    from rfl]
  omega

theorem toNat_p2Table :
    (p4Table + 0x2000).toNat = p4Table.toNat + 8192 := by
  rw [UInt32.toNat_add, show (0x2000 : UInt32).toNat = 8192
    from rfl]
  omega

/- The address of an entry of a table. -/
theorem toNat_bootSlot
    {t i : Nat}
    (ht : t < 16)
    (hi : i < 512) :
    (slot ((bootCodeMachine p4Table m).table t)
        (UInt64.ofNat i)).toNat =
      p4Table.toNat + 4096 * t + 8 * i := by
  have hTable : ((bootCodeMachine p4Table m).table t).toNat =
      p4Table.toNat + 4096 * t := by
    have hSize : (4096 : UInt64).toNat = 4096 := rfl
    rw [Machine.table, bootCodeMachine, UInt64.toNat_add,
      UInt64.toNat_mul, hSize, UInt32.toNat_toUInt64,
      UInt64.toNat_ofNat_of_lt' (by
        simp only [UInt64.size]
        omega)]
    omega
  have hIndex : (UInt64.ofNat i).toNat = i :=
    UInt64.toNat_ofNat_of_lt' (by
      simp only [UInt64.size]
      omega)
  rw [toNat_slot (by omega), hTable, hIndex]

include hCleared

/- High halves and the other tables stay cleared. -/
theorem setupPageTables_other
    {j : Nat}
    (hLow : p4Table.toNat ≤ j)
    (hHigh : j < p4Table.toNat + 16 * 4096)
    (hOther : 4 ≤ (j - p4Table.toNat) % 8 ∨
      (p4Table.toNat + 4 ≤ j ∧ j < p4Table.toNat + 4096) ∨
      (p4Table.toNat + 4100 ≤ j ∧ j < p4Table.toNat + 8192) ∨
      p4Table.toNat + 12288 ≤ j) :
    setupPageTables p4Table m j = 0 := by
  have h3 := toNat_p3Table hBelow
  have h2 := toNat_p2Table hBelow
  rw [setupPageTables, mapP2Table_other (by
      rw [h2]
      omega), Memory.store, if_neg (by
      rw [h3, word32_size]
      omega), Memory.store, if_neg (by
      rw [word32_size]
      omega)]
  exact hCleared j hLow hHigh

/- An entry is known by its low half. -/
theorem entry_bootCode
    {t i : Nat}
    (ht : t < 16)
    (hi : i < 512) :
    (bootCodeMachine p4Table m).entry t i =
      ((setupPageTables p4Table m).load word32
        (p4Table.toNat + 4096 * t + 8 * i)).toUInt64 := by
  have hSlot := @toNat_bootSlot p4Table m hBelow t i ht hi
  rw [Machine.entry]
  change (setupPageTables p4Table m).load word64 _ = _
  rw [hSlot]
  refine load_word64_of_low fun j hLow hHigh =>
    setupPageTables_other hBelow hCleared (by omega) (by omega)
      ?_
  omega

/- An entry that the code does not set is zero. -/
theorem entry_bootCode_zero
    {t i : Nat}
    (ht : t < 16)
    (hi : i < 512)
    (hUnset : (t < 2 ∧ 0 < i) ∨ 3 ≤ t) :
    (bootCodeMachine p4Table m).entry t i = 0 := by
  have hZero : (setupPageTables p4Table m).load word32
      (p4Table.toNat + 4096 * t + 8 * i) =
        word32.decode fun _ => 0 :=
    Memory.load_of_const fun j hLow hHigh =>
      setupPageTables_other hBelow hCleared (by omega) (by
        rw [word32_size] at hHigh
        omega) (by
        rw [word32_size] at hHigh
        omega)
  rw [entry_bootCode hBelow hCleared ht hi, hZero]
  rfl

omit hCleared in
/- The links of the first two tables. -/
theorem toUInt64_link
    {t : Nat}
    (ht : t < 3)
    {low : UInt32}
    (hLow : low.toNat = p4Table.toNat + 4096 * t) :
    (low ||| 0b11).toUInt64 =
      (bootCodeMachine p4Table m).table t ||| pagePresent |||
        pageWritable := by
  have hTable : low.toUInt64 =
      (bootCodeMachine p4Table m).table t := by
    have hSlot := @toNat_bootSlot p4Table m hBelow t 0 (by omega)
      (by decide)
    rw [show UInt64.ofNat 0 = 0 from rfl, slot_zero] at hSlot
    rw [← UInt64.toNat_inj, hSlot, UInt32.toNat_toUInt64, hLow]
    omega
  rw [UInt32.toUInt64_or, hTable, UInt64.or_assoc]
  rfl

include hAligned

/-
  The boot code sets up the machine that the kernel's paging
  starts from, in tables that the loader has cleared.
-/
theorem setupPageTables_boot :
    (bootCodeMachine p4Table m).Boot where
  aligned := by
    change p4Table.toUInt64.toNat % 4096 = 0
    rw [UInt32.toNat_toUInt64]
    exact hAligned
  below := by
    change p4Table.toUInt64.toNat + 16 * 4096 ≤ 2 ^ 30
    rw [UInt32.toNat_toUInt64]
    exact hBelow
  p4 := by
    have h3 := toNat_p3Table hBelow
    have h2 := toNat_p2Table hBelow
    have hEntry : (setupPageTables p4Table m).load word32
        (p4Table.toNat + 4096 * 0 + 8 * 0) =
          (p4Table + 0x1000) ||| 0b11 := by
      rw [setupPageTables, Memory.load_congr fun j _ hHigh =>
        mapP2Table_other (.inl (by
          rw [word32_size] at hHigh
          omega)),
        Memory.load_store_of_disjoint word32 word32 _ _ (by
          rw [word32_size]
          omega)]
      exact Memory.load_store_self _ _ _ _
    rw [entry_bootCode hBelow hCleared (by decide) (by decide),
      hEntry]
    exact toUInt64_link hBelow (by decide) h3
  p3 := by
    have h3 := toNat_p3Table hBelow
    have h2 := toNat_p2Table hBelow
    have hEntry : (setupPageTables p4Table m).load word32
        (p4Table.toNat + 4096 * 1 + 8 * 0) =
          (p4Table + 0x2000) ||| 0b11 := by
      rw [setupPageTables, Memory.load_congr fun j _ hHigh =>
        mapP2Table_other (.inl (by
          rw [word32_size] at hHigh
          omega)),
        show p4Table.toNat + 4096 * 1 + 8 * 0 =
          (p4Table + 0x1000).toNat by omega]
      exact Memory.load_store_self _ _ _ _
    rw [entry_bootCode hBelow hCleared (by decide) (by decide),
      hEntry]
    exact toUInt64_link hBelow (by decide) h2
  p2 i hi := by
    have h2 := toNat_p2Table hBelow
    have hWide : ∀ i, i < 512 →
        (0x200000 * UInt32.ofNat i ||| 0b10000011).toUInt64 =
          0x200000 * UInt64.ofNat i ||| 0x83 := by
      decide +kernel
    rw [entry_bootCode hBelow hCleared (by decide) hi,
      show p4Table.toNat + 4096 * 2 + 8 * i =
        (p4Table + 0x2000).toNat + i * 8 by omega,
      setupPageTables, mapP2Table_entry hi]
    exact hWide i hi
  p4_zero i hi hPos :=
    entry_bootCode_zero hBelow hCleared (by decide) hi
      (.inl ⟨by decide, hPos⟩)
  p3_zero i hi hPos :=
    entry_bootCode_zero hBelow hCleared (by decide) hi
      (.inl ⟨by decide, hPos⟩)
  rest_zero t hLow hHigh i hi :=
    entry_bootCode_zero hBelow hCleared hHigh hi (.inr hLow)

end Tables

------------------------------------------------------------
-- What Is Mapped
------------------------------------------------------------

section Walk

variable {s : Machine}

/- An index as the entry that the tables are stated with. -/
theorem presentEntry_of_zero
    {t i : Nat}
    {index : UInt64}
    (hIndex : index = UInt64.ofNat i)
    (hZero : s.entry t i = 0) :
    s.presentEntry (s.table t) index = none := by
  subst hIndex
  rw [Machine.entry] at hZero
  rw [Machine.presentEntry, hZero]
  rfl

/- The P4 entry of the boot code leads to the P3 table. -/
theorem presentEntry_p4
    (hBoot : s.Boot)
    (hId : s.Identity) :
    ∃ e, s.presentEntry s.cr3 0 = some e ∧
      address e = s.table 1 := by
  have hLink : link (s.table 1) 0 =
      s.table 1 ||| pagePresent ||| pageWritable := by
    simp [link]
  have hEntry : s.mem (slot s.cr3 0) = link (s.table 1) 0 := by
    rw [Machine.Identity.mem_slot_cr3, hBoot.p4, hLink]
  refine ⟨link (s.table 1) 0, ?_, ?_⟩
  · rw [Machine.presentEntry, hEntry,
      if_pos (isPresent_link _ _)]
  · rw [address_link _ (by decide),
      address_eq_self (hId.table_aligned (by decide))]

/-
  With the tables of the boot code an address below 2^48 is
  mapped exactly when it is in the first gigabyte, and then
  to itself.
-/
theorem boot_translate
    (hBoot : s.Boot)
    {v : UInt64}
    (hv : v.toNat < 2 ^ 48) :
    s.translate v =
      if v.toNat < 2 ^ 30 then some v else none := by
  have hId : s.Identity :=
    ⟨hBoot.aligned, hBoot.below, hBoot.p4, hBoot.p3, hBoot.p2⟩
  by_cases hFirst : v.toNat < 2 ^ 30
  · rw [if_pos hFirst]
    exact hId.translate_eq hFirst
  · have h4 : pml4Index v = UInt64.ofNat (v.toNat / 2 ^ 39) := by
      rw [← UInt64.toNat_inj, toNat_pml4Index,
        UInt64.toNat_ofNat_of_lt' (by
          simp only [UInt64.size]
          omega)]
      omega
    have hCr3 : s.table 0 = s.cr3 := by simp [Machine.table]
    rw [if_neg hFirst, Machine.translate,
      Option.map_eq_none_iff, Machine.pageWalk]
    by_cases hP4 : v.toNat / 2 ^ 39 = 0
    · have h3 : pdpIndex v = UInt64.ofNat (v.toNat / 2 ^ 30) := by
        rw [← UInt64.toNat_inj, toNat_pdpIndex,
          UInt64.toNat_ofNat_of_lt' (by
            simp only [UInt64.size]
            omega)]
        omega
      have hNone := presentEntry_of_zero h3
        (hBoot.p3_zero (v.toNat / 2 ^ 30) (by omega) (by omega))
      rcases presentEntry_p4 hBoot hId with ⟨e, hEntry, hTable⟩
      rw [h4, hP4, show UInt64.ofNat 0 = 0 from rfl, hEntry]
      dsimp only
      rw [hTable, hNone]
    · have hNone := presentEntry_of_zero h4
        (hBoot.p4_zero (v.toNat / 2 ^ 39) (by omega) (by omega))
      rw [← hCr3, hNone]

end Walk

/-
  From tables in cleared memory, the boot code maps the first
  gigabyte to itself and no other address below 2^48.
-/
theorem bootCode_translate
    {p4Table : UInt32}
    {m : Memory}
    (hAligned : p4Table.toNat % 4096 = 0)
    (hBelow : p4Table.toNat + 16 * 4096 ≤ 2 ^ 30)
    (hCleared : ∀ j, p4Table.toNat ≤ j →
      j < p4Table.toNat + 16 * 4096 → m j = 0)
    (v : UInt64)
    (hv : v.toNat < 2 ^ 48) :
    (bootCodeMachine p4Table m).Boot ∧
      (bootCodeMachine p4Table m).translate v =
        if v.toNat < 2 ^ 30 then some v else none :=
  have hBoot := setupPageTables_boot hAligned hBelow hCleared
  ⟨hBoot, boot_translate hBoot hv⟩

/- The tables at 1 MiB, and an address that is not mapped. -/
theorem bootCode_translate_sample :
    (bootCodeMachine 0x100000 fun _ => 0).translate
        0xFEBF1000 = none :=
  (bootCode_translate (by decide) (by decide)
    (fun _ _ _ => rfl) 0xFEBF1000 (by decide)).2.trans
      (if_neg (by decide))

end Paging

end Ester
