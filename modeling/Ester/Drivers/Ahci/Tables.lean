import Ester.Drivers.Ahci.Regions

/-
  Which tables a command reaches.

  The tables of the 32 slots lie back to back, 256 bytes
  each.  `HBA_CMD_TBL` counts one entry already, so `read`
  clears one entry too many and with eight entries the first
  bytes of the next table; `write` stays in its own table.
  What either stores behind its table does not depend on what
  was there.

  Key definitions include:
    * `slotBytes`
    * `KeepsToSlot`

  Key theorems include:
    * `buildCommand_byte`
    * `exists_table_modified`
    * `buildCommand_keepsToSlot_iff`
    * `buildCommand_clears_next`
-/

namespace Ester

namespace Ahci

open PackedCodec

------------------------------------------------------------
-- Bytes That Are Overwritten
------------------------------------------------------------

section Overwritten

variable (kind : CommandKind)
variable {slot : Nat}
variable (hSlot : slot < 32)
variable (startl starth count : UInt32)
variable (buf : UInt64)

include hSlot

/- Behind the entries the cleared bytes stay zero. -/
theorem buildCommand_cleared
    {mem : Memory}
    (hRebased : Rebased mem)
    {j : Nat}
    (hPos : 0 < (Ahci.prdtl count).toNat)
    (hLe : prdtAddr (tableAddr (kind.header slot))
      (Ahci.prdtl count).toNat ≤ j)
    (hLt : j < tableAddr (kind.header slot) +
      kind.cleared (Ahci.prdtl count).toNat) :
    buildCommand kind portClb slot startl starth count buf mem
      j = 0 := by
  rcases buildCommand_stages hRebased kind hSlot startl starth
    count buf with ⟨left, stored, hBuild, hFilled⟩
  simp only [prdtAddr] at hLe
  rw [hBuild, fillFis_changesWithin _ _ _ _ _ _ j fun hIn => by
      rw [Set.mem_Ico] at hIn
      omega,
    hFilled.changes j fun hIn => by
      simp only [Set.mem_Ico, prdtAddr] at hIn
      omega,
    Memory.fill, if_pos (by omega)]

/- An overwritten byte does not depend on the memory. -/
theorem buildCommand_byte
    {mem mem' : Memory}
    (hRebased : Rebased mem)
    (hRebased' : Rebased mem')
    {k : Nat}
    (hPos : 0 < (Ahci.prdtl count).toNat)
    (hCleared : 128 + 16 * k <
      kind.cleared (Ahci.prdtl count).toNat) :
    buildCommand kind portClb slot startl starth count buf mem
        (prdtAddr (tableAddr (kind.header slot)) k) =
      buildCommand kind portClb slot startl starth count buf
        mem' (prdtAddr (tableAddr (kind.header slot)) k) := by
  by_cases hk : k < (Ahci.prdtl count).toNat
  · -- the first byte of an entry
    have hEntries :=
      (prdt_buildCommand hRebased kind hSlot startl starth count
        buf).trans (prdt_buildCommand hRebased' kind hSlot startl
          starth count buf).symm
    rw [List.map_inj_left] at hEntries
    have hEntry := hEntries k (List.mem_range.mpr hk)
    exact @Memory.eq_of_load_eq _ word32 _ _ _ _
      (congrArg PrdtFields.dba hEntry) ⟨Nat.le_refl _, by simp⟩
  · -- a cleared byte behind the last entry
    have hZero := fun m (hm : Rebased m) =>
      @buildCommand_cleared kind slot hSlot startl starth count
        buf m hm (prdtAddr (tableAddr (kind.header slot)) k) hPos
        (by simp only [prdtAddr]; omega)
        (by simp only [prdtAddr]; omega)
    rw [hZero _ hRebased, hZero _ hRebased']

/- The first byte of a table that is cleared can be lost. -/
theorem exists_table_modified
    {s : Nat}
    (hAbove : kind.header slot < s)
    (hPos : 0 < (Ahci.prdtl count).toNat)
    (hCleared : 256 * (s - kind.header slot) <
      kind.cleared (Ahci.prdtl count).toNat) :
    ∃ mem, Rebased mem ∧
      buildCommand kind portClb slot startl starth count buf mem
        (tableAddr s) ≠ mem (tableAddr s) := by
  have hBase := rebased_portRebase fun _ => 0
  generalize portRebase 0 (fun _ => 0) = base at hBase
  generalize hByte : buildCommand kind portClb slot startl starth
    count buf base (tableAddr s) = b
  -- any other byte there is overwritten with `b`
  have hRebased :
      Rebased (base.store word8 (tableAddr s) (b + 1)) := by
    constructor
    intro i hi
    rw [Memory.load_store_of_disjoint, hBase.ctba i hi]
    simp only [word8_size, word32_size, headerAddr, portClb,
      tableAddr]
    omega
  refine ⟨_, hRebased, ?_⟩
  have hAddr : tableAddr s =
      prdtAddr (tableAddr (kind.header slot))
        (16 * (s - kind.header slot) - 8) := by
    simp only [tableAddr, prdtAddr]
    omega
  have hSame := buildCommand_byte kind hSlot startl starth count
    buf hRebased hBase hPos
    (show 128 + 16 * (16 * (s - kind.header slot) - 8) < _ by
      omega)
  rw [← hAddr, hByte] at hSame
  rw [hSame, Memory.store_word8, if_pos rfl]
  grind

end Overwritten

------------------------------------------------------------
-- Keeping to a Slot
------------------------------------------------------------

/- The header and the command table of a slot. -/
def slotBytes
    (s : Nat) : Set Nat :=
  Set.Ico (headerAddr portClb s) (headerAddr portClb s + 32) ∪
    Set.Ico (tableAddr s) (tableAddr s + 256)

/-
  Whatever the memory held, a command changes the header that
  it fills in and the table of that slot, and the entries that
  it announces do not depend on what was there.
-/
structure KeepsToSlot
    (kind : CommandKind)
    (slot : Nat)
    (startl starth count : UInt32)
    (buf : UInt64) : Prop where
  confined : ∀ mem, Rebased mem →
    Memory.ChangesWithin (slotBytes (kind.header slot)) mem
      (buildCommand kind portClb slot startl starth count buf
        mem)
  fresh : ∀ mem mem', Rebased mem → Rebased mem' →
    (commandAt (buildCommand kind portClb slot startl starth
        count buf mem)
        (headerAddr portClb (kind.header slot))).prdt =
      (commandAt (buildCommand kind portClb slot startl starth
        count buf mem')
        (headerAddr portClb (kind.header slot))).prdt

/- A command keeps to its slot if its extent fits the table. -/
theorem keepsToSlot_iff
    (kind : CommandKind)
    {slot : Nat}
    (hSlot : slot < 32)
    (startl starth count : UInt32)
    (buf : UInt64)
    (hPos : 0 < (Ahci.prdtl count).toNat) :
    KeepsToSlot kind slot startl starth count buf ↔
      kind.cleared (Ahci.prdtl count).toNat ≤ 256 := by
  constructor
  · intro hKeeps
    by_contra hLong
    rcases exists_table_modified kind hSlot startl starth count
      buf (Nat.lt_succ_self _) hPos (by omega) with
      ⟨mem, hRebased, hModified⟩
    apply hModified
    apply hKeeps.confined mem hRebased
    simp only [slotBytes, Set.mem_union, Set.mem_Ico, headerAddr,
      portClb, tableAddr]
    have hIdx := kind.header_lt slot hSlot
    omega
  · intro hFits
    constructor
    · intro mem hRebased
      apply (buildCommand_changesWithin hRebased kind hSlot
        startl starth count buf).mono
      apply Set.union_subset_union
      · exact Set.Ico_subset_Ico_right (by omega)
      · apply Set.Ico_subset_Ico_right
        simp only [CommandKind.extent, sizeofCmdTbl]
        omega
    · intro mem mem' hRebased hRebased'
      rw [commandAt_buildCommand hRebased kind hSlot,
        commandAt_buildCommand hRebased' kind hSlot]

/-
  Up to the eight entries of a table, `write` keeps to its
  slot and `read` does with seven entries at most.
-/
theorem buildCommand_keepsToSlot_iff
    {slot : Nat}
    (hSlot : slot < 32)
    (startl starth : UInt32)
    {count : UInt32}
    (buf : UInt64)
    (hPos : 1 ≤ count.toNat)
    (hMax : count.toNat ≤ 128) :
    (KeepsToSlot readKind slot startl starth count buf ↔
        count.toNat ≤ 112) ∧
      KeepsToSlot writeKind slot startl starth count buf := by
  have hLen := toNat_prdtl hPos (by omega)
  have hSome : 0 < (Ahci.prdtl count).toNat := by omega
  rw [keepsToSlot_iff readKind hSlot _ _ _ _ hSome,
    keepsToSlot_iff writeKind hSlot _ _ _ _ hSome]
  simp only [readKind, writeKind, sizeofCmdTbl, sizeofPrdtEntry]
  omega

/- The largest read of seven entries. -/
theorem buildCommand_keepsToSlot_seven :
    (KeepsToSlot readKind 3 64 0 112 0x100000 ↔ 112 ≤ 112) ∧
      KeepsToSlot writeKind 3 64 0 112 0x100000 :=
  @buildCommand_keepsToSlot_iff 3 (by decide) 64 0 112 0x100000
    (by decide) (by decide)

/- A read of eight entries clears into the next table. -/
theorem buildCommand_clears_next :
    ¬ ∀ (slot : Nat) (startl starth count : UInt32)
      (buf : UInt64), slot < 32 → 1 ≤ count.toNat →
      count.toNat ≤ 128 →
      KeepsToSlot readKind slot startl starth count buf ∧
        KeepsToSlot writeKind slot startl starth count buf := by
  intro hClaim
  have hRead := (hClaim 0 0 0 128 0 (by decide) (by decide)
    (by decide)).1
  rw [keepsToSlot_iff readKind (by decide) _ _ _ _
    (by decide)] at hRead
  exact absurd hRead (by decide)

end Ahci

end Ester
