import Ester.Drivers.Ahci.Command

/-
  What the port finds in memory once a command is built.

  `port_rebase` establishes a layout in which the headers lie
  below the command tables.  In this layout the command in
  memory is determined by the arguments alone: its entries
  are those of `prdtEntries` moved to the address of the
  buffer, and its FIS is `fisRegH2D` of what the loop leaves
  of the count.

  Key definitions include:
    * `Rebased`
    * `PrdtFilled`
    * `CommandKind.footprint`
    * `CommandKind.builds`

  Key theorems include:
    * `rebased_portRebase`
    * `prdtFilled_fillPrdt`
    * `buildCommand_changesWithin`
    * `commandAt_buildCommand`
    * `read_eq_execute`, `write_eq_execute`
-/

namespace Ester

namespace Ahci

open PackedCodec

------------------------------------------------------------
-- The Rebased Layout
------------------------------------------------------------

/- The command list of the port. -/
abbrev portClb : Nat := 0x40000

/- The command table of a slot. -/
def tableAddr
    (i : Nat) : Nat :=
  0x4A000 + 256 * i

/- Every header names the command table of its slot. -/
structure Rebased
    (mem : Memory) : Prop where
  ctba : ∀ i, i < 32 →
    mem.load word32 (headerAddr portClb i + 8) =
      UInt32.ofNat (tableAddr i)

theorem toNat_tableAddr
    {i : Nat}
    (hi : i < 32) :
    (UInt32.ofNat (tableAddr i)).toNat = tableAddr i := by
  apply UInt32.toNat_ofNat_of_lt'
  simp only [UInt32.size, tableAddr]
  omega

theorem toNat_ctba
    {i : Nat}
    (hi : i < 32) :
    (ahciBase + ((40 : UInt32) <<< 10) +
      ((0 : UInt32) <<< 13) +
      (UInt32.ofNat i <<< 8)).toNat = tableAddr i := by
  have hBase : ahciBase + ((40 : UInt32) <<< 10) +
      ((0 : UInt32) <<< 13) = 0x4A000 := by decide
  have hShift : (UInt32.ofNat i <<< 8).toNat = 256 * i := by
    rw [UInt32.toNat_shiftLeft,
      UInt32.toNat_ofNat_of_lt' (by
        simp only [UInt32.size]
        omega)]
    simp only [UInt32.reduceToNat, Nat.reduceMod,
      Nat.shiftLeft_eq]
    omega
  rw [hBase, UInt32.toNat_add, hShift, tableAddr]
  simp only [UInt32.reduceToNat]
  omega

/- The loop sets one header after the other. -/
theorem rebaseHeaders_ctba
    (mem : Memory)
    {n i : Nat}
    (hn : n ≤ 32)
    (hi : i < n) :
    (rebaseHeaders portClb 0 n mem).load word32
      (headerAddr portClb i + 8) =
        UInt32.ofNat (tableAddr i) := by
  induction n with
  | zero => omega
  | succ n ih =>
      have hTable := toNat_ctba (show n < 32 by omega)
      generalize hCtba : ahciBase + ((40 : UInt32) <<< 10) +
        ((0 : UInt32) <<< 13) + (UInt32.ofNat n <<< 8) = ctba
        at hTable
      rw [rebaseHeaders]
      generalize rebaseHeaders portClb 0 n mem = before at ih
      simp only [rebaseHeader, hCtba]
      rw [Memory.load_store_of_disjoint _ _ _ _ (by simp),
        Memory.load_store_self, hTable]
      -- the table that is cleared lies above every header
      have hClear : ∀ m : Memory,
          (m.fill (tableAddr n) 256 0).load word32
              (headerAddr portClb i + 8) =
            m.load word32 (headerAddr portClb i + 8) := by
        intro m
        apply Memory.load_congr
        intro j _ hLt
        simp only [word32_size, headerAddr, portClb] at hLt
        rw [Memory.fill, if_neg]
        rw [tableAddr]
        omega
      rw [hClear,
        Memory.load_store_of_disjoint _ _ _ _ (by
          simp only [word32_size, headerAddr]
          omega)]
      by_cases hLast : i = n
      · subst hLast
        rw [Memory.load_store_self, ← hTable, UInt32.ofNat_toNat]
      · rw [Memory.load_store_of_disjoint _ _ _ _ (by
            simp only [word32_size, headerAddr]
            omega),
          Memory.load_store_of_disjoint _ _ _ _ (by
            simp only [word16_size, word32_size, headerAddr]
            omega)]
        exact ih (by omega) (by omega)

/- `port_rebase` of port 0 establishes the layout. -/
theorem rebased_portRebase
    (mem : Memory) :
    Rebased (portRebase 0 mem) :=
  ⟨fun _ hi => rebaseHeaders_ctba _ (Nat.le_refl 32) hi⟩

------------------------------------------------------------
-- Region Entries
------------------------------------------------------------

/- Storing a region entry changes its own bytes only. -/
theorem setPrdtEntry_changesWithin
    (kind : CommandKind)
    (addr : Nat)
    (buf : UInt64)
    (dbc : UInt32)
    (mem : Memory) :
    Memory.ChangesWithin
      (Set.Ico addr (addr + 16)) mem
      (setPrdtEntry kind addr buf dbc mem) := by
  have hDba : Memory.ChangesWithin (Set.Ico addr (addr + 16))
      mem (mem.store word32 addr buf.toUInt32) :=
    (Memory.ChangesWithin.refl _ mem).store
      (by omega) (by simp)
  unfold setPrdtEntry
  cases kind.dbau with
  | false =>
      exact (hDba.store (by omega) (by simp)).store
        (by omega) (by simp)
  | true =>
      exact ((hDba.store (by omega) (by simp)).store
        (by omega) (by simp)).store (by omega) (by simp)

/- The fields of the entry for a region of a buffer. -/
def CommandKind.fields
    (kind : CommandKind)
    (buf : UInt64)
    (e : HbaPrdtEntry) : PrdtFields :=
  let addr := buf + UInt64.ofNat e.dba
  { dba := addr.toUInt32
    dbau := if kind.dbau then (addr >>> 32).toUInt32 else 0
    rsv0 := 0
    dbc := e.dbc
    rsv1 := 0
    i := 1 }

/- A region entry stored over zeros. -/
theorem prdtAt_setPrdtEntry
    (kind : CommandKind)
    {addr : Nat}
    (buf : UInt64)
    (off : Nat)
    (dbc : UInt32)
    {mem : Memory}
    (hZero : ∀ j, addr ≤ j → j < addr + 16 →
      mem j = 0) :
    prdtAt (setPrdtEntry kind addr (buf + UInt64.ofNat off)
        dbc mem) addr =
      kind.fields buf ⟨off, dbc.toNat % 2 ^ 22⟩ := by
  have hWord : ∀ k, k ≤ 12 →
      mem.load word32 (addr + k) = 0 := by
    intro k hk
    rw [Memory.load_of_const fun j hLe hLt =>
      hZero j (by omega) (by
        rw [word32_size] at hLt
        omega)]
    rfl
  have h4 := hWord 4 (by omega)
  have h8 := hWord 8 (by omega)
  have h12 := hWord 12 (by omega)
  have hDw3 : (((0 : UInt32).setField 0 22 dbc.toNat).setField
      31 1 1).toNat = Bitfield.set 31 1
        (Bitfield.set 0 22 0 dbc.toNat) 1 := by
    rw [UInt32.toNat_setField _ _ (by omega),
      UInt32.toNat_setField _ _ (by omega), UInt32.toNat_zero]
  -- the three fields of the last word are disjoint
  have hDbc : Bitfield.get 0 22 (Bitfield.set 31 1
      (Bitfield.set 0 22 0 dbc.toNat) 1) =
        dbc.toNat % 2 ^ 22 := by
    rw [Bitfield.get_set_of_disjoint _ _ (by omega),
      Bitfield.get_set_self]
  have hRsv1 : Bitfield.get 22 9 (Bitfield.set 31 1
      (Bitfield.set 0 22 0 dbc.toNat) 1) = 0 := by
    rw [Bitfield.get_set_of_disjoint _ _ (by omega),
      Bitfield.get_set_of_disjoint _ _ (by omega)]
    rfl
  have hI : Bitfield.get 31 1 (Bitfield.set 31 1
      (Bitfield.set 0 22 0 dbc.toNat) 1) = 1 :=
    Bitfield.get_set_self 31 1 _ 1
  unfold prdtAt setPrdtEntry CommandKind.fields
  cases kind.dbau <;>
    simp (disch := (simp only [word32_size]; omega)) only
      [Memory.load_store_self, Memory.load_store_of_disjoint,
        Bool.false_eq_true, if_false, if_true, h4, h8, h12,
        hDw3, hDbc, hRsv1, hI]

/- The header is read back while the entries are stored. -/
theorem prdtl_setPrdtEntry
    (kind : CommandKind)
    {hdr addr : Nat}
    (buf : UInt64)
    (dbc : UInt32)
    (mem : Memory)
    (hBelow : hdr + 4 ≤ addr) :
    (setPrdtEntry kind addr buf dbc mem).load word16 (hdr + 2) =
      mem.load word16 (hdr + 2) :=
  (setPrdtEntry_changesWithin kind addr buf dbc mem).load
    fun j _ hLt hIn => by
      rw [word16_size] at hLt
      rw [Set.mem_Ico] at hIn
      omega

/- The regions of a command and the count in its FIS. -/
def CommandKind.regions
    (kind : CommandKind)
    (more off : Nat)
    (count : UInt32) : List HbaPrdtEntry × UInt32 :=
  prdtEntries (kind.chunk.toNat % 2 ^ 22)
    (fun c => (kind.last c).toNat % 2 ^ 22) more off count

/-
  The loop stores the entries `i` to `i + more` and nothing
  else, and leaves the count of `prdtEntries`.
-/
structure PrdtFilled
    (kind : CommandKind)
    (tbl i more off : Nat)
    (buf : UInt64)
    (count : UInt32)
    (mem : Memory)
    (rest : UInt32)
    (stored : Memory) : Prop where
  changes : Memory.ChangesWithin
    (Set.Ico (prdtAddr tbl i) (prdtAddr tbl (i + more + 1)))
    mem stored
  left : rest = (kind.regions more off count).2
  entries :
    (∀ j, prdtAddr tbl i ≤ j →
      j < prdtAddr tbl (i + more + 1) → mem j = 0) →
    (List.range' i (more + 1)).map
        (fun k => prdtAt stored (prdtAddr tbl k)) =
      (kind.regions more off count).1.map (kind.fields buf)

theorem prdtAt_congr
    {mem out : Memory}
    {addr : Nat}
    (h : ∀ j, addr ≤ j → j < addr + 16 → out j = mem j) :
    prdtAt out addr = prdtAt mem addr := by
  have hWord : ∀ k, k ≤ 12 →
      out.load word32 (addr + k) = mem.load word32 (addr + k) :=
    fun k hk => Memory.load_congr fun j hLe hLt =>
      h j (by omega) (by
        rw [word32_size] at hLt
        omega)
  have h0 : out.load word32 addr = mem.load word32 addr :=
    hWord 0 (by omega)
  rw [prdtAt, prdtAt, h0, hWord 4 (by omega),
    hWord 8 (by omega), hWord 12 (by omega)]

theorem prdtFilled_fillPrdt
    (kind : CommandKind)
    {hdr tbl i more off : Nat}
    (buf : UInt64)
    {count : UInt32}
    {mem : Memory}
    (hBelow : hdr + 4 ≤ tbl)
    (hLen : (mem.load word16 (hdr + 2)).toNat - 1 = i + more) :
    let out := fillPrdt kind hdr tbl i (buf + UInt64.ofNat off)
      count mem
    PrdtFilled kind tbl i more off buf count mem out.1
      out.2 := by
  induction more generalizing i off count mem with
  | zero =>
      rw [fillPrdt, if_neg (by omega)]
      refine ⟨setPrdtEntry_changesWithin _ _ _ _ _, rfl, ?_⟩
      intro hZero
      have hEntry := prdtAt_setPrdtEntry kind buf off
        (kind.last count) hZero
      simp [CommandKind.regions, prdtEntries, hEntry]
  | succ more ih =>
      have hKeep := prdtl_setPrdtEntry kind
        (buf + UInt64.ofNat off) kind.chunk mem
        (show hdr + 4 ≤ prdtAddr tbl i by
          rw [prdtAddr]
          omega)
      have hOff : buf + UInt64.ofNat off + 4 * 1024 =
          buf + UInt64.ofNat (off + 4 * 1024) := by
        rw [UInt64.ofNat_add, UInt64.add_assoc]
        rfl
      have hSet := setPrdtEntry_changesWithin kind
        (prdtAddr tbl i) (buf + UInt64.ofNat off) kind.chunk mem
      rcases @ih (i + 1) (off + 4 * 1024) (count - 16)
        (setPrdtEntry kind (prdtAddr tbl i)
          (buf + UInt64.ofNat off) kind.chunk mem)
        (by rw [hKeep]; omega) with ⟨hChanges, hLeft, hEntries⟩
      have hIdx : i + 1 + more + 1 = i + (more + 1) + 1 := by
        omega
      rw [hIdx] at hChanges hEntries
      rw [fillPrdt, if_pos (by omega), hOff]
      refine ⟨?_, hLeft, ?_⟩
      · apply Memory.ChangesWithin.trans
        · apply hSet.mono (Set.Ico_subset_Ico_right _)
          simp only [prdtAddr]
          omega
        · apply hChanges.mono (Set.Ico_subset_Ico_left _)
          simp only [prdtAddr]
          omega
      · intro hZero
        -- later rounds leave entry `i`, this one the zeros
        have hFirst := @prdtAt_congr _ _ (prdtAddr tbl i)
          fun j _ hLt => hChanges j fun hIn => by
            simp only [Set.mem_Ico, prdtAddr] at hIn hLt
            omega
        have hEntry := prdtAt_setPrdtEntry kind buf off
          kind.chunk fun j hLe hLt => hZero j hLe (by
            simp only [prdtAddr] at hLt ⊢
            omega)
        rw [List.range'_succ, List.map_cons, hFirst, hEntry,
          hEntries]
        · rfl
        · intro j hLe hLt
          rw [hSet j fun hIn => by
            rw [Set.mem_Ico] at hIn
            simp only [prdtAddr] at hIn hLe
            omega]
          apply hZero j _ hLt
          simp only [prdtAddr] at hLe ⊢
          omega

------------------------------------------------------------
-- The Header
------------------------------------------------------------

theorem fillHeader_changesWithin
    (kind : CommandKind)
    (hdr : Nat)
    (count : UInt32)
    (mem : Memory) :
    Memory.ChangesWithin (Set.Ico hdr (hdr + 4)) mem
      (fillHeader kind hdr count mem) :=
  (((Memory.ChangesWithin.refl _ mem).store (Nat.le_refl hdr)
    (by simp)).store (Nat.le_refl hdr) (by simp)).store
      (by omega) (by simp)

/- The fields of a header after it is filled in. -/
theorem headerAt_fillHeader
    (kind : CommandKind)
    (hdr : Nat)
    (count : UInt32)
    (mem : Memory) :
    headerAt (fillHeader kind hdr count mem) hdr =
      { cfl := 5
        w := kind.w
        prdtl := Ahci.prdtl count
        ctba := mem.load word32 (hdr + 8) } := by
  have hW : kind.w % 2 ^ 1 = kind.w :=
    Nat.mod_eq_of_lt kind.w_lt
  have hCfl : ∀ x : UInt8, Bitfield.get 0 5
      ((x.setField 0 5 (20 / 4)).setField 6 1 kind.w).toNat =
        5 := by
    intro x
    rw [UInt8.toNat_setField _ _ (by omega),
      Bitfield.get_set_of_disjoint _ _ (by omega),
      UInt8.toNat_setField _ _ (by omega),
      Bitfield.get_set_self]
    rfl
  have hFlag : ∀ x : UInt8, Bitfield.get 6 1
      (x.setField 6 1 kind.w).toNat = kind.w := by
    intro x
    rw [UInt8.toNat_setField _ _ (by omega),
      Bitfield.get_set_self, hW]
  unfold headerAt fillHeader
  simp (disch :=
    (simp only [word8_size, word16_size, word32_size]; omega))
    only [Memory.load_store_self, Memory.load_store_of_disjoint,
      hCfl, hFlag]

------------------------------------------------------------
-- The FIS
------------------------------------------------------------

theorem fillFis_changesWithin
    (kind : CommandKind)
    (tbl : Nat)
    (startl starth count : UInt32)
    (mem : Memory) :
    Memory.ChangesWithin (Set.Ico tbl (tbl + 16)) mem
      (fillFis kind tbl startl starth count mem) := by
  intro j hj
  rw [Set.mem_Ico] at hj
  unfold fillFis
  cases kind.control <;>
    simp (disch := omega) only [Memory.store_word8, if_neg]

/- The FIS does not depend on what the table held. -/
theorem fisAt_fillFis
    (kind : CommandKind)
    (tbl : Nat)
    (startl starth count : UInt32)
    (mem : Memory) :
    fisAt (fillFis kind tbl startl starth count mem) tbl =
        fisRegH2D kind.command startl starth count ∧
      fillFis kind tbl startl starth count mem tbl = 0x27 ∧
      Bitfield.get 7 1 (fillFis kind tbl startl starth count
        mem (tbl + 1)).toNat = 1 := by
  have hC : ∀ x : UInt8,
      Bitfield.get 7 1 (x.setField 7 1 1).toNat = 1 := by
    intro x
    rw [UInt8.toNat_setField _ _ (by omega),
      Bitfield.get_set_self]
    rfl
  unfold fisAt fillFis fisRegH2D
  cases kind.control <;> simp [Memory.store_word8, hC]

------------------------------------------------------------
-- The Command
------------------------------------------------------------

/- The bytes of a table that a command may store to. -/
def CommandKind.extent
    (kind : CommandKind)
    (n : Nat) : Nat :=
  max (kind.cleared n) sizeofCmdTbl

/- The bytes that a command for a slot may store to. -/
def CommandKind.footprint
    (kind : CommandKind)
    (slot : Nat)
    (count : UInt32) : Set Nat :=
  Set.Ico (headerAddr portClb (kind.header slot))
      (headerAddr portClb (kind.header slot) + 4) ∪
    Set.Ico (tableAddr (kind.header slot))
      (tableAddr (kind.header slot) +
        kind.extent (Ahci.prdtl count).toNat)

/- The command that is built under a header of the list. -/
def CommandKind.builds
    (kind : CommandKind)
    (idx : Nat)
    (startl starth count : UInt32)
    (buf : UInt64) : HbaCommand :=
  let n := (Ahci.prdtl count).toNat
  let regions := kind.regions (n - 1) 0 count
  { header :=
      { cfl := 5
        w := kind.w
        prdtl := Ahci.prdtl count
        ctba := UInt32.ofNat (tableAddr idx) }
    prdt := (regions.1.map (kind.fields buf)).take n
    fisType := 0x27
    c := 1
    fis := fisRegH2D kind.command startl starth regions.2 }

/- A transfer executes the command that is built for it. -/
theorem read_eq_execute
    (startl starth count : UInt32)
    {n : Nat}
    (data : ByteBuffer n)
    (disk : Disk)
    (idx : Nat)
    (buf : UInt64) :
    read startl starth count data disk =
      ((readKind.builds idx startl starth count buf).fis.execute
        (readKind.regions ((Ahci.prdtl count).toNat - 1) 0
          count).1 data disk).map fun out => (0, out) :=
  rfl

theorem write_eq_execute
    (startl starth count : UInt32)
    {n : Nat}
    (data : ByteBuffer n)
    (disk : Disk)
    (idx : Nat)
    (buf : UInt64) :
    write startl starth count data disk =
      ((writeKind.builds idx startl starth count buf).fis.execute
        (writeKind.regions ((Ahci.prdtl count).toNat - 1) 0
          count).1 data disk).map fun out => (0, out) :=
  rfl

theorem length_regions
    (kind : CommandKind)
    (more off : Nat)
    (count : UInt32) :
    (kind.regions more off count).1.length = more + 1 := by
  unfold CommandKind.regions
  induction more generalizing off count with
  | zero => rfl
  | succ more ih =>
      rw [prdtEntries, List.length_cons, ih]

theorem headerAt_congr
    {mem out : Memory}
    {hdr : Nat}
    (h : ∀ j, hdr ≤ j → j < hdr + 12 → out j = mem j) :
    headerAt out hdr = headerAt mem hdr := by
  have hByte : out.load word8 hdr = mem.load word8 hdr :=
    Memory.load_congr fun j hLe hLt => h j hLe (by
      rw [word8_size] at hLt
      omega)
  have hLen : out.load word16 (hdr + 2) =
      mem.load word16 (hdr + 2) :=
    Memory.load_congr fun j hLe hLt => h j (by omega) (by
      rw [word16_size] at hLt
      omega)
  have hCtba : out.load word32 (hdr + 8) =
      mem.load word32 (hdr + 8) :=
    Memory.load_congr fun j hLe hLt => h j (by omega) (by
      rw [word32_size] at hLt
      omega)
  rw [headerAt, headerAt, hByte, hLen, hCtba]

section Build

variable {mem : Memory}
variable (hRebased : Rebased mem)
variable (kind : CommandKind)
variable {slot : Nat}
variable (hSlot : slot < 32)
variable (startl starth count : UInt32)
variable (buf : UInt64)

include hRebased hSlot

/-
  A command in stages: the header is filled in, the table is
  cleared, the entries are stored and last the FIS.
-/
theorem buildCommand_stages :
    ∃ left stored,
      buildCommand kind portClb slot startl starth count buf
          mem =
        fillFis kind (tableAddr (kind.header slot)) startl starth
          left stored ∧
      PrdtFilled kind (tableAddr (kind.header slot)) 0
        ((Ahci.prdtl count).toNat - 1) 0 buf count
        ((fillHeader kind (headerAddr portClb (kind.header slot))
          count mem).fill (tableAddr (kind.header slot))
            (kind.cleared (Ahci.prdtl count).toNat) 0)
        left stored := by
  have hIdx := kind.header_lt slot hSlot
  generalize hHdr : headerAddr portClb (kind.header slot) = hdr
  generalize hTbl : tableAddr (kind.header slot) = tbl
  have hHeader := headerAt_fillHeader kind hdr count mem
  have hLen : (fillHeader kind hdr count mem).load word16
      (hdr + 2) = Ahci.prdtl count :=
    congrArg HbaCmdHeader.prdtl hHeader
  have hCtba : ((fillHeader kind hdr count mem).load word32
      (hdr + 8)).toNat = tbl := by
    have hKept := congrArg HbaCmdHeader.ctba hHeader
    simp only [headerAt] at hKept
    rw [hKept, ← hHdr, hRebased.ctba _ hIdx,
      toNat_tableAddr hIdx, hTbl]
  have hBelow : hdr + 4 ≤ tbl := by
    simp only [← hHdr, ← hTbl, headerAddr, portClb, tableAddr]
    omega
  generalize hCleared : (fillHeader kind hdr count mem).fill tbl
    (kind.cleared (Ahci.prdtl count).toNat) 0 = cleared
  have hKeep : cleared.load word16 (hdr + 2) =
      Ahci.prdtl count := by
    rw [← hLen, ← hCleared]
    apply Memory.load_congr
    intro j _ hLt
    rw [word16_size] at hLt
    exact if_neg (by omega)
  refine ⟨_, _, ?_, @prdtFilled_fillPrdt kind hdr tbl 0
    ((Ahci.prdtl count).toNat - 1) 0 buf count cleared hBelow
    (by rw [hKeep]; omega)⟩
  have hBuf : buf + UInt64.ofNat 0 = buf := by simp
  rw [buildCommand, hBuf]
  simp only [hHdr, hCtba, hLen, hCleared]

/- A command changes its header and its table only. -/
theorem buildCommand_changesWithin :
    Memory.ChangesWithin (kind.footprint slot count) mem
      (buildCommand kind portClb slot startl starth count buf
        mem) := by
  rcases buildCommand_stages hRebased kind hSlot startl starth
    count buf with ⟨left, stored, hBuild, hFilled⟩
  have hClear := kind.le_cleared (Ahci.prdtl count).toNat
  -- the last entry lies in the table also for a length of zero
  have hEntries : 128 + 16 * ((Ahci.prdtl count).toNat - 1 + 1) ≤
      kind.extent (Ahci.prdtl count).toNat := by
    simp only [CommandKind.extent, sizeofCmdTbl]
    omega
  have hExtent : kind.cleared (Ahci.prdtl count).toNat ≤
      kind.extent (Ahci.prdtl count).toNat :=
    Nat.le_max_left _ _
  rw [hBuild]
  intro j hj
  rw [CommandKind.footprint, Set.mem_union, Set.mem_Ico,
    Set.mem_Ico, not_or] at hj
  rw [fillFis_changesWithin _ _ _ _ _ _ j fun hIn => by
      rw [Set.mem_Ico] at hIn
      omega,
    hFilled.changes j fun hIn => by
      simp only [Set.mem_Ico, prdtAddr] at hIn
      omega,
    Memory.fill, if_neg (by omega),
    fillHeader_changesWithin _ _ _ _ j fun hIn => hj.1 hIn]

/- The header is the one that was filled in. -/
theorem headerAt_buildCommand :
    headerAt (buildCommand kind portClb slot startl starth
        count buf mem)
        (headerAddr portClb (kind.header slot)) =
      (kind.builds (kind.header slot) startl starth count
        buf).header := by
  have hIdx := kind.header_lt slot hSlot
  rcases buildCommand_stages hRebased kind hSlot startl starth
    count buf with ⟨left, stored, hBuild, hFilled⟩
  rw [hBuild, CommandKind.builds, ← hRebased.ctba _ hIdx,
    ← headerAt_fillHeader]
  apply headerAt_congr
  intro j hLe hLt
  -- the header lies below every table
  have hBelow : j < tableAddr (kind.header slot) := by
    simp only [headerAddr, portClb] at hLt
    rw [tableAddr]
    omega
  rw [fillFis_changesWithin _ _ _ _ _ _ j fun hIn => by
      rw [Set.mem_Ico] at hIn
      omega,
    hFilled.changes j fun hIn => by
      simp only [Set.mem_Ico, prdtAddr] at hIn
      omega,
    Memory.fill, if_neg (by omega)]

/- The announced entries are those of the regions. -/
theorem prdt_buildCommand :
    (List.range (Ahci.prdtl count).toNat).map (fun i =>
        prdtAt (buildCommand kind portClb slot startl starth
          count buf mem)
          (prdtAddr (tableAddr (kind.header slot)) i)) =
      (kind.builds (kind.header slot) startl starth count
        buf).prdt := by
  rcases buildCommand_stages hRebased kind hSlot startl starth
    count buf with ⟨left, stored, hBuild, hFilled⟩
  rw [hBuild]
  simp only [CommandKind.builds]
  generalize hn : (Ahci.prdtl count).toNat = n at hFilled
  cases n with
  | zero => rfl
  | succ n =>
      have hClear := kind.le_cleared (n + 1) (Nat.succ_pos n)
      have hEntries := hFilled.entries fun j hLe hLt => by
        simp only [prdtAddr] at hLe hLt
        exact if_pos (by omega)
      rw [Nat.add_sub_cancel] at hEntries ⊢
      rw [List.take_of_length_le (by
        rw [List.length_map, length_regions]), ← hEntries,
        ← List.range_eq_range']
      apply List.map_congr_left
      intro i _
      -- the FIS lies below the entries
      apply prdtAt_congr
      intro j hLe _
      apply fillFis_changesWithin
      rw [Set.mem_Ico]
      simp only [prdtAddr] at hLe
      omega

/- The port finds the command that the arguments determine. -/
theorem commandAt_buildCommand :
    commandAt (buildCommand kind portClb slot startl starth
        count buf mem)
        (headerAddr portClb (kind.header slot)) =
      kind.builds (kind.header slot) startl starth count
        buf := by
  have hTable := toNat_tableAddr (kind.header_lt slot hSlot)
  have hHeader := headerAt_buildCommand hRebased kind hSlot
    startl starth count buf
  have hPrdt := prdt_buildCommand hRebased kind hSlot startl
    starth count buf
  rcases buildCommand_stages hRebased kind hSlot startl starth
    count buf with ⟨left, stored, hBuild, hFilled⟩
  rcases fisAt_fillFis kind (tableAddr (kind.header slot)) startl
    starth left stored with ⟨hFis, hType, hC⟩
  rw [← hBuild] at hFis hType hC
  rw [hFilled.left] at hFis
  rw [commandAt, hHeader]
  simp only [CommandKind.builds, hTable] at hPrdt ⊢
  rw [hPrdt, hFis, hType, hC]

end Build

end Ahci

end Ester
