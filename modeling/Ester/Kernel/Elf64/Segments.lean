import Mathlib.Data.Finset.Card
import Ester.Kernel.Elf64
import Ester.Kernel.Paging.Bytes

/-
  The loading of segments in kernel/elf64_loader.c.

  For each program header `elf64_load` passes the page of
  `p_vaddr` to `pmap`, and for a loadable segment it clears
  the memory of the segment and copies from the start of the
  block.  The file offset is not added, and the pages behind
  the first one are not passed.

  The loop runs on the machine of kernel/mem.c: the calls of
  `pmap` change its page tables, or store into the program
  below 1 GiB, and each byte of `memset` and `memcpy` goes
  through the page walk of its address.  The block and the
  static tables are the loader's own and are kept apart from
  the machine.

  Key definitions include:
    * `LoadState`
    * `loadSegment`, `loadLoop`, `elf64LoadSegments`
    * `ValidImage`
    * `PassedFirst`

  Key theorems include:
    * `elf64LoadSegments_eq`
    * `roundEvents`
    * `roundsEvents`
-/

------------------------------------------------------------
-- The Machine and its Events
------------------------------------------------------------

namespace Ester

namespace Elf64

open Paging

/- Bytes of a page. -/
abbrev pageSize : Nat := 4096

/- The distance of the physical pages, 2 GB. -/
abbrev baseVmem : UInt64 := 2147483648

/- The page of a virtual address. -/
def pageOf
    (vaddr : UInt64) : Nat :=
  vaddr.toNat / pageSize

/- What the loader does to memory. -/
inductive MemoryEvent where
  | pmap (paddr vaddr flags : UInt64)
  | store (vaddr : UInt64)

/-
  The machine and what the loader did to its memory, the
  latest first.
-/
structure LoadState where
  machine : Machine
  events : List MemoryEvent

namespace LoadState

/- Map a physical address to a virtual address page. -/
def pmap
    (paddr vaddr flags : UInt64)
    (m : LoadState) : Option LoadState :=
  (Paging.pmap paddr vaddr flags m.machine).map fun s =>
    ⟨s, .pmap paddr vaddr flags :: m.events⟩

/- Store a byte; a page that is not mapped faults. -/
def store
    (vaddr : UInt64)
    (v : UInt8)
    (m : LoadState) : Option LoadState :=
  (m.machine.storeByte vaddr v).map fun s =>
    ⟨s, .store vaddr :: m.events⟩

/- The loops of `memset` and `memcpy`, byte after byte. -/
def storeBytes
    (dst : UInt64)
    (src : Nat → UInt8) :
    (len : Nat) → LoadState → Option LoadState
  | 0, m => some m
  | i + 1, m =>
      match storeBytes dst src i m with
      | none => none
      | some m => store (dst + UInt64.ofNat i) (src i) m

def memset
    (ptr : UInt64)
    (val : UInt8)
    (len : UInt32)
    (m : LoadState) : Option LoadState :=
  storeBytes ptr (fun _ => val) len.toNat m

/- A copy from behind the block has no result. -/
def memcpy
    (dst : UInt64)
    (buff : FileBlock)
    (len : UInt32)
    (m : LoadState) : Option LoadState :=
  if len.toNat ≤ buffLen then
    storeBytes dst (buff.slice 0) len.toNat m
  else none

end LoadState

------------------------------------------------------------
-- Loading Segments
------------------------------------------------------------

/- The segment is to be loaded. -/
abbrev Elf64ProgramHeader.IsLoad
    (h : Elf64ProgramHeader) : Prop :=
  h.pSegtype = 1

/-
  One round of the loop.  The sizes are narrowed to the
  32 bits of the parameters of `memset` and `memcpy`.
-/
def loadSegment
    (buff : FileBlock)
    (h : Elf64ProgramHeader)
    (m : LoadState) : Option LoadState :=
  match m.pmap (h.pVaddr + baseVmem) h.pVaddr 0 with
  | none => none
  | some m =>
      if h.IsLoad then
        match m.memset h.pVaddr 0 h.pMemsz.toUInt32 with
        | none => none
        | some m => m.memcpy h.pVaddr buff h.pFilesz.toUInt32
      else some m

/- The loop over the table of program headers. -/
def loadLoop
    (buff : FileBlock)
    (l : Loader) :
    (remaining i : Nat) → LoadState → Option LoadState
  | 0, _, m => some m
  | remaining + 1, i, m =>
      if h : i < maxProgramHeaders then
        match loadSegment buff (l.elf64ProgramHeaders ⟨i, h⟩)
            m with
        | none => none
        | some m => loadLoop buff l remaining (i + 1) m
      else none

/-
  Elf64 program loader, up to the jump into the program.  A
  block that is not accepted leaves the memory alone.
-/
def elf64LoadSegments
    (buff : FileBlock)
    (l : Loader)
    (m : LoadState) : Option LoadState :=
  let loaded := elf64Load buff l
  match loaded.loader with
  | none => none
  | some l =>
      if loaded.accepted then
        loadLoop buff l l.elf64Header.ePhnum.toNat 0 m
      else some m

------------------------------------------------------------
-- What a Segment Writes
------------------------------------------------------------

namespace Elf64ProgramHeader

/- The address lies in the memory of the segment. -/
def Covers
    (h : Elf64ProgramHeader)
    (a : Nat) : Prop :=
  h.pVaddr.toNat ≤ a ∧ a < h.pVaddr.toNat + h.pMemsz.toNat

/-
  The bytes of the segment lie in the first block and fit in
  its memory, which does not wrap around.
-/
structure Valid
    (h : Elf64ProgramHeader) : Prop where
  file : h.pOffset.toNat + h.pFilesz.toNat ≤ buffLen
  sizes : h.pFilesz.toNat ≤ h.pMemsz.toNat
  range : h.pVaddr.toNat + h.pMemsz.toNat ≤ 2 ^ 64

/- The number of bytes that the round writes. -/
def written
    (h : Elf64ProgramHeader) : Nat :=
  if h.IsLoad then
    max (h.pMemsz.toNat % 2 ^ 32) h.pFilesz.toNat
  else 0

/- The address is written. -/
def Touches
    (h : Elf64ProgramHeader)
    (a : Nat) : Prop :=
  h.pVaddr.toNat ≤ a ∧ a < h.pVaddr.toNat + h.written

instance
    (h : Elf64ProgramHeader)
    (a : Nat) : Decidable (h.Touches a) :=
  inferInstanceAs (Decidable (_ ∧ _))

variable {h : Elf64ProgramHeader} {a : Nat}

theorem written_of_load
    (hLoad : h.IsLoad) :
    h.written =
      max (h.pMemsz.toNat % 2 ^ 32) h.pFilesz.toNat :=
  if_pos hLoad

theorem isLoad_of_touches
    (hTouches : h.Touches a) :
    h.IsLoad := by
  by_contra hNot
  rcases hTouches with ⟨hLow, hHigh⟩
  rw [written, if_neg hNot] at hHigh
  omega

/- Only the segment's own memory is written. -/
theorem Valid.covers
    (hValid : h.Valid)
    (hTouches : h.Touches a) :
    h.Covers a := by
  have hSizes := hValid.sizes
  have hMod := Nat.mod_le h.pMemsz.toNat (2 ^ 32)
  rcases id hTouches with ⟨hLow, hHigh⟩
  rw [written_of_load (isLoad_of_touches hTouches)] at hHigh
  exact ⟨hLow, by omega⟩

end Elf64ProgramHeader

open LoadState Elf64ProgramHeader

------------------------------------------------------------
-- Images
------------------------------------------------------------

/- The program header at an index of the block's table. -/
def FileBlock.programHeader
    (buff : FileBlock)
    (i : Nat) : Elf64ProgramHeader :=
  elf64ProgramHeaderCodec.decode (buff.slice
    (buff.header.ePhoff.toNat +
      i * buff.header.ePhentsize.toNat))

/- The number of entries of the block's table. -/
abbrev FileBlock.entries
    (buff : FileBlock) : Nat :=
  buff.header.ePhnum.toNat

/-
  An ELF image in the first block whose loadable segments do
  not overlap in memory.
-/
structure ValidImage
    (buff : FileBlock) : Prop where
  magic : HasMagic buff
  table : buff.header.TableFits
  segments : ∀ i < buff.entries,
    (buff.programHeader i).IsLoad →
      (buff.programHeader i).Valid
  disjoint : ∀ i < buff.entries, ∀ j < buff.entries, i ≠ j →
    (buff.programHeader i).IsLoad →
    (buff.programHeader j).IsLoad →
      ∀ a, (buff.programHeader i).Covers a →
        ¬ (buff.programHeader j).Covers a

/- A table that fits has at most as many entries as the array. -/
theorem ValidImage.entries_le
    {buff : FileBlock}
    (hImage : ValidImage buff) :
    buff.entries ≤ maxProgramHeaders := by
  rcases hImage.table with hNone | hFits
  · rw [FileBlock.entries, hNone]
    exact Nat.zero_le _
  · exact hFits.1

------------------------------------------------------------
-- Rounds in Order
------------------------------------------------------------

/- The first program headers of the block, one by one. -/
def loadFirst
    (buff : FileBlock) :
    (count : Nat) → LoadState → Option LoadState
  | 0, m => some m
  | count + 1, m =>
      match loadFirst buff count m with
      | none => none
      | some m => loadSegment buff (buff.programHeader count) m

section

variable {buff : FileBlock} {l : Loader} {m : LoadState}

/- A table that fits is read without leaving the arrays. -/
theorem extractLoop_of_fits
    (hTable : buff.header.TableFits)
    (hHeader : l.elf64Header = buff.header) :
    ∃ l', (extractLoop buff buff.entries 0
      buff.header.ePhoff l).2 = some l' := by
  rw [← Option.isSome_iff_exists, extractLoop_isSome_iff]
  rcases hTable with hNone | ⟨hMany, hEnd⟩
  · rw [FileBlock.entries, hNone]
    exact fun c hMem => absurd hMem List.not_mem_nil
  · cases hCount : buff.entries with
    | zero => exact fun c hMem => absurd hMem List.not_mem_nil
    | succ count =>
        have hEntries : buff.header.ePhnum.toNat = count + 1 :=
          hCount
        rw [hEntries] at hMany hEnd
        rw [Nat.add_sub_cancel] at hEnd
        rw [extractLoop_inside_iff, hHeader]
        exact ⟨hEnd, by omega⟩

/- The table of an image holds its program headers. -/
theorem elf64Load_table
    (hTable : buff.header.TableFits)
    (hAccepted : (elf64Load buff l).accepted) :
    ∃ l', (elf64Load buff l).loader = some l' ∧
      l'.elf64Header = buff.header ∧
      ∀ (i : Nat) (h : i < maxProgramHeaders),
        i < buff.entries →
          l'.elf64ProgramHeaders ⟨i, h⟩ =
            buff.programHeader i := by
  have hHeader : (elf64ExtractHeader buff l).elf64Header =
      buff.header := rfl
  rcases extractLoop_of_fits hTable hHeader with ⟨l', hRun⟩
  refine ⟨l', ?_, (extractLoop_header hRun).trans hHeader, ?_⟩
  · unfold elf64Load at hAccepted ⊢
    dsimp only at hAccepted ⊢
    split at hAccepted
    · cases hAccepted
    · next hTest =>
        rw [if_neg hTest]
        exact hRun
  · intro i h hi
    have hEntry := (extractLoop_table hRun).1 i
      (by rwa [Nat.zero_add]) hi
    simp only [Nat.zero_add] at hEntry
    rw [hEntry, hHeader]
    rfl

/- The loop does the rounds from its index on. -/
theorem loadFirst_add
    {remaining i : Nat}
    (hIndex : i + remaining ≤ maxProgramHeaders)
    (hTable : ∀ (j : Nat) (h : j < maxProgramHeaders),
      j < i + remaining →
        l.elf64ProgramHeaders ⟨j, h⟩ = buff.programHeader j) :
    loadFirst buff (i + remaining) m =
      match loadFirst buff i m with
      | none => none
      | some m => loadLoop buff l remaining i m := by
  induction remaining generalizing i with
  | zero =>
      rw [Nat.add_zero]
      cases loadFirst buff i m with
      | none => rfl
      | some mid => rfl
  | succ remaining ih =>
      rw [← Nat.add_assoc, Nat.add_right_comm] at hIndex hTable ⊢
      rw [ih hIndex hTable, loadFirst]
      cases hFirst : loadFirst buff i m with
      | none => rfl
      | some mid =>
          dsimp only
          rw [loadLoop, dif_pos (by omega),
            hTable i (by omega) (by omega)]

/- Loading an image does the rounds of all its headers. -/
theorem elf64LoadSegments_eq
    (hImage : ValidImage buff)
    (hAccepted : (elf64Load buff l).accepted) :
    elf64LoadSegments buff l m =
      loadFirst buff buff.entries m := by
  rcases elf64Load_table hImage.table hAccepted
    with ⟨l', hLoader, hHeader, hEntries⟩
  have hRounds := loadFirst_add (l := l') (i := 0) (m := m)
    (show 0 + buff.entries ≤ _ by
      rw [Nat.zero_add]
      exact hImage.entries_le)
    (fun j h hj => hEntries j h (by omega))
  rw [Nat.zero_add] at hRounds
  rw [hRounds, elf64LoadSegments, hLoader]
  dsimp only
  rw [if_pos hAccepted, hHeader]
  rfl

end

------------------------------------------------------------
-- Events
------------------------------------------------------------

/-
  A page was passed to `pmap` before anything was stored in
  it.  The events are the latest first.
-/
def PassedFirst
    (page : Nat) : List MemoryEvent → Prop
  | [] => False
  | .store _ :: earlier => PassedFirst page earlier
  | .pmap _ vaddr _ :: earlier =>
      PassedFirst page earlier ∨
        (pageOf vaddr = page ∧
          ∀ a, .store a ∈ earlier → pageOf a ≠ page)

/- Stores do not change which pages were passed first. -/
theorem passedFirst_stores
    {stores : List MemoryEvent}
    (hStores : ∀ e ∈ stores, ∃ a, e = .store a)
    (page : Nat)
    (events : List MemoryEvent) :
    PassedFirst page (stores ++ events) ↔
      PassedFirst page events := by
  induction stores with
  | nil => exact Iff.rfl
  | cons e stores ih =>
      rw [List.forall_mem_cons] at hStores
      rcases hStores.1 with ⟨a, rfl⟩
      exact ih hStores.2

section

variable {buff : FileBlock} {h : Elf64ProgramHeader}
variable {m mid out : LoadState}

/- The stores of a loop over a range that does not wrap. -/
theorem events_storeBytes
    {dst : UInt64}
    {src : Nat → UInt8}
    {len : Nat}
    (hEnd : dst.toNat + len ≤ 2 ^ 64)
    (hRun : storeBytes dst src len m = some out) :
    ∃ stores, out.events = stores ++ m.events ∧
      ∀ e, e ∈ stores ↔ ∃ a : UInt64, e = .store a ∧
        dst.toNat ≤ a.toNat ∧ a.toNat < dst.toNat + len := by
  induction len generalizing out with
  | zero =>
      cases hRun
      refine ⟨[], rfl, fun e => ?_⟩
      refine iff_of_false List.not_mem_nil ?_
      rintro ⟨a, -, hLow, hHigh⟩
      omega
  | succ len ih =>
      rw [storeBytes] at hRun
      cases hMid : storeBytes dst src len m with
      | none =>
          rw [hMid] at hRun
          cases hRun
      | some mid =>
          rw [hMid] at hRun
          dsimp only at hRun
          rw [store, Option.map_eq_some_iff] at hRun
          rcases hRun with ⟨s, -, rfl⟩
          rcases ih (by omega) hMid with ⟨stores, hEvents, hMem⟩
          have hAddr : (dst + UInt64.ofNat len).toNat =
              dst.toNat + len := by
            rw [UInt64.toNat_add, UInt64.toNat_ofNat']
            omega
          refine ⟨.store (dst + UInt64.ofNat len) :: stores,
            ?_, fun e => ?_⟩
          · dsimp only
            rw [hEvents, List.cons_append]
          · rw [List.mem_cons, hMem]
            constructor
            · rintro (rfl | ⟨a, rfl, hLow, hHigh⟩)
              · exact ⟨_, rfl, by omega, by omega⟩
              · exact ⟨a, rfl, hLow, by omega⟩
            · rintro ⟨a, rfl, hLow, hHigh⟩
              by_cases hLast : a.toNat = dst.toNat + len
              · refine .inl (congrArg _ ?_)
                exact UInt64.toNat.inj (hLast.trans hAddr.symm)
              · exact .inr ⟨a, rfl, hLow, by omega⟩

/- Both sizes of a valid segment, as the loops take them. -/
theorem Elf64ProgramHeader.Valid.toNat_sizes
    (hValid : h.Valid)
    (hLoad : h.IsLoad) :
    h.pMemsz.toUInt32.toNat = h.pMemsz.toNat % 2 ^ 32 ∧
      h.pFilesz.toUInt32.toNat = h.pFilesz.toNat ∧
      h.pMemsz.toNat % 2 ^ 32 ≤ h.written ∧
      h.pFilesz.toNat ≤ h.written ∧
      h.pVaddr.toNat + h.written ≤ 2 ^ 64 := by
  have hFile : h.pOffset.toNat + h.pFilesz.toNat ≤ 4096 :=
    hValid.file
  have hSizes := hValid.sizes
  have hEnd := hValid.range
  have hMod := Nat.mod_le h.pMemsz.toNat (2 ^ 32)
  rw [written_of_load hLoad, UInt64.toNat_toUInt32,
    UInt64.toNat_toUInt32]
  refine ⟨rfl, ?_, ?_, ?_, ?_⟩ <;> omega

/- Clearing and copying store where the segment is written. -/
theorem clearEvents
    (hLoad : h.IsLoad)
    (hValid : h.Valid)
    (hClear : m.memset h.pVaddr 0 h.pMemsz.toUInt32 = some mid)
    (hCopy : mid.memcpy h.pVaddr buff h.pFilesz.toUInt32 =
      some out) :
    ∃ stores, out.events = stores ++ m.events ∧
      ∀ e, e ∈ stores ↔
        ∃ a : UInt64, e = .store a ∧ h.Touches a.toNat := by
  rcases hValid.toNat_sizes hLoad with
    ⟨hClearSize, hCopySize, hClearLe, hCopyLe, hEnd⟩
  have hWritten := written_of_load hLoad
  rw [LoadState.memset, hClearSize] at hClear
  rw [LoadState.memcpy, hCopySize] at hCopy
  split at hCopy
  · rcases events_storeBytes (by omega) hClear
      with ⟨clears, hClears, hClearMem⟩
    rcases events_storeBytes (by omega) hCopy
      with ⟨copies, hCopies, hCopyMem⟩
    refine ⟨copies ++ clears, ?_, fun e => ?_⟩
    · rw [hCopies, hClears, List.append_assoc]
    · rw [List.mem_append, hCopyMem, hClearMem]
      constructor
      · rintro (⟨a, rfl, hLow, hHigh⟩ | ⟨a, rfl, hLow, hHigh⟩)
        · exact ⟨a, rfl, hLow, by omega⟩
        · exact ⟨a, rfl, hLow, by omega⟩
      · rintro ⟨a, rfl, hLow, hHigh⟩
        by_cases hFileByte :
            a.toNat < h.pVaddr.toNat + h.pFilesz.toNat
        · exact .inl ⟨a, rfl, hLow, hFileByte⟩
        · exact .inr ⟨a, rfl, hLow, by omega⟩
  · cases hCopy

/- The events of a round: its page, and then its stores. -/
theorem roundEvents
    (hValid : h.IsLoad → h.Valid)
    (hRun : loadSegment buff h m = some out) :
    ∃ stores,
      out.events = stores ++
        .pmap (h.pVaddr + baseVmem) h.pVaddr 0 :: m.events ∧
      ∀ e, e ∈ stores ↔
        ∃ a : UInt64, e = .store a ∧ h.Touches a.toNat := by
  rw [loadSegment] at hRun
  cases hPass : m.pmap (h.pVaddr + baseVmem) h.pVaddr 0 with
  | none =>
      rw [hPass] at hRun
      cases hRun
  | some passed =>
      rw [hPass] at hRun
      dsimp only at hRun
      have hEvents : passed.events =
          .pmap (h.pVaddr + baseVmem) h.pVaddr 0 :: m.events := by
        rcases Option.map_eq_some_iff.mp hPass with ⟨s, -, rfl⟩
        rfl
      rw [← hEvents]
      by_cases hLoad : h.IsLoad
      · rw [if_pos hLoad] at hRun
        cases hClear :
            passed.memset h.pVaddr 0 h.pMemsz.toUInt32 with
        | none =>
            rw [hClear] at hRun
            cases hRun
        | some cleared =>
            rw [hClear] at hRun
            exact clearEvents hLoad (hValid hLoad) hClear hRun
      · rw [if_neg hLoad] at hRun
        cases hRun
        refine ⟨[], rfl, fun e => ?_⟩
        refine iff_of_false List.not_mem_nil ?_
        rintro ⟨a, -, hTouches⟩
        exact hLoad (isLoad_of_touches hTouches)

/-
  The events of a number of rounds: where was stored, and
  which pages were passed to `pmap` before that.
-/
structure RoundsEvents
    (buff : FileBlock)
    (count : Nat)
    (out : LoadState) : Prop where
  stores : ∀ a : UInt64, .store a ∈ out.events ↔
    ∃ i < count, (buff.programHeader i).Touches a.toNat
  passed : ∀ page, PassedFirst page out.events ↔
    ∃ j < count, pageOf (buff.programHeader j).pVaddr = page ∧
      ∀ i < j, ∀ a : UInt64,
        (buff.programHeader i).Touches a.toNat →
          pageOf a ≠ page

theorem RoundsEvents.zero
    (hEvents : m.events = []) :
    RoundsEvents buff 0 m where
  stores := by
    intro a
    rw [hEvents]
    refine iff_of_false List.not_mem_nil ?_
    rintro ⟨i, hi, -⟩
    exact Nat.not_lt_zero i hi
  passed := by
    intro page
    rw [hEvents]
    refine iff_of_false id ?_
    rintro ⟨j, hj, -⟩
    exact Nat.not_lt_zero j hj

/- One more round. -/
theorem RoundsEvents.succ
    {count : Nat}
    (hDone : RoundsEvents buff count mid)
    (hValid : (buff.programHeader count).IsLoad →
      (buff.programHeader count).Valid)
    (hRun : loadSegment buff (buff.programHeader count) mid =
      some out) :
    RoundsEvents buff (count + 1) out := by
  rcases roundEvents hValid hRun with ⟨stores, hEvents, hStores⟩
  have hEach : ∀ e ∈ stores, ∃ a, e = .store a := by
    intro e hMem
    rcases (hStores e).mp hMem with ⟨a, hEq, -⟩
    exact ⟨a, hEq⟩
  refine ⟨?_, ?_⟩
  · intro a
    rw [hEvents, List.mem_append, List.mem_cons, hStores,
      hDone.stores, Nat.exists_lt_succ_right]
    constructor
    · rintro (⟨b, hEq, hTouches⟩ | hNo | hEarlier)
      · cases hEq
        exact .inr hTouches
      · cases hNo
      · exact .inl hEarlier
    · rintro (hEarlier | hTouches)
      · exact .inr (.inr hEarlier)
      · exact .inl ⟨a, rfl, hTouches⟩
  · intro page
    rw [hEvents, passedFirst_stores hEach, PassedFirst,
      hDone.passed, Nat.exists_lt_succ_right]
    refine or_congr_right (and_congr_right fun _ => ?_)
    simp only [hDone.stores]
    constructor
    · intro h i hi a hTouches
      exact h a ⟨i, hi, hTouches⟩
    · rintro h a ⟨i, hi, hTouches⟩
      exact h i hi a hTouches

end

------------------------------------------------------------
-- Pages of Entries
------------------------------------------------------------

section

variable {buff : FileBlock}

/-
  Each page of a loadable segment is the page of its own or
  of an earlier entry.
-/
def PagesInPlace
    (buff : FileBlock) : Prop :=
  ∀ i < buff.entries, (buff.programHeader i).IsLoad →
    ∀ a, (buff.programHeader i).Covers a →
      ∃ j ≤ i, pageOf (buff.programHeader j).pVaddr =
        a / pageSize

/-
  The entries have at most 128 pages, so a segment in them
  is smaller than 4 GB.
-/
theorem short_of_pages
    (hImage : ValidImage buff)
    {h : Elf64ProgramHeader}
    (hPages : ∀ a, h.Covers a → ∃ j < buff.entries,
      pageOf (buff.programHeader j).pVaddr = a / pageSize) :
    h.pMemsz.toNat < 2 ^ 32 := by
  by_contra hLong
  have hEntries : buff.entries ≤ 128 := hImage.entries_le
  have hEach : ∀ k, k < 129 → ∃ j < buff.entries,
      pageOf (buff.programHeader j).pVaddr =
        h.pVaddr.toNat / pageSize + k := by
    intro k hk
    rcases hPages (h.pVaddr.toNat + k * pageSize)
      ⟨by omega, by simp only [pageSize]; omega⟩
      with ⟨j, hj, hPage⟩
    refine ⟨j, hj, hPage.trans ?_⟩
    exact Nat.add_mul_div_right _ _ (by decide)
  choose! entry hEntry using hEach
  rcases Finset.exists_ne_map_eq_of_card_lt_of_maps_to
      (s := Finset.range 129) (t := Finset.range buff.entries)
      (f := entry)
      (by rw [Finset.card_range, Finset.card_range]; omega)
      (fun k hk => by
        rw [Finset.coe_range, Set.mem_Iio]
        rw [Finset.coe_range, Set.mem_Iio] at hk
        exact (hEntry k hk).1)
    with ⟨k, hk, k', hk', hNe, hSame⟩
  rw [Finset.mem_range] at hk hk'
  have hPage := (hEntry k hk).2
  rw [hSame, (hEntry k' hk').2] at hPage
  omega

theorem PagesInPlace.short
    (hPages : PagesInPlace buff)
    (hImage : ValidImage buff)
    {i : Nat}
    (hi : i < buff.entries)
    (hLoad : (buff.programHeader i).IsLoad) :
    (buff.programHeader i).pMemsz.toNat < 2 ^ 32 :=
  short_of_pages hImage fun a hCovers => by
    rcases hPages i hi hLoad a hCovers with ⟨j, hLe, hPage⟩
    exact ⟨j, by omega, hPage⟩

end

end Elf64

end Ester
