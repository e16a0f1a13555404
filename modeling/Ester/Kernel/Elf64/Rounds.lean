import Ester.Kernel.Elf64.Segments

/-
  What the rounds of the load loop leave in memory.

  Below 1 GiB an address is its own physical address, and the
  call of `pmap` for a page stores its entry into the 2 MiB
  page, which may be a byte of a segment that is loaded
  already.  From 1 GiB on a page that is passed lies 2 GB
  above its address, as long as the calls take unused tables.
  So the byte that is left at an address is known from the
  table of program headers alone.

  Key definitions include:
    * `Maps`
    * `KeepsApart`
    * `FileBlock.left`

  Key theorems include:
    * `pass_low`, `pass_high`
    * `clear_copy`
    * `RoundsDone.succ`
    * `loadFirst_done`
-/

------------------------------------------------------------
-- Addresses of the Program
------------------------------------------------------------

namespace Ester

namespace Elf64

open Paging LoadState Elf64ProgramHeader PackedCodec

/-
  The physical address of a virtual one, for the pages below
  1 GiB and those that the loader maps above.
-/
def physical
    (a : UInt64) : UInt64 :=
  if a.toNat < 2 ^ 30 then a else a + baseVmem

theorem toNat_physical
    {a : UInt64}
    (hBelow : a.toNat < 2 ^ 39) :
    (physical a).toNat =
      if a.toNat < 2 ^ 30 then a.toNat else a.toNat + 2 ^ 31 := by
  have hBase : baseVmem.toNat = 2 ^ 31 := rfl
  rw [physical]
  split
  · rfl
  · rw [UInt64.toNat_add, hBase]
    omega

/- Different addresses lie at different places. -/
theorem physical_inj
    {a b : UInt64}
    (ha : a.toNat < 2 ^ 39)
    (hb : b.toNat < 2 ^ 39)
    (hSame : physical a = physical b) :
    a = b := by
  have hNat := congrArg UInt64.toNat hSame
  rw [toNat_physical ha, toNat_physical hb] at hNat
  apply UInt64.toNat.inj
  split at hNat <;> split at hNat <;> omega

/- The walk looks at the page of an address only. -/
theorem pageWalk_congr
    (s : Machine)
    {v w : UInt64}
    (hPage : pageOf v = pageOf w) :
    s.pageWalk v = s.pageWalk w := by
  rw [pageOf, pageOf, pageSize] at hPage
  have hP4 : pml4Index v = pml4Index w := by
    apply UInt64.toNat.inj
    rw [toNat_pml4Index, toNat_pml4Index]
    omega
  have hP3 : pdpIndex v = pdpIndex w := by
    apply UInt64.toNat.inj
    rw [toNat_pdpIndex, toNat_pdpIndex]
    omega
  have hP2 : pdIndex v = pdIndex w := by
    apply UInt64.toNat.inj
    rw [toNat_pdIndex, toNat_pdIndex]
    omega
  have hP1 : ptIndex v = ptIndex w := by
    apply UInt64.toNat.inj
    rw [toNat_ptIndex, toNat_ptIndex]
    omega
  have hHuge : v &&& 0x1FF000 = w &&& 0x1FF000 := by
    apply UInt64.toNat.inj
    rw [toNat_hugeOffset, toNat_hugeOffset]
    omega
  rw [Machine.pageWalk, Machine.pageWalk, hP4, hP3, hP2, hP1,
    hHuge]

/-
  The tables are a tree, and the pages of a set that lie
  above 1 GiB walk to where the loader maps them.
-/
structure Maps
    (pages : Set Nat)
    (s : Machine) : Prop where
  ok : s.TablesOk
  unshared : s.Unshared
  walks : ∀ v : UInt64, 2 ^ 30 ≤ v.toNat → v.toNat < 2 ^ 39 →
    pageOf v ∈ pages →
      s.pageWalk v = some (address (v + baseVmem))

section

variable {s t : Machine} {pages : Set Nat}

theorem Maps.of_same
    (hMaps : Maps pages s)
    (hSame : SameTables s t) :
    Maps pages t where
  ok := hSame.tablesOk hMaps.ok
  unshared := hSame.unshared hMaps.unshared
  walks v hHigh hBelow hPage :=
    hSame.pageWalk hMaps.ok (hMaps.walks v hHigh hBelow hPage)

theorem Maps.translate
    (hMaps : Maps pages s)
    {v : UInt64}
    (hBelow : v.toNat < 2 ^ 39)
    (hPage : pageOf v ∈ pages) :
    s.translate v = some (physical v) := by
  by_cases hLow : v.toNat < 2 ^ 30
  · rw [hMaps.ok.identity.translate_eq hLow, physical,
      if_pos hLow]
  · have hBase : baseVmem.toNat = 2 ^ 31 := rfl
    rw [Machine.translate,
      hMaps.walks v (by omega) hBelow hPage, Option.map_some,
      Option.some_inj, ← UInt64.toNat_inj, UInt64.toNat_add,
      toNat_address, toNat_pageOffset, toNat_physical hBelow,
      if_neg hLow, UInt64.toNat_add, hBase]
    omega

/- What lies apart from the tables has its place apart. -/
theorem apart_physical
    (hOk : s.TablesOk)
    {a : UInt64}
    (hBelow : a.toNat < 2 ^ 39)
    (hApart : s.Apart a.toNat) :
    s.Apart (physical a).toNat := by
  have hTables := hOk.identity.below
  rw [toNat_physical hBelow]
  split
  · exact hApart
  · exact .inr (by omega)

/- A byte stored in such a page is the only one to change. -/
theorem Maps.storeByte
    (hMaps : Maps pages s)
    {v : UInt64}
    (hBelow : v.toNat < 2 ^ 39)
    (hPage : pageOf v ∈ pages)
    (hApart : s.Apart v.toNat)
    (b : UInt8) :
    ∃ t, s.storeByte v b = some t ∧ SameTables s t ∧
      ∀ a : UInt64, a.toNat < 2 ^ 39 →
        t.byte (physical a) =
          if a = v then b else s.byte (physical a) := by
  refine ⟨s.setByte (physical v) b, ?_, ?_, ?_⟩
  · rw [Machine.storeByte, hMaps.translate hBelow hPage,
      Option.map_some]
  · exact .setByte hMaps.ok.identity
      (apart_physical hMaps.ok hBelow hApart) b
  · intro a ha
    rw [Machine.byte_setByte]
    by_cases hSame : a = v
    · rw [hSame, if_pos rfl, if_pos rfl]
    · rw [if_neg hSame,
        if_neg fun h => hSame (physical_inj ha hBelow h)]

end

------------------------------------------------------------
-- Passing a Page
------------------------------------------------------------

namespace Elf64ProgramHeader

/- The call of `pmap` for an entry of the table. -/
def passCall
    (h : Elf64ProgramHeader) : Call :=
  ⟨h.pVaddr + baseVmem, h.pVaddr, 0⟩

/- Below 1 GiB that call stores its entry at the address. -/
def Enters
    (h : Elf64ProgramHeader)
    (a : Nat) : Prop :=
  h.pVaddr.toNat < 2 ^ 30 ∧ entryPlace h.pVaddr ≤ a ∧
    a < entryPlace h.pVaddr + 8

instance
    (h : Elf64ProgramHeader)
    (a : Nat) : Decidable (h.Enters a) :=
  inferInstanceAs (Decidable (_ ∧ _ ∧ _))

/- The byte of the entry at an address. -/
def entryByte
    (h : Elf64ProgramHeader)
    (a : Nat) : UInt8 :=
  word64.encode (link (address (h.pVaddr + baseVmem)) 0)
    (a - entryPlace h.pVaddr)

end Elf64ProgramHeader

section

variable {pages : Set Nat} {m : LoadState}
variable {h : Elf64ProgramHeader}

/- A page below 1 GiB: the entry is stored in memory. -/
theorem pass_low
    (hMaps : Maps pages m.machine)
    (hLow : h.pVaddr.toNat < 2 ^ 30)
    (hApart : ∀ a, h.Enters a → m.machine.Apart a) :
    ∃ out, m.pmap (h.pVaddr + baseVmem) h.pVaddr 0 = some out ∧
      SameTables m.machine out.machine ∧
      Maps (insert (pageOf h.pVaddr) pages) out.machine ∧
      ∀ a : UInt64, a.toNat < 2 ^ 39 →
        out.machine.byte (physical a) =
          if h.Enters a.toNat then h.entryByte a.toNat
          else m.machine.byte (physical a) := by
  rcases hMaps.ok.pmap_low (h.pVaddr + baseVmem) hLow 0
    with ⟨w, hPlace, hMap⟩
  have hSame : SameTables m.machine (m.machine.setWord w
      (link (address (h.pVaddr + baseVmem)) 0)) := by
    refine .setWord hMaps.ok.identity (hApart _ ?_) _
    exact ⟨hLow, by omega, by omega⟩
  have hAligned : w.toNat % 8 = 0 := by
    rw [hPlace, entryPlace]
    omega
  have hEnd : w.toNat + 8 ≤ 2 ^ 30 := by
    rw [hPlace, entryPlace]
    omega
  refine ⟨⟨_, _⟩, by rw [LoadState.pmap, hMap]; rfl, hSame, ?_,
    ?_⟩
  · refine ⟨hSame.tablesOk hMaps.ok,
      hSame.unshared hMaps.unshared, ?_⟩
    intro v hHigh hBelow hMem
    rcases hMem with hPage | hOld
    · rw [pageOf, pageOf, pageSize] at hPage
      omega
    · exact hSame.pageWalk hMaps.ok
        (hMaps.walks v hHigh hBelow hOld)
  · intro a ha
    refine (m.machine.byte_setWord hAligned (physical a)
      _).trans ?_
    rw [toNat_physical ha, hPlace]
    rw [hPlace] at hEnd
    by_cases hEnters : h.Enters a.toNat
    · have hIn := hEnters.2.2
      rw [if_pos (show a.toNat < 2 ^ 30 by omega),
        if_pos hEnters.2, if_pos hEnters, entryByte]
    · rw [if_neg hEnters, if_neg]
      intro hBoth
      split at hBoth
      · exact hEnters ⟨hLow, hBoth⟩
      · omega

/-
  A page from 1 GiB on: the call takes unused tables, as it
  does on a machine with the same tables.
-/
theorem pass_high
    (hMaps : Maps pages m.machine)
    (hHigh : 2 ^ 30 ≤ h.pVaddr.toNat)
    (hBelow : h.pVaddr.toNat < 2 ^ 39)
    {s t : Machine}
    (hOk : s.TablesOk)
    (hSame : SameTables s m.machine)
    (hTakes : h.passCall.TakesUnused s)
    (hStep : h.passCall.step s = some ((), t)) :
    ∃ out, m.pmap (h.pVaddr + baseVmem) h.pVaddr 0 = some out ∧
      SameTables t out.machine ∧
      Maps (insert (pageOf h.pVaddr) pages) out.machine ∧
      out.machine.cr3 = m.machine.cr3 ∧
      ∀ a : UInt64, a.toNat < 2 ^ 39 →
        m.machine.Apart a.toNat →
          out.machine.byte (physical a) =
            m.machine.byte (physical a) := by
  have hTakes' := hSame.takesUnused hOk hTakes
  rcases hTakes with ⟨t₂, h8, t₁, -, hPath, -, -⟩
  rcases hOk.pmap_mapped hPath with ⟨t', hMap, hMapped⟩
  rw [Call.step, hMap] at hStep
  cases hStep
  have hPath' := hSame.path hOk hPath
  rcases hMaps.ok.pmap_mapped hPath' with ⟨u, hMap', hMapped'⟩
  have hStep' : h.passCall.step m.machine = some ((), u) := by
    rw [Call.step, hMap']
    rfl
  have hTree := hTakes'.step_tree ⟨hMaps.ok, hMaps.unshared⟩
    hStep'
  refine ⟨⟨u, .pmap (h.pVaddr + baseVmem) h.pVaddr 0 ::
    m.events⟩, ?_, hSame.mapped h8 hMapped hMapped',
    ⟨hTree.1, hTree.2, ?_⟩, hMapped'.cr3, ?_⟩
  · rw [LoadState.pmap]
    exact congrArg (Option.map _) hMap'
  · intro v hAbove hUpper hMem
    have hCanonical : Canonical v := .inl (by omega)
    by_cases hPage : pageOf v = pageOf h.pVaddr
    · have hAddress : address (h.pVaddr + baseVmem) =
          address (v + baseVmem) := by
        have hBase : baseVmem.toNat = 2 ^ 31 := rfl
        rw [pageOf, pageOf, pageSize] at hPage
        rw [← UInt64.toNat_inj, toNat_address, toNat_address,
          UInt64.toNat_add, UInt64.toNat_add, hBase]
        omega
      have hAligned :
          (address (v + baseVmem)).toNat % 4096 = 0 := by
        rw [toNat_address]
        omega
      have hFlags : PlainFlags h.passCall.flags :=
        show PlainFlags 0 by decide
      have hWalk := hMapped'.pageWalk_eq hMaps.ok hPath'
      rw [address_link _ hFlags, passCall, hAddress,
        address_eq_self hAligned] at hWalk
      exact (pageWalk_congr u hPage).trans hWalk
    · exact hMapped'.pageWalk_of_ne hMaps.ok hPath' hTree.2
        hBelow hCanonical hPage
        (hMaps.walks v hAbove hUpper (hMem.resolve_left hPage))
  · intro a ha hApart
    have hId := hMaps.ok.identity
    have hOther := hId.not_isSlot (hId.apart_wordOf
      (apart_physical hMaps.ok ha hApart))
    rw [Machine.byte, Machine.byte, hMapped'.other _ hOther]

end

------------------------------------------------------------
-- Clearing and Copying
------------------------------------------------------------

namespace Elf64ProgramHeader

/- The byte that the round writes at an offset. -/
def byteAt
    (h : Elf64ProgramHeader)
    (buff : FileBlock)
    (k : Nat) : UInt8 :=
  if k < h.pFilesz.toNat then buff.get k else 0

/- The byte that the file has for an offset, or zero. -/
def fileByte
    (h : Elf64ProgramHeader)
    (buff : FileBlock)
    (k : Nat) : UInt8 :=
  if k < h.pFilesz.toNat then buff.get (h.pOffset.toNat + k)
  else 0

end Elf64ProgramHeader

section

variable {pages : Set Nat} {m : LoadState}

/- The bytes of a loop over pages that are mapped. -/
theorem storeBytes_done
    (hMaps : Maps pages m.machine)
    {dst : UInt64}
    (src : Nat → UInt8)
    {len : Nat}
    (hEnd : dst.toNat + len ≤ 2 ^ 64)
    (hRange : ∀ a : UInt64, dst.toNat ≤ a.toNat →
      a.toNat < dst.toNat + len → a.toNat < 2 ^ 39 ∧
        pageOf a ∈ pages ∧ m.machine.Apart a.toNat) :
    ∃ out, storeBytes dst src len m = some out ∧
      SameTables m.machine out.machine ∧
      ∀ a : UInt64, a.toNat < 2 ^ 39 →
        out.machine.byte (physical a) =
          if dst.toNat ≤ a.toNat ∧ a.toNat < dst.toNat + len then
            src (a.toNat - dst.toNat)
          else m.machine.byte (physical a) := by
  induction len with
  | zero =>
      refine ⟨m, rfl, .refl _, fun a _ => ?_⟩
      rw [if_neg (by omega)]
  | succ len ih =>
      rcases ih (by omega)
        (fun a hLow hHigh => hRange a hLow (by omega))
        with ⟨mid, hMid, hSame, hBytes⟩
      have hAddr : (dst + UInt64.ofNat len).toNat =
          dst.toNat + len := by
        rw [UInt64.toNat_add, UInt64.toNat_ofNat']
        omega
      rcases hRange (dst + UInt64.ofNat len) (by omega) (by omega)
        with ⟨hBelow, hPage, hApart⟩
      have hApart' : mid.machine.Apart
          (dst + UInt64.ofNat len).toNat := by
        rw [Machine.Apart, hSame.cr3]
        exact hApart
      rcases (hMaps.of_same hSame).storeByte hBelow hPage hApart'
        (src len) with ⟨t, hStore, hSame', hByte⟩
      refine ⟨⟨t, .store (dst + UInt64.ofNat len) ::
        mid.events⟩, ?_, hSame.trans hSame', ?_⟩
      · rw [storeBytes, hMid]
        dsimp only
        rw [store, hStore, Option.map_some]
      · intro a ha
        rw [hByte a ha, hBytes a ha]
        by_cases hLast : a = dst + UInt64.ofNat len
        · have hNat := congrArg UInt64.toNat hLast
          rw [if_pos hLast, if_pos (by omega)]
          congr 1
          omega
        · have hNat : a.toNat ≠ dst.toNat + len := fun h =>
            hLast (UInt64.toNat.inj (h.trans hAddr.symm))
          rw [if_neg hLast]
          by_cases hIn : dst.toNat ≤ a.toNat ∧
              a.toNat < dst.toNat + len
          · rw [if_pos hIn, if_pos (by omega)]
          · rw [if_neg hIn, if_neg (by omega)]

/- Clearing and copying where the segment is written. -/
theorem clear_copy
    (hMaps : Maps pages m.machine)
    (buff : FileBlock)
    {h : Elf64ProgramHeader}
    (hLoad : h.IsLoad)
    (hValid : h.Valid)
    (hRange : ∀ a : UInt64, h.Touches a.toNat →
      a.toNat < 2 ^ 39 ∧ pageOf a ∈ pages ∧
        m.machine.Apart a.toNat) :
    ∃ cleared out,
      m.memset h.pVaddr 0 h.pMemsz.toUInt32 = some cleared ∧
      cleared.memcpy h.pVaddr buff h.pFilesz.toUInt32 =
        some out ∧
      SameTables m.machine out.machine ∧
      ∀ a : UInt64, a.toNat < 2 ^ 39 →
        out.machine.byte (physical a) =
          if h.Touches a.toNat then
            h.byteAt buff (a.toNat - h.pVaddr.toNat)
          else m.machine.byte (physical a) := by
  have hFile : h.pOffset.toNat + h.pFilesz.toNat ≤ 4096 :=
    hValid.file
  have hWritten := written_of_load hLoad
  rcases hValid.toNat_sizes hLoad with
    ⟨hClearSize, hCopySize, hClearLe, hCopyLe, hEnd⟩
  rcases @storeBytes_done _ _ hMaps h.pVaddr (fun _ => 0)
    (h.pMemsz.toNat % 2 ^ 32) (by omega)
    (fun a hLow hHigh => hRange a ⟨hLow, by omega⟩)
    with ⟨cleared, hClear, hSame, hCleared⟩
  rcases @storeBytes_done _ _ (hMaps.of_same hSame) h.pVaddr
    (buff.slice 0) h.pFilesz.toNat (by omega)
    (fun a hLow hHigh => by
      rw [Machine.Apart, hSame.cr3]
      exact hRange a ⟨hLow, by omega⟩)
    with ⟨out, hOut, hSame', hCopied⟩
  refine ⟨cleared, out, ?_, ?_, hSame.trans hSame', ?_⟩
  · rw [LoadState.memset, hClearSize, hClear]
  · rw [LoadState.memcpy, hCopySize,
      if_pos (show _ ≤ 4096 by omega), hOut]
  · intro a ha
    rw [hCopied a ha, hCleared a ha, byteAt]
    by_cases hTouches : h.Touches a.toNat
    · have hLow := hTouches.1
      have hHigh := hTouches.2
      rw [if_pos hTouches]
      by_cases hFileByte :
          a.toNat - h.pVaddr.toNat < h.pFilesz.toNat
      · rw [if_pos (by omega), if_pos hFileByte,
          ByteBuffer.slice, Nat.zero_add]
      · rw [if_neg (by omega), if_pos (by omega),
          if_neg hFileByte]
    · have hOutside : ¬ (h.pVaddr.toNat ≤ a.toNat ∧
          a.toNat < h.pVaddr.toNat + h.written) := hTouches
      rw [if_neg hTouches, if_neg (by omega), if_neg (by omega)]

end

------------------------------------------------------------
-- The Rounds
------------------------------------------------------------

/- The calls of `pmap` for pages from 1 GiB on, in order. -/
def FileBlock.highCalls
    (buff : FileBlock) : (count : Nat) → List (Call × Unit)
  | 0 => []
  | count + 1 =>
      if 2 ^ 30 ≤ (buff.programHeader count).pVaddr.toNat then
        buff.highCalls count ++
          [((buff.programHeader count).passCall, ())]
      else buff.highCalls count

/- Runs of those calls in which each takes unused tables. -/
abbrev HighRun
    (buff : FileBlock)
    (s : Machine)
    (count : Nat)
    (t : Machine) : Prop :=
  GuardedRun Call.step (fun c _ s => c.TakesUnused s) s
    (buff.highCalls count) t

/-
  The image leaves the page tables to `pmap`: its pages lie
  below 512 GiB, neither a segment nor an entry stored in the
  first gigabyte lies on the reserved tables, and the calls
  for the pages above take unused tables.
-/
structure KeepsApart
    (buff : FileBlock)
    (s : Machine) : Prop where
  below : ∀ i < buff.entries,
    (buff.programHeader i).pVaddr.toNat < 2 ^ 39
  segments : ∀ i < buff.entries,
    (buff.programHeader i).IsLoad →
      ∀ a, (buff.programHeader i).Covers a → s.Apart a
  entries : ∀ i < buff.entries, ∀ a,
    (buff.programHeader i).Enters a → s.Apart a
  tables : ∃ t, HighRun buff s buff.entries t

/-
  The byte at an address after a number of rounds: what the
  last one stored there, as an entry or for its segment.
-/
def FileBlock.left
    (buff : FileBlock)
    (old : UInt8)
    (a : Nat) : (count : Nat) → UInt8
  | 0 => old
  | count + 1 =>
      if (buff.programHeader count).Touches a then
        (buff.programHeader count).byteAt buff
          (a - (buff.programHeader count).pVaddr.toNat)
      else if (buff.programHeader count).Enters a then
        (buff.programHeader count).entryByte a
      else buff.left old a count

/- The pages of the first entries. -/
def FileBlock.pages
    (buff : FileBlock)
    (count : Nat) : Set Nat :=
  {page | ∃ j < count,
    pageOf (buff.programHeader j).pVaddr = page}

theorem FileBlock.pages_succ
    (buff : FileBlock)
    (count : Nat) :
    buff.pages (count + 1) =
      insert (pageOf (buff.programHeader count).pVaddr)
        (buff.pages count) := by
  ext page
  simp only [FileBlock.pages, Set.mem_ofPred_eq,
    Set.mem_insert_iff, Nat.exists_lt_succ_right]
  rw [or_comm, eq_comm (a := page)]

/- The machine after a number of rounds. -/
structure RoundsDone
    (buff : FileBlock)
    (s : Machine)
    (count : Nat)
    (out : Machine) : Prop where
  maps : Maps (buff.pages count) out
  cr3 : out.cr3 = s.cr3
  bytes : ∀ a : UInt64, a.toNat < 2 ^ 39 → s.Apart a.toNat →
    out.byte (physical a) =
      buff.left (s.byte (physical a)) a.toNat count

section

variable {buff : FileBlock} {s t : Machine}
variable {m mid : LoadState} {count : Nat}

theorem apart_congr
    (hCr3 : t.cr3 = s.cr3)
    {a : Nat}
    (hApart : s.Apart a) :
    t.Apart a := by
  rw [Machine.Apart, hCr3]
  exact hApart

/- A run of fewer rounds has fewer calls. -/
theorem HighRun.of_succ
    (hRun : HighRun buff s (count + 1) t) :
    ∃ u, HighRun buff s count u := by
  rw [HighRun, FileBlock.highCalls] at hRun
  split at hRun
  · rcases hRun.of_snoc with ⟨u, hFirst, -, -⟩
    exact ⟨u, hFirst⟩
  · exact ⟨t, hRun⟩

/-
  The page of one more entry is passed, while the calls for
  the high pages alone keep the same tables.
-/
theorem RoundsDone.pass
    (hDone : RoundsDone buff s count mid.machine)
    (hApart : KeepsApart buff s)
    (hCount : count < buff.entries)
    (hTables : ∀ u, HighRun buff s count u →
      SameTables u mid.machine)
    (hRun : HighRun buff s (count + 1) t) :
    ∃ out,
      mid.pmap ((buff.programHeader count).pVaddr + baseVmem)
        (buff.programHeader count).pVaddr 0 = some out ∧
      SameTables t out.machine ∧
      Maps (buff.pages (count + 1)) out.machine ∧
      out.machine.cr3 = s.cr3 ∧
      ∀ a : UInt64, a.toNat < 2 ^ 39 → s.Apart a.toNat →
        out.machine.byte (physical a) =
          if (buff.programHeader count).Enters a.toNat then
            (buff.programHeader count).entryByte a.toNat
          else mid.machine.byte (physical a) := by
  have hBelow := hApart.below count hCount
  rw [HighRun, FileBlock.highCalls] at hRun
  rw [FileBlock.pages_succ]
  by_cases hHigh :
      2 ^ 30 ≤ (buff.programHeader count).pVaddr.toNat
  · rw [if_pos hHigh] at hRun
    rcases hRun.of_snoc with ⟨u, hFirst, hTakes, hStep⟩
    have hSame := hTables u hFirst
    rcases pass_high hDone.maps hHigh hBelow
      (hSame.symm.tablesOk hDone.maps.ok) hSame hTakes hStep
      with ⟨out, hPass, hSame', hMaps, hCr3, hBytes⟩
    refine ⟨out, hPass, hSame', hMaps, hCr3.trans hDone.cr3,
      fun a ha hOutside => ?_⟩
    rw [hBytes a ha (apart_congr hDone.cr3 hOutside),
      if_neg fun hEnters => Nat.not_lt.mpr hHigh hEnters.1]
  · rw [if_neg hHigh] at hRun
    rcases pass_low hDone.maps (by omega)
      (fun a hEnters => apart_congr hDone.cr3
        (hApart.entries count hCount a hEnters))
      with ⟨out, hPass, hSame, hMaps, hBytes⟩
    exact ⟨out, hPass, (hTables t hRun).trans hSame, hMaps,
      hSame.cr3.trans hDone.cr3, fun a ha _ => hBytes a ha⟩

/- One more round. -/
theorem RoundsDone.succ
    (hDone : RoundsDone buff s count mid.machine)
    (hImage : ValidImage buff)
    (hPages : PagesInPlace buff)
    (hApart : KeepsApart buff s)
    (hCount : count < buff.entries)
    (hTables : ∀ u, HighRun buff s count u →
      SameTables u mid.machine)
    (hRun : HighRun buff s (count + 1) t) :
    ∃ out,
      loadSegment buff (buff.programHeader count) mid =
        some out ∧
      RoundsDone buff s (count + 1) out.machine ∧
      SameTables t out.machine := by
  rcases hDone.pass hApart hCount hTables hRun
    with ⟨passed, hPass, hSame, hMaps, hCr3, hBytes⟩
  rw [loadSegment, hPass]
  dsimp only
  by_cases hLoad : (buff.programHeader count).IsLoad
  · have hValid := hImage.segments count hCount hLoad
    rcases clear_copy hMaps buff hLoad hValid (fun a hTouches => by
        have hCovers := hValid.covers hTouches
        rcases hPages count hCount hLoad a.toNat hCovers
          with ⟨j, hj, hPage⟩
        have hBelow := hApart.below j (by omega)
        refine ⟨?_, ⟨j, by omega, hPage⟩, apart_congr hCr3
          (hApart.segments count hCount hLoad _ hCovers)⟩
        rw [pageOf, pageSize] at hPage
        omega)
      with ⟨cleared, out, hClear, hOut, hSame', hByte⟩
    rw [if_pos hLoad, hClear]
    refine ⟨out, hOut, ⟨hMaps.of_same hSame',
      hSame'.cr3.trans hCr3, ?_⟩, hSame.trans hSame'⟩
    intro a ha hOutside
    rw [hByte a ha, hBytes a ha hOutside,
      hDone.bytes a ha hOutside, FileBlock.left]
  · rw [if_neg hLoad]
    refine ⟨passed, rfl, ⟨hMaps, hCr3, ?_⟩, hSame⟩
    intro a ha hOutside
    rw [hBytes a ha hOutside, hDone.bytes a ha hOutside,
      FileBlock.left,
      if_neg fun hTouches => hLoad (isLoad_of_touches hTouches)]

/-
  All rounds of an image that keeps apart succeed when its
  pages are in place.
-/
theorem loadFirst_done
    (hImage : ValidImage buff)
    (hPages : PagesInPlace buff)
    (hOk : s.TablesOk)
    (hUnshared : s.Unshared)
    (hApart : KeepsApart buff s)
    (hCount : count ≤ buff.entries)
    (hRun : HighRun buff s count t) :
    ∃ out, loadFirst buff count ⟨s, []⟩ = some out ∧
      RoundsDone buff s count out.machine ∧
      SameTables t out.machine := by
  induction count generalizing t with
  | zero =>
      rw [GuardedRun.of_nil hRun]
      refine ⟨⟨s, []⟩, rfl, ⟨⟨hOk, hUnshared, ?_⟩, rfl,
        fun _ _ _ => rfl⟩, .refl s⟩
      rintro v - - ⟨j, hj, -⟩
      exact absurd hj (Nat.not_lt_zero j)
  | succ count ih =>
      rcases hRun.of_succ with ⟨u, hFirst⟩
      rcases ih (by omega) hFirst with ⟨mid, hMid, hDone, -⟩
      rcases hDone.succ hImage hPages hApart hCount (by
          intro u' hFirst'
          rcases ih (by omega) hFirst'
            with ⟨mid', hMid', -, hSame⟩
          rw [hMid] at hMid'
          cases hMid'
          exact hSame) hRun
        with ⟨out, hRound, hDone', hSame⟩
      refine ⟨out, ?_, hDone', hSame⟩
      rw [loadFirst, hMid]
      exact hRound

end

end Elf64

end Ester
