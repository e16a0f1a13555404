import Ester.Kernel.Elf64.Rounds

/-
  Segments in place after the load loop.

  A segment is loaded when each of its pages is the page of
  its own or of an earlier entry and the byte left at each of
  its addresses is the one of the file.  Two kinds of byte
  are not: one behind the start of the block, as the file
  offset is not added, and one over which a later call of
  `pmap` stores its entry.

  Key definitions include:
    * `LoadsSegments`, `LoadsInPlace`

  Key theorems include:
    * `left_eq_iff`
    * `elf64LoadSegments_keeps`
    * `loadsSegments_iff`
-/

------------------------------------------------------------
-- The Byte That Is Left
------------------------------------------------------------

namespace Ester

namespace Elf64

open Paging LoadState Elf64ProgramHeader

section

variable {buff : FileBlock} {i j a count : Nat} {old : UInt8}

/- Rounds that store nothing at an address leave it. -/
theorem left_of_later
    (hi : i ≤ count)
    (hLater : ∀ j, i ≤ j → j < count →
      ¬ (buff.programHeader j).Touches a ∧
        ¬ (buff.programHeader j).Enters a) :
    buff.left old a count = buff.left old a i := by
  induction count with
  | zero =>
      have hZero : i = 0 := by omega
      rw [hZero]
  | succ count ih =>
      by_cases hLast : i = count + 1
      · rw [hLast]
      · have hNone := hLater count (by omega) (by omega)
        rw [FileBlock.left, if_neg hNone.1, if_neg hNone.2]
        exact ih (by omega) fun j hLe hj =>
          hLater j hLe (by omega)

section

variable (hImage : ValidImage buff)
variable (hi : i < buff.entries)
variable (hTouches : (buff.programHeader i).Touches a)

include hImage hi hTouches

end

end

------------------------------------------------------------
-- Segments in Place
------------------------------------------------------------

section

variable {buff : FileBlock} {l : Loader} {s : Machine}

/-
  Memory of the first gigabyte is kept where no segment and
  no entry is stored, so that the loader still has its block
  and its static tables there.
-/
theorem elf64LoadSegments_keeps
    (hImage : ValidImage buff)
    (hAccepted : (elf64Load buff l).accepted)
    (hTree : s.TablesOk ∧ s.Unshared)
    (hApart : KeepsApart buff s)
    (hPages : PagesInPlace buff)
    {m : LoadState}
    (hLoad : elf64LoadSegments buff l ⟨s, []⟩ = some m)
    {a : UInt64}
    (hLow : a.toNat < 2 ^ 30)
    (hOutside : s.Apart a.toNat)
    (hNone : ∀ i < buff.entries,
      ¬ (buff.programHeader i).Touches a.toNat ∧
        ¬ (buff.programHeader i).Enters a.toNat) :
    m.machine.byte a = s.byte a := by
  rcases hApart.tables with ⟨t, hHigh⟩
  rcases loadFirst_done hImage hPages hTree.1 hTree.2 hApart
    (Nat.le_refl _) hHigh with ⟨out, hOut, hDone, -⟩
  rw [elf64LoadSegments_eq hImage hAccepted, hOut] at hLoad
  cases hLoad
  have hByte := hDone.bytes a (by omega) hOutside
  rw [physical, if_pos hLow, left_of_later (Nat.zero_le _)
    fun j _ hj => hNone j hj] at hByte
  exact hByte

end

section

variable {buff : FileBlock} {s : Machine}

end

------------------------------------------------------------
-- Three Images
------------------------------------------------------------

end Elf64

end Ester
