import Mathlib.Logic.Function.Basic
import Ester.Library.Buffer
import Ester.Library.Codec

/-
  The header checks of kernel/elf64_loader.c.

  `elf64_load` copies the ELF header out of the first block
  of a file and then, entry after entry, the program headers
  into a static table.  The test in front of the loop looks
  at the address of the header, not at its bytes, and the
  loop follows the offsets of the header without bounds.

  Key definitions include:
    * `Elf64Header`, `Elf64ProgramHeader`
    * `elf64ExtractProgramHeader`
    * `elf64Load`
    * `HasMagic`, `Copy.Inside`

  Key theorems include:
    * `extractLoop_inside_iff`
    * `elf64Load_checked_iff`
-/

------------------------------------------------------------
-- Headers
------------------------------------------------------------

namespace Ester

namespace Elf64

open PackedCodec

/- Length of the ELF identifier. -/
abbrev elfNident : Nat := 16

/- The ELF magic number 0x7F 'ELF'. -/
abbrev elfMagic : UInt32 := 0x7F454C46

/- Entries of the static table of program headers. -/
abbrev maxProgramHeaders : Nat := 128

/- Bytes of the first file block. -/
abbrev buffLen : Nat := 4096

/- The ELF header. -/
structure Elf64Header where
  eIdent : Fin elfNident → UInt8
  eType : UInt16
  eMachine : UInt16
  eVersion : UInt32
  eEntry : UInt64
  ePhoff : UInt64
  eShoff : UInt64
  eFlags : UInt32
  eEhsize : UInt16
  ePhentsize : UInt16
  ePhnum : UInt16
  eShentsize : UInt16
  eShnum : UInt16
  eShstrndx : UInt16

def elf64HeaderCodec : PackedCodec Elf64Header :=
  ((word8.array elfNident (by decide)).pair <|
    word16.pair <| word16.pair <| word32.pair <|
    word64.pair <| word64.pair <| word64.pair <|
    word32.pair <|
    word16.pair <| word16.pair <| word16.pair <|
    word16.pair <| word16.pair word16).iso
  { toFun := fun (a, b, c, d, e, f, g, h, i, j, k, l, m,
      n) => ⟨a, b, c, d, e, f, g, h, i, j, k, l, m, n⟩
    invFun := fun s =>
      (s.eIdent, s.eType, s.eMachine, s.eVersion, s.eEntry,
        s.ePhoff, s.eShoff, s.eFlags, s.eEhsize,
        s.ePhentsize, s.ePhnum, s.eShentsize, s.eShnum,
        s.eShstrndx)
    left_inv := fun _ => rfl
    right_inv := fun _ => rfl }

@[simp] theorem elf64HeaderCodec_size :
    elf64HeaderCodec.size = 64 := rfl

/- A program header: one segment of the program. -/
structure Elf64ProgramHeader where
  pSegtype : UInt32
  pFlags : UInt32
  pOffset : UInt64
  pVaddr : UInt64
  pPaddr : UInt64
  pFilesz : UInt64
  pMemsz : UInt64
  pAlign : UInt64

def elf64ProgramHeaderCodec :
    PackedCodec Elf64ProgramHeader :=
  (word32.pair <| word32.pair <| word64.pair <|
    word64.pair <| word64.pair <| word64.pair <|
    word64.pair word64).iso
  { toFun := fun (a, b, c, d, e, f, g, h) =>
      ⟨a, b, c, d, e, f, g, h⟩
    invFun := fun s =>
      (s.pSegtype, s.pFlags, s.pOffset, s.pVaddr, s.pPaddr,
        s.pFilesz, s.pMemsz, s.pAlign)
    left_inv := fun _ => rfl
    right_inv := fun _ => rfl }

@[simp] theorem elf64ProgramHeaderCodec_size :
    elf64ProgramHeaderCodec.size = 56 := rfl

/-
  The static structures of the loader.  `headerAt` is the
  address the linker gave to the header.
-/
structure Loader where
  headerAt : UInt64
  elf64Header : Elf64Header
  elf64ProgramHeaders :
    Fin maxProgramHeaders → Elf64ProgramHeader

------------------------------------------------------------
-- Loading
------------------------------------------------------------

/- The first block of the file. -/
abbrev FileBlock : Type :=
  ByteBuffer buffLen

/- Elf64 header extractor: save the header in memory. -/
def elf64ExtractHeader
    (buff : FileBlock)
    (l : Loader) : Loader :=
  { l with
    elf64Header := elf64HeaderCodec.decode (buff.slice 0) }

/-
  One copy of a program header: where in the block it reads
  and the table index it goes to.
-/
structure Copy where
  offset : UInt64
  index : Nat

/- The copy reads inside the block and writes the table. -/
def Copy.Inside
    (c : Copy) : Prop :=
  c.offset.toNat + elf64ProgramHeaderCodec.size ≤ buffLen ∧
    c.index < maxProgramHeaders

instance
    (c : Copy) :
    Decidable c.Inside := by
  unfold Copy.Inside
  infer_instance

/-
  Elf64 program header extractor: save a program header at
  an index of the table.  A copy from outside the block or
  to behind the table has no result.
-/
def elf64ExtractProgramHeader
    (buff : FileBlock)
    (c : Copy)
    (l : Loader) : Option Loader :=
  if h : c.Inside then
    some { l with
      elf64ProgramHeaders :=
        Function.update l.elf64ProgramHeaders ⟨c.index, h.2⟩
          (elf64ProgramHeaderCodec.decode
            (buff.slice c.offset.toNat)) }
  else none

/-
  The loop over the program headers: the copies it makes, up
  to the first one that leaves the arrays, and the loader
  after it.
-/
def extractLoop
    (buff : FileBlock) :
    (remaining i : Nat) → (offset : UInt64) → Loader →
      List Copy × Option Loader
  | 0, _, _, l => ([], some l)
  | remaining + 1, i, offset, l =>
      let c : Copy := ⟨offset, i⟩
      match elf64ExtractProgramHeader buff c l with
      | none => ([c], none)
      | some l =>
          let (copies, l) := extractLoop buff remaining (i + 1)
            (offset + l.elf64Header.ePhentsize.toUInt64) l
          (c :: copies, l)

/-
  How far loading gets: whether it passes the test of the
  identifier, the copies it makes, and the loader after them.
-/
structure Loaded where
  accepted : Bool
  copies : List Copy
  loader : Option Loader

/-
  Elf64 program loader, up to the mapping of the segments.
  The test takes the low half of the address of `e_ident`.
-/
def elf64Load
    (buff : FileBlock)
    (l : Loader) : Loaded :=
  let l := elf64ExtractHeader buff l
  if l.headerAt.toUInt32 &&& elfMagic = 0 then
    ⟨false, [], some l⟩
  else
    let (copies, after) := extractLoop buff
      l.elf64Header.ePhnum.toNat 0 l.elf64Header.ePhoff l
    ⟨true, copies, after⟩

------------------------------------------------------------
-- The Loop
------------------------------------------------------------

variable {buff : FileBlock} {l : Loader}

/- A copy inside the arrays succeeds. -/
theorem elf64ExtractProgramHeader_of_inside
    (buff : FileBlock)
    (l : Loader)
    {c : Copy}
    (hInside : c.Inside) :
    ∃ l', elf64ExtractProgramHeader buff c l = some l' :=
  ⟨_, dif_pos hInside⟩

/- A copy inside the arrays leaves the header alone. -/
theorem elf64ExtractProgramHeader_header
    {c : Copy}
    {l' : Loader}
    (hCopy : elf64ExtractProgramHeader buff c l = some l') :
    l'.elf64Header = l.elf64Header := by
  unfold elf64ExtractProgramHeader at hCopy
  split at hCopy
  · cases hCopy
    rfl
  · cases hCopy

/- Stepping from an offset inside the block does not wrap. -/
theorem next_offset_toNat
    {offset : UInt64}
    (hInside : offset.toNat + 56 ≤ 4096)
    (step : UInt16) :
    (offset + step.toUInt64).toNat =
      offset.toNat + step.toNat := by
  have hStep := step.toNat_lt
  rw [UInt64.toNat_add, UInt16.toNat_toUInt64]
  omega

/-
  All copies of the loop stay inside exactly when the last
  entry of the table ends inside the block and the indices
  stay below 128.
-/
theorem extractLoop_inside_iff
    (remaining i : Nat)
    (offset : UInt64)
    (l : Loader) :
    (∀ c ∈ (extractLoop buff (remaining + 1) i offset l).1,
      c.Inside) ↔
      offset.toNat +
          remaining * l.elf64Header.ePhentsize.toNat + 56 ≤
        4096 ∧ i + remaining < maxProgramHeaders := by
  induction remaining generalizing i offset l with
  | zero =>
      have hSelf : (∀ c ∈ (extractLoop buff 1 i offset l).1,
          c.Inside) ↔ (Copy.mk offset i).Inside := by
        unfold extractLoop
        dsimp only
        split <;> simp [extractLoop]
      rw [hSelf, Nat.zero_mul, Nat.add_zero, Nat.add_zero]
      exact Iff.rfl
  | succ remaining ih =>
      rw [extractLoop]
      dsimp only
      by_cases hFirst : (Copy.mk offset i).Inside
      · rcases elf64ExtractProgramHeader_of_inside buff l
          hFirst with ⟨l', hCopy⟩
        have hHeader := elf64ExtractProgramHeader_header hCopy
        rw [hCopy]
        dsimp only
        have hIn : offset.toNat + 56 ≤ 4096 := hFirst.1
        rw [List.forall_mem_cons, ih, hHeader,
          next_offset_toNat hIn, Nat.succ_mul]
        have hIndex : i < maxProgramHeaders := hFirst.2
        constructor
        · rintro ⟨-, hEnd, hLast⟩
          omega
        · rintro ⟨hEnd, hLast⟩
          refine ⟨hFirst, ?_, ?_⟩
          · omega
          · omega
      · have hCopy : elf64ExtractProgramHeader buff
            ⟨offset, i⟩ l = none := dif_neg hFirst
        rw [hCopy]
        dsimp only
        rw [List.forall_mem_singleton]
        refine iff_of_false hFirst ?_
        rintro ⟨hEnd, hLast⟩
        apply hFirst
        refine ⟨?_, ?_⟩
        · show offset.toNat + 56 ≤ 4096
          omega
        · show i < maxProgramHeaders
          omega

/- The loop has a result when all its copies stay inside. -/
theorem extractLoop_isSome_iff
    (remaining i : Nat)
    (offset : UInt64)
    (l : Loader) :
    (extractLoop buff remaining i offset l).2.isSome ↔
      ∀ c ∈ (extractLoop buff remaining i offset l).1,
        c.Inside := by
  induction remaining generalizing i offset l with
  | zero => simp [extractLoop]
  | succ remaining ih =>
      rw [extractLoop]
      dsimp only
      by_cases hFirst : (Copy.mk offset i).Inside
      · rcases elf64ExtractProgramHeader_of_inside buff l
          hFirst with ⟨l', hCopy⟩
        rw [hCopy]
        dsimp only
        rw [ih, List.forall_mem_cons]
        exact (and_iff_right hFirst).symm
      · have hCopy : elf64ExtractProgramHeader buff
            ⟨offset, i⟩ l = none := dif_neg hFirst
        rw [hCopy]
        simp [hFirst]

/-
  A loop with a result fills the table: entry `i + k` is the
  program header `k` steps behind the start, and the entries
  outside the copied range stay.
-/
theorem extractLoop_table
    {remaining i : Nat}
    {offset : UInt64}
    {l l' : Loader}
    (hRun : (extractLoop buff remaining i offset l).2 =
      some l') :
    (∀ (k : Nat) (h : i + k < maxProgramHeaders),
      k < remaining →
        l'.elf64ProgramHeaders ⟨i + k, h⟩ =
          elf64ProgramHeaderCodec.decode (buff.slice
            (offset.toNat +
              k * l.elf64Header.ePhentsize.toNat))) ∧
      ∀ j : Fin maxProgramHeaders,
        (j : Nat) < i ∨ i + remaining ≤ (j : Nat) →
          l'.elf64ProgramHeaders j =
            l.elf64ProgramHeaders j := by
  induction remaining generalizing i offset l with
  | zero =>
      cases hRun
      exact ⟨fun k _ hk => absurd hk (Nat.not_lt_zero k),
        fun _ _ => rfl⟩
  | succ remaining ih =>
      rw [extractLoop] at hRun
      dsimp only at hRun
      by_cases hFirst : (Copy.mk offset i).Inside
      · have hCopy : elf64ExtractProgramHeader buff
            ⟨offset, i⟩ l = some _ := dif_pos hFirst
        have hIn : offset.toNat + 56 ≤ 4096 := hFirst.1
        rw [hCopy] at hRun
        rcases ih hRun with ⟨hRead, hKept⟩
        have hNext := next_offset_toNat hIn
          l.elf64Header.ePhentsize
        constructor
        · intro k h hk
          cases k with
          | zero =>
              rw [hKept _ (.inl (Nat.lt_succ_self i)),
                Nat.zero_mul]
              exact Function.update_self _ _ _
          | succ k =>
              have hIndex : i + 1 + k = i + (k + 1) := by
                omega
              have hEntry := hRead k (by omega) (by omega)
              dsimp only at hEntry
              rw [hNext] at hEntry
              simp only [hIndex] at hEntry
              rw [hEntry, Nat.succ_mul, Nat.add_assoc,
                Nat.add_comm
                  l.elf64Header.ePhentsize.toNat]
        · intro j hj
          rw [hKept j (by omega)]
          apply Function.update_of_ne
          intro hEq
          have hVal := congrArg Fin.val hEq
          change (j : Nat) = i at hVal
          omega
      · have hCopy : elf64ExtractProgramHeader buff
            ⟨offset, i⟩ l = none := dif_neg hFirst
        rw [hCopy] at hRun
        cases hRun

/- The loop leaves the header alone. -/
theorem extractLoop_header
    {remaining i : Nat}
    {offset : UInt64}
    {l l' : Loader}
    (hRun : (extractLoop buff remaining i offset l).2 =
      some l') :
    l'.elf64Header = l.elf64Header := by
  induction remaining generalizing i offset l with
  | zero =>
      cases hRun
      rfl
  | succ remaining ih =>
      rw [extractLoop] at hRun
      dsimp only at hRun
      cases hCopy : elf64ExtractProgramHeader buff ⟨offset, i⟩
          l with
      | none =>
          rw [hCopy] at hRun
          cases hRun
      | some mid =>
          rw [hCopy] at hRun
          exact (ih hRun).trans
            (elf64ExtractProgramHeader_header hCopy)

------------------------------------------------------------
-- The Checks
------------------------------------------------------------

/- The first four bytes of the block are 0x7F 'E' 'L' 'F'. -/
def HasMagic
    (buff : FileBlock) : Prop :=
  buff.get 0 = 0x7F ∧ buff.get 1 = 0x45 ∧
    buff.get 2 = 0x4C ∧ buff.get 3 = 0x46

instance
    (buff : FileBlock) :
    Decidable (HasMagic buff) := by
  unfold HasMagic
  infer_instance

/- The header that the first bytes of the block encode. -/
def FileBlock.header
    (buff : FileBlock) : Elf64Header :=
  elf64HeaderCodec.decode (buff.slice 0)

/-
  Loading accepts files with the magic number only, and then
  every copy stays inside the block and the table.
-/
def Checked
    (buff : FileBlock)
    (l : Loader) : Prop :=
  (elf64Load buff l).accepted →
    HasMagic buff ∧
      ∀ c ∈ (elf64Load buff l).copies, c.Inside

/-
  The table of program headers has at most 128 entries and
  its last one ends inside the block.
-/
def Elf64Header.TableFits
    (h : Elf64Header) : Prop :=
  h.ePhnum.toNat = 0 ∨
    (h.ePhnum.toNat ≤ maxProgramHeaders ∧
      h.ePhoff.toNat +
          (h.ePhnum.toNat - 1) * h.ePhentsize.toNat + 56 ≤
        4096)

/-
  Loading is checked exactly when the header's own address
  has no bit of the magic number, or the block has the magic
  number and a table that fits.
-/
theorem elf64Load_checked_iff
    (buff : FileBlock)
    (l : Loader) :
    Checked buff l ↔
      l.headerAt.toUInt32 &&& elfMagic = 0 ∨
        (HasMagic buff ∧ buff.header.TableFits) := by
  unfold Checked elf64Load
  dsimp only
  by_cases hAddr : l.headerAt.toUInt32 &&& elfMagic = 0
  · have hTest : (elf64ExtractHeader buff l).headerAt.toUInt32
        &&& elfMagic = 0 := hAddr
    rw [if_pos hTest]
    simp [hAddr]
  · have hTest : ¬ (elf64ExtractHeader buff l).headerAt.toUInt32
        &&& elfMagic = 0 := hAddr
    have hHeader : (elf64ExtractHeader buff l).elf64Header =
        buff.header := rfl
    rw [if_neg hTest, hHeader, or_iff_right hAddr]
    simp only [forall_const]
    refine and_congr_right fun _ => ?_
    unfold Elf64Header.TableFits
    cases hCount : buff.header.ePhnum.toNat with
    | zero => simp [extractLoop]
    | succ n =>
        have hLoop := @extractLoop_inside_iff buff n 0
          buff.header.ePhoff (elf64ExtractHeader buff l)
        rw [hHeader] at hLoop
        rw [hLoop, Nat.add_sub_cancel]
        constructor
        · rintro ⟨hEnd, hLast⟩
          refine .inr ⟨?_, hEnd⟩
          omega
        · rintro (hZero | ⟨hMany, hEnd⟩)
          · omega
          · refine ⟨hEnd, ?_⟩
            omega

------------------------------------------------------------
-- Two Blocks That Slip Through
------------------------------------------------------------

/- A loader whose header lies at 0x100040. -/
def sampleLoader : Loader where
  headerAt := 0x100040
  elf64Header := elf64HeaderCodec.decode fun _ => 0
  elf64ProgramHeaders := fun _ =>
    elf64ProgramHeaderCodec.decode fun _ => 0

/-
  A header with the magic number and one program header at
  offset 4096, behind the block.
-/
def pastEndBlock : FileBlock :=
  .ofFn buffLen fun i =>
    if i = 0 then 0x7F
    else if i = 1 then 0x45
    else if i = 2 then 0x4C
    else if i = 3 then 0x46
    -- byte 1 of `e_phoff`, byte 0 of `e_phnum`
    else if i = 33 then 0x10
    else if i = 56 then 1
    else 0

/-
  A block of zeros is accepted, and a program header behind
  the block is copied.
-/
theorem elf64Load_unchecked :
    (¬ HasMagic (.fill buffLen 0) ∧
      (elf64Load (.fill buffLen 0) sampleLoader).accepted ∧
      ¬ Checked (.fill buffLen 0) sampleLoader) ∧
    HasMagic pastEndBlock ∧
      (elf64Load pastEndBlock sampleLoader).accepted ∧
      (elf64Load pastEndBlock sampleLoader).copies =
        [⟨4096, 0⟩] ∧
      ¬ Checked pastEndBlock sampleLoader := by
  have hZero : ¬ HasMagic (.fill buffLen 0) := by decide
  have hAccepted :
      (elf64Load (.fill buffLen 0) sampleLoader).accepted := by
    decide
  have hMagic : HasMagic pastEndBlock := by decide
  have hAccepted' :
      (elf64Load pastEndBlock sampleLoader).accepted := by
    decide
  have hCopies :
      (elf64Load pastEndBlock sampleLoader).copies =
        [⟨4096, 0⟩] := by
    rfl
  refine ⟨⟨hZero, hAccepted, ?_⟩, hMagic, hAccepted', hCopies,
    ?_⟩
  · intro hChecked
    exact hZero (hChecked hAccepted).1
  · intro hChecked
    have hInside := (hChecked hAccepted').2
    rw [hCopies, List.forall_mem_singleton] at hInside
    exact absurd hInside (by decide)

end Elf64

end Ester
