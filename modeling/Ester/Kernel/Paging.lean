import Ester.Library.Mask

/-
  The page tables of kernel/mem.c and of the boot code.

  Physical memory holds one 64-bit word at each address that
  is a multiple of eight; `pmap` makes no other access.  The
  kernel runs with paging on, so `load` and `store` take a
  virtual address and go through the page walk themselves;
  an access to an unmapped page has no result.  `pageWalk`
  gives the 4 KiB page frame of a virtual address, also
  inside a 2 MiB page.

  Key definitions include:
    * `Machine`
    * `Machine.pageWalk`
    * `palloc`
    * `pmap`
    * `Machine.Boot`
-/

namespace Ester

namespace Paging

------------------------------------------------------------
-- Table Entries
------------------------------------------------------------

/- The flag `PAGE_PRESENT`. -/
abbrev pagePresent : UInt64 := 0x1

/- The flag `PAGE_WRITABLE`. -/
abbrev pageWritable : UInt64 := 0x2

/- The flag `PAGE_SIZE_2MB`. -/
abbrev pageSize2MB : UInt64 := 0x80

/- Whether an entry is present. -/
def isPresent
    (entry : UInt64) : Bool :=
  entry &&& pagePresent != 0

/- Whether an entry of a P2 table maps a 2 MiB page. -/
def isHuge
    (entry : UInt64) : Bool :=
  entry &&& pageSize2MB != 0

/- The address in an entry, which is `entry & ~0xFFF`. -/
def address
    (entry : UInt64) : UInt64 :=
  entry &&& ~~~0xFFF

/- The address of the word `base[index]`. -/
def slot
    (base index : UInt64) : UInt64 :=
  base + 8 * index

------------------------------------------------------------
-- Table Indices
------------------------------------------------------------

/- The index of a virtual address in the P4 table. -/
def pml4Index
    (vaddr : UInt64) : UInt64 :=
  (vaddr >>> 39) &&& 0x1FF

/- The index of a virtual address in a P3 table. -/
def pdpIndex
    (vaddr : UInt64) : UInt64 :=
  (vaddr >>> 30) &&& 0x1FF

/- The index of a virtual address in a P2 table. -/
def pdIndex
    (vaddr : UInt64) : UInt64 :=
  (vaddr >>> 21) &&& 0x1FF

/- The index of a virtual address in a P1 table. -/
def ptIndex
    (vaddr : UInt64) : UInt64 :=
  (vaddr >>> 12) &&& 0x1FF

------------------------------------------------------------
-- The Hardware
------------------------------------------------------------

/- The page table register and the words of memory. -/
structure Machine where
  cr3 : UInt64
  mem : UInt64 → UInt64

namespace Machine

/- A present entry of a table. -/
def presentEntry
    (s : Machine)
    (table index : UInt64) : Option UInt64 :=
  if isPresent (s.mem (slot table index)) then
    some (s.mem (slot table index))
  else none

/- The page frame that the four-level walk finds. -/
def pageWalk
    (s : Machine)
    (vaddr : UInt64) : Option UInt64 :=
  match s.presentEntry s.cr3 (pml4Index vaddr) with
  | none => none
  | some e₄ =>
      match s.presentEntry (address e₄) (pdpIndex vaddr) with
      | none => none
      | some e₃ =>
          match s.presentEntry (address e₃) (pdIndex vaddr) with
          | none => none
          | some e₂ =>
              if isHuge e₂ then
                some ((e₂ &&& ~~~0x1FFFFF) +
                  (vaddr &&& 0x1FF000))
              else
                match s.presentEntry (address e₂)
                    (ptIndex vaddr) with
                | none => none
                | some e₁ => some (address e₁)

/- The physical address of a virtual one. -/
def translate
    (s : Machine)
    (vaddr : UInt64) : Option UInt64 :=
  (s.pageWalk vaddr).map fun page => page + (vaddr &&& 0xFFF)

/- The machine with the word at a physical address set. -/
def setWord
    (s : Machine)
    (a value : UInt64) : Machine :=
  { s with mem := fun b => if b = a then value else s.mem b }

/- Read the word at a virtual address. -/
def load
    (s : Machine)
    (vaddr : UInt64) : Option UInt64 :=
  (s.translate vaddr).map s.mem

/- Write the word at a virtual address. -/
def store
    (s : Machine)
    (vaddr value : UInt64) : Option Machine :=
  (s.translate vaddr).map fun a => s.setWord a value

end Machine

------------------------------------------------------------
-- Allocating and Mapping
------------------------------------------------------------

/-
  The loop of `palloc`, with `baddr` at the slot it looks at.
  The fuel bounds the number of slots.
-/
def pallocLoop
    (s : Machine) : (fuel : Nat) → (baddr : UInt64) →
      Option UInt64
  | 0, _ => none
  | fuel + 1, baddr =>
      match s.load baddr with
      | none => none
      | some entry =>
          if isPresent entry then
            pallocLoop s fuel (baddr + 8)
          else some baddr

/-
  The first slot from `baddr` on that is not present.  After
  `2 ^ 61` slots the loop has seen every word there is.
-/
def palloc
    (s : Machine)
    (baddr : UInt64) : Option UInt64 :=
  pallocLoop s (2 ^ 61) baddr

/-
  One level of `pmap`: the next table of `base[index]`, taken
  from `pool` when the entry is not present.
-/
def nextTable
    (base index pool flags : UInt64)
    (s : Machine) : Option (UInt64 × Machine) :=
  match s.load (slot base index) with
  | none => none
  | some entry =>
      if !isPresent entry then
        match palloc s pool with
        | none => none
        | some table =>
            match s.store (slot base index)
                (table ||| pagePresent ||| pageWritable |||
                  flags) with
            | none => none
            | some t => some (table, t)
      else some (address entry, s)

/- Map a virtual page to a physical one. -/
def pmap
    (paddr vaddr flags : UInt64)
    (s : Machine) : Option Machine :=
  let pml4Base := s.cr3
  let pdpPhysicalBase := slot pml4Base 512
  let pdPhysicalBase := slot pdpPhysicalBase 512
  let ptPhysicalBase := slot pdPhysicalBase (512 * 6)
  match nextTable pml4Base (pml4Index vaddr)
      pdpPhysicalBase flags s with
  | none => none
  | some (pdpBase, s₁) =>
      match nextTable pdpBase (pdpIndex vaddr)
          pdPhysicalBase flags s₁ with
      | none => none
      | some (pdBase, s₂) =>
          match nextTable pdBase (pdIndex vaddr)
              ptPhysicalBase flags s₂ with
          | none => none
          | some (ptBase, s₃) =>
              s₃.store (slot ptBase (ptIndex vaddr))
                (address paddr ||| pagePresent |||
                  pageWritable ||| flags)

/- The arguments of one call of `pmap`. -/
structure Call where
  paddr : UInt64
  vaddr : UInt64
  flags : UInt64

/- A call as a step of the machine. -/
def Call.step
    (c : Call)
    (s : Machine) : Option (Unit × Machine) :=
  (pmap c.paddr c.vaddr c.flags s).map fun t => ((), t)

------------------------------------------------------------
-- The Reserved Tables
------------------------------------------------------------

namespace Machine

/-
  The address of reserved table `t`.  The P4 table is table
  0, the P3 table 1, the P2 tables are 2 to 7 and the P1
  tables 8 to 15.
-/
def table
    (s : Machine)
    (t : Nat) : UInt64 :=
  s.cr3 + 4096 * UInt64.ofNat t

/- Entry `i` of reserved table `t`. -/
def entry
    (s : Machine)
    (t i : Nat) : UInt64 :=
  s.mem (slot (s.table t) (UInt64.ofNat i))

/-
  The machine after the set-up of the boot code: the first
  P4 and P3 entries and a first P2 table of 2 MiB pages, in
  reserved tables that are zero otherwise and lie in the
  first gigabyte.
-/
structure Boot (s : Machine) : Prop where
  aligned : s.cr3.toNat % 4096 = 0
  below : s.cr3.toNat + 16 * 4096 ≤ 2 ^ 30
  p4 : s.entry 0 0 = s.table 1 ||| pagePresent ||| pageWritable
  p3 : s.entry 1 0 = s.table 2 ||| pagePresent ||| pageWritable
  p2 : ∀ i < 512, s.entry 2 i =
    0x200000 * UInt64.ofNat i ||| 0x83
  p4_zero : ∀ i < 512, 0 < i → s.entry 0 i = 0
  p3_zero : ∀ i < 512, 0 < i → s.entry 1 i = 0
  rest_zero : ∀ t, 3 ≤ t → t < 16 → ∀ i < 512, s.entry t i = 0

end Machine

end Paging

end Ester
