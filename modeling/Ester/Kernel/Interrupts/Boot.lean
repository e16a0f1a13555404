import Ester.Kernel.Interrupts.Runs

/-
  From the start of `kernel_entry` to its first interrupts.

  The table is initialised, the keyboard is initialised with
  whatever its controller answers, and the interrupt
  controllers are programmed.  What the controllers did
  before does not matter, and neither does what is on the
  console.  Whether the keyboard has its own handler
  afterwards depends on the answers of its controller.

  Key definitions include:
    * `boot`, `registers`
    * `Bootable`

  Key theorems include:
    * `boot_running`
-/

namespace Ester

namespace Interrupts

open Pic

------------------------------------------------------------
-- Booting
------------------------------------------------------------

section Boot

variable (k : Symbols)
variable (answers : List UInt8)
variable (s : Machine)

/- The initialisation of the keyboard behind `idt_init`. -/
def keyboardInit :
    Polling.Outcome Memory Ps2Keyboard.Port UInt8 UInt8 :=
  Ps2Keyboard.ps2KeyboardInit k.idt k.keyboardHandler
    (Idt.idtInit k.idt k.isrStubTable s.mem) answers

/- The handler of the keyboard is registered. -/
def registers : Bool :=
  (keyboardInit k answers s).result == some 0

/-
  The calls of `kernel_entry` that set up interrupts.  The
  result of the keyboard's initialisation is not looked at;
  there is no machine where it never returns.
-/
def boot : Option Machine :=
  (keyboardInit k answers s).result.map fun _ =>
    { s with
      idtr := Idt.idtrInit k.idt
      mem := (keyboardInit k answers s).memory
      pics := picInit s.pics }

end Boot

/-
  What the loader leaves: the table is cleared, and the
  strings are in memory outside of the table.
-/
structure Bootable
    (k : Symbols)
    (m : Memory) : Prop where
  cleared : ∀ j, k.idt.toNat ≤ j →
    j < k.idt.toNat + 256 * Idt.idtEntryCodec.size → m j = 0
  placed : ∀ m', Memory.ChangesWithin
    (Set.Ico k.idt.toNat (k.idt.toNat + 4096)) m m' →
      Placed k m'

------------------------------------------------------------
-- What Booting Leaves
------------------------------------------------------------

/- Descriptors are set within the table. -/
theorem changes_setAll
    (idt : UInt64)
    (calls : List Idt.SetCall)
    (m : Memory) :
    Memory.ChangesWithin
      (Set.Ico idt.toNat (idt.toNat + 4096)) m
      (Idt.setAll idt calls m) := by
  have hAll : ∀ out, Memory.ChangesWithin
      (Set.Ico idt.toNat (idt.toNat + 4096)) m out →
      Memory.ChangesWithin
        (Set.Ico idt.toNat (idt.toNat + 4096)) m
        (Idt.setAll idt calls out) := by
    induction calls with
    | nil => exact fun _ h => h
    | cons c calls ih =>
        intro out h
        have hVector : c.vector.toNat < 256 := c.vector.toNat_lt
        refine ih _ (h.store (Nat.le_add_right _ _) ?_)
        rw [Idt.idtEntryCodec_size]
        omega
  exact hAll m (.refl _ m)

section Booted

variable {k : Symbols} {answers : List UInt8}
variable {s t : Machine}

theorem memory_keyboardInit :
    (keyboardInit k answers s).memory =
      Idt.setAll k.idt (registrations k (registers k answers s))
        (Idt.idtInit k.idt k.isrStubTable s.mem) := by
  have hRun := (Ps2Keyboard.keyboard_completes k.idt
    k.keyboardHandler
    (Idt.idtInit k.idt k.isrStubTable s.mem) answers).2.2
  change (keyboardInit k answers s).memory =
    if (keyboardInit k answers s).result = some 0 then _
    else _ at hRun
  rw [hRun]
  unfold registrations registers
  by_cases hZero : (keyboardInit k answers s).result = some 0
  · rw [if_pos hZero, hZero]
    rfl
  · rw [if_neg hZero, beq_eq_false_iff_ne.mpr hZero]
    rfl

/-
  After booting, every vector goes to the handler it is
  meant for, nothing is in service and nothing is requested.
-/
theorem boot_running
    (hBootable : Bootable k s.mem)
    (hBoot : boot k answers s = some t) :
    Installed k (registers k answers s) t.mem ∧
      Running k t.mem t ∧
      t.pics.slave.irr = 0 ∧
      Shown t ⟨[], s.scanCode, s.console.text⟩ := by
  unfold boot at hBoot
  rcases Option.map_eq_some_iff.mp hBoot with ⟨r, -, rfl⟩
  rcases picInit_quiet s.pics with
    ⟨hMaster, hIdle, hSlave, hServed⟩
  have hChanges := (changes_setAll k.idt
    (Idt.initCalls k.isrStubTable 47) s.mem).trans
      (changes_setAll k.idt
        (registrations k (registers k answers s)) _)
  rw [← Idt.idtInit_eq, ← memory_keyboardInit] at hChanges
  refine ⟨⟨fun v hv => ?_, hBootable.placed _ hChanges⟩,
    ⟨⟨rfl, rfl, picInit_programmed s.pics, ?_⟩, hIdle, ?_⟩,
    hSlave, ⟨hIdle, congrArg Lines.of hServed, rfl, rfl⟩⟩
  · dsimp only
    rw [memory_keyboardInit]
    exact Idt.target_after_init k.isrStubTable _
      hBootable.cleared hv
  · dsimp only
    rw [hMaster, Lines.of_zero]
    exact List.not_mem_nil
  · dsimp only
    rw [hServed, Lines.of_zero]
    exact List.forall_mem_nil _

end Booted

------------------------------------------------------------
-- A Small Kernel
------------------------------------------------------------

/- The strings of the keyboard and the two formats. -/
def sampleStrings : List UInt8 :=
  Ps2Keyboard.keyBytes ++
    (formatOf (vectorPieces 0) ++ 0 :: ([37, 99] ++ [0]))

def sampleMemory : Memory :=
  fun j => sampleStrings.getD j 0

def sampleSymbols : Symbols where
  idt := 0x10000
  isrStubTable i := UInt64.ofNat (0x2000 + 16 * i)
  keyboardHandler := 0x1000
  vectorFormat := 39
  charFormat := 51
  keyStrings := Ps2Keyboard.keyOffsets
  distinct := by decide

theorem sample_placed :
    Placed sampleSymbols sampleMemory where
  vectorFormat :=
    Shows.of_getD Ps2Keyboard.keyBytes
      (formatOf (vectorPieces 0)) ([37, 99] ++ [0])
      (List.append_assoc _ _ _).symm
      (Ps2Keyboard.ne_zero_of_not_mem (by decide))
  charFormat :=
    Shows.of_getD (sampleStrings.take 51)
      [37, 99] [] (by decide)
      (Ps2Keyboard.ne_zero_of_not_mem (by decide))
  keyStrings := by
    have hFirst : ∀ j, j < 39 → sampleMemory j =
        Ps2Keyboard.keyBytes.getD j 0 := fun j hj =>
      List.getD_append _ _ _ _ hj
    exact Ps2Keyboard.keyBytes_placed.congr hFirst
      (by decide) (by decide) (by decide) (by decide)

theorem Placed.congr
    {k : Symbols}
    {m m' : Memory}
    {bound : Nat}
    (h : Placed k m)
    (hEq : ∀ j, j < bound → m' j = m j)
    (hVector : k.vectorFormat.toNat + 11 < bound)
    (hChar : k.charFormat.toNat + 2 < bound)
    (hKeys : k.keyStrings.qwertzuiop.toNat + 10 < bound ∧
      k.keyStrings.asdfghjkl.toNat + 9 < bound ∧
      k.keyStrings.yxcvbnm.toNat + 7 < bound ∧
      k.keyStrings.num.toNat + 9 < bound) :
    Placed k m' where
  vectorFormat := h.vectorFormat.congr hEq hVector
  charFormat := h.charFormat.congr hEq hChar
  keyStrings := h.keyStrings.congr hEq hKeys.1 hKeys.2.1
    hKeys.2.2.1 hKeys.2.2.2

theorem sample_bootable :
    Bootable sampleSymbols sampleMemory where
  cleared j hLow _ := by
    have hBeyond : 0x10000 ≤ j := hLow
    exact List.getD_eq_default _ _
      (Nat.le_trans (show sampleStrings.length ≤ 0x10000 by
        decide) hBeyond)
  placed m' hChanges := by
    have hEq : ∀ j, j < 0x10000 → m' j = sampleMemory j :=
      fun j hj => hChanges j fun hIn =>
        Nat.not_le.mpr hj hIn.1
    exact sample_placed.congr hEq (by decide) (by decide)
      (by decide)

/- The controllers were never programmed, and all lines wait. -/
def sampleMachine : Machine where
  pics :=
    { master := ⟨0xFF, 0xFF, 0, 0, 0, 0, 0, false, .icw3⟩
      slave := ⟨0, 0xFF, 0, 0, 0, 0, 0, true, .operation⟩ }
  idtr := ⟨0, 0⟩
  mem := sampleMemory
  console := freshConsole
  scanCode := 0

/- The controller of the keyboard is always ready. -/
def sampleAnswers : List UInt8 :=
  [0, 0, 0, 0, 0]

/- The machine after booting. -/
def sampleBooted : Machine where
  pics := picInit sampleMachine.pics
  idtr := Idt.idtrInit sampleSymbols.idt
  mem := (keyboardInit sampleSymbols sampleAnswers
    sampleMachine).memory
  console := freshConsole
  scanCode := 0

theorem sample_boots :
    boot sampleSymbols sampleAnswers sampleMachine =
      some sampleBooted := rfl

theorem sample_installed :
    Installed sampleSymbols
      (registers sampleSymbols sampleAnswers sampleMachine)
      sampleBooted.mem :=
  (boot_running sample_bootable sample_boots).1

theorem sample_running :
    Running sampleSymbols sampleBooted.mem sampleBooted :=
  (boot_running sample_bootable sample_boots).2.1

def sampleGarbage : UInt32 → ByteBuffer intMaxDigits :=
  fun _ => ByteBuffer.fill _ 0

theorem nine_mayRaise :
    9 < 16 ∧ 9 ≠ cascadeLine := by
  decide

theorem twelve_mayRaise :
    12 < 16 ∧ 12 ≠ cascadeLine := by
  decide

theorem thirteen_mayRaise :
    13 < 16 ∧ 13 ≠ cascadeLine := by
  decide

/-
  The key of the letter a between three lines of the slave,
  the last one less urgent.
-/
def sampleEvents : List Event :=
  [.raise ⟨12, twelve_mayRaise⟩, .interrupt,
    .key 0x1E, .interrupt,
    .raise ⟨9, nine_mayRaise⟩, .interrupt,
    .raise ⟨13, thirteen_mayRaise⟩, .interrupt]

def sampleTrace : List (Event × Answer) :=
  [(.raise ⟨12, twelve_mayRaise⟩, .quiet),
    (.interrupt, .served 0x2C),
    (.key 0x1E, .quiet),
    (.interrupt, .served 0x21),
    (.raise ⟨9, nine_mayRaise⟩, .quiet),
    (.interrupt, .served 0x29),
    (.raise ⟨13, thirteen_mayRaise⟩, .quiet),
    (.interrupt, .quiet)]

theorem sample_runs :
    ∃ t, runAll (Machine.step 64 sampleGarbage sampleSymbols)
      sampleEvents sampleBooted = some (sampleTrace, t) := by
  have hTrace :
      (runAll (Machine.step 64 sampleGarbage sampleSymbols)
        sampleEvents sampleBooted).map Prod.fst =
        some sampleTrace := by
    decide +kernel
  rcases Option.map_eq_some_iff.mp hTrace with
    ⟨⟨trace, t⟩, hRun, rfl⟩
  exact ⟨t, hRun⟩

end Interrupts

end Ester
