import Ester.Kernel.Interrupts

/-
  What the handlers of the kernel do.

  `exception_handler` recovers the line from the registers in
  service.  A line of the master is in service alone, so the
  byte it derives is one less than a power of two: below 8
  for the lines up to 3, and from 8 on for the others.  While
  a line of the slave is served, the master has its cascade
  line in service, and the byte is always 3.

  Key definitions include:
    * `Placed`
    * `Handled`

  Key theorems include:
    * `exceptionHandler_handles`
    * `keyboardInterruptHandler_handles`
-/

namespace Ester

namespace Interrupts

open Pic

------------------------------------------------------------
-- Formats
------------------------------------------------------------

/- The format of the vector, with its argument. -/
def vectorPieces
    (value : UInt16) : List Piece :=
  [.literal 86, .literal 69, .literal 67, .literal 84,
    .literal 79, .literal 82, .literal 58, .literal 32,
    .int value.toUInt64, .literal 10]

/- The memory holds the formats and the strings. -/
structure Placed
    (k : Symbols)
    (m : Memory) : Prop where
  vectorFormat :
    Shows m k.vectorFormat.toNat (formatOf (vectorPieces 0))
  charFormat : Shows m k.charFormat.toNat [37, 99]
  keyStrings : k.keyStrings.Placed m

/- A budget above every loop of the handlers. -/
abbrev enoughRounds : Nat := 64

section Handlers

variable {rounds : Nat}
variable {garbage : UInt32 → ByteBuffer intMaxDigits}
variable {k : Symbols} {s : Machine}

theorem printedOf_vectorPieces
    (value : UInt16) :
    printedOf (vectorPieces value) =
      [86, 69, 67, 84, 79, 82, 58, 32] ++
        Decimal.numeral value.toNat ++ [10] := by
  have hLt := value.toNat_lt
  have hHalf : Int32.size / 2 = 2147483648 := rfl
  have hValue : value.toUInt32.toNat = value.toNat :=
    UInt16.toNat_toUInt32 value
  have hInt : intText value.toUInt32 =
      Decimal.numeral value.toNat := by
    unfold intText
    rw [hValue, if_pos (by omega)]
  simp [printedOf, vectorPieces, Piece.printed, hInt]

/- A numeral of 16 bits is short. -/
theorem length_numeral_le
    (value : UInt16) :
    (Decimal.numeral value.toNat).length ≤ 10 := by
  have hLt := value.toNat_lt
  have hHalf : Int32.size / 2 = 2147483648 := rfl
  have hNat : value.toUInt32.toNat = value.toNat :=
    UInt16.toNat_toUInt32 value
  rw [Decimal.length_numeral, ← hNat]
  exact length_units_int32 (toInt_toInt32_of_lt (by
    rw [hNat]
    omega))

/- The vector is printed whatever the array held. -/
theorem printk_vector
    (hPlaced : Placed k s.mem)
    (hRounds : enoughRounds ≤ rounds)
    (value : UInt16) :
    printk rounds garbage s.mem k.vectorFormat
        [value.toUInt64] s.console =
      some ([], s.console.print
        ([86, 69, 67, 84, 79, 82, 58, 32] ++
          Decimal.numeral value.toNat ++ [10])) := by
  have hLength := length_numeral_le value
  have hBudget : roundsFor (vectorPieces value) ≤ rounds := by
    refine Nat.le_trans ?_ hRounds
    unfold roundsFor
    rw [printedOf_vectorPieces]
    simp only [vectorPieces, List.length_append,
      List.length_cons, List.length_nil]
    change _ ≤ 64
    omega
  have hFormat : Shows s.mem k.vectorFormat.toNat
      (formatOf (vectorPieces value)) := hPlaced.vectorFormat
  rw [← printedOf_vectorPieces]
  exact printk_prints garbage hFormat
    (show 11 < UInt32.size by decide)
    (by simp [vectorPieces, Piece.Valid])
    (by simp [vectorPieces, Piece.Ends]) hBudget [] s.console

theorem printk_char
    (hPlaced : Placed k s.mem)
    (hRounds : enoughRounds ≤ rounds)
    (c : UInt8) :
    printk rounds garbage s.mem k.charFormat
        [c.toUInt64] s.console =
      some ([], s.console.print [c]) := by
  have hChar : c.toUInt64.toUInt8 = c := UInt8.toUInt8_toUInt64 c
  have hPrinted : printedOf [.chr c.toUInt64] = [c] := by
    simp [printedOf, Piece.printed, hChar]
  have hFormat : Shows s.mem k.charFormat.toNat
      (formatOf [.chr c.toUInt64]) := hPlaced.charFormat
  have hBudget : roundsFor [.chr c.toUInt64] ≤ rounds := by
    refine Nat.le_trans ?_ hRounds
    unfold roundsFor
    rw [hPrinted]
    exact (show 11 + 1 + 1 ≤ 64 by decide)
  rw [← hPrinted]
  exact printk_prints garbage hFormat
    (show 2 < UInt32.size by decide) (by simp [Piece.Valid])
    (by simp [Piece.Ends]) hBudget [] s.console

------------------------------------------------------------
-- The General Handler
------------------------------------------------------------

/- The value of the registers in service. -/
def inServiceValue
    (p : Pics) : Nat :=
  256 * p.slave.isr.toNat + p.master.isr.toNat

theorem inServiceValue_lt
    (p : Pics) :
    inServiceValue p < 65536 := by
  have hSlave : p.slave.isr.toNat < 256 := p.slave.isr.toNat_lt
  have hMaster : p.master.isr.toNat < 256 :=
    p.master.isr.toNat_lt
  unfold inServiceValue
  omega

theorem exceptionHandler_run
    (hPlaced : Placed k s.mem)
    (hRounds : enoughRounds ≤ rounds) :
    exceptionHandler rounds garbage k s =
      some { s with
        pics := picSendEoi
          (UInt8.ofNat (inServiceValue s.pics + 255))
          s.pics.reading
        console :=
          s.console.print (message (inServiceValue s.pics)) } := by
  have hNat := toNat_picGetIsr s.pics
  change (picGetIsr s.pics).1.toNat = inServiceValue s.pics
    at hNat
  have hFirst : picGetIsr s.pics =
      ((picGetIsr s.pics).1, s.pics.reading) := rfl
  have hAgain : picGetIsr s.pics.reading =
      ((picGetIsr s.pics).1, s.pics.reading) := rfl
  have hLt := inServiceValue_lt s.pics
  generalize (picGetIsr s.pics).1 = vector at hNat hFirst hAgain
  have hIrq : (vector - 1).toUInt8 =
      UInt8.ofNat (inServiceValue s.pics + 255) := by
    apply UInt8.toNat_inj.mp
    rw [UInt16.toNat_toUInt8, UInt16.toNat_sub, hNat,
      UInt8.toNat_ofNat']
    change (65536 - 1 + _) % 65536 % 256 = _ % 256
    omega
  have hOne : vector = 1 ↔ inServiceValue s.pics = 1 := by
    rw [← UInt16.toNat_inj, hNat]
    rfl
  unfold exceptionHandler
  rw [hFirst]
  dsimp only
  rw [hAgain, hIrq]
  by_cases hVector : vector = 1
  · rw [if_neg (not_not_intro hVector), message,
      if_pos (hOne.mp hVector)]
    rfl
  · rw [if_pos hVector, printk_vector hPlaced hRounds, hNat,
      message, if_neg fun h => hVector (hOne.mpr h),
      Option.map_some, Option.map_some]

------------------------------------------------------------
-- The Handler of the Keyboard
------------------------------------------------------------

theorem keyboardInterruptHandler_run
    (hPlaced : Placed k s.mem)
    (hRounds : enoughRounds ≤ rounds) :
    keyboardInterruptHandler rounds garbage k s =
      some { s with
        pics := picSendEoi 1 s.pics
        console := s.console.print (echo
          (Ps2Keyboard.toAscii k.keyStrings s.mem
            s.scanCode)) } := by
  unfold keyboardInterruptHandler
  generalize
    Ps2Keyboard.toAscii k.keyStrings s.mem s.scanCode = c
  dsimp only
  by_cases hNone : c = 0
  · rw [if_neg (not_not_intro hNone), echo, if_pos hNone]
    rfl
  · rw [if_pos hNone, printk_char hPlaced hRounds, echo,
      if_neg hNone, Option.map_some, Option.map_some]

------------------------------------------------------------
-- Which Controllers Are Acknowledged
------------------------------------------------------------

/- The byte of a line of the master, with any slave. -/
theorem eoi_master
    {n : Nat}
    (hn : n < 8)
    (slave : Nat) :
    8 ≤ UInt8.ofNat (256 * slave + 2 ^ n + 255) ↔ 4 ≤ n := by
  rw [UInt8.le_iff_toNat_le, UInt8.toNat_ofNat']
  change 8 ≤ (256 * slave + 2 ^ n + 255) % 256 ↔ 4 ≤ n
  interval_cases n <;> omega

------------------------------------------------------------
-- What a Handler Leaves
------------------------------------------------------------

/-
  A handler is done: nothing is in service at the master, the
  lines in service at the slave and what was printed are
  given, and the rest is as before.
-/
structure Handled
    (s t : Machine)
    (inService : List Nat)
    (shown : List UInt8) : Prop where
  mem : t.mem = s.mem
  idtr : t.idtr = s.idtr
  scanCode : t.scanCode = s.scanCode
  programmed : s.pics.Programmed → t.pics.Programmed
  requests : t.pics.master.irr = s.pics.master.irr
  slaveRequests : t.pics.slave.irr = s.pics.slave.irr
  idle : t.pics.master.isr = 0
  inService : Lines.of t.pics.slave.isr = inService
  text : t.console.text = s.console.text ++ shown

theorem weight_of
    (r : UInt8) :
    weight (Lines.of r) = r.toNat := by
  have hAll : ∀ n : Fin 256,
      weight (Lines.of (UInt8.ofNat n)) =
        (UInt8.ofNat n).toNat := by
    decide +kernel
  have hByte := hAll ⟨r.toNat, r.toNat_lt⟩
  rwa [UInt8.ofNat_toNat] at hByte

theorem reading_programmed
    {p : Pics}
    (h : p.Programmed) :
    p.reading.Programmed where
  master :=
    ⟨h.master.expects, h.master.base, h.master.identity,
      h.master.mode⟩
  slave :=
    ⟨h.slave.expects, h.slave.base, h.slave.identity,
      h.slave.mode⟩

theorem irr_slave_picSendEoi
    (irq : UInt8)
    (p : Pics) :
    (picSendEoi irq p).slave.irr = p.slave.irr := by
  rw [picSendEoi_eq]
  dsimp only
  split
  · exact Controller.irr_endOfInterrupt _
  · rfl

/- The master's only line in service is acknowledged. -/
theorem isr_endOfInterrupt_of_bitMask
    {c : Controller}
    {n : Nat}
    (hn : n < 8)
    (hIsr : c.isr = bitMask n) :
    c.endOfInterrupt.isr = 0 := by
  rw [← Lines.of_eq_nil_iff, Controller.of_isr_endOfInterrupt,
    hIsr, Lines.of_bitMask hn, List.tail_cons]

/-
  The general handler with one line of the master in service,
  which may be the cascade line.
-/
theorem exceptionHandler_handles
    (hPlaced : Placed k s.mem)
    (hRounds : enoughRounds ≤ rounds)
    {n : Nat}
    (hn : n < 8)
    (hIsr : s.pics.master.isr = bitMask n) :
    ∃ t, exceptionHandler rounds garbage k s = some t ∧
      Handled s t
        (if 4 ≤ n then (Lines.of s.pics.slave.isr).tail
          else Lines.of s.pics.slave.isr)
        (message (256 * weight (Lines.of s.pics.slave.isr) +
          2 ^ n)) := by
  have hValue : inServiceValue s.pics =
      256 * s.pics.slave.isr.toNat + 2 ^ n := by
    unfold inServiceValue
    rw [hIsr, toNat_bitMask hn]
  rw [exceptionHandler_run hPlaced hRounds, hValue, weight_of]
  refine ⟨_, rfl, rfl, rfl, rfl, fun h =>
    (reading_programmed h).picSendEoi _, ?_, ?_, ?_, ?_,
    Console.text_print _ _⟩
  · rw [picSendEoi_eq]
    exact Controller.irr_endOfInterrupt _
  · exact irr_slave_picSendEoi _ _
  · rw [picSendEoi_eq]
    exact isr_endOfInterrupt_of_bitMask hn hIsr
  · rw [picSendEoi_eq]
    by_cases hUpper : 4 ≤ n
    · rw [if_pos ((eoi_master hn _).mpr hUpper),
        if_pos hUpper]
      exact Controller.of_isr_endOfInterrupt _
    · rw [if_neg fun h => hUpper ((eoi_master hn _).mp h),
        if_neg hUpper]
      rfl

/- The handler of the keyboard, with its line in service. -/
theorem keyboardInterruptHandler_handles
    (hPlaced : Placed k s.mem)
    (hRounds : enoughRounds ≤ rounds)
    (hIsr : s.pics.master.isr = bitMask 1) :
    ∃ t, keyboardInterruptHandler rounds garbage k s = some t ∧
      Handled s t (Lines.of s.pics.slave.isr)
        (echo (Ps2Keyboard.toAscii k.keyStrings s.mem
          s.scanCode)) := by
  rw [keyboardInterruptHandler_run hPlaced hRounds]
  refine ⟨_, rfl, rfl, rfl, rfl, fun h => h.picSendEoi _, ?_,
    irr_slave_picSendEoi _ _, ?_, rfl, Console.text_print _ _⟩
  · rw [picSendEoi_eq]
    exact Controller.irr_endOfInterrupt _
  · rw [picSendEoi_eq]
    exact isr_endOfInterrupt_of_bitMask (by decide) hIsr

end Handlers

end Interrupts

end Ester
