import Ester.Library.Lines

/-
  The interrupt controllers behind drivers/8259_pic.

  Two 8259 controllers are cascaded: the output of the slave
  is line 2 of the master.  A controller is programmed with
  up to four initialisation words, the first through the
  command port and the others, in order, through the data
  port; afterwards the data port is its mask.  The commands
  of the rotating modes, which the driver never sends, leave
  the controller as it is.  Reading a port has no effect.

  The processor acknowledges the most urgent request that no
  mask stops and that is more urgent than everything in
  service; the answer is a vector, and the line is in
  service until an end of interrupt.

  Key definitions include:
    * `Controller`, `Pics`
    * `picInit`, `picSendEoi`, `picGetIsr`
    * `Pics.acknowledge`

  Key theorems include:
    * `picInit_programmed`
    * `acknowledge_cases`
    * `acknowledge_of_request`
-/

namespace Ester

namespace Pic

------------------------------------------------------------
-- A Controller
------------------------------------------------------------

/- What the next write to the data port is taken for. -/
inductive Expects where
  | operation
  | icw2
  | icw3
  | icw4
deriving DecidableEq

/-
  The request, service and mask registers, the words of the
  initialisation, and which register a read of the command
  port gives.
-/
structure Controller where
  irr : UInt8
  isr : UInt8
  imr : UInt8
  icw1 : UInt8
  icw2 : UInt8
  icw3 : UInt8
  icw4 : UInt8
  readIsr : Bool
  expects : Expects

/- The bits of the initialisation words. -/
abbrev icw1Icw4 : UInt8 := 0x01

abbrev icw1Single : UInt8 := 0x02

abbrev icw1Init : UInt8 := 0x10

abbrev icw4Mode8086 : UInt8 := 0x01

abbrev icw4Auto : UInt8 := 0x02

/- The commands of the driver. -/
abbrev picReadIrr : UInt8 := 0x0A

abbrev picReadIsr : UInt8 := 0x0B

abbrev picEoiCmd : UInt8 := 0x20

namespace Controller

/- Take the most urgent line out of service. -/
def endOfInterrupt
    (c : Controller) : Controller :=
  match Lines.of c.isr with
  | [] => c
  | n :: _ => { c with isr := Lines.clear n c.isr }

/-
  A write to the command port: bit 4 starts an initialisation,
  bit 3 selects the register that is read.
-/
def writeCommand
    (v : UInt8)
    (c : Controller) : Controller :=
  if v &&& icw1Init ≠ 0 then
    { c with
      irr := 0
      isr := 0
      imr := 0
      icw1 := v
      icw4 := 0
      readIsr := false
      expects := .icw2 }
  else if v &&& 0x08 ≠ 0 then
    if v &&& 0x03 = 0x03 then { c with readIsr := true }
    else if v &&& 0x03 = 0x02 then { c with readIsr := false }
    else c
  else if v = picEoiCmd then c.endOfInterrupt
  else c

/- The word after the third, if there is one. -/
def afterIcw3
    (c : Controller) : Expects :=
  if c.icw1 &&& icw1Icw4 ≠ 0 then .icw4 else .operation

/- A write to the data port. -/
def writeData
    (v : UInt8)
    (c : Controller) : Controller :=
  match c.expects with
  | .operation => { c with imr := v }
  | .icw2 =>
      { c with
        icw2 := v
        expects :=
          if c.icw1 &&& icw1Single = 0 then .icw3
          else c.afterIcw3 }
  | .icw3 => { c with icw3 := v, expects := c.afterIcw3 }
  | .icw4 => { c with icw4 := v, expects := .operation }

/- A read of the command port. -/
def readCommand
    (c : Controller) : UInt8 :=
  if c.readIsr then c.isr else c.irr

/-
  The line that the controller asks to be served for, with
  the lines that are wired to further controllers.
-/
def output
    (wired : UInt8)
    (c : Controller) : Option Nat :=
  if c.expects = .operation then
    Lines.urgent ((c.irr ||| wired) &&& ~~~c.imr) c.isr
  else none

/- A line is acknowledged. -/
def accept
    (n : Nat)
    (c : Controller) : Controller :=
  { c with
    irr := Lines.clear n c.irr
    isr :=
      if c.icw4 &&& icw4Auto = 0 then c.isr ||| bitMask n
      else c.isr }

/- The vector of a line, which only the 8086 mode has. -/
def vector
    (n : Nat)
    (c : Controller) : Option UInt8 :=
  if c.icw4 &&& icw4Mode8086 = 0 then none
  else some ((c.icw2 &&& 0xF8) ||| UInt8.ofNat n)

/- A device raises a line. -/
def request
    (n : Nat)
    (c : Controller) : Controller :=
  { c with irr := c.irr ||| bitMask n }

end Controller

------------------------------------------------------------
-- Both Controllers
------------------------------------------------------------

structure Pics where
  master : Controller
  slave : Controller

/- The ports of the controllers. -/
abbrev pic1Cmd : UInt16 := 0x20

abbrev pic1Data : UInt16 := 0x21

abbrev pic2Cmd : UInt16 := 0xA0

abbrev pic2Data : UInt16 := 0xA1

/- The line of the master at which the slave is. -/
abbrev cascadeLine : Nat := 2

/- Write a byte to a port. -/
def outb
    (port : UInt16)
    (v : UInt8)
    (p : Pics) : Pics :=
  if port = pic1Cmd then
    { p with master := p.master.writeCommand v }
  else if port = pic1Data then
    { p with master := p.master.writeData v }
  else if port = pic2Cmd then
    { p with slave := p.slave.writeCommand v }
  else if port = pic2Data then
    { p with slave := p.slave.writeData v }
  else p

/- Read a byte from a port. -/
def inb
    (port : UInt16)
    (p : Pics) : UInt8 :=
  if port = pic1Cmd then p.master.readCommand
  else if port = pic1Data then p.master.imr
  else if port = pic2Cmd then p.slave.readCommand
  else if port = pic2Data then p.slave.imr
  else 0xFF

section Ports

variable (v : UInt8) (p : Pics)

@[simp] theorem outb_pic1Cmd :
    outb pic1Cmd v p =
      { p with master := p.master.writeCommand v } := rfl

@[simp] theorem outb_pic1Data :
    outb pic1Data v p =
      { p with master := p.master.writeData v } := rfl

@[simp] theorem outb_pic2Cmd :
    outb pic2Cmd v p =
      { p with slave := p.slave.writeCommand v } := rfl

@[simp] theorem outb_pic2Data :
    outb pic2Data v p =
      { p with slave := p.slave.writeData v } := rfl

@[simp] theorem inb_pic1Cmd :
    inb pic1Cmd p = p.master.readCommand := rfl

@[simp] theorem inb_pic1Data :
    inb pic1Data p = p.master.imr := rfl

@[simp] theorem inb_pic2Cmd :
    inb pic2Cmd p = p.slave.readCommand := rfl

@[simp] theorem inb_pic2Data :
    inb pic2Data p = p.slave.imr := rfl

end Ports

namespace Pics

/- What the slave puts on the lines of the master. -/
def wired
    (p : Pics) : UInt8 :=
  if (p.slave.output 0).isSome then bitMask cascadeLine else 0

/-
  The processor acknowledges an interrupt, if there is one
  with a vector.  On a line where the master knows of a slave
  the slave answers, if the line is its identity.
-/
def acknowledge
    (p : Pics) : Option (UInt8 × Pics) :=
  match p.master.output p.wired with
  | none => none
  | some n =>
      if p.master.icw3 &&& bitMask n = 0 then
        (p.master.vector n).map fun v =>
          (v, { p with master := p.master.accept n })
      else if p.slave.icw3 &&& 0x07 = UInt8.ofNat n then
        match p.slave.output 0 with
        | none => none
        | some k =>
            (p.slave.vector k).map fun v =>
              (v, { master := p.master.accept n
                    slave := p.slave.accept k })
      else none

end Pics

------------------------------------------------------------
-- Requests
------------------------------------------------------------

/- A line that a device may raise: all but the slave's. -/
def Irq :=
  { n : Nat // n < 16 ∧ n ≠ cascadeLine }

instance : DecidableEq Irq :=
  inferInstanceAs (DecidableEq
    { n : Nat // n < 16 ∧ n ≠ cascadeLine })

namespace Irq

/- The line at its controller. -/
def line
    (irq : Irq) : Nat :=
  irq.val % 8

/- The vector of a line. -/
def vector
    (irq : Irq) : UInt8 :=
  UInt8.ofNat (0x20 + irq.val)

theorem line_lt
    (irq : Irq) :
    irq.line < 8 :=
  Nat.mod_lt _ (by decide)

theorem toNat_vector
    (irq : Irq) :
    irq.vector.toNat = 0x20 + irq.val := by
  have hLt := irq.property.1
  rw [vector, UInt8.toNat_ofNat']
  omega

theorem vector_injective :
    Function.Injective vector := by
  intro a b h
  have hNat := congrArg UInt8.toNat h
  rw [toNat_vector, toNat_vector] at hNat
  exact Subtype.ext (by omega)

end Irq

/- A device raises its line. -/
def Pics.raise
    (irq : Irq)
    (p : Pics) : Pics :=
  if irq.val < 8 then
    { p with master := p.master.request irq.line }
  else { p with slave := p.slave.request irq.line }

------------------------------------------------------------
-- The Driver
------------------------------------------------------------

/- The registers of both, the slave's in the high byte. -/
def picGetIrqReg
    (ocw3 : UInt8)
    (p : Pics) : UInt16 × Pics :=
  let p := outb pic1Cmd ocw3 p
  let p := outb pic2Cmd ocw3 p
  ((inb pic2Cmd p).toUInt16 <<< 8 ||| (inb pic1Cmd p).toUInt16,
    p)

def picGetIrr
    (p : Pics) : UInt16 × Pics :=
  picGetIrqReg picReadIrr p

def picGetIsr
    (p : Pics) : UInt16 × Pics :=
  picGetIrqReg picReadIsr p

/- Disable the pic. -/
def picDisable
    (p : Pics) : Pics :=
  outb pic2Data 0xFF (outb pic1Data 0xFF p)

/- Initialize the pic. -/
def picInit
    (p : Pics) : Pics :=
  let a1 := inb pic1Data p
  let a2 := inb pic2Data p
  let p := outb pic1Cmd (icw1Init ||| icw1Icw4) p
  let p := outb pic2Cmd (icw1Init ||| icw1Icw4) p
  let p := outb pic1Data 0x20 p
  let p := outb pic2Data 0x28 p
  let p := outb pic1Data 4 p
  let p := outb pic2Data 2 p
  let p := outb pic1Data icw4Mode8086 p
  let p := outb pic2Data icw4Mode8086 p
  let p := outb pic1Data a1 p
  outb pic2Data a2 p

/- Send an end of interrupt. -/
def picSendEoi
    (irq : UInt8)
    (p : Pics) : Pics :=
  let p := if 8 ≤ irq then outb pic2Cmd picEoiCmd p else p
  outb pic1Cmd picEoiCmd p

------------------------------------------------------------
-- Programmed Controllers
------------------------------------------------------------

/- A controller after its initialisation words. -/
structure Controller.Programmed
    (base identity : UInt8)
    (c : Controller) : Prop where
  expects : c.expects = .operation
  base : c.icw2 = base
  identity : c.icw3 = identity
  mode : c.icw4 = icw4Mode8086

/-
  Both are programmed as `pic_init` does it: the vectors of
  the master start at 0x20 and those of the slave at 0x28,
  and the slave is at line 2.
-/
structure Pics.Programmed
    (p : Pics) : Prop where
  master : p.master.Programmed 0x20 4
  slave : p.slave.Programmed 0x28 2

namespace Controller

variable {base identity : UInt8} {c : Controller}

/- What an initialisation leaves of a controller. -/
def initialised
    (base identity mask : UInt8) : Controller where
  irr := 0
  isr := 0
  imr := mask
  icw1 := icw1Init ||| icw1Icw4
  icw2 := base
  icw3 := identity
  icw4 := icw4Mode8086
  readIsr := false
  expects := .operation

/- The four words and the mask, from every state. -/
theorem initialise
    (c : Controller)
    (base identity mask : UInt8) :
    ((((c.writeCommand (icw1Init ||| icw1Icw4)).writeData
      base).writeData identity).writeData
        icw4Mode8086).writeData mask =
      .initialised base identity mask := by
  have hWord : c.writeCommand (icw1Init ||| icw1Icw4) =
      { c with
        irr := 0
        isr := 0
        imr := 0
        icw1 := icw1Init ||| icw1Icw4
        icw4 := 0
        readIsr := false
        expects := .icw2 } := if_pos (by decide)
  have hCascaded :
      (icw1Init ||| icw1Icw4) &&& icw1Single = 0 := by decide
  have hFourth :
      (icw1Init ||| icw1Icw4) &&& icw1Icw4 ≠ 0 := by decide
  simp only [hWord, writeData, afterIcw3, if_pos hCascaded,
    if_pos hFourth, initialised]

theorem Programmed.endOfInterrupt
    (h : c.Programmed base identity) :
    c.endOfInterrupt.Programmed base identity := by
  unfold Controller.endOfInterrupt
  cases Lines.of c.isr with
  | nil => exact h
  | cons n ns => exact ⟨h.expects, h.base, h.identity, h.mode⟩

/- Only an initialisation word ends the operation. -/
theorem Programmed.writeCommand
    {v : UInt8}
    (h : c.Programmed base identity)
    (hWord : v &&& icw1Init = 0) :
    (c.writeCommand v).Programmed base identity := by
  have hKept : ∀ b, ({ c with readIsr := b }).Programmed
      base identity :=
    fun _ => ⟨h.expects, h.base, h.identity, h.mode⟩
  unfold Controller.writeCommand
  rw [if_neg (not_not_intro hWord)]
  split
  · split
    · exact hKept true
    · split
      · exact hKept false
      · exact h
  · split
    · exact h.endOfInterrupt
    · exact h

/- In operation the data port is the mask. -/
theorem Programmed.writeData
    (h : c.Programmed base identity)
    (v : UInt8) :
    c.writeData v = { c with imr := v } := by
  rw [Controller.writeData, h.expects]

theorem Programmed.withMask
    (h : c.Programmed base identity)
    (v : UInt8) :
    ({ c with imr := v }).Programmed base identity :=
  ⟨h.expects, h.base, h.identity, h.mode⟩

theorem Programmed.accept
    (h : c.Programmed base identity)
    (n : Nat) :
    (c.accept n).Programmed base identity :=
  ⟨h.expects, h.base, h.identity, h.mode⟩

theorem Programmed.request
    (h : c.Programmed base identity)
    (n : Nat) :
    (c.request n).Programmed base identity :=
  ⟨h.expects, h.base, h.identity, h.mode⟩

/- No end of interrupt is automatic. -/
theorem Programmed.isr_accept
    (h : c.Programmed base identity)
    (n : Nat) :
    (c.accept n).isr = c.isr ||| bitMask n := by
  change (if c.icw4 &&& icw4Auto = 0 then _ else _) = _
  rw [h.mode]
  rfl

theorem Programmed.output_eq
    (h : c.Programmed base identity)
    (wired : UInt8) :
    c.output wired =
      Lines.urgent ((c.irr ||| wired) &&& ~~~c.imr) c.isr :=
  if_pos h.expects

theorem Programmed.vector_eq
    (h : c.Programmed base identity)
    (n : Nat) :
    c.vector n = some ((base &&& 0xF8) ||| UInt8.ofNat n) := by
  unfold Controller.vector
  rw [h.mode, h.base]
  rfl

end Controller

/-
  The initialisation works from every state of the two
  controllers, also in the middle of another one, and keeps
  their masks.
-/
theorem picInit_eq
    (p : Pics) :
    picInit p =
      { master := .initialised 0x20 4 p.master.imr
        slave := .initialised 0x28 2 p.slave.imr } := by
  simp only [picInit, outb_pic1Cmd, outb_pic1Data,
    outb_pic2Cmd, outb_pic2Data, inb_pic1Data, inb_pic2Data,
    Controller.initialise]

/- Nothing is requested and nothing in service. -/
theorem picInit_quiet
    (p : Pics) :
    (picInit p).master.irr = 0 ∧ (picInit p).master.isr = 0 ∧
      (picInit p).slave.irr = 0 ∧
      (picInit p).slave.isr = 0 := by
  rw [picInit_eq]
  exact ⟨rfl, rfl, rfl, rfl⟩

theorem Pics.Programmed.raise
    {p : Pics}
    (h : p.Programmed)
    (irq : Irq) :
    (p.raise irq).Programmed := by
  unfold Pics.raise
  split
  · exact ⟨h.master.request _, h.slave⟩
  · exact ⟨h.master, h.slave.request _⟩

theorem picInit_programmed
    (p : Pics) :
    (picInit p).Programmed := by
  rw [picInit_eq]
  exact ⟨⟨rfl, rfl, rfl, rfl⟩, ⟨rfl, rfl, rfl, rfl⟩⟩

namespace Pics

variable {p : Pics}

theorem Programmed.picSendEoi
    (h : p.Programmed)
    (irq : UInt8) :
    (Pic.picSendEoi irq p).Programmed := by
  have hMaster := h.master.writeCommand
    (show picEoiCmd &&& icw1Init = 0 from rfl)
  have hSlave := h.slave.writeCommand
    (show picEoiCmd &&& icw1Init = 0 from rfl)
  unfold Pic.picSendEoi
  by_cases hIrq : 8 ≤ irq
  · rw [if_pos hIrq]
    exact ⟨hMaster, hSlave⟩
  · rw [if_neg hIrq]
    exact ⟨hMaster, h.slave⟩

theorem Programmed.picGetIrqReg
    (h : p.Programmed)
    {ocw3 : UInt8}
    (hWord : ocw3 &&& icw1Init = 0) :
    (Pic.picGetIrqReg ocw3 p).2.Programmed :=
  ⟨h.master.writeCommand hWord, h.slave.writeCommand hWord⟩

theorem Programmed.picDisable_eq
    (h : p.Programmed) :
    Pic.picDisable p =
      { master := { p.master with imr := 0xFF }
        slave := { p.slave with imr := 0xFF } } := by
  change Pics.mk (p.master.writeData 0xFF)
    (p.slave.writeData 0xFF) = _
  rw [h.master.writeData, h.slave.writeData]

/- The line of the slave that the master sees. -/
theorem mem_wired
    {n : Nat} :
    n ∈ Lines.of p.wired ↔
      n = cascadeLine ∧ (p.slave.output 0).isSome := by
  unfold wired
  by_cases hSlave : (p.slave.output 0).isSome
  · rw [if_pos hSlave, Lines.mem_of_bitMask (by decide)]
    simp [hSlave]
  · rw [if_neg hSlave]
    simp [hSlave]

/-
  What an acknowledged interrupt is: a request of a line of
  the master, or of a line of the slave, that no mask stops
  and that is more urgent than what is in service; it is in
  service afterwards, and its vector tells the line.
-/
inductive Acknowledged
    (p : Pics) : UInt8 → Pics → Prop
  | master
      (n : Nat)
      (hLine : n ≠ cascadeLine)
      (hRequested : n ∈ Lines.of p.master.irr)
      (hUnmasked : n ∉ Lines.of p.master.imr)
      (hUrgent : ∀ m ∈ Lines.of p.master.isr, n < m)
      (hLeast : ∀ m ∈ Lines.of p.master.irr,
        m ∉ Lines.of p.master.imr → n ≤ m) :
      Acknowledged p (0x20 ||| UInt8.ofNat n)
        { p with master := p.master.accept n }
  | slave
      (k : Nat)
      (hRequested : k ∈ Lines.of p.slave.irr)
      (hUnmasked : k ∉ Lines.of p.slave.imr)
      (hUrgent : ∀ m ∈ Lines.of p.slave.isr, k < m)
      (hOpen : cascadeLine ∉ Lines.of p.master.imr)
      (hCascade :
        ∀ m ∈ Lines.of p.master.isr, cascadeLine < m)
      (hLeast : ∀ m ∈ Lines.of p.master.irr,
        m ∉ Lines.of p.master.imr → cascadeLine ≤ m) :
      Acknowledged p (0x28 ||| UInt8.ofNat k)
        { master := p.master.accept cascadeLine
          slave := p.slave.accept k }

/- Only the cascade line has a slave. -/
theorem four_and_bitMask
    {n : Nat}
    (hn : n < 8)
    (hLine : n ≠ cascadeLine) :
    (4 : UInt8) &&& bitMask n = 0 := by
  rw [and_bitMask_eq_zero_iff _ hn,
    show (4 : UInt8).toNat = 2 ^ cascadeLine from rfl,
    Nat.testBit_two_pow]
  exact decide_eq_false (Ne.symm hLine)

theorem slave_of_output
    {k : Nat}
    (h : p.Programmed)
    (hOut : p.slave.output 0 = some k) :
    k ∈ Lines.of p.slave.irr ∧ k ∉ Lines.of p.slave.imr ∧
      ∀ m ∈ Lines.of p.slave.isr, k < m := by
  rw [h.slave.output_eq, Lines.urgent_eq_some_iff,
    Lines.mem_of_and_not, Lines.mem_of_or] at hOut
  rcases hOut with ⟨⟨hIrr | hNone, hImr⟩, -, hIsr⟩
  · exact ⟨hIrr, hImr, hIsr⟩
  · simp at hNone

theorem acknowledge_cases
    {v : UInt8}
    {q : Pics}
    (h : p.Programmed)
    (hAck : p.acknowledge = some (v, q)) :
    Acknowledged p v q := by
  unfold acknowledge at hAck
  cases hOut : p.master.output p.wired with
  | none => simp [hOut] at hAck
  | some n =>
      simp only [hOut, h.master.identity, h.slave.identity]
        at hAck
      rw [h.master.output_eq, Lines.urgent_eq_some_iff,
        Lines.mem_of_and_not, Lines.mem_of_or] at hOut
      rcases hOut with ⟨⟨hRequest, hImr⟩, hLeast, hIsr⟩
      have hFirst : ∀ m ∈ Lines.of p.master.irr,
          m ∉ Lines.of p.master.imr → n ≤ m := by
        intro m hm hMask
        refine hLeast m ?_
        rw [Lines.mem_of_and_not, Lines.mem_of_or]
        exact ⟨.inl hm, hMask⟩
      by_cases hLine : n = cascadeLine
      · subst hLine
        rw [if_neg (by decide), if_pos (by decide)] at hAck
        cases hSlave : p.slave.output 0 with
        | none => simp [hSlave] at hAck
        | some k =>
            rcases slave_of_output h hSlave with
              ⟨hIrr, hMask, hAbove⟩
            simp only [hSlave, h.slave.vector_eq,
              Option.map_some, Option.some.injEq,
              Prod.mk.injEq] at hAck
            rcases hAck with ⟨rfl, rfl⟩
            exact .slave k hIrr hMask hAbove hImr hIsr hFirst
      · have hn : n < 8 := by
          rcases hRequest with hIrr | hWired
          · exact Lines.lt_of_mem hIrr
          · exact Lines.lt_of_mem hWired
        have hIrr : n ∈ Lines.of p.master.irr := by
          rcases hRequest with hIrr | hWired
          · exact hIrr
          · exact absurd (mem_wired.mp hWired).1 hLine
        rw [if_pos (four_and_bitMask hn hLine), h.master.vector_eq, Option.map_some,
          Option.some.injEq, Prod.mk.injEq] at hAck
        rcases hAck with ⟨rfl, rfl⟩
        exact .master n hLine hIrr hImr hIsr hFirst

/- An idle master lets an unmasked request be acknowledged. -/
theorem acknowledge_of_request
    {n : Nat}
    (h : p.Programmed)
    (hIdle : p.master.isr = 0)
    (hCascade : cascadeLine ∉ Lines.of p.master.irr)
    (hRequested : n ∈ Lines.of p.master.irr)
    (hUnmasked : n ∉ Lines.of p.master.imr) :
    ∃ v q, p.acknowledge = some (v, q) := by
  have hIn : n ∈ Lines.of
      ((p.master.irr ||| p.wired) &&& ~~~p.master.imr) := by
    rw [Lines.mem_of_and_not, Lines.mem_of_or]
    exact ⟨.inl hRequested, hUnmasked⟩
  unfold acknowledge
  cases hOut : p.master.output p.wired with
  | none =>
      rw [h.master.output_eq, hIdle, Lines.urgent_eq_none_iff]
        at hOut
      rw [hOut] at hIn
      exact absurd hIn List.not_mem_nil
  | some j =>
      rw [h.master.output_eq, Lines.urgent_eq_some_iff,
        Lines.mem_of_and_not, Lines.mem_of_or] at hOut
      rcases hOut with ⟨⟨hMem, -⟩, -, -⟩
      simp only [h.master.identity, h.slave.identity]
      by_cases hLine : j = cascadeLine
      · subst hLine
        have hSlave : (p.slave.output 0).isSome := by
          rcases hMem with hIrr | hWired
          · exact absurd hIrr hCascade
          · exact (mem_wired.mp hWired).2
        rcases Option.isSome_iff_exists.mp hSlave with
          ⟨i, hSlave⟩
        rw [if_neg (by decide), if_pos (by decide)]
        simp only [hSlave, h.slave.vector_eq, Option.map_some]
        exact ⟨_, _, rfl⟩
      · have hj : j < 8 := by
          rcases hMem with hIrr | hWired
          · exact Lines.lt_of_mem hIrr
          · exact Lines.lt_of_mem hWired
        rw [if_pos (four_and_bitMask hj hLine),
          h.master.vector_eq, Option.map_some]
        exact ⟨_, _, rfl⟩

theorem Acknowledged.programmed
    {v : UInt8}
    {q : Pics}
    (hAck : Acknowledged p v q)
    (h : p.Programmed) :
    q.Programmed := by
  cases hAck with
  | master n => exact ⟨h.master.accept n, h.slave⟩
  | slave k => exact ⟨h.master.accept _, h.slave.accept k⟩

end Pics

------------------------------------------------------------
-- What the Driver Does
------------------------------------------------------------

namespace Controller

/- An end of interrupt pops the lines in service. -/
theorem of_isr_endOfInterrupt
    (c : Controller) :
    Lines.of c.endOfInterrupt.isr = (Lines.of c.isr).tail := by
  unfold endOfInterrupt
  cases hLines : Lines.of c.isr with
  | nil => exact hLines
  | cons n ns => exact Lines.of_clear_first hLines

theorem irr_endOfInterrupt
    (c : Controller) :
    c.endOfInterrupt.irr = c.irr := by
  unfold endOfInterrupt
  cases Lines.of c.isr with
  | nil => rfl
  | cons n ns => rfl

theorem writeCommand_readIsr
    (c : Controller) :
    c.writeCommand picReadIsr = { c with readIsr := true } := rfl

end Controller

/- Both controllers give their service registers. -/
def Pics.reading
    (p : Pics) : Pics where
  master := { p.master with readIsr := true }
  slave := { p.slave with readIsr := true }

theorem picGetIsr_eq
    (p : Pics) :
    picGetIsr p =
      (p.slave.isr.toUInt16 <<< 8 ||| p.master.isr.toUInt16,
        p.reading) := by
  simp only [picGetIsr, picGetIrqReg, outb_pic1Cmd,
    outb_pic2Cmd, inb_pic1Cmd, inb_pic2Cmd,
    Controller.writeCommand_readIsr]
  rfl

theorem toNat_picGetIsr
    (p : Pics) :
    (picGetIsr p).1.toNat =
      256 * p.slave.isr.toNat + p.master.isr.toNat := by
  have hSlave := p.slave.isr.toNat_lt
  have hMaster := p.master.isr.toNat_lt
  have hSum := Nat.two_pow_add_eq_or_of_lt hMaster
    p.slave.isr.toNat
  have hSize : (2 : Nat) ^ 16 = 65536 := rfl
  have hShift :
      (p.slave.isr.toUInt16 <<< 8 : UInt16).toNat =
        2 ^ 8 * p.slave.isr.toNat := by
    rw [UInt16.toNat_shiftLeft, UInt8.toNat_toUInt16,
      Nat.shiftLeft_eq]
    change p.slave.isr.toNat * 2 ^ 8 % 2 ^ 16 = _
    omega
  rw [picGetIsr_eq, UInt16.toNat_or, hShift,
    UInt8.toNat_toUInt16, ← hSum]

/- Both are acknowledged for lines from 8 on. -/
theorem picSendEoi_eq
    (irq : UInt8)
    (p : Pics) :
    picSendEoi irq p =
      { master := p.master.endOfInterrupt
        slave :=
          if 8 ≤ irq then p.slave.endOfInterrupt
          else p.slave } := by
  unfold picSendEoi
  by_cases hIrq : 8 ≤ irq
  · rw [if_pos hIrq, if_pos hIrq]
    rfl
  · rw [if_neg hIrq, if_neg hIrq]
    rfl

end Pic

end Ester
