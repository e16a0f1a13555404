import Ester.Kernel.Interrupts.Handlers

/-
  Runs of the kernel under interrupts.

  Key definitions include:
    * `Installed`
    * `Ready`
    * `Shown`

  Key theorems include:
    * `step_serves`
    * `run_refines`
-/

namespace Ester

namespace Interrupts

open Pic

------------------------------------------------------------
-- What Boot Has Set Up
------------------------------------------------------------

/- The calls that have set descriptors after `idt_init`. -/
def registrations
    (k : Symbols)
    (registered : Bool) : List Idt.SetCall :=
  if registered then
    [⟨Ps2Keyboard.intVectorAbsolute, k.keyboardHandler,
      Idt.interruptGate⟩]
  else []

/- The memory with the table and the strings. -/
structure Installed
    (k : Symbols)
    (registered : Bool)
    (m : Memory) : Prop where
  handlers :
    ∀ v, v ≠ 255 →
      Idt.target (Idt.idtrInit k.idt) m v =
        Idt.handlersAfter (registrations k registered)
          (Idt.stubs k.isrStubTable 47) v
  placed : Placed k m

/-
  What every event keeps.  No device is at the line of the
  slave.
-/
structure Ready
    (k : Symbols)
    (m : Memory)
    (s : Machine) : Prop where
  mem : s.mem = m
  table : s.idtr = Idt.idtrInit k.idt
  programmed : s.pics.Programmed
  cascade : cascadeLine ∉ Lines.of s.pics.master.irr

/- A machine between two events, as a view. -/
structure Shown
    (s : Machine)
    (a : View) : Prop where
  idle : s.pics.master.isr = 0
  inService : Lines.of s.pics.slave.isr = a.inService
  scanCode : s.scanCode = a.scanCode
  text : s.console.text = a.text

/- A machine between events, without a fault so far. -/
structure Running
    (k : Symbols)
    (m : Memory)
    (s : Machine) : Prop where
  ready : Ready k m s
  idle : s.pics.master.isr = 0
  served : ∀ n ∈ Lines.of s.pics.slave.isr, n < 7

/- The view that shows a machine. -/
def Machine.view
    (s : Machine) : View where
  inService := Lines.of s.pics.slave.isr
  scanCode := s.scanCode
  text := s.console.text

------------------------------------------------------------
-- Vectors and Gates
------------------------------------------------------------

theorem toNat_masterVector
    {n : Nat}
    (hn : n < 8) :
    (0x20 ||| UInt8.ofNat n).toNat = 0x20 + n := by
  interval_cases n <;> rfl

theorem toNat_slaveVector
    {n : Nat}
    (hn : n < 8) :
    (0x28 ||| UInt8.ofNat n).toNat = 0x28 + n := by
  interval_cases n <;> rfl

section Gates

variable {k : Symbols} {registered : Bool} {m : Memory}

/- The gate of a vector behind the exceptions. -/
theorem target_of_installed
    (hInstalled : Installed k registered m)
    {v : UInt8}
    (hv : v.toNat < 48) :
    Idt.target (Idt.idtrInit k.idt) m v =
      if registered ∧ v.toNat = 33 then some k.keyboardHandler
      else if v.toNat < 47 then
        some (k.isrStubTable v.toNat)
      else none := by
  have hLast : v ≠ 255 := by
    rintro rfl
    exact absurd hv (by decide)
  have hKeyboard : v = Ps2Keyboard.intVectorAbsolute ↔
      v.toNat = 33 := by
    rw [← UInt8.toNat_inj]
    rfl
  have hGate : Idt.handlerOf k.keyboardHandler
      Idt.interruptGate = some k.keyboardHandler :=
    if_pos (by decide)
  rw [hInstalled.handlers v hLast]
  unfold registrations
  cases registered with
  | true =>
      change Function.update (Idt.stubs k.isrStubTable 47)
        Ps2Keyboard.intVectorAbsolute (Idt.handlerOf _ _) v = _
      rw [Function.update_apply, hGate, Idt.stubs]
      simp only [hKeyboard, true_and]
  | false =>
      rw [if_neg Bool.false_ne_true, if_neg (by simp)]
      rfl

end Gates

section Enter

variable {rounds : Nat}
variable {garbage : UInt32 → ByteBuffer intMaxDigits}
variable {k : Symbols} {s : Machine}

theorem enter_keyboard :
    enter rounds garbage k k.keyboardHandler s =
      keyboardInterruptHandler rounds garbage k s :=
  if_pos rfl

theorem enter_stub
    {i : Nat}
    (hi : i < 47) :
    enter rounds garbage k (k.isrStubTable i) s =
      exceptionHandler rounds garbage k s := by
  unfold enter
  rw [if_neg (k.distinct i hi), if_pos]
  rw [List.any_eq_true]
  exact ⟨i, List.mem_range.mpr hi, beq_self_eq_true _⟩

end Enter

------------------------------------------------------------
-- Serving
------------------------------------------------------------

/- What the keyboard types into the console. -/
def typed
    (k : Symbols)
    (m : Memory)
    (scanCode : UInt8) : UInt8 :=
  Ps2Keyboard.toAscii k.keyStrings m scanCode

section Serve

variable {rounds : Nat}
variable {garbage : UInt32 → ByteBuffer intMaxDigits}
variable {k : Symbols} {registered : Bool} {m : Memory}
variable {s : Machine}

/- A line of the master is served. -/
theorem serve_master
    (hInstalled : Installed k registered m)
    (hRounds : enoughRounds ≤ rounds)
    (hMem : s.mem = m)
    (hTable : s.idtr = Idt.idtrInit k.idt)
    {n : Nat}
    (hn : n < 8)
    (hIsr : s.pics.master.isr = bitMask n) :
    ∃ t, serve rounds garbage k (0x20 ||| UInt8.ofNat n) s =
        some t ∧
      if registered ∧ n = 1 then
        Handled s t (Lines.of s.pics.slave.isr)
          (echo (typed k m s.scanCode))
      else
        Handled s t
          (if 4 ≤ n then (Lines.of s.pics.slave.isr).tail
            else Lines.of s.pics.slave.isr)
          (message (256 * weight (Lines.of s.pics.slave.isr) +
            2 ^ n)) := by
  subst hMem
  have hVector := toNat_masterVector hn
  have hTarget := target_of_installed hInstalled
    (v := 0x20 ||| UInt8.ofNat n) (by omega)
  have hLine : 0x20 + n = 33 ↔ n = 1 := by omega
  rw [hVector] at hTarget
  unfold serve
  rw [hTable, hTarget]
  by_cases hKeyboard : registered ∧ n = 1
  · have hGate : registered = true ∧ 0x20 + n = 33 :=
      ⟨hKeyboard.1, hLine.mpr hKeyboard.2⟩
    rw [if_pos hGate]
    simp only [if_pos hKeyboard, enter_keyboard]
    exact keyboardInterruptHandler_handles hInstalled.placed
      hRounds (hKeyboard.2 ▸ hIsr)
  · have hStub : 0x20 + n < 47 := by omega
    have hGate : ¬ (registered = true ∧ 0x20 + n = 33) :=
      fun h => hKeyboard ⟨h.1, hLine.mp h.2⟩
    rw [if_neg hGate, if_pos hStub]
    simp only [if_neg hKeyboard, enter_stub hStub]
    exact exceptionHandler_handles hInstalled.placed hRounds hn
      hIsr

/- A line of the slave but the last is served. -/
theorem serve_slave
    (hInstalled : Installed k registered m)
    (hRounds : enoughRounds ≤ rounds)
    (hMem : s.mem = m)
    (hTable : s.idtr = Idt.idtrInit k.idt)
    {n : Nat}
    (hn : n < 7)
    (hIsr : s.pics.master.isr = bitMask cascadeLine) :
    ∃ t, serve rounds garbage k (0x28 ||| UInt8.ofNat n) s =
        some t ∧
      Handled s t (Lines.of s.pics.slave.isr)
        (message (256 * weight (Lines.of s.pics.slave.isr) +
          4)) := by
  subst hMem
  have hVector := toNat_slaveVector (show n < 8 by omega)
  have hTarget := target_of_installed hInstalled
    (v := 0x28 ||| UInt8.ofNat n) (by omega)
  have hStub : 0x28 + n < 47 := by omega
  have hOther : ¬ (registered = true ∧ 0x28 + n = 33) := by
    omega
  rw [hVector, if_neg hOther, if_pos hStub] at hTarget
  unfold serve
  rw [hTable, hTarget]
  simp only [enter_stub hStub]
  exact exceptionHandler_handles hInstalled.placed hRounds
    (show cascadeLine < 8 by decide) hIsr

/- The last line of the slave has no gate. -/
theorem serve_last
    (hInstalled : Installed k registered m)
    (hMem : s.mem = m)
    (hTable : s.idtr = Idt.idtrInit k.idt) :
    serve rounds garbage k (0x28 ||| UInt8.ofNat 7) s = none := by
  subst hMem
  have hTarget := target_of_installed hInstalled
    (v := 0x28 ||| UInt8.ofNat 7) (by decide)
  have hVector := toNat_slaveVector (show 7 < 8 by decide)
  rw [hVector, if_neg (by simp), if_neg (by simp)] at hTarget
  unfold serve
  rw [hTable, hTarget]

end Serve

------------------------------------------------------------
-- One Event
------------------------------------------------------------

/-
  The vectors that a view lets be served: those of the master
  and, of the slave, those above everything in service; not
  the last one, which has no gate.
-/
def View.Takes
    (a : View)
    (v : UInt8) : Prop :=
  0x20 ≤ v.toNat ∧ v.toNat < 0x2F ∧
    (0x28 ≤ v.toNat →
      ∀ m ∈ a.inService, v.toNat - 0x28 < m)

section Step

variable {rounds : Nat}
variable {garbage : UInt32 → ByteBuffer intMaxDigits}
variable {k : Symbols} {registered : Bool} {m : Memory}
variable {s t : Machine} {a : View}

theorem cascade_raise
    {p : Pics}
    (h : cascadeLine ∉ Lines.of p.master.irr)
    (irq : Irq) :
    cascadeLine ∉ Lines.of (p.raise irq).master.irr := by
  unfold Pics.raise
  split
  · next hLow =>
      have hLine : irq.line = irq.val := Nat.mod_eq_of_lt hLow
      change cascadeLine ∉
        Lines.of (p.master.irr ||| bitMask irq.line)
      rw [Lines.mem_of_or, Lines.mem_of_bitMask irq.line_lt,
        hLine]
      exact not_or.mpr ⟨h, fun hEq => irq.property.2 hEq.symm⟩
  · exact h

/- Acknowledging clears requests only. -/
theorem cascade_acknowledged
    {p q : Pics}
    {v : UInt8}
    (hAck : p.Acknowledged v q)
    (h : cascadeLine ∉ Lines.of p.master.irr) :
    cascadeLine ∉ Lines.of q.master.irr := by
  have hClear : ∀ n, n < 8 →
      cascadeLine ∉ Lines.of (Lines.clear n p.master.irr) := by
    intro n hn
    rw [Lines.mem_of_clear hn]
    exact fun hIn => h hIn.1
  cases hAck with
  | master n hLine hRequested =>
      exact hClear n (Lines.lt_of_mem hRequested)
  | slave n => exact hClear cascadeLine (by decide)

theorem isr_raise
    (irq : Irq)
    (p : Pics) :
    (p.raise irq).master.isr = p.master.isr ∧
      (p.raise irq).slave.isr = p.slave.isr := by
  unfold Pics.raise
  split
  · exact ⟨rfl, rfl⟩
  · exact ⟨rfl, rfl⟩

/- The only line in service at the master after it was idle. -/
theorem isr_accept_of_idle
    {c : Controller}
    {base identity : UInt8}
    (h : c.Programmed base identity)
    (hIdle : c.isr = 0)
    (n : Nat) :
    (c.accept n).isr = bitMask n := by
  rw [h.isr_accept, hIdle, UInt8.zero_or]

/- What is left of a handled machine. -/
theorem Handled.ready
    {inService : List Nat}
    {shown : List UInt8}
    (h : Handled s t inService shown)
    (hReady : Ready k m s) :
    Ready k m t where
  mem := h.mem.trans hReady.mem
  table := h.idtr.trans hReady.table
  programmed := h.programmed hReady.programmed
  cascade := by
    rw [h.requests]
    exact hReady.cascade

theorem Handled.shown
    {inService : List Nat}
    {shown : List UInt8}
    (h : Handled s t inService shown)
    (hCode : s.scanCode = a.scanCode)
    (hText : s.console.text = a.text) :
    Shown t
      { a with
        inService := inService
        text := a.text ++ shown } where
  idle := h.idle
  inService := h.inService
  scanCode := h.scanCode.trans hCode
  text := by rw [h.text, hText]

/- An interrupt that is taken. -/
theorem interrupt_serves
    (hInstalled : Installed k registered m)
    (hRounds : enoughRounds ≤ rounds)
    (hReady : Ready k m s)
    (hShown : Shown s a)
    {v : UInt8}
    {pics : Pics}
    (hAck : s.pics.Acknowledged v pics)
    (hServe :
      serve rounds garbage k v { s with pics := pics } =
        some t) :
    Ready k m t ∧
      Shown t (a.served registered (typed k m) v) ∧
      a.Takes v ∧
      t.pics.slave.irr = pics.slave.irr := by
  have hProgrammed := hAck.programmed hReady.programmed
  have hReady' : Ready k m { s with pics := pics } :=
    ⟨hReady.mem, hReady.table, hProgrammed,
      cascade_acknowledged hAck hReady.cascade⟩
  cases hAck with
  | master n hLine hRequested =>
      have hn := Lines.lt_of_mem hRequested
      have hVector := toNat_masterVector hn
      have hIsr := isr_accept_of_idle hReady.programmed.master
        hShown.idle n
      rcases @serve_master rounds garbage k registered m _
        hInstalled hRounds hReady'.mem hReady'.table n hn hIsr
        with ⟨u, hServed, hHandled⟩
      rw [hServed] at hServe
      cases hServe
      have hTakes : a.Takes (0x20 ||| UInt8.ofNat n) := by
        unfold View.Takes
        rw [hVector]
        omega
      unfold View.served
      rw [hVector, Nat.add_sub_cancel_left]
      by_cases hKeyboard : registered = true ∧ n = 1
      · rw [if_pos hKeyboard] at hHandled
        dsimp only
        rw [if_pos hKeyboard]
        have hAfter := hHandled.shown hShown.scanCode
          hShown.text
        dsimp only at hAfter
        rw [hShown.inService, hShown.scanCode] at hAfter
        exact ⟨hHandled.ready hReady', hAfter, hTakes,
          hHandled.slaveRequests⟩
      · rw [if_neg hKeyboard] at hHandled
        dsimp only
        rw [if_neg hKeyboard, if_pos hn]
        have hAfter := hHandled.shown hShown.scanCode
          hShown.text
        dsimp only at hAfter
        rw [hShown.inService] at hAfter
        exact ⟨hHandled.ready hReady', hAfter, hTakes,
          hHandled.slaveRequests⟩
  | slave n hRequested hUnmasked hUrgent =>
      have hn := Lines.lt_of_mem hRequested
      have hVector := toNat_slaveVector hn
      have hIsr := isr_accept_of_idle hReady.programmed.master
        hShown.idle cascadeLine
      rcases Nat.lt_or_eq_of_le (Nat.le_of_lt_succ hn)
        with hLow | rfl
      · rcases @serve_slave rounds garbage k registered m _
          hInstalled hRounds hReady'.mem hReady'.table n hLow
          hIsr with ⟨u, hServed, hHandled⟩
        rw [hServed] at hServe
        cases hServe
        have hPushed : Lines.of (s.pics.slave.accept n).isr =
            n :: a.inService := by
          rw [hReady.programmed.slave.isr_accept,
            Lines.of_set_first hn hUrgent, hShown.inService]
        have hAfter := hHandled.shown hShown.scanCode
          hShown.text
        dsimp only at hAfter
        rw [hPushed] at hAfter
        have hTakes : a.Takes (0x28 ||| UInt8.ofNat n) := by
          unfold View.Takes
          rw [hVector, Nat.add_sub_cancel_left,
            ← hShown.inService]
          exact ⟨by omega, by omega, fun _ => hUrgent⟩
        unfold View.served
        rw [hVector, show 0x28 + n - 0x20 = 8 + n by omega]
        dsimp only
        rw [if_neg (by omega), if_neg (by omega),
          Nat.add_sub_cancel_left]
        exact ⟨hHandled.ready hReady', hAfter, hTakes,
          hHandled.slaveRequests⟩
      · rw [serve_last hInstalled hReady'.mem hReady'.table]
          at hServe
        cases hServe

/- Every event is followed by the view. -/
theorem step_serves
    (hInstalled : Installed k registered m)
    (hRounds : enoughRounds ≤ rounds)
    (hReady : Ready k m s)
    (hShown : Shown s a)
    {e : Event}
    {o : Answer}
    (hStep : Machine.step rounds garbage k e s = some (o, t)) :
    Ready k m t ∧
      Shown t (a.step registered (typed k m) (e, o)) ∧
      ∀ v, o = .served v → e = .interrupt ∧ a.Takes v := by
  cases e with
  | raise irq =>
      cases hStep
      have hKept := isr_raise irq s.pics
      exact ⟨⟨hReady.mem, hReady.table,
          hReady.programmed.raise irq,
          cascade_raise hReady.cascade irq⟩,
        ⟨hKept.1.trans hShown.idle,
          (congrArg Lines.of hKept.2).trans hShown.inService,
          hShown.scanCode, hShown.text⟩,
        fun _ hServed => absurd hServed (by simp)⟩
  | key scanCode =>
      cases hStep
      have hKept := isr_raise keyboardIrq s.pics
      exact ⟨⟨hReady.mem, hReady.table,
          hReady.programmed.raise keyboardIrq,
          cascade_raise hReady.cascade keyboardIrq⟩,
        ⟨hKept.1.trans hShown.idle,
          (congrArg Lines.of hKept.2).trans hShown.inService,
          rfl, hShown.text⟩,
        fun _ hServed => absurd hServed (by simp)⟩
  | interrupt =>
      unfold Machine.step at hStep
      cases hAck : s.pics.acknowledge with
      | none =>
          simp only [hAck, Option.some.injEq,
            Prod.mk.injEq] at hStep
          rcases hStep with ⟨rfl, rfl⟩
          exact ⟨hReady, hShown,
            fun _ hServed => absurd hServed (by simp)⟩
      | some out =>
          rcases out with ⟨v, pics⟩
          simp only [hAck, Option.map_eq_some_iff,
            Prod.mk.injEq] at hStep
          rcases hStep with ⟨u, hServe, rfl, rfl⟩
          rcases interrupt_serves hInstalled hRounds hReady
            hShown (Pics.acknowledge_cases hReady.programmed
              hAck) hServe with ⟨hAfter, hView, hTakes, -⟩
          refine ⟨hAfter, hView, fun w hw => ?_⟩
          cases hw
          exact ⟨rfl, hTakes⟩

/-
  Every run is followed by the view: nothing stays in service
  at the master, and the lines in service at the slave and
  the text on the console are those of the view.
-/
theorem run_refines
    (hInstalled : Installed k registered m)
    (hRounds : enoughRounds ≤ rounds)
    (hReady : Ready k m s)
    (hShown : Shown s a)
    {events : List Event}
    {trace : List (Event × Answer)}
    (hRun : runAll (Machine.step rounds garbage k) events s =
      some (trace, t)) :
    Ready k m t ∧
      Shown t
        (trace.foldl (View.step registered (typed k m)) a) :=
  @runAll_foldl _ _ _ _ (Machine.step rounds garbage k)
    (View.step registered (typed k m))
    (fun s a => Ready k m s ∧ Shown s a)
    (fun _ _ _ _ _ h hStep =>
      have hNext := step_serves hInstalled hRounds h.1 h.2 hStep
      ⟨hNext.1, hNext.2.1⟩)
    events s t a trace hRun ⟨hReady, hShown⟩

end Step

end Interrupts

end Ester
