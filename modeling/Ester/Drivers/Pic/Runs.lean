import Ester.Drivers.Pic
import Ester.Library.Run

/-
  Runs of the interrupt controllers after `pic_init`.

  Devices raise lines, the processor acknowledges, and the
  kernel calls the driver, in any order.  The controllers
  stay programmed whatever happens, so a vector tells the
  line it is for; no line is acknowledged more often than it
  was raised, and never one that was masked when the driver
  took over.

  Key definitions include:
    * `Event`, `Answer`, `step`
    * `Pics.Requested`, `Pics.Masked`
    * `Pics.Effect`

  Key theorems include:
    * `step_effect`
    * `run_after_init`
-/

namespace Ester

namespace Pic

------------------------------------------------------------
-- Events
------------------------------------------------------------

/- What happens to the controllers. -/
inductive Event where
  | raise (irq : Irq)
  | acknowledge
  | getIrr
  | getIsr
  | disable
  | sendEoi (irq : UInt8)
deriving DecidableEq

/- What comes back: nothing, a vector or two registers. -/
inductive Answer where
  | quiet
  | vector (v : UInt8)
  | registers (v : UInt16)
deriving DecidableEq

def step : StepFn Pics Event Answer
  | .raise irq, p => some (.quiet, p.raise irq)
  | .acknowledge, p =>
      match p.acknowledge with
      | none => some (.quiet, p)
      | some (v, q) => some (.vector v, q)
  | .getIrr, p =>
      some (.registers (picGetIrr p).1, (picGetIrr p).2)
  | .getIsr, p =>
      some (.registers (picGetIsr p).1, (picGetIsr p).2)
  | .disable, p => some (.quiet, picDisable p)
  | .sendEoi irq, p => some (.quiet, picSendEoi irq p)

------------------------------------------------------------
-- Requests and Masks by Lines
------------------------------------------------------------

namespace Pics

/- The line is requested. -/
def Requested
    (p : Pics)
    (irq : Irq) : Prop :=
  irq.line ∈ Lines.of
    (if irq.val < 8 then p.master.irr else p.slave.irr)

instance
    (p : Pics)
    (irq : Irq) :
    Decidable (p.Requested irq) := by
  unfold Requested
  infer_instance

/- The line is masked. -/
def Masked
    (p : Pics)
    (irq : Irq) : Prop :=
  irq.line ∈ Lines.of
    (if irq.val < 8 then p.master.imr else p.slave.imr)

variable {p q : Pics}

theorem requested_congr
    (hMaster : q.master.irr = p.master.irr)
    (hSlave : q.slave.irr = p.slave.irr)
    (irq : Irq) :
    q.Requested irq ↔ p.Requested irq := by
  unfold Requested
  rw [hMaster, hSlave]

theorem masked_congr
    (hMaster : q.master.imr = p.master.imr)
    (hSlave : q.slave.imr = p.slave.imr)
    (irq : Irq) :
    q.Masked irq ↔ p.Masked irq := by
  unfold Masked
  rw [hMaster, hSlave]

/- A line is requested once it is raised, and no other. -/
theorem requested_raise
    (i irq : Irq) :
    (p.raise i).Requested irq ↔
      p.Requested irq ∨ irq = i := by
  have hEq : irq = i ↔ irq.val = i.val :=
    ⟨congrArg Subtype.val, Subtype.ext⟩
  have hDigits := Nat.div_add_mod irq.val 8
  have hDigits' := Nat.div_add_mod i.val 8
  have hLt := irq.property.1
  have hLt' := i.property.1
  unfold Requested raise
  by_cases hLow : i.val < 8
  · rw [if_pos hLow]
    by_cases hMine : irq.val < 8
    · rw [if_pos hMine, if_pos hMine]
      change irq.line ∈
        Lines.of (p.master.irr ||| bitMask i.line) ↔ _
      rw [Lines.mem_of_or, Lines.mem_of_bitMask i.line_lt, hEq]
      unfold Irq.line
      exact or_congr_right (by omega)
    · rw [if_neg hMine, if_neg hMine, hEq]
      exact (or_iff_left (by omega)).symm
  · rw [if_neg hLow]
    by_cases hMine : irq.val < 8
    · rw [if_pos hMine, if_pos hMine, hEq]
      exact (or_iff_left (by omega)).symm
    · rw [if_neg hMine, if_neg hMine]
      change irq.line ∈
        Lines.of (p.slave.irr ||| bitMask i.line) ↔ _
      rw [Lines.mem_of_or, Lines.mem_of_bitMask i.line_lt, hEq]
      unfold Irq.line
      exact or_congr_right (by omega)

/-
  An acknowledged vector is that of a line that was requested
  and not masked; the other requests stay.
-/
theorem Acknowledged.irq
    {v : UInt8}
    (hAck : Acknowledged p v q) :
    ∃ irq : Irq, v = irq.vector ∧ p.Requested irq ∧
      ¬ p.Masked irq ∧
      (∀ i, q.Requested i ↔ p.Requested i ∧ i ≠ irq) ∧
      (∀ i, q.Masked i ↔ p.Masked i) := by
  have hNe : ∀ i j : Irq, i ≠ j ↔ i.val ≠ j.val :=
    fun i j => not_congr ⟨congrArg Subtype.val, Subtype.ext⟩
  cases hAck with
  | master n hLine hRequested hUnmasked =>
      have hn := Lines.lt_of_mem hRequested
      obtain ⟨irq, hVal⟩ : ∃ irq : Irq, irq.val = n :=
        ⟨⟨n, by omega, hLine⟩, rfl⟩
      have hLow : irq.val < 8 := by omega
      have hIrq : irq.line = n := by
        unfold Irq.line
        omega
      refine ⟨irq, ?_, ?_, ?_, ?_,
        fun i => masked_congr rfl rfl i⟩
      · rw [Irq.vector, hVal]
        interval_cases n <;> rfl
      · rw [Requested, if_pos hLow, hIrq]
        exact hRequested
      · rw [Masked, if_pos hLow, hIrq]
        exact hUnmasked
      · intro i
        rw [hNe, hVal]
        unfold Requested
        by_cases hMine : i.val < 8
        · have hLine : i.line = i.val := Nat.mod_eq_of_lt hMine
          rw [if_pos hMine, if_pos hMine]
          change i.line ∈ Lines.of (Lines.clear n _) ↔ _
          rw [Lines.mem_of_clear hn, hLine]
        · rw [if_neg hMine, if_neg hMine]
          exact (and_iff_left (by omega)).symm
  | slave n hRequested hUnmasked =>
      have hn := Lines.lt_of_mem hRequested
      obtain ⟨irq, hVal⟩ : ∃ irq : Irq, irq.val = 8 + n :=
        ⟨⟨8 + n, by omega, fun h => by
          change 8 + n = 2 at h
          omega⟩, rfl⟩
      have hHigh : ¬ irq.val < 8 := by omega
      have hIrq : irq.line = n := by
        unfold Irq.line
        omega
      refine ⟨irq, ?_, ?_, ?_, ?_,
        fun i => masked_congr rfl rfl i⟩
      · rw [Irq.vector, hVal]
        interval_cases n <;> rfl
      · rw [Requested, if_neg hHigh, hIrq]
        exact hRequested
      · rw [Masked, if_neg hHigh, hIrq]
        exact hUnmasked
      · intro i
        have hLt := i.property.1
        rw [hNe, hVal]
        unfold Requested
        by_cases hMine : i.val < 8
        · have hLine : i.line = i.val := Nat.mod_eq_of_lt hMine
          have hNot : i.val ≠ cascadeLine := i.property.2
          rw [if_pos hMine, if_pos hMine]
          change i.line ∈
            Lines.of (Lines.clear cascadeLine _) ↔ _
          rw [Lines.mem_of_clear (by decide), hLine]
          exact and_congr_right fun _ =>
            ⟨fun _ => by omega, fun _ => hNot⟩
        · rw [if_neg hMine, if_neg hMine]
          change i.line ∈ Lines.of (Lines.clear n _) ↔ _
          rw [Lines.mem_of_clear hn]
          refine and_congr_right fun _ => ?_
          unfold Irq.line
          omega

/-
  What a step does to the requests and the masks: a line is
  raised, a requested line that is not masked is
  acknowledged, or the driver is called, after which the
  masked lines are masked still.
-/
inductive Effect
    (p : Pics) : Event × Answer → Pics → Prop
  | raised
      {q : Pics}
      (irq : Irq)
      (hRequested : ∀ i,
        q.Requested i ↔ p.Requested i ∨ i = irq)
      (hMasked : ∀ i, p.Masked i → q.Masked i) :
      Effect p (.raise irq, .quiet) q
  | acknowledged
      {q : Pics}
      (irq : Irq)
      (hRequest : p.Requested irq)
      (hUnmasked : ¬ p.Masked irq)
      (hRequested : ∀ i,
        q.Requested i ↔ p.Requested i ∧ i ≠ irq)
      (hMasked : ∀ i, p.Masked i → q.Masked i) :
      Effect p (.acknowledge, .vector irq.vector) q
  | driver
      {q : Pics}
      {c : Event}
      {o : Answer}
      (hRaise : ∀ i, c ≠ .raise i)
      (hVector : ∀ v, o ≠ .vector v)
      (hRequested : ∀ i, q.Requested i ↔ p.Requested i)
      (hMasked : ∀ i, p.Masked i → q.Masked i) :
      Effect p (c, o) q

theorem masked_raise
    (i irq : Irq) :
    (p.raise i).Masked irq ↔ p.Masked irq := by
  unfold raise
  by_cases hLow : i.val < 8
  · rw [if_pos hLow]
    exact masked_congr rfl rfl irq
  · rw [if_neg hLow]
    exact masked_congr rfl rfl irq

/- Everything is masked when the controllers are disabled. -/
theorem masked_disabled
    (irq : Irq) :
    (Pics.mk { p.master with imr := 0xFF }
      { p.slave with imr := 0xFF }).Masked irq := by
  have hFull : Lines.of 0xFF = List.range 8 := rfl
  unfold Masked
  rw [show (if irq.val < 8 then (0xFF : UInt8) else 0xFF) = 0xFF
    from ite_self _, hFull, List.mem_range]
  exact irq.line_lt

theorem effect_picGetIrqReg
    (ocw3 : UInt8)
    (hIrr : ∀ c : Controller,
      (c.writeCommand ocw3).irr = c.irr)
    (hImr : ∀ c : Controller,
      (c.writeCommand ocw3).imr = c.imr)
    {c : Event}
    (hRaise : ∀ i, c ≠ .raise i) :
    Effect p (c, .registers (picGetIrqReg ocw3 p).1)
      (picGetIrqReg ocw3 p).2 :=
  .driver hRaise (by simp)
    (fun i => requested_congr (hIrr _) (hIrr _) i)
    (fun i => (masked_congr (hImr _) (hImr _) i).mpr)

theorem effect_picSendEoi
    (irq : UInt8) :
    Effect p (.sendEoi irq, .quiet) (picSendEoi irq p) := by
  rw [picSendEoi_eq]
  have hImr : ∀ c : Controller,
      c.endOfInterrupt.imr = c.imr := by
    intro c
    unfold Controller.endOfInterrupt
    cases Lines.of c.isr with
    | nil => rfl
    | cons n ns => rfl
  refine .driver (by simp) (by simp)
    (fun i => requested_congr
      (Controller.irr_endOfInterrupt _) ?_ i)
    (fun i => (masked_congr (hImr _) ?_ i).mpr)
  · change (if 8 ≤ irq then _ else _ : Controller).irr = _
    split
    · exact Controller.irr_endOfInterrupt _
    · rfl
  · change (if 8 ≤ irq then _ else _ : Controller).imr = _
    split
    · exact hImr _
    · rfl

end Pics

------------------------------------------------------------
-- Runs
------------------------------------------------------------

section Runs

variable {p q : Pics}

/- Programmed controllers stay so, and a step has an effect. -/
theorem step_effect
    {c : Event}
    {o : Answer}
    (h : p.Programmed)
    (hStep : step c p = some (o, q)) :
    q.Programmed ∧ p.Effect (c, o) q := by
  cases c with
  | raise irq =>
      rcases hStep with ⟨⟩
      exact ⟨h.raise irq, .raised irq
        (fun i => Pics.requested_raise irq i)
        (fun i => (Pics.masked_raise irq i).mpr)⟩
  | acknowledge =>
      cases hAck : p.acknowledge with
      | none =>
          simp only [step, hAck, Option.some.injEq,
            Prod.mk.injEq] at hStep
          rcases hStep with ⟨rfl, rfl⟩
          exact ⟨h, .driver (by simp) (by simp)
            (fun i => Iff.rfl) (fun i => id)⟩
      | some next =>
          rcases next with ⟨v, u⟩
          simp only [step, hAck, Option.some.injEq,
            Prod.mk.injEq] at hStep
          rcases hStep with ⟨rfl, rfl⟩
          have hCases := Pics.acknowledge_cases h hAck
          rcases hCases.irq with
            ⟨irq, rfl, hRequest, hUnmasked, hRequested,
              hMasked⟩
          exact ⟨hCases.programmed h, .acknowledged irq hRequest
            hUnmasked hRequested (fun i => (hMasked i).mpr)⟩
  | getIrr =>
      rcases hStep with ⟨⟩
      exact ⟨h.picGetIrqReg rfl, Pics.effect_picGetIrqReg _
        (fun _ => rfl) (fun _ => rfl) (by simp)⟩
  | getIsr =>
      rcases hStep with ⟨⟩
      exact ⟨h.picGetIrqReg rfl, Pics.effect_picGetIrqReg _
        (fun _ => rfl) (fun _ => rfl) (by simp)⟩
  | disable =>
      rcases hStep with ⟨⟩
      rw [h.picDisable_eq]
      exact ⟨⟨h.master.withMask _, h.slave.withMask _⟩,
        .driver (by simp) (by simp)
          (fun i => Pics.requested_congr rfl rfl i)
          (fun i _ => Pics.masked_disabled i)⟩
  | sendEoi irq =>
      rcases hStep with ⟨⟩
      exact ⟨h.picSendEoi irq, Pics.effect_picSendEoi irq⟩

/- The trace event answers with the vector of the line. -/
def answers
    (irq : Irq)
    (e : Event × Answer) : Bool :=
  decide (e.2 = .vector irq.vector)

/- The trace event raises the line. -/
def raises
    (irq : Irq)
    (e : Event × Answer) : Bool :=
  decide (e.1 = .raise irq)

/- An acknowledged line was requested, a requested one raised. -/
theorem Pics.Effect.paid
    {e : Event × Answer}
    (h : p.Effect e q)
    (irq : Irq) :
    (answers irq e).toNat + (decide (q.Requested irq)).toNat ≤
      (raises irq e).toNat +
        (decide (p.Requested irq)).toNat := by
  cases h with
  | raised i hRequested hMasked =>
      by_cases hMine : irq = i
      · subst hMine
        have hRaises : raises irq (.raise irq, .quiet) = true :=
          decide_eq_true rfl
        have hAnswers :
            answers irq (.raise irq, .quiet) = false :=
          decide_eq_false (by simp)
        have hLe := Bool.toNat_le (decide (q.Requested irq))
        rw [hRaises, hAnswers]
        change 0 + _ ≤ 1 + _
        omega
      · have hSame : q.Requested irq ↔ p.Requested irq :=
          (hRequested irq).trans (or_iff_left hMine)
        have hAnswers : answers irq (.raise i, .quiet) = false :=
          decide_eq_false (by simp)
        rw [hAnswers, decide_eq_decide.mpr hSame]
        change 0 + _ ≤ _
        omega
  | acknowledged i hRequest hUnmasked hRequested hMasked =>
      by_cases hMine : irq = i
      · subst hMine
        have hNot : ¬ q.Requested irq :=
          fun hq => ((hRequested irq).mp hq).2 rfl
        have hLe := Bool.toNat_le
          (answers irq (.acknowledge, .vector irq.vector))
        rw [decide_eq_true hRequest, decide_eq_false hNot]
        change _ + 0 ≤ _ + 1
        omega
      · have hSame : q.Requested irq ↔ p.Requested irq :=
          (hRequested irq).trans (and_iff_left hMine)
        have hAnswers :
            answers irq (.acknowledge, .vector i.vector) = false :=
          decide_eq_false fun h =>
            hMine (Irq.vector_injective
              (Answer.vector.inj h)).symm
        rw [hAnswers, decide_eq_decide.mpr hSame]
        change 0 + _ ≤ _
        omega
  | driver hRaise hVector hRequested hMasked =>
      rename_i c o
      have hAnswers : answers irq (c, o) = false :=
        decide_eq_false (hVector _)
      rw [hAnswers, decide_eq_decide.mpr (hRequested irq)]
      change 0 + _ ≤ _
      omega

theorem Pics.Effect.masked
    {e : Event × Answer}
    (h : p.Effect e q)
    (irq : Irq)
    (hMasked : p.Masked irq) :
    q.Masked irq := by
  cases h with
  | raised _ _ hKept => exact hKept irq hMasked
  | acknowledged _ _ _ _ hKept => exact hKept irq hMasked
  | driver _ _ _ hKept => exact hKept irq hMasked

theorem Pics.Effect.vector
    {e : Event × Answer}
    {v : UInt8}
    (h : p.Effect e q)
    (hVector : e.2 = .vector v) :
    ∃ irq : Irq, v = irq.vector ∧ ¬ p.Masked irq := by
  cases h with
  | raised => simp at hVector
  | acknowledged irq _ hUnmasked _ _ =>
      exact ⟨irq, (Answer.vector.inj hVector).symm, hUnmasked⟩
  | driver _ hNone _ _ => exact absurd hVector (hNone v)

/-
  After `pic_init`, whatever the controllers did before and
  in whatever order lines are raised, interrupts are
  acknowledged and the driver is called: every vector is that
  of a line that was not masked when `pic_init` was called,
  and no line is acknowledged more often than it was raised.
-/
theorem run_after_init
    {p₀ p : Pics}
    {events : List Event}
    {trace : List (Event × Answer)}
    (hRun : runAll step events (picInit p₀) = some (trace, p)) :
    (∀ irq, trace.countP (answers irq) ≤
      trace.countP (raises irq)) ∧
    ∀ e ∈ trace, ∀ v, e.2 = .vector v →
      ∃ irq : Irq, v = irq.vector ∧ ¬ p₀.Masked irq := by
  have hInit := picInit_programmed p₀
  have hFresh : ∀ irq, ¬ (picInit p₀).Requested irq := by
    intro irq
    rw [picInit_eq]
    unfold Pics.Requested
    change ¬ irq.line ∈
      Lines.of (if irq.val < 8 then (0 : UInt8) else 0)
    rw [ite_self, Lines.of_zero]
    exact List.not_mem_nil
  have hMasks : ∀ irq, p₀.Masked irq →
      (picInit p₀).Masked irq := by
    intro irq h
    rw [picInit_eq]
    exact (Pics.masked_congr rfl rfl irq).mpr h
  constructor
  · intro irq
    have hCount := @runAll_potential _ _ _ step Pics.Programmed
      (answers irq) (raises irq)
      (fun p => (decide (p.Requested irq)).toNat)
      (fun c p o q h hStep =>
        ⟨(step_effect h hStep).1,
          (step_effect h hStep).2.paid irq⟩)
      events _ _ trace hRun hInit
    rw [decide_eq_false (hFresh irq)] at hCount
    exact Nat.le_trans (Nat.le_add_right _ _) hCount
  · refine @runAll_forall _ _ _ step
      (fun p => p.Programmed ∧
        ∀ irq, p₀.Masked irq → p.Masked irq)
      (fun e => ∀ v, e.2 = .vector v →
        ∃ irq : Irq, v = irq.vector ∧ ¬ p₀.Masked irq)
      ?_ events _ _ trace hRun ⟨hInit, hMasks⟩
    rintro c p o q ⟨h, hKept⟩ hStep
    rcases step_effect h hStep with ⟨hNext, hEffect⟩
    refine ⟨⟨hNext, fun irq hMasked =>
      hEffect.masked irq (hKept irq hMasked)⟩, ?_⟩
    intro v hVector
    rcases hEffect.vector hVector with ⟨irq, rfl, hUnmasked⟩
    exact ⟨irq, rfl,
      fun hMasked => hUnmasked (hKept irq hMasked)⟩

/- Both before any initialisation, the slave masked. -/
def uninitialised : Pics where
  master := ⟨0xFF, 0xFF, 0xFD, 0, 0, 0, 0, false, .icw3⟩
  slave := ⟨0, 0, 0xFF, 0, 0, 0, 0, true, .operation⟩

def keyboardLine : Irq := ⟨1, by decide, by decide⟩

def keyboardEvents : List Event :=
  [.raise ⟨9, by decide, by decide⟩, .raise keyboardLine,
    .acknowledge, .getIsr, .sendEoi 1, .acknowledge]

/- The keyboard is acknowledged once and the slave never. -/
theorem run_after_init_keyboard :
    ∃ trace p,
      runAll step keyboardEvents (picInit uninitialised) =
        some (trace, p) ∧
      (∀ irq, trace.countP (answers irq) ≤
        trace.countP (raises irq)) ∧
      ∀ e ∈ trace, ∀ v, e.2 = .vector v →
        ∃ irq : Irq, v = irq.vector ∧
          ¬ uninitialised.Masked irq :=
  ⟨_, _, rfl, @run_after_init uninitialised _ keyboardEvents
    _ rfl⟩

end Runs

end Pic

end Ester
