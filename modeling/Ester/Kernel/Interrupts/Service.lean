import Ester.Kernel.Interrupts.Boot

/-
  What runs under interrupts can and cannot serve.

  The master never keeps a line in service, so each of its
  requests is served as soon as no more urgent one is there.
  The slave keeps every line that was served, until one of
  the lines from 4 to 7 of the master is.  In between, only
  ever more urgent lines of the slave are served, and over a
  whole run at most seven more than lines 4 to 7.

  Key definitions include:
    * `isSlave`, `isUpper`
    * `slaveLines`
    * `masterLine`

  Key theorems include:
    * `fault_iff`
    * `slave_served_le`
    * `slave_served_descending`
    * `master_request_served`
    * `boot_refines`
-/

namespace Ester

namespace Interrupts

open Pic

------------------------------------------------------------
-- Lines of a Trace
------------------------------------------------------------

/- A line of the slave was served. -/
def isSlave
    (e : Event × Answer) : Bool :=
  match e.2 with
  | .quiet => false
  | .served v => decide (0x28 ≤ v.toNat)

/- A line from 4 to 7 of the master was served. -/
def isUpper
    (e : Event × Answer) : Bool :=
  match e.2 with
  | .quiet => false
  | .served v => decide (0x24 ≤ v.toNat ∧ v.toNat < 0x28)

/- The line of the slave that was served. -/
def slaveLine
    (e : Event × Answer) : Option Nat :=
  match e.2 with
  | .quiet => none
  | .served v =>
      if 0x28 ≤ v.toNat then some (v.toNat - 0x28) else none

/- The lines of the slave that a run has served, in order. -/
def slaveLines
    (trace : List (Event × Answer)) : List Nat :=
  trace.filterMap slaveLine

section Views

variable {registered : Bool} {typing : UInt8 → UInt8}
variable {a : View}

theorem inService_served
    {v : UInt8}
    (hTakes : a.Takes v) :
    (a.served registered typing v).inService =
      if 0x28 ≤ v.toNat then
        (v.toNat - 0x28) :: a.inService
      else if 0x24 ≤ v.toNat then a.inService.tail
      else a.inService := by
  rcases hTakes with ⟨hFirst, hLast, -⟩
  unfold View.served
  dsimp only
  by_cases hSlave : 0x28 ≤ v.toNat
  · rw [if_neg (by omega), if_neg (by omega), if_pos hSlave]
    change (v.toNat - 0x20 - 8) :: a.inService = _
    rw [show v.toNat - 0x20 - 8 = v.toNat - 0x28 by omega]
  · rw [if_neg hSlave]
    by_cases hUpper : 0x24 ≤ v.toNat
    · rw [if_neg (by omega), if_pos (by omega), if_pos hUpper]
      exact if_pos (by omega)
    · rw [if_neg hUpper]
      by_cases hKeyboard : registered = true ∧ v.toNat - 0x20 = 1
      · rw [if_pos hKeyboard]
      · rw [if_neg hKeyboard, if_pos (by omega)]
        exact if_neg (by omega)

/- Served lines of the slave are pushed, upper lines pop. -/
theorem inService_step
    {e : Event}
    {o : Answer}
    (hServed :
      ∀ v, o = .served v → e = .interrupt ∧ a.Takes v) :
    (a.step registered typing (e, o)).inService =
      match slaveLine (e, o) with
      | some n => n :: a.inService
      | none =>
          if isUpper (e, o) then a.inService.tail
          else a.inService := by
  cases o with
  | quiet => cases e <;> rfl
  | served v =>
      rcases hServed v rfl with ⟨rfl, hTakes⟩
      change (a.served registered typing v).inService = _
      rw [inService_served hTakes]
      unfold slaveLine isUpper
      dsimp only
      by_cases hSlave : 0x28 ≤ v.toNat
      · rw [if_pos hSlave, if_pos hSlave]
      · rw [if_neg hSlave, if_neg hSlave]
        by_cases hUpper : 0x24 ≤ v.toNat
        · have hBoth : 0x24 ≤ v.toNat ∧ v.toNat < 0x28 := by
            omega
          simp [hBoth]
        · simp [hUpper]

theorem isSlave_eq_isSome
    (e : Event × Answer) :
    isSlave e = (slaveLine e).isSome := by
  rcases e with ⟨e, o⟩
  unfold isSlave slaveLine
  cases o with
  | quiet => rfl
  | served v =>
      by_cases hSlave : 0x28 ≤ v.toNat
      · simp [hSlave]
      · simp [hSlave]

/- A line of the slave is above those that are in service. -/
theorem slaveLine_above
    {e : Event}
    {o : Answer}
    {n : Nat}
    (hServed :
      ∀ v, o = .served v → e = .interrupt ∧ a.Takes v)
    (hLine : slaveLine (e, o) = some n) :
    n < 7 ∧ ∀ m ∈ a.inService, n < m := by
  unfold slaveLine at hLine
  cases o with
  | quiet => cases hLine
  | served v =>
      rcases hServed v rfl with ⟨-, -, hLast, hAbove⟩
      by_cases hSlave : 0x28 ≤ v.toNat
      · simp only [if_pos hSlave, Option.some.injEq] at hLine
        subst hLine
        exact ⟨by omega, hAbove hSlave⟩
      · simp [if_neg hSlave] at hLine

end Views

------------------------------------------------------------
-- Running
------------------------------------------------------------

section Runs

variable {rounds : Nat}
variable {garbage : UInt32 → ByteBuffer intMaxDigits}
variable {k : Symbols} {registered : Bool} {m : Memory}
variable {s t : Machine}

theorem Running.step
    (hInstalled : Installed k registered m)
    (hRounds : enoughRounds ≤ rounds)
    (h : Running k m s)
    {e : Event}
    {o : Answer}
    (hStep : Machine.step rounds garbage k e s = some (o, t)) :
    Running k m t ∧
      Lines.of t.pics.slave.isr =
        (match slaveLine (e, o) with
        | some n => n :: Lines.of s.pics.slave.isr
        | none =>
            if isUpper (e, o) then
              (Lines.of s.pics.slave.isr).tail
            else Lines.of s.pics.slave.isr) ∧
      ∀ n, slaveLine (e, o) = some n →
        ∀ l ∈ Lines.of s.pics.slave.isr, n < l := by
  rcases step_serves hInstalled hRounds h.ready
      (a := s.view) ⟨h.idle, rfl, rfl, rfl⟩ hStep with
    ⟨hReady, hShown, hServed⟩
  have hAfter := hShown.inService
  rw [inService_step hServed] at hAfter
  have hAbove := fun n => @slaveLine_above s.view e o n hServed
  refine ⟨⟨hReady, hShown.idle, ?_⟩, hAfter,
    fun n hLine => (hAbove n hLine).2⟩
  rw [hAfter]
  intro n hn
  cases hLine : slaveLine (e, o) with
  | some l =>
      simp only [hLine, List.mem_cons] at hn
      rcases hn with rfl | hn
      · exact (hAbove n hLine).1
      · exact h.served n hn
  | none =>
      simp only [hLine] at hn
      split at hn
      · exact h.served n (List.mem_of_mem_tail hn)
      · exact h.served n hn

theorem Running.run
    (hInstalled : Installed k registered m)
    (hRounds : enoughRounds ≤ rounds)
    (hRunning : Running k m s)
    {events : List Event}
    {trace : List (Event × Answer)}
    (hRun : runAll (Machine.step rounds garbage k) events s =
      some (trace, t)) :
    Running k m t :=
  @runAll_invariant _ _ _ (Machine.step rounds garbage k)
    (Running k m) (fun _ => True)
    (fun _ _ _ _ _ h hStep =>
      (h.step hInstalled hRounds hStep).1)
    events (fun _ _ => trivial) s t trace hRun hRunning

------------------------------------------------------------
-- Faults
------------------------------------------------------------

/- An interrupt faults for the last line of the slave only. -/
theorem interrupt_eq_none_iff
    (hInstalled : Installed k registered m)
    (hRounds : enoughRounds ≤ rounds)
    (hRunning : Running k m s) :
    Machine.step rounds garbage k .interrupt s = none ↔
      ∃ pics, s.pics.acknowledge = some (0x2F, pics) := by
  have hProgrammed := hRunning.ready.programmed
  have hIdle :=
    isr_accept_of_idle hProgrammed.master hRunning.idle
  unfold Machine.step
  cases hAck : s.pics.acknowledge with
  | none => simp [hAck]
  | some out =>
      rcases out with ⟨v, pics⟩
      have hVector : (∃ p, some (v, pics) =
          some ((0x2F : UInt8), p)) ↔ v.toNat = 0x2F := by
        constructor
        · rintro ⟨p, hEq⟩
          cases hEq
          rfl
        · intro hEq
          exact ⟨pics, by rw [UInt8.toNat_inj.mp
            (show v.toNat = (0x2F : UInt8).toNat from hEq)]⟩
      rw [hVector]
      simp only [hAck, Option.map_eq_none_iff]
      cases Pics.acknowledge_cases hProgrammed hAck with
      | master n _ hRequested =>
          have hn := Lines.lt_of_mem hRequested
          have hLine := toNat_masterVector hn
          rcases @serve_master rounds garbage k registered m
              { s with
                pics := { s.pics with
                  master := s.pics.master.accept n } }
              hInstalled hRounds hRunning.ready.mem
              hRunning.ready.table n hn (hIdle n) with
            ⟨t, hServe, -⟩
          rw [hServe]
          exact iff_of_false (by simp) (by omega)
      | slave n hRequested =>
          have hn := Lines.lt_of_mem hRequested
          have hLine := toNat_slaveVector hn
          rcases Nat.lt_or_eq_of_le (Nat.le_of_lt_succ hn)
            with hLow | rfl
          · rcases @serve_slave rounds garbage k registered m
                { s with
                  pics :=
                    { master := s.pics.master.accept cascadeLine
                      slave := s.pics.slave.accept n } }
                hInstalled hRounds hRunning.ready.mem
                hRunning.ready.table n hLow
                (hIdle cascadeLine) with ⟨t, hServe, -⟩
            rw [hServe]
            exact iff_of_false (by simp) (by omega)
          · exact iff_of_true (serve_last hInstalled
              hRunning.ready.mem hRunning.ready.table) hLine

/-
  A run faults exactly when an interrupt is taken while the
  processor would be given the vector of the last line of
  the slave, for which `idt_init` sets no descriptor.
-/
theorem fault_iff
    (hInstalled : Installed k registered m)
    (hRounds : enoughRounds ≤ rounds)
    (hRunning : Running k m s)
    (events : List Event) :
    runAll (Machine.step rounds garbage k) events s = none ↔
      ∃ done rest trace t pics,
        events = done ++ .interrupt :: rest ∧
        runAll (Machine.step rounds garbage k) done s =
          some (trace, t) ∧
        t.pics.acknowledge = some (0x2F, pics) := by
  rw [runAll_eq_none_iff]
  constructor
  · rintro ⟨done, e, rest, trace, t, hEvents, hRun, hFail⟩
    have hLast := hRunning.run hInstalled hRounds hRun
    have hInterrupt : e = .interrupt := by
      cases e with
      | raise irq => cases hFail
      | key scanCode => cases hFail
      | interrupt => rfl
    subst hInterrupt
    rcases (interrupt_eq_none_iff hInstalled hRounds hLast).mp
      hFail with ⟨pics, hAck⟩
    exact ⟨done, rest, trace, t, pics, hEvents, hRun, hAck⟩
  · rintro ⟨done, rest, trace, t, pics, hEvents, hRun, hAck⟩
    have hLast := hRunning.run hInstalled hRounds hRun
    exact ⟨done, .interrupt, rest, trace, t, hEvents, hRun,
      (interrupt_eq_none_iff hInstalled hRounds hLast).mpr
        ⟨pics, hAck⟩⟩

/- Taking the interrupt of a raised last line is a fault. -/
theorem fault_iff_sample :
    runAll (Machine.step 64 sampleGarbage sampleSymbols)
        [.raise ⟨15, by decide⟩, .interrupt] sampleBooted =
      none :=
  (fault_iff sample_installed (Nat.le_refl 64) sample_running
    _).mpr ⟨[.raise ⟨15, by decide⟩], [], _, _, _, rfl, rfl, rfl⟩

------------------------------------------------------------
-- Counting
------------------------------------------------------------

/-
  A run serves lines of the slave at most seven times more
  than lines 4 to 7 of the master.
-/
theorem slave_served_le
    (hInstalled : Installed k registered m)
    (hRounds : enoughRounds ≤ rounds)
    (hRunning : Running k m s)
    {events : List Event}
    {trace : List (Event × Answer)}
    (hRun : runAll (Machine.step rounds garbage k) events s =
      some (trace, t)) :
    trace.countP isSlave ≤ trace.countP isUpper + 7 := by
  have hPaid := @runAll_potential Machine Event Answer
    (Machine.step rounds garbage k) (Running k m) isSlave isUpper
    (fun s => 7 - (Lines.of s.pics.slave.isr).length) ?_
    events s t trace hRun hRunning
  · omega
  intro e s o t h hStep
  rcases h.step hInstalled hRounds hStep with
    ⟨hAfter, hLines, -⟩
  refine ⟨hAfter, ?_⟩
  have hLength := Lines.length_le (Lines.pairwise_of _)
    hAfter.served
  rw [isSlave_eq_isSome]
  cases hLine : slaveLine (e, o) with
  | some n =>
      simp only [hLine] at hLines
      rw [hLines, List.length_cons] at hLength ⊢
      simp only [Option.isSome_some, Bool.toNat_true]
      omega
  | none =>
      simp only [hLine] at hLines
      rw [hLines]
      simp only [Option.isSome_none, Bool.toNat_false]
      cases hUpper : isUpper (e, o) with
      | true =>
          rw [if_pos rfl, List.length_tail]
          simp only [Bool.toNat_true]
          omega
      | false =>
          rw [if_neg Bool.false_ne_true]
          simp only [Bool.toNat_false]
          omega

/- Two lines of the slave and none of the upper ones. -/
theorem slave_served_le_sample :
    ∃ t, runAll (Machine.step 64 sampleGarbage sampleSymbols)
        sampleEvents sampleBooted = some (sampleTrace, t) ∧
      sampleTrace.countP isSlave ≤
        sampleTrace.countP isUpper + 7 := by
  rcases sample_runs with ⟨t, hRun⟩
  exact ⟨t, hRun, slave_served_le sample_installed
    (Nat.le_refl 64) sample_running hRun⟩

------------------------------------------------------------
-- Order
------------------------------------------------------------

/-
  As long as none of the lines 4 to 7 is served, the lines of
  the slave that are served become ever more urgent, and are
  more urgent than those in service before.
-/
theorem slave_served_descending
    (hInstalled : Installed k registered m)
    (hRounds : enoughRounds ≤ rounds)
    (hRunning : Running k m s)
    {events : List Event}
    {trace : List (Event × Answer)}
    (hRun : runAll (Machine.step rounds garbage k) events s =
      some (trace, t))
    (hLower : ∀ e ∈ trace, isUpper e = false) :
    (slaveLines trace).Pairwise (· > ·) ∧
      ∀ n ∈ slaveLines trace,
        ∀ l ∈ Lines.of s.pics.slave.isr, n < l := by
  induction events generalizing s trace with
  | nil =>
      cases hRun
      exact ⟨List.Pairwise.nil, List.forall_mem_nil _⟩
  | cons e events ih =>
      rcases runAll_cons_eq_some hRun with
        ⟨o, u, trace', hStep, hRest, rfl⟩
      rw [List.forall_mem_cons] at hLower
      rcases hRunning.step hInstalled hRounds hStep with
        ⟨hNext, hLines, hAbove⟩
      rcases ih hNext hRest hLower.2 with ⟨hSorted, hBelow⟩
      cases hLine : slaveLine (e, o) with
      | none =>
          simp only [hLine, hLower.1, Bool.false_eq_true,
            if_false] at hLines
          rw [hLines] at hBelow
          unfold slaveLines
          rw [List.filterMap_cons_none hLine]
          exact ⟨hSorted, hBelow⟩
      | some n =>
          simp only [hLine] at hLines
          rw [hLines] at hBelow
          unfold slaveLines
          rw [List.filterMap_cons_some hLine]
          refine ⟨List.pairwise_cons.mpr ⟨fun l hl =>
            hBelow l hl n List.mem_cons_self, hSorted⟩, ?_⟩
          intro l hl
          rcases List.mem_cons.mp hl with rfl | hl
          · exact hAbove l hLine
          · exact fun i hi =>
              hBelow l hl i (List.mem_cons_of_mem n hi)

/- Line 12 is served and then line 9; line 13 has to wait. -/
theorem slave_served_descending_sample :
    slaveLines sampleTrace = [4, 1] ∧
      (slaveLines sampleTrace).Pairwise (· > ·) := by
  rcases sample_runs with ⟨t, hRun⟩
  exact ⟨by decide, (slave_served_descending sample_installed
    (Nat.le_refl 64) sample_running hRun (by decide)).1⟩

/- The line of the master behind a vector. -/
def masterLine
    (v : UInt8) : Nat :=
  if v.toNat < 0x28 then v.toNat - 0x20 else cascadeLine

/-
  After every run an unmasked request of the master does not
  wait for anything in service: the next interrupt serves it
  or a more urgent one, unless the last line of the slave is
  due first, which is a fault.
-/
theorem master_request_served
    (hInstalled : Installed k registered m)
    (hRounds : enoughRounds ≤ rounds)
    (hRunning : Running k m s)
    {events : List Event}
    {trace : List (Event × Answer)}
    (hRun : runAll (Machine.step rounds garbage k) events s =
      some (trace, t))
    {n : Nat}
    (hRequested : n ∈ Lines.of t.pics.master.irr)
    (hUnmasked : n ∉ Lines.of t.pics.master.imr) :
    (∃ v u, Machine.step rounds garbage k .interrupt t =
        some (.served v, u) ∧ masterLine v ≤ n) ∨
      (Machine.step rounds garbage k .interrupt t = none ∧
        7 ∈ Lines.of t.pics.slave.irr ∧ cascadeLine < n) := by
  have hLast := hRunning.run hInstalled hRounds hRun
  have hProgrammed := hLast.ready.programmed
  have hIdle := isr_accept_of_idle hProgrammed.master hLast.idle
  rcases Pics.acknowledge_of_request hProgrammed hLast.idle
      hLast.ready.cascade hRequested hUnmasked with
    ⟨v, pics, hAck⟩
  unfold Machine.step
  simp only [hAck]
  cases Pics.acknowledge_cases hProgrammed hAck with
  | master j _ hIrr _ _ hLeast =>
      have hj := Lines.lt_of_mem hIrr
      rcases @serve_master rounds garbage k registered m
          { t with
            pics :=
              { t.pics with master := t.pics.master.accept j } }
          hInstalled hRounds hLast.ready.mem hLast.ready.table
          j hj (hIdle j) with ⟨u, hServe, -⟩
      refine .inl ⟨_, u, by rw [hServe]; rfl, ?_⟩
      have hVector := toNat_masterVector hj
      unfold masterLine
      rw [if_pos (by omega), hVector, Nat.add_sub_cancel_left]
      exact hLeast n hRequested hUnmasked
  | slave j hIrr _ _ _ _ hLeast =>
      have hj := Lines.lt_of_mem hIrr
      have hVector := toNat_slaveVector hj
      have hLe := hLeast n hRequested hUnmasked
      rcases Nat.lt_or_eq_of_le (Nat.le_of_lt_succ hj)
        with hLow | rfl
      · rcases @serve_slave rounds garbage k registered m
            { t with
              pics :=
                { master := t.pics.master.accept cascadeLine
                  slave := t.pics.slave.accept j } }
            hInstalled hRounds hLast.ready.mem hLast.ready.table
            j hLow (hIdle cascadeLine) with ⟨u, hServe, -⟩
        refine .inl ⟨_, u, by rw [hServe]; rfl, ?_⟩
        unfold masterLine
        rw [if_neg (by omega)]
        exact hLe
      · have hNe : n ≠ cascadeLine := by
          rintro rfl
          exact hLast.ready.cascade hRequested
        refine .inr ⟨?_, hIrr, by omega⟩
        rw [@serve_last rounds garbage k registered m
          { t with
            pics :=
              { master := t.pics.master.accept cascadeLine
                slave := t.pics.slave.accept 7 } }
          hInstalled hLast.ready.mem hLast.ready.table]
        rfl

/- The timer is served although the slave is in service. -/
theorem master_request_served_sample :
    ∃ trace t,
      runAll (Machine.step 64 sampleGarbage sampleSymbols)
          (sampleEvents ++ [.raise ⟨0, by decide⟩])
          sampleBooted = some (trace, t) ∧
      ((∃ v u, Machine.step 64 sampleGarbage sampleSymbols
          .interrupt t = some (.served v, u) ∧
            masterLine v ≤ 0) ∨
        (Machine.step 64 sampleGarbage sampleSymbols
            .interrupt t = none ∧
          7 ∈ Lines.of t.pics.slave.irr ∧ cascadeLine < 0)) := by
  have hState :
      (runAll (Machine.step 64 sampleGarbage sampleSymbols)
        (sampleEvents ++ [.raise ⟨0, by decide⟩])
        sampleBooted).map (fun out =>
          decide (0 ∈ Lines.of out.2.pics.master.irr ∧
            0 ∉ Lines.of out.2.pics.master.imr)) =
        some true := by
    decide +kernel
  rcases Option.map_eq_some_iff.mp hState with
    ⟨⟨trace, t⟩, hRun, hTimer⟩
  rw [decide_eq_true_iff] at hTimer
  exact ⟨trace, t, hRun, master_request_served
    sample_installed (Nat.le_refl 64) sample_running hRun
    hTimer.1 hTimer.2⟩

end Runs

------------------------------------------------------------
-- From Boot On
------------------------------------------------------------

section Boot

variable {k : Symbols} {answers : List UInt8}
variable {s t : Machine}

/-
  Whatever the controller of the keyboard answers and
  whatever the interrupt controllers did before, from the end
  of `pic_init` on every run is followed by the view.
-/
theorem boot_refines
    {rounds : Nat}
    {garbage : UInt32 → ByteBuffer intMaxDigits}
    {u : Machine}
    (hBootable : Bootable k s.mem)
    (hRounds : enoughRounds ≤ rounds)
    (hBoot : boot k answers s = some t)
    {events : List Event}
    {trace : List (Event × Answer)}
    (hRun : runAll (Machine.step rounds garbage k) events t =
      some (trace, u)) :
    Shown u
      (trace.foldl
        (View.step (registers k answers s) (typed k t.mem))
        ⟨[], s.scanCode, s.console.text⟩) := by
  rcases boot_running hBootable hBoot with
    ⟨hInstalled, hRunning, -, hShown⟩
  exact (run_refines hInstalled hRounds hRunning.ready hShown
    hRun).2

/- The key that is pressed is seen between the vectors. -/
theorem boot_refines_sample :
    ∃ u, runAll (Machine.step 64 sampleGarbage sampleSymbols)
        sampleEvents sampleBooted = some (sampleTrace, u) ∧
      Shown u
        (sampleTrace.foldl
          (View.step
            (registers sampleSymbols sampleAnswers
              sampleMachine)
            (typed sampleSymbols sampleBooted.mem))
          ⟨[], 0, []⟩) := by
  rcases sample_runs with ⟨u, hRun⟩
  exact ⟨u, hRun, boot_refines sample_bootable
    (Nat.le_refl 64) sample_boots hRun⟩

end Boot

end Interrupts

end Ester
