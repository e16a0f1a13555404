import Ester.Drivers.Ahci.Port

/-
  What the success of a command says about the device.

  A run of `read` or `write` that returns 0 has seen the port
  idle, issued one command, seen the bit of its slot clear
  and no error after that; a read has seen the port idle once
  more.  The two loops of `read` share their counter, so the
  last idle value is one within the budget.  A port that is
  not idle within the budget gets no command.

  Key definitions include:
    * `Idle`
    * `Handshake`
    * `GaveUp`

  Key theorems include:
    * `handshake_result`
    * `issueCommand_run`
    * `issueCommand_result`
    * `issueCommand_of_busy`
    * `ahci_handshake`
-/

namespace Ester

namespace Ahci

open Polling

------------------------------------------------------------
-- Accesses
------------------------------------------------------------

/- The port is idle: BUSY and DRQ are both clear. -/
def Idle
    (tfd : UInt32) : Prop :=
  tfd &&& ataDevBusy = 0 ∧ tfd &&& ataDevDrq = 0

theorem deviceBusy_eq_false_iff
    (tfd : UInt32) :
    deviceBusy tfd = false ↔ Idle tfd := by
  have hOr : ∀ a b : UInt32, a ||| b = 0 ↔ a = 0 ∧ b = 0 := by
    intro a b
    exact UInt32.or_eq_zero_iff
  have hSplit : tfd &&& (ataDevBusy ||| ataDevDrq) =
      (tfd &&& ataDevBusy) ||| (tfd &&& ataDevDrq) := by
    apply UInt32.toNat_inj.mp
    rw [UInt32.toNat_and, UInt32.toNat_or, UInt32.toNat_or,
      UInt32.toNat_and, UInt32.toNat_and,
      Nat.and_or_distrib_left]
  rw [deviceBusy, hSplit, Idle, ← hOr]
  simp

/- The access issues a command. -/
def isIssue : PortAccess → Bool
  | .write .ci _ => true
  | _ => false

/- The access does not issue a command. -/
def NoIssue
    (x : PortAccess) : Prop :=
  isIssue x = false

theorem countP_isIssue_eq_zero
    {accesses : List PortAccess}
    (h : ∀ x ∈ accesses, NoIssue x) :
    accesses.countP isIssue = 0 :=
  List.countP_eq_zero.mpr fun x hx => by
    rw [h x hx]
    exact Bool.false_ne_true

theorem noIssue_spinWhile
    (spin : Nat) :
    Accesses NoIssue (spinWhile .tfd deviceBusy spinBudget spin :
      PortDriver Nat) :=
  accesses_spinWhile _ _ _ fun _ => rfl

theorem noIssue_awaitUnless
    (done : UInt32 → Bool) :
    Accesses NoIssue (awaitUnless .ci done .is taskFileError :
      PortDriver Bool) :=
  accesses_awaitUnless _ _ (fun _ => rfl) fun _ => rfl

------------------------------------------------------------
-- Completion
------------------------------------------------------------

/- A command that completed has its bit seen clear. -/
theorem awaitCompletion_result
    {slot : Nat}
    {m : Memory}
    {answers : List UInt32}
    (h : (awaitCompletion slot m answers).result = some true) :
    ∃ waits v w,
      (awaitCompletion slot m answers).accesses =
        waits ++ [.read .ci v, .read .is w] ∧
      v &&& slotBit slot = 0 ∧ w &&& hbaPxIsTfes = 0 := by
  unfold awaitCompletion at h ⊢
  rcases bind_eq_some h with ⟨completed, hAwait, hRest, hLog⟩
  rw [hLog]
  cases completed with
  | false => cases hRest
  | true =>
      rcases awaitUnless_result hAwait with
        ⟨waits, v, hWaits, hClear⟩
      rw [if_pos rfl] at hRest ⊢
      rcases bind_eq_some hRest with ⟨w, hRead, hRest, hLog'⟩
      cases hError : taskFileError w with
      | true =>
          rw [hError] at hRest
          cases hRest
      | false =>
          refine ⟨waits, v, w, ?_, by simpa using hClear,
            by simpa [taskFileError] using hError⟩
          rw [hWaits, hLog', readReg_eq_some hRead, pure_run]
          simp

theorem noIssue_awaitCompletion
    (slot : Nat) :
    Accesses NoIssue (awaitCompletion slot) :=
  (noIssue_awaitUnless _).bind fun completed => by
    cases completed with
    | false => exact accesses_pure _ _
    | true =>
        exact (accesses_readReg fun _ => rfl).bind fun _ =>
          accesses_pure _ _

/- A handshake that goes through is complete. -/
theorem handshake_result
    {slot spin : Nat}
    {m : Memory}
    {answers : List UInt32}
    (h : (handshake slot m answers).result = some (some spin)) :
    spin < spinBudget ∧
      ∃ polls t waits v w,
        (handshake slot m answers).accesses =
          polls ++ .read .tfd t :: .write .ci (slotBit slot) ::
            (waits ++ [.read .ci v, .read .is w]) ∧
        Idle t ∧ v &&& slotBit slot = 0 ∧
        w &&& hbaPxIsTfes = 0 ∧
        (polls ++ waits).countP isIssue = 0 := by
  unfold handshake at h ⊢
  rcases bind_eq_some h with ⟨spin', hSpin, hRest, hLog⟩
  rw [hLog]
  rcases spinWhile_result (Nat.zero_le _) hSpin with
    ⟨hLe, polls, t, hPolls, hIdle⟩
  have hPollReads := noIssue_spinWhile 0 m answers
  rw [hPolls] at hPollReads ⊢
  generalize (spinWhile .tfd deviceBusy spinBudget 0 m
    answers : Outcome Memory PortRegister UInt32 Nat).memory = m₁
    at hRest ⊢
  generalize (spinWhile .tfd deviceBusy spinBudget 0 m
    answers : Outcome Memory PortRegister UInt32 Nat).answers =
      answers₁ at hRest ⊢
  by_cases hHung : spin' = spinBudget
  · rw [if_pos hHung] at hRest
    cases hRest
  · rw [if_neg hHung, writeReg_bind] at hRest ⊢
    rcases bind_eq_some hRest with
      ⟨completed, hAwait, hRest, hLog'⟩
    cases completed with
    | false => cases hRest
    | true =>
        cases hRest
        rcases awaitCompletion_result hAwait with
          ⟨waits, v, w, hWaits, hClear, hError⟩
        have hWaitReads := noIssue_awaitCompletion slot m₁
          answers₁
        rw [hWaits] at hWaitReads
        refine ⟨by omega, polls, t, waits, v, w, ?_,
          (deviceBusy_eq_false_iff t).mp (hIdle (by omega)),
          hClear, hError, ?_⟩
        · simp only [Outcome.after, hLog', hWaits, if_true,
            pure_run]
          simp
        · apply countP_isIssue_eq_zero
          intro x hx
          rcases List.mem_append.mp hx with hx | hx
          · exact hPollReads x (List.mem_append_left _ hx)
          · exact hWaitReads x (List.mem_append_left _ hx)

------------------------------------------------------------
-- Issuing a Command
------------------------------------------------------------

theorem issueCommand_run
    (kind : CommandKind)
    (clb : Nat)
    (startl starth count : UInt32)
    (buf : UInt64)
    (m : Memory)
    (sact ci : UInt32)
    (answers : List UInt32) :
    issueCommand kind clb startl starth count buf m
        (sact :: ci :: answers) =
      Outcome.after
        [.write .is 0xFFFFFFFF, .read .sact sact,
          .read .ci ci]
        (match freeSlot 32 0 (sact ||| ci) with
        | none => ⟨some none, m, [], answers⟩
        | some slot =>
            handshake slot (buildCommand kind clb slot startl
              starth count buf m) answers) := by
  have hFind : findCmdslot m (sact :: ci :: answers) =
      ⟨some (freeSlot 32 0 (sact ||| ci)), m,
        [.read .sact sact, .read .ci ci], answers⟩ := rfl
  rw [issueCommand, writeReg_bind, bind_run, hFind]
  cases freeSlot 32 0 (sact ||| ci) with
  | none => rfl
  | some slot => rfl

/-
  The accesses of a command that went through, and what came
  after it: one command was issued, right after the port was
  seen idle, then its bit was seen clear and no error.
-/
def Handshake
    (accesses tail : List PortAccess) : Prop :=
  ∃ slot before t waits v w,
    slot < 32 ∧
    accesses =
      before ++ .read .tfd t :: .write .ci (slotBit slot) ::
        (waits ++ .read .ci v :: .read .is w :: tail) ∧
    Idle t ∧ v &&& slotBit slot = 0 ∧ w &&& hbaPxIsTfes = 0 ∧
    accesses.countP isIssue = 1

/- A handshake goes on with accesses that issue nothing. -/
theorem Handshake.append
    {accesses tail more : List PortAccess}
    (h : Handshake accesses tail)
    (hMore : ∀ x ∈ more, NoIssue x) :
    Handshake (accesses ++ more) (tail ++ more) := by
  rcases h with ⟨slot, before, t, waits, v, w, hSlot, hAccesses,
    hIdle, hClear, hError, hOnce⟩
  refine ⟨slot, before, t, waits, v, w, hSlot, ?_, hIdle,
    hClear, hError, ?_⟩
  · rw [hAccesses]
    simp
  · rw [List.countP_append, hOnce,
      countP_isIssue_eq_zero hMore]

/- A command that goes through makes the whole handshake. -/
theorem issueCommand_result
    {kind : CommandKind}
    {clb : Nat}
    {startl starth count : UInt32}
    {buf : UInt64}
    {m : Memory}
    {answers : List UInt32}
    {spin : Nat}
    (h : (issueCommand kind clb startl starth count buf m
      answers).result = some (some spin)) :
    spin < spinBudget ∧
      Handshake (issueCommand kind clb startl starth count buf m
        answers).accesses [] := by
  match answers with
  | [] => cases h
  | [_] => cases h
  | sact :: ci :: answers =>
      rw [issueCommand_run] at h ⊢
      cases hSlot : freeSlot 32 0 (sact ||| ci) with
      | none =>
          rw [hSlot] at h
          cases h
      | some slot =>
          rw [hSlot] at h
          rcases handshake_result h with
            ⟨hSpin, polls, t, waits, v, w, hLog, hIdle, hClear,
              hError, hNone⟩
          have hFree := freeSlot_eq_some_iff.mp hSlot
          refine ⟨hSpin, slot, [.write .is 0xFFFFFFFF,
            .read .sact sact, .read .ci ci] ++ polls, t, waits,
            v, w, by omega, ?_, hIdle, hClear, hError, ?_⟩
          · simp only [Outcome.after, hLog]
            simp
          · simp only [List.countP_append, Nat.add_eq_zero_iff]
              at hNone
            simp only [Outcome.after, hLog]
            simp [List.countP_append, List.countP_cons, isIssue,
              hNone]

------------------------------------------------------------
-- Busy Ports
------------------------------------------------------------

/-
  The driver gave up: it issued no command, it has no result
  but `a`, and it has that one if the device presented enough
  values for it to end.
-/
structure GaveUp
    {α : Type}
    (out : Outcome Memory PortRegister UInt32 α)
    (a : α)
    (ended : Prop) : Prop where
  issued : out.accesses.countP isIssue = 0
  result : ∀ r, out.result = some r → r = a
  ends : ended → out.result = some a

/- On a port that stays busy no command is issued. -/
theorem handshake_of_busy
    (slot : Nat)
    (m : Memory)
    {answers : List UInt32}
    (hBusy : ∀ v ∈ answers.take spinBudget, ¬ Idle v) :
    GaveUp (handshake slot m answers) none
      (spinBudget < answers.length) := by
  have hSpin := @spinWhile_of_busy Memory PortRegister UInt32 .tfd
    deviceBusy spinBudget 0 m answers (Nat.zero_le _)
    fun v hv => by
      rw [← Bool.not_eq_false, deviceBusy_eq_false_iff]
      exact hBusy v hv
  have hReads := countP_isIssue_eq_zero
    (noIssue_spinWhile 0 m answers)
  rw [handshake, bind_run]
  cases hResult : (spinWhile .tfd deviceBusy spinBudget 0 m
    answers : Outcome Memory PortRegister UInt32 Nat).result with
  | none =>
      refine ⟨hReads, fun r h => (by cases h), fun h => ?_⟩
      rw [hSpin.2 h] at hResult
      cases hResult
  | some n =>
      rw [hSpin.1 n hResult]
      refine ⟨?_, fun r h => ?_, fun _ => rfl⟩
      · simpa [Outcome.after, pure_run] using hReads
      · exact (Option.some.inj h).symm

/- The answers after those to `sact` and `ci` are the port's. -/
theorem issueCommand_of_busy
    (kind : CommandKind)
    (clb : Nat)
    (startl starth count : UInt32)
    (buf : UInt64)
    (m : Memory)
    {answers : List UInt32}
    (hBusy : ∀ v ∈ (answers.drop 2).take spinBudget, ¬ Idle v) :
    GaveUp (issueCommand kind clb startl starth count buf m
      answers) none (spinBudget + 2 < answers.length) := by
  match answers with
  | [] => exact ⟨rfl, fun r h => (by cases h),
      fun h => (by cases h)⟩
  | [_] =>
      refine ⟨rfl, fun r h => (by cases h), fun h => ?_⟩
      simp at h
  | sact :: ci :: answers =>
      rw [issueCommand_run]
      cases freeSlot 32 0 (sact ||| ci) with
      | none =>
          exact ⟨rfl, fun r h => (Option.some.inj h).symm,
            fun _ => rfl⟩
      | some slot =>
          have hGaveUp := handshake_of_busy slot
            (buildCommand kind clb slot startl starth count buf m)
            hBusy
          refine ⟨?_, hGaveUp.result, fun h => hGaveUp.ends ?_⟩
          · simpa [Outcome.after, isIssue] using hGaveUp.issued
          · simpa using h

/- Giving up is passed on by a driver that answers it. -/
theorem GaveUp.bind
    {α β : Type}
    {p : PortDriver α}
    {f : α → PortDriver β}
    {m : Memory}
    {answers : List UInt32}
    {a : α}
    {b : β}
    {ended : Prop}
    (h : GaveUp (p m answers) a ended)
    (hNext : f a = pure b) :
    GaveUp ((p >>= f) m answers) b ended := by
  rw [bind_run]
  cases hResult : (p m answers).result with
  | none =>
      refine ⟨h.issued, fun r hr => (by cases hr), fun hEnd => ?_⟩
      rw [h.ends hEnd] at hResult
      cases hResult
  | some a' =>
      obtain rfl := h.result a' hResult
      simp only [hNext, pure_run]
      refine ⟨?_, fun r hr => (Option.some.inj hr).symm,
        fun _ => rfl⟩
      simpa [Outcome.after] using h.issued

------------------------------------------------------------
-- Reads and Writes
------------------------------------------------------------

section Commands

variable (clb : Nat)
variable (startl starth count : UInt32)
variable (buf : UInt64)
variable {m : Memory}
variable {answers : List UInt32}

/- A read that succeeds ends on an idle port. -/
theorem read_result_zero
    (h : (Port.read clb startl starth count buf m
      answers).result = some 0) :
    ∃ polls t,
      Handshake (Port.read clb startl starth count buf m
        answers).accesses (polls ++ [.read .tfd t]) ∧
      Idle t := by
  rw [Port.read] at h ⊢
  rcases bind_eq_some h with ⟨issued, hIssue, hRest, hLog⟩
  rw [hLog]
  cases issued with
  | none => cases hRest
  | some spin =>
      rcases issueCommand_result hIssue with ⟨hSpin, hShake⟩
      rcases bind_eq_some hRest with ⟨n, hWait, hEnd, hLog'⟩
      rcases spinWhile_result (Nat.le_of_lt hSpin) hWait with
        ⟨hLe, polls, t, hPolls, hIdle⟩
      by_cases hHung : n = spinBudget
      · rw [if_pos hHung] at hEnd
        cases hEnd
      · rw [if_neg hHung] at hLog'
        refine ⟨polls, t, ?_,
          (deviceBusy_eq_false_iff t).mp (hIdle (by omega))⟩
        rw [hLog', hPolls, pure_run, List.append_nil]
        have hReads := noIssue_spinWhile spin
          (issueCommand readKind clb startl starth count buf m
            answers).memory
          (issueCommand readKind clb startl starth count buf m
            answers).answers
        rw [hPolls] at hReads
        exact hShake.append hReads

/- A write that succeeds has made the whole handshake. -/
theorem write_result_zero
    (h : (Port.write clb startl starth count buf m
      answers).result = some 0) :
    Handshake (Port.write clb startl starth count buf m
      answers).accesses [] := by
  rw [Port.write] at h ⊢
  rcases bind_eq_some h with ⟨issued, hIssue, hRest, hLog⟩
  rw [hLog]
  cases issued with
  | none => cases hRest
  | some spin =>
      simp only [pure_run, List.append_nil]
      exact (issueCommand_result hIssue).2

end Commands

/-
  For every behaviour of the device: success means the whole
  handshake, and a port that is never seen idle within the
  budget gets no command and the answer 1.
-/
theorem ahci_handshake
    (portIndex : UInt8)
    (lba : UInt64)
    (count : UInt32)
    (buf : UInt64)
    (mem : Memory)
    (answers : List UInt32) :
    let reads := Port.ahciRead portIndex lba count buf mem answers
    let writes := Port.ahciWrite portIndex lba count buf mem
      answers
    (reads.result = some 0 →
        ∃ polls t,
          Handshake reads.accesses (polls ++ [.read .tfd t]) ∧
          Idle t) ∧
      (writes.result = some 0 → Handshake writes.accesses []) ∧
      ((∀ v ∈ (answers.drop 2).take spinBudget, ¬ Idle v) →
        GaveUp reads 1 (spinBudget + 2 < answers.length) ∧
          GaveUp writes 1 (spinBudget + 2 < answers.length)) := by
  refine ⟨read_result_zero _ _ _ _ _, write_result_zero _ _ _ _ _,
    fun hBusy => ⟨?_, ?_⟩⟩
  · exact (issueCommand_of_busy _ _ _ _ _ _ _ hBusy).bind rfl
  · exact (issueCommand_of_busy _ _ _ _ _ _ _ hBusy).bind rfl

/- A device that is busy once and then does the command. -/
example : (Port.ahciRead 0 5 1 0x1000 (portRebase 0 fun _ => 0)
    [1, 0, 0x80, 0, 2, 0, 0, 0, 0x50]).result = some 0 := rfl

end Ahci

end Ester
