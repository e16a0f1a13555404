import Ester.Kernel.Idt
import Ester.Library.Polling

/-
  The initialisation of drivers/ps2_keyboard.

  A command is written to the controller and written again
  whenever a wait for its acknowledgement runs out.  The two
  ports are disabled first, what the controller still holds
  is read, and the ports are enabled again; only then is the
  handler of the keyboard registered.  The controller may
  give any status at any time.

  Key definitions include:
    * `waitAck`, `sendCmd`
    * `clearInputDataBuffer`
    * `ps2KeyboardInit`
    * `Sent`

  Key theorems include:
    * `sendCmd_run`
    * `ps2KeyboardInit_run`
-/

namespace Ester

namespace Ps2Keyboard

open Polling

------------------------------------------------------------
-- The Driver
------------------------------------------------------------

/- The data port 0x60 and the control port 0x64. -/
inductive Port where
  | data
  | ctrl
deriving DecidableEq

abbrev KeyboardDriver :=
  Driver Memory Port UInt8

abbrev KeyboardAccess :=
  Access Port UInt8

/- The commands of the controller. -/
abbrev cmdDisableFirst : UInt8 := 0xAD

abbrev cmdEnableFirst : UInt8 := 0xAE

abbrev cmdDisableSecond : UInt8 := 0xA7

abbrev cmdEnableSecond : UInt8 := 0xA8

/- The vector of the keyboard. -/
abbrev intVectorAbsolute : UInt8 := 33

abbrev maxRetries : Nat := 3

/- The reads of the status that one wait makes at most. -/
abbrev waitReads : Nat := 99999

/- The loop of `__ps2_keyboard_wait_ack`, by reads left. -/
def waitAckLoop : (left : Nat) → KeyboardDriver UInt8
  | 0 => pure 1
  | left + 1 => do
      let status ← readReg .ctrl
      if status &&& ((1 : UInt8) <<< 1) = 0 then pure 0
      else waitAckLoop left

/- The counter starts at 100000 and is decremented first. -/
def waitAck : KeyboardDriver UInt8 :=
  waitAckLoop waitReads

/- The loop has no bound. -/
def clearInputDataBuffer : KeyboardDriver Unit
  | m, [] => ⟨none, m, [], []⟩
  | m, [v] =>
      if v &&& 1 = 0 then ⟨some (), m, [.read .ctrl v], []⟩
      else ⟨none, m, [.read .ctrl v], []⟩
  | m, v :: w :: answers =>
      if v &&& 1 = 0 then
        ⟨some (), m, [.read .ctrl v], w :: answers⟩
      else
        (clearInputDataBuffer m answers).after
          [.read .ctrl v, .read .data w]

/- The loop of `__ps2_keyboard_send_cmd`. -/
def sendCmdLoop
    (cmd : UInt8) : (left : Nat) → KeyboardDriver UInt8
  | 0 => pure 1
  | left + 1 => do
      if (← waitAck) = 0 then pure 0
      else
        writeReg .ctrl cmd
        sendCmdLoop cmd left

def sendCmd
    (cmd : UInt8) : KeyboardDriver UInt8 := do
  writeReg .ctrl cmd
  sendCmdLoop cmd maxRetries

def disableFirst : KeyboardDriver UInt8 :=
  sendCmd cmdDisableFirst

def enableFirst : KeyboardDriver UInt8 :=
  sendCmd cmdEnableFirst

def disableSecond : KeyboardDriver UInt8 :=
  sendCmd cmdDisableSecond

def enableSecond : KeyboardDriver UInt8 :=
  sendCmd cmdEnableSecond

/- Register the handler in the table at `idt`. -/
def ps2KeyboardInit
    (idt handler : UInt64) : KeyboardDriver UInt8 := do
  if (← disableFirst) ≠ 0 then pure 1
  else if (← disableSecond) ≠ 0 then pure 1
  else
    clearInputDataBuffer
    if (← enableFirst) ≠ 0 then pure 1
    else if (← enableSecond) ≠ 0 then pure 1
    else
      modifyMemory (Idt.registerInterruptHandler idt
        intVectorAbsolute handler)
      pure 0

------------------------------------------------------------
-- Statuses
------------------------------------------------------------

/- The commands among the accesses, in order. -/
def commands
    (log : List KeyboardAccess) : List UInt8 :=
  log.filterMap fun x =>
    match x with
    | .write .ctrl cmd => some cmd
    | _ => none

/- How many statuses at the front are busy. -/
def busyCount : List UInt8 → Nat
  | [] => 0
  | v :: answers =>
      if v &&& ((1 : UInt8) <<< 1) = 0 then 0
      else busyCount answers + 1

/-
  What a wait of at most `budget` reads comes to, and the
  values that are left.
-/
def verdict
    (budget : Nat)
    (answers : List UInt8) : Option UInt8 × List UInt8 :=
  if budget ≤ busyCount answers then
    (some 1, answers.drop budget)
  else if busyCount answers < answers.length then
    (some 0, answers.drop (busyCount answers + 1))
  else (none, [])

theorem busyCount_le
    (answers : List UInt8) :
    busyCount answers ≤ answers.length := by
  induction answers with
  | nil => exact Nat.le_refl _
  | cons v answers ih =>
      rw [busyCount, List.length_cons]
      split
      · exact Nat.zero_le _
      · omega

/- Reading busy statuses leaves the others. -/
theorem busyCount_drop
    {answers : List UInt8}
    {k : Nat}
    (hk : k ≤ busyCount answers) :
    busyCount (answers.drop k) = busyCount answers - k := by
  induction k generalizing answers with
  | zero => rfl
  | succ k ih =>
      cases answers with
      | nil => exact absurd hk (Nat.not_succ_le_zero k)
      | cons v answers =>
          rw [busyCount] at hk ⊢
          split at hk
          · omega
          · next hBusy =>
              rw [if_neg hBusy, List.drop_succ_cons,
                ih (by omega)]
              omega

/- A wait after a wait that ran out. -/
theorem verdict_drop
    {answers : List UInt8}
    {budget k : Nat}
    (hk : k ≤ busyCount answers) :
    verdict budget (answers.drop k) =
      verdict (budget + k) answers := by
  have hLe := busyCount_le answers
  unfold verdict
  rw [busyCount_drop hk, List.length_drop, List.drop_drop,
    List.drop_drop]
  by_cases hBudget : budget ≤ busyCount answers - k
  · have hTotal : budget + k ≤ busyCount answers := by omega
    rw [if_pos hBudget, if_pos hTotal, Nat.add_comm]
  · have hTotal : ¬ budget + k ≤ busyCount answers := by omega
    rw [if_neg hBudget, if_neg hTotal]
    by_cases hIdle : busyCount answers < answers.length
    · have hLeft : busyCount answers - k <
          answers.length - k := by omega
      rw [if_pos hLeft, if_pos hIdle,
        show k + (busyCount answers - k + 1) =
          busyCount answers + 1 by omega]
    · have hLeft : ¬ busyCount answers - k <
          answers.length - k := by omega
      rw [if_neg hLeft, if_neg hIdle]

theorem commands_append
    (log more : List KeyboardAccess) :
    commands (log ++ more) = commands log ++ commands more :=
  List.filterMap_append ..

------------------------------------------------------------
-- Sending a Command
------------------------------------------------------------

/-
  A run ends with a memory, sends commands, and has a result
  and values left.
-/
structure Sends
    {α : Type}
    (m : Memory)
    (sent : List UInt8)
    (left : Option α × List UInt8)
    (out : Outcome Memory Port UInt8 α) : Prop where
  memory : out.memory = m
  sent : commands out.accesses = sent
  left : (out.result, out.answers) = left

namespace Sends

variable {α β : Type} {m m' m'' : Memory}
variable {sent more answers rest : List UInt8}

theorem after
    {left : Option α × List UInt8}
    {out : Outcome Memory Port UInt8 α}
    (h : Sends m sent left out)
    (log : List KeyboardAccess) :
    Sends m (commands log ++ sent) left (out.after log) where
  memory := h.memory
  sent := by
    rw [← h.sent]
    exact commands_append log out.accesses
  left := h.left

theorem pure
    (a : α) :
    Sends m [] (some a, answers)
      ((Pure.pure a : KeyboardDriver α) m answers) :=
  ⟨rfl, rfl, rfl⟩

/- A driver that goes on with the result of another. -/
theorem bind
    {p : KeyboardDriver α}
    {f : α → KeyboardDriver β}
    {a : α}
    {left : Option β × List UInt8}
    (hFirst : Sends m' sent (some a, rest) (p m answers))
    (hNext : Sends m'' more left (f a m' rest)) :
    Sends m'' (sent ++ more) left ((p >>= f) m answers) := by
  have hResult : (p m answers).result = some a :=
    congrArg Prod.fst hFirst.left
  have hRest : (p m answers).answers = rest :=
    congrArg Prod.snd hFirst.left
  rw [bind_run]
  simp only [hResult, hRest, hFirst.memory]
  rw [← hFirst.sent]
  exact hNext.after _

/- A driver behind one that has no result. -/
theorem bind_none
    {p : KeyboardDriver α}
    (f : α → KeyboardDriver β)
    (hFirst : Sends m' sent (none, rest) (p m answers)) :
    Sends m' sent (none, rest) ((p >>= f) m answers) := by
  have hResult : (p m answers).result = none :=
    congrArg Prod.fst hFirst.left
  have hRest : (p m answers).answers = rest :=
    congrArg Prod.snd hFirst.left
  rw [bind_run]
  simp only [hResult, hRest, hFirst.memory]
  exact ⟨rfl, hFirst.sent, rfl⟩

end Sends

/- The loop of the wait reads up to the first idle status. -/
theorem waitAckLoop_run
    (left : Nat)
    (m : Memory)
    (answers : List UInt8) :
    Sends m [] (verdict left answers)
      (waitAckLoop left m answers) := by
  induction left generalizing answers with
  | zero => exact ⟨rfl, rfl, (if_pos (Nat.zero_le _)).symm⟩
  | succ left ih =>
      cases answers with
      | nil => exact ⟨rfl, rfl, rfl⟩
      | cons v answers =>
          have hRead : Sends m [] (some v, answers)
              (readReg Port.ctrl m (v :: answers)) :=
            ⟨rfl, rfl, rfl⟩
          rw [waitAckLoop]
          by_cases hIdle : v &&& ((1 : UInt8) <<< 1) = 0
          · have hZero : verdict (left + 1) (v :: answers) =
                (some 0, answers) := by
              simp [verdict, busyCount, hIdle]
            rw [hZero]
            refine hRead.bind ?_
            rw [if_pos hIdle]
            exact .pure 0
          · have hBusy : 1 ≤ busyCount (v :: answers) := by
              rw [busyCount, if_neg hIdle]
              omega
            have hOne : verdict (left + 1) (v :: answers) =
                verdict left answers := (verdict_drop hBusy).symm
            rw [hOne]
            refine hRead.bind ?_
            rw [if_neg hIdle]
            exact ih answers

/- A command is sent again for each wait that runs out. -/
theorem sendCmdLoop_run
    (cmd : UInt8)
    (left : Nat)
    (m : Memory)
    (answers : List UInt8) :
    Sends m
      (List.replicate
        (min left (busyCount answers / waitReads)) cmd)
      (verdict (left * waitReads) answers)
      (sendCmdLoop cmd left m answers) := by
  induction left generalizing answers with
  | zero =>
      rw [Nat.zero_min, Nat.zero_mul]
      exact ⟨rfl, rfl, (if_pos (Nat.zero_le _)).symm⟩
  | succ left ih =>
      have hWait := waitAckLoop_run waitReads m answers
      have hTotal : (left + 1) * waitReads =
          left * waitReads + waitReads := Nat.succ_mul ..
      rw [sendCmdLoop]
      by_cases hBusy : waitReads ≤ busyCount answers
      · have hVerdict : verdict waitReads answers =
            (some 1, answers.drop waitReads) := if_pos hBusy
        have hDiv : busyCount answers / waitReads =
            (busyCount answers - waitReads) / waitReads + 1 :=
          Nat.div_eq_sub_div (by decide) hBusy
        have hNext := (ih (answers.drop waitReads)).after
          [.write .ctrl cmd]
        rw [verdict_drop hBusy, ← hTotal, busyCount_drop hBusy]
          at hNext
        rw [hVerdict] at hWait
        rw [hDiv, Nat.succ_min_succ, List.replicate_succ]
        refine hWait.bind ?_
        rw [if_neg (by decide), writeReg_bind]
        exact hNext
      · have hNone : busyCount answers / waitReads = 0 :=
          Nat.div_eq_of_lt (Nat.not_le.mp hBusy)
        have hMore : ¬ (left + 1) * waitReads ≤
            busyCount answers := by omega
        rw [hNone, Nat.min_zero, List.replicate_zero]
        unfold verdict at hWait ⊢
        rw [if_neg hBusy] at hWait
        rw [if_neg hMore]
        by_cases hIdle : busyCount answers < answers.length
        · rw [if_pos hIdle] at hWait ⊢
          refine hWait.bind ?_
          rw [if_pos rfl]
          exact .pure 0
        · rw [if_neg hIdle] at hWait ⊢
          exact hWait.bind_none _

/- How often a command is written. -/
def writesFor
    (answers : List UInt8) : Nat :=
  min maxRetries (busyCount answers / waitReads) + 1

theorem sendCmd_run
    (cmd : UInt8)
    (m : Memory)
    (answers : List UInt8) :
    Sends m (List.replicate (writesFor answers) cmd)
      (verdict (maxRetries * waitReads) answers)
      (sendCmd cmd m answers) := by
  have hLoop := (sendCmdLoop_run cmd maxRetries m answers).after
    [.write .ctrl cmd]
  rw [sendCmd, writeReg_bind, writesFor, List.replicate_succ]
  exact hLoop

------------------------------------------------------------
-- Clearing the Buffer
------------------------------------------------------------

/- The values behind the first status without a byte. -/
def drained : List UInt8 → Option (List UInt8)
  | [] => none
  | [v] => if v &&& 1 = 0 then some [] else none
  | v :: w :: answers =>
      if v &&& 1 = 0 then some (w :: answers)
      else drained answers

/- What clearing the buffer comes to. -/
def drainLeft
    (answers : List UInt8) : Option Unit × List UInt8 :=
  match drained answers with
  | some rest => (some (), rest)
  | none => (none, [])

theorem clearInputDataBuffer_run
    (m : Memory)
    (answers : List UInt8) :
    Sends m [] (drainLeft answers)
      (clearInputDataBuffer m answers) := by
  unfold drainLeft
  fun_induction drained answers with
  | case1 => exact ⟨rfl, rfl, rfl⟩
  | case2 v hEmpty =>
      rw [clearInputDataBuffer, if_pos hEmpty]
      exact ⟨rfl, rfl, rfl⟩
  | case3 v hByte =>
      rw [clearInputDataBuffer, if_neg hByte]
      exact ⟨rfl, rfl, rfl⟩
  | case4 v w answers hEmpty =>
      rw [clearInputDataBuffer, if_pos hEmpty]
      exact ⟨rfl, rfl, rfl⟩
  | case5 v w answers hByte ih =>
      rw [clearInputDataBuffer, if_neg hByte]
      exact ih.after [.read .ctrl v, .read .data w]

------------------------------------------------------------
-- The Initialisation
------------------------------------------------------------

/-
  Commands that were to be sent, those that were, and the
  result.  A command is written up to three times until it
  is acknowledged; one written four times is given up.  There
  is no result where the controller gives no more values.
-/
inductive Sent :
    List UInt8 → List UInt8 → Option UInt8 → Prop
  | all : Sent [] [] (some 0)
  | acknowledged
      {cmd : UInt8}
      {cmds sent : List UInt8}
      {r : Option UInt8}
      {k : Nat}
      (hFirst : 1 ≤ k)
      (hLast : k ≤ maxRetries)
      (hRest : Sent cmds sent r) :
      Sent (cmd :: cmds) (List.replicate k cmd ++ sent) r
  | givenUp
      {cmd : UInt8}
      {cmds : List UInt8} :
      Sent (cmd :: cmds)
        (List.replicate (maxRetries + 1) cmd) (some 1)
  | waiting
      {cmd : UInt8}
      {cmds : List UInt8}
      {k : Nat}
      (hFirst : 1 ≤ k)
      (hLast : k ≤ maxRetries + 1) :
      Sent (cmd :: cmds) (List.replicate k cmd) none
  | silent
      {cmds : List UInt8} :
      Sent cmds [] none

/- What the initialisation does one after the other. -/
inductive Stage where
  | command (cmd : UInt8)
  | clear

def stageCommands
    (stages : List Stage) : List UInt8 :=
  stages.filterMap fun x =>
    match x with
    | .command cmd => some cmd
    | .clear => none

/-
  The controller acknowledges every command in time, and its
  buffer runs empty.
-/
def Acknowledges : List Stage → List UInt8 → Prop
  | [], _ => True
  | .command _ :: stages, answers =>
      busyCount answers < maxRetries * waitReads ∧
        busyCount answers < answers.length ∧
        Acknowledges stages
          (answers.drop (busyCount answers + 1))
  | .clear :: stages, answers =>
      ∃ rest, drained answers = some rest ∧
        Acknowledges stages rest

/- A driver that goes through stages and then registers. -/
def Completes
    (m registered : Memory)
    (stages : List Stage)
    (p : KeyboardDriver UInt8) : Prop :=
  ∀ answers,
    Sent (stageCommands stages)
        (commands (p m answers).accesses)
        (p m answers).result ∧
      ((p m answers).result = some 0 ↔
        Acknowledges stages answers) ∧
      (p m answers).memory =
        if (p m answers).result = some 0 then registered else m

section Init

variable {m registered : Memory} {stages : List Stage}
variable {p : KeyboardDriver UInt8}

/- What a run comes to, by what is known of it. -/
theorem completes_of_sends
    {answers sent cmds : List UInt8}
    {left : Option UInt8 × List UInt8}
    {out : Outcome Memory Port UInt8 UInt8}
    {last : Memory}
    (h : Sends last sent left out)
    (hSent : Sent cmds sent left.1)
    (hResult : left.1 = some 0 ↔ Acknowledges stages answers)
    (hMemory :
      last = if left.1 = some 0 then registered else m) :
    Sent cmds (commands out.accesses) out.result ∧
      (out.result = some 0 ↔ Acknowledges stages answers) ∧
      out.memory =
        if out.result = some 0 then registered else m := by
  have hLeft : out.result = left.1 := congrArg Prod.fst h.left
  rw [h.sent, hLeft, h.memory]
  exact ⟨hSent, hResult, hMemory⟩

theorem completes_register
    (f : Memory → Memory) :
    Completes m (f m) [] (do
      modifyMemory f
      pure 0) :=
  fun _ => ⟨.all, ⟨fun _ => trivial, fun _ => rfl⟩, rfl⟩

/- A command before the stages of a driver. -/
theorem Completes.command
    (h : Completes m registered stages p)
    (cmd : UInt8) :
    Completes m registered (.command cmd :: stages) (do
      if (← sendCmd cmd) ≠ 0 then pure 1
      else p) := by
  intro answers
  have hSend := sendCmd_run cmd m answers
  unfold verdict at hSend
  have hTotal : maxRetries * waitReads = 299997 := rfl
  by_cases hBusy : maxRetries * waitReads ≤ busyCount answers
  · have hWrites : writesFor answers = maxRetries + 1 := by
      have hDiv : maxRetries ≤ busyCount answers / waitReads :=
        (Nat.le_div_iff_mul_le (by decide)).mpr hBusy
      rw [writesFor, Nat.min_eq_left hDiv]
    rw [if_pos hBusy, hWrites] at hSend
    have hRun := hSend.bind (f := fun r =>
      if r ≠ 0 then pure 1 else p) (by
        rw [if_pos (by decide)]
        exact Sends.pure 1)
    rw [List.append_nil] at hRun
    refine completes_of_sends hRun .givenUp ?_ rfl
    constructor
    · intro hZero
      cases hZero
    · rintro ⟨hInTime, -⟩
      omega
  · rw [if_neg hBusy] at hSend
    have hWrites : writesFor answers ≤ maxRetries := by
      have hDiv : busyCount answers / waitReads < maxRetries :=
        (Nat.div_lt_iff_lt_mul (by decide)).mpr
          (Nat.not_le.mp hBusy)
      rw [writesFor]
      omega
    have hFirst : 1 ≤ writesFor answers := Nat.succ_pos _
    by_cases hIdle : busyCount answers < answers.length
    · rw [if_pos hIdle] at hSend
      rcases h (answers.drop (busyCount answers + 1)) with
        ⟨hSent, hResult, hMemory⟩
      have hRun := hSend.bind (f := fun r =>
        if r ≠ 0 then pure 1 else p) (by
          rw [if_neg (by decide)]
          exact ⟨rfl, rfl, rfl⟩)
      refine completes_of_sends hRun
        (.acknowledged hFirst hWrites hSent) ?_ hMemory
      rw [hResult]
      exact ⟨fun hRest =>
          ⟨Nat.not_le.mp hBusy, hIdle, hRest⟩,
        fun hAll => hAll.2.2⟩
    · rw [if_neg hIdle] at hSend
      refine completes_of_sends (hSend.bind_none _)
        (.waiting hFirst (Nat.le_succ_of_le hWrites)) ?_ rfl
      constructor
      · intro hZero
        cases hZero
      · rintro ⟨-, hRead, -⟩
        exact absurd hRead hIdle

/- Clearing the buffer before the stages of a driver. -/
theorem Completes.clear
    (h : Completes m registered stages p) :
    Completes m registered (.clear :: stages) (do
      clearInputDataBuffer
      p) := by
  intro answers
  have hClear := clearInputDataBuffer_run m answers
  unfold drainLeft at hClear
  cases hDrained : drained answers with
  | none =>
      simp only [hDrained] at hClear
      refine completes_of_sends (hClear.bind_none _) .silent
        ?_ rfl
      constructor
      · intro hZero
        cases hZero
      · rintro ⟨rest, hRest, -⟩
        rw [hDrained] at hRest
        cases hRest
  | some rest =>
      simp only [hDrained] at hClear
      rcases h rest with ⟨hSent, hResult, hMemory⟩
      have hRun := hClear.bind (f := fun _ => p)
        ⟨rfl, rfl, rfl⟩
      refine completes_of_sends hRun hSent ?_ hMemory
      rw [hResult]
      constructor
      · intro hRest
        exact ⟨rest, hDrained, hRest⟩
      · rintro ⟨rest', hRest', hAll⟩
        rw [hDrained] at hRest'
        cases hRest'
        exact hAll

end Init

/- The stages of the initialisation. -/
def initStages : List Stage :=
  [.command cmdDisableFirst, .command cmdDisableSecond, .clear,
    .command cmdEnableFirst, .command cmdEnableSecond]

theorem keyboard_completes
    (idt handler : UInt64)
    (m : Memory) :
    Completes m
      (Idt.registerInterruptHandler idt intVectorAbsolute
        handler m)
      initStages (ps2KeyboardInit idt handler) :=
  ((((completes_register _).command _).command _).clear.command
    _).command _

/-
  Whatever the controller answers, the four commands are sent
  in order, each at most four times and only after the one
  before it was acknowledged.  The answer is 0 exactly when
  all are acknowledged in time and the buffer runs empty, and
  the handler is registered then and only then.
-/
theorem ps2KeyboardInit_run
    (idt handler : UInt64)
    (m : Memory)
    (answers : List UInt8) :
    Sent [cmdDisableFirst, cmdDisableSecond, cmdEnableFirst,
          cmdEnableSecond]
        (commands (ps2KeyboardInit idt handler m
          answers).accesses)
        (ps2KeyboardInit idt handler m answers).result ∧
      ((ps2KeyboardInit idt handler m answers).result =
          some 0 ↔
        Acknowledges initStages answers) ∧
      (ps2KeyboardInit idt handler m answers).memory =
        if (ps2KeyboardInit idt handler m answers).result =
            some 0 then
          Idt.registerInterruptHandler idt intVectorAbsolute
            handler m
        else m :=
  keyboard_completes idt handler m answers

end Ps2Keyboard

end Ester
