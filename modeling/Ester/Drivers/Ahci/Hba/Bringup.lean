import Ester.Drivers.Ahci.Hba

/-
  That `ahci_init` follows its contract.

  Every value that a device may present is considered.  What
  is known at the end is what the transfers later rely on:
  the engine of the first port runs on the command list at
  0x40000, and every header names the table of its slot.

  Key theorems include:
    * `stopCmd_follows`, `startCmd_follows`
    * `portRebase_follows`
    * `ahciInit_follows`
-/

namespace Ester

namespace Ahci

open Polling

------------------------------------------------------------
-- Bits of a Command
------------------------------------------------------------

section Bits

variable (v : UInt32) {a b : UInt32}

theorem commands_or :
    commands b (v ||| a) = (commands b v || a &&& b != 0) := by
  have hDistrib : (v ||| a) &&& b =
      (v &&& b) ||| (a &&& b) := by
    rw [← UInt32.toNat_inj]
    simp only [UInt32.toNat_and, UInt32.toNat_or,
      Nat.and_or_distrib_right]
  unfold commands
  rw [hDistrib, Bool.eq_iff_iff]
  simp only [bne_iff_ne, Bool.or_eq_true, ne_eq,
    UInt32.or_eq_zero_iff]
  tauto

/- Clearing other bits keeps a bit. -/
theorem commands_and
    (hKept : a &&& b = b) :
    commands b (v &&& a) = commands b v := by
  unfold commands
  rw [UInt32.and_assoc, hKept]

theorem commands_cleared
    (hCleared : a &&& b = 0) :
    commands b (v &&& a) = false := by
  unfold commands
  rw [UInt32.and_assoc, hCleared, UInt32.and_zero]
  rfl

end Bits

------------------------------------------------------------
-- Reading and Writing the Command
------------------------------------------------------------

namespace Engine

variable {e e' : Engine} {v w : UInt32}

/- The bits of a command that was written are read back. -/
theorem promiseCmd_eq_some
    (hCmd : e.cmd = some w)
    (h : e.promiseCmd v = some e') :
    commands hbaPxCmdSt v = commands hbaPxCmdSt w ∧
      commands hbaPxCmdFre v = commands hbaPxCmdFre w ∧
      e' = e.seen w v := by
  unfold promiseCmd at h
  simp only [hCmd] at h
  split at h
  · next hBits =>
      rw [Option.some.injEq] at h
      exact ⟨hBits.1, hBits.2, h.symm⟩
  · cases h

theorem mayCommand_of_quiet
    (hFre : e.starts hbaPxCmdFre v = false)
    (hSt : e.starts hbaPxCmdSt v = false) :
    e.mayCommand v :=
  ⟨fun h => absurd h (by simp [hFre]),
    fun h => absurd h (by simp [hSt])⟩

/- Once a command is known, keeping a bit starts nothing. -/
theorem starts_of_kept
    {bit : UInt32}
    (hCmd : e.cmd = some w)
    (hKept : commands bit v = true → commands bit w = true) :
    e.starts bit v = false := by
  unfold starts
  simp only [hCmd]
  cases hBit : commands bit v with
  | false => rfl
  | true => rw [hKept hBit]; rfl

end Engine

/- What is known after a command was written. -/
def Engine.commanded
    (e : Engine)
    (v : UInt32) : Engine :=
  { e with
    cmd := some v
    frIdle := e.frIdle && !commands hbaPxCmdFre v
    crIdle := e.crIdle && !commands hbaPxCmdSt v }

section Accesses

variable {e : Engine} {v : UInt32} {t : HbaState}

theorem promise_cmd
    (h : contract.promise ⟨.enabled, e⟩ (.port 0 .cmd) v =
      some t) :
    ∃ e', e.promiseCmd v = some e' ∧ t = ⟨.enabled, e'⟩ := by
  change (e.promiseCmd v).map _ = some t at h
  rcases Option.map_eq_some_iff.mp h with ⟨e', hRead, rfl⟩
  exact ⟨e', hRead, rfl⟩

theorem duty_cmd
    (h : e.mayCommand v) :
    contract.duty ⟨.enabled, e⟩ (.port 0 .cmd) v =
      some ⟨.enabled, e.commanded v⟩ := by
  change Option.map _
    (if e.mayCommand v then some (e.commanded v) else none) = _
  rw [if_pos h]
  rfl

end Accesses

------------------------------------------------------------
-- Stopping the Engine
------------------------------------------------------------

/- The engine is at rest, and the addresses are as before. -/
def Stopped
    (e : Engine)
    (s : HbaState) : Prop :=
  ∃ w, commands hbaPxCmdSt w = false ∧
    commands hbaPxCmdFre w = false ∧
    s = ⟨.enabled,
      { e with cmd := some w, frIdle := true, crIdle := true }⟩

/- From a command that is not known. -/
theorem stopCmd_follows
    {e : Engine}
    (hCmd : e.cmd = none)
    (m : Memory) :
    contract.Follows (Hba.stopCmd 0)
      (fun _ t m' => m' = m ∧ Stopped e t)
      ⟨.enabled, e⟩ m := by
  unfold Hba.stopCmd
  refine .readReg_bind rfl fun v₀ t₀ h₀ => ?_
  rcases promise_cmd h₀ with ⟨e₀, hRead₀, rfl⟩
  have hSeen : e₀ = e.seen v₀ v₀ := by
    unfold Engine.promiseCmd at hRead₀
    simp only [hCmd, Option.some.injEq] at hRead₀
    exact hRead₀.symm
  have hKept := commands_and v₀
    (show ~~~hbaPxCmdSt &&& hbaPxCmdFre = hbaPxCmdFre by decide)
  have hCleared := commands_cleared v₀
    (show ~~~hbaPxCmdSt &&& hbaPxCmdSt = 0 by decide)
  -- The first write keeps the reception as it was read.
  refine .writeReg_bind (duty_cmd
    (Engine.mayCommand_of_quiet
      (Engine.starts_of_kept (by rw [hSeen]; rfl)
        (by rw [hKept]; exact id))
      (by rw [Engine.starts, hCleared, Bool.false_and]))) ?_
  subst hSeen
  refine .readReg_bind rfl fun v₁ t₁ h₁ => ?_
  rcases promise_cmd h₁ with ⟨e₁, hRead₁, rfl⟩
  rcases Engine.promiseCmd_eq_some rfl hRead₁ with
    ⟨hSt, hFre, rfl⟩
  rw [hCleared] at hSt
  have hSt₁ : commands hbaPxCmdSt (v₁ &&& ~~~hbaPxCmdFre) =
      false := by
    rw [commands_and v₁ (by decide), hSt]
  have hFre₁ : commands hbaPxCmdFre (v₁ &&& ~~~hbaPxCmdFre) =
      false := commands_cleared v₁ (by decide)
  refine .writeReg_bind (duty_cmd
    (Engine.mayCommand_of_quiet ?_ ?_)) ?_
  · unfold Engine.starts
    rw [hFre₁, Bool.false_and]
  · unfold Engine.starts
    rw [hSt₁, Bool.false_and]
  -- The loop keeps everything but what it waits for.
  generalize v₁ &&& ~~~hbaPxCmdFre = w at hSt₁ hFre₁
  refine .pollWhileEither (fun s => ∃ fr cr,
    s = ⟨.enabled,
      { e with cmd := some w, frIdle := fr, crIdle := cr }⟩)
    ?_ ?_ ⟨_, _, rfl⟩
  · rintro s ⟨fr, cr, rfl⟩
    rfl
  rintro s v t ⟨fr, cr, rfl⟩ hFirst
  rcases promise_cmd hFirst with ⟨e₂, hRead₂, rfl⟩
  rcases Engine.promiseCmd_eq_some rfl hRead₂ with ⟨-, -, rfl⟩
  split
  · exact ⟨_, _, rfl⟩
  · next hFr =>
      refine ⟨rfl, fun u t hSecond => ?_⟩
      rcases promise_cmd hSecond with ⟨e₃, hRead₃, rfl⟩
      rcases Engine.promiseCmd_eq_some rfl hRead₃ with
        ⟨-, -, rfl⟩
      split
      · exact ⟨_, _, rfl⟩
      · next hCr =>
          have hFrIdle : commands hbaPxCmdFr v = false :=
            Bool.not_eq_true _ ▸ hFr
          have hCrIdle : commands hbaPxCmdCr u = false :=
            Bool.not_eq_true _ ▸ hCr
          refine ⟨rfl, w, hSt₁, hFre₁, ?_⟩
          simp [Engine.seen, hSt₁, hFre₁, hFrIdle, hCrIdle]

------------------------------------------------------------
-- Starting the Engine
------------------------------------------------------------

/- The engine runs, and the addresses are as before. -/
def Started
    (e : Engine)
    (s : HbaState) : Prop :=
  ∃ w, commands hbaPxCmdSt w = true ∧
    commands hbaPxCmdFre w = true ∧
    s = ⟨.enabled,
      { e with cmd := some w, frIdle := false, crIdle := false }⟩

/- From rest, with all addresses set. -/
theorem startCmd_follows
    {e : Engine}
    {w : UInt32}
    (hCmd : e.cmd = some w)
    (hSt : commands hbaPxCmdSt w = false)
    (hFre : commands hbaPxCmdFre w = false)
    (hIdle : e.crIdle = true)
    (hList : e.clb.isSome ∧ e.clbu.isSome)
    (hFis : e.fb.isSome ∧ e.fbu.isSome)
    (m : Memory) :
    contract.Follows (Hba.startCmd 0)
      (fun _ t m' => m' = m ∧ Started e t)
      ⟨.enabled, e⟩ m := by
  unfold Hba.startCmd
  -- While it waits, the engine is as idle as it was or more.
  have hWait : contract.Follows
      (pollWhile (.port 0 .cmd) fun v => v &&& hbaPxCmdCr != 0)
      (fun _ t m' => m' = m ∧ ∃ fr, t = ⟨.enabled,
        { e with cmd := some w, frIdle := fr, crIdle := true }⟩)
      ⟨.enabled, e⟩ m := by
    refine .pollWhile (fun s => ∃ fr, s = ⟨.enabled,
      { e with cmd := some w, frIdle := fr, crIdle := true }⟩)
      ?_ ?_ ⟨e.frIdle, by rw [← hCmd, ← hIdle]⟩
    · rintro s ⟨fr, rfl⟩
      rfl
    rintro s v t ⟨fr, rfl⟩ hRead
    rcases promise_cmd hRead with ⟨e₁, hRead₁, rfl⟩
    rcases Engine.promiseCmd_eq_some rfl hRead₁ with ⟨-, -, rfl⟩
    split
    · exact ⟨_, rfl⟩
    · exact ⟨rfl, _, rfl⟩
  refine hWait.bind ?_
  rintro _ _ _ ⟨rfl, fr, rfl⟩
  refine .readReg_bind rfl fun v₁ t₁ h₁ => ?_
  rcases promise_cmd h₁ with ⟨e₁, hRead₁, rfl⟩
  rcases Engine.promiseCmd_eq_some rfl hRead₁ with
    ⟨hSt₁, hFre₁, rfl⟩
  rw [hSt] at hSt₁
  rw [hFre] at hFre₁
  have hSt₂ : commands hbaPxCmdSt (v₁ ||| hbaPxCmdFre) =
      false := by
    rw [commands_or, hSt₁]
    decide
  have hFre₂ : commands hbaPxCmdFre (v₁ ||| hbaPxCmdFre) =
      true := by
    rw [commands_or, hFre₁]
    decide
  refine .writeReg_bind (duty_cmd ⟨fun _ => hFis, fun h => ?_⟩)
    ?_
  · unfold Engine.starts at h
    rw [hSt₂, Bool.false_and] at h
    cases h
  generalize v₁ ||| hbaPxCmdFre = w₁ at hSt₂ hFre₂
  refine .readReg_bind rfl fun v₂ t₂ h₂ => ?_
  rcases promise_cmd h₂ with ⟨e₂, hRead₂, rfl⟩
  rcases Engine.promiseCmd_eq_some rfl hRead₂ with
    ⟨hSt₃, hFre₃, rfl⟩
  rw [hSt₂] at hSt₃
  rw [hFre₂] at hFre₃
  have hSt₄ : commands hbaPxCmdSt (v₂ ||| hbaPxCmdSt) =
      true := by
    rw [commands_or, hSt₃]
    decide
  have hFre₄ : commands hbaPxCmdFre (v₂ ||| hbaPxCmdSt) =
      true := by
    rw [commands_or, hFre₃]
    decide
  refine .writeReg (duty_cmd ⟨fun _ => hFis, fun _ => ?_⟩) ?_
  · refine ⟨?_, hList.1, hList.2, hFis.1, hFis.2, hFre₄⟩
    simp [Engine.commanded, Engine.seen, hSt₂]
  · refine ⟨rfl, _, hSt₄, hFre₄, ?_⟩
    simp [Engine.commanded, Engine.seen, hSt₄, hFre₄]

------------------------------------------------------------
-- Rebasing the Port
------------------------------------------------------------

/- The addresses of the first port. -/
structure Based
    (s : HbaState) : Prop where
  phase : s.phase = .enabled
  running : ∃ w, s.engine.cmd = some w ∧
    commands hbaPxCmdSt w = true ∧ commands hbaPxCmdFre w = true
  clb : s.engine.clb = some 0x40000
  clbu : s.engine.clbu = some 0
  fb : s.engine.fb = some 0x48000
  fbu : s.engine.fbu = some 0

theorem promise_clb
    {e : Engine}
    {v w : UInt32}
    {t : HbaState}
    (hClb : e.clb = some w)
    (h : contract.promise ⟨.enabled, e⟩ (.port 0 .clb) v =
      some t) :
    v = w ∧ t = ⟨.enabled, e⟩ := by
  change Option.map _ (if holds e.clb v then some e else none) =
    some t at h
  rw [hClb] at h
  split at h
  · next hHolds =>
      exact ⟨beq_iff_eq.mp hHolds, (Option.some.inj h).symm⟩
  · cases h

theorem promise_fb
    {e : Engine}
    {v w : UInt32}
    {t : HbaState}
    (hFb : e.fb = some w)
    (h : contract.promise ⟨.enabled, e⟩ (.port 0 .fb) v =
      some t) :
    v = w ∧ t = ⟨.enabled, e⟩ := by
  change Option.map _ (if holds e.fb v then some e else none) =
    some t at h
  rw [hFb] at h
  split at h
  · next hHolds =>
      exact ⟨beq_iff_eq.mp hHolds, (Option.some.inj h).symm⟩
  · cases h

/- The first port is rebased, and memory behind it. -/
theorem portRebase_follows
    {e : Engine}
    (hCmd : e.cmd = none)
    (m : Memory) :
    contract.Follows (Hba.portRebase 0 0)
      (fun _ t m' => m' = portRebase 0 m ∧ Based t)
      ⟨.enabled, e⟩ m := by
  unfold Hba.portRebase
  refine (stopCmd_follows hCmd m).bind ?_
  rintro _ _ _ ⟨rfl, w, hSt, hFre, rfl⟩
  refine .writeReg_bind rfl ?_
  refine .writeReg_bind rfl ?_
  refine .readReg_bind rfl fun clb t hClb => ?_
  rcases promise_clb rfl hClb with ⟨rfl, rfl⟩
  refine .modifyMemory_bind ?_
  refine .writeReg_bind rfl ?_
  refine .writeReg_bind rfl ?_
  refine .readReg_bind rfl fun fb t hFb => ?_
  rcases promise_fb rfl hFb with ⟨rfl, rfl⟩
  refine .modifyMemory_bind ?_
  refine .readReg_bind rfl fun hdr t hHdr => ?_
  rcases promise_clb rfl hHdr with ⟨rfl, rfl⟩
  refine .modifyMemory_bind ?_
  refine (startCmd_follows rfl hSt hFre rfl ⟨rfl, rfl⟩
    ⟨rfl, rfl⟩ _).mono ?_
  rintro _ _ _ ⟨rfl, w', hSt', hFre', rfl⟩
  exact ⟨rfl, ⟨rfl, ⟨w', rfl, hSt', hFre'⟩, rfl, rfl, rfl, rfl⟩⟩

------------------------------------------------------------
-- Probing
------------------------------------------------------------

/- A register that nothing is known of. -/
theorem promise_other
    {e : Engine}
    {i : Nat}
    {r : BaseRegister}
    {v : UInt32}
    {t : HbaState}
    (hOther : r = .ssts ∨ r = .sig)
    (h : contract.promise ⟨.enabled, e⟩ (.port i r) v = some t) :
    t = ⟨.enabled, e⟩ := by
  change (if i = 0 then (e.promise v r).map _ else _) = some t
    at h
  have hSame : e.promise v r = some e := by
    rcases hOther with rfl | rfl
    · rfl
    · rfl
  rw [hSame] at h
  split at h
  · exact (Option.some.inj h).symm
  · exact (Option.some.inj h).symm

/- Looking at a port leaves everything as it is. -/
theorem ahciCheckType_follows
    (e : Engine)
    (i : Nat)
    (m : Memory) :
    contract.Follows (Hba.ahciCheckType i)
      (fun _ t m' => t = ⟨.enabled, e⟩ ∧ m' = m)
      ⟨.enabled, e⟩ m := by
  unfold Hba.ahciCheckType
  refine .readReg_bind rfl fun ssts t hSsts => ?_
  rw [promise_other (.inl rfl) hSsts]
  dsimp only
  split
  · exact .pure ⟨rfl, rfl⟩
  · split
    · exact .pure ⟨rfl, rfl⟩
    · refine .readReg_bind rfl fun sig t hSig => ?_
      rw [promise_other (.inr rfl) hSig]
      split
      · exact .pure ⟨rfl, rfl⟩
      · split
        · exact .pure ⟨rfl, rfl⟩
        · split
          · exact .pure ⟨rfl, rfl⟩
          · exact .pure ⟨rfl, rfl⟩

theorem probeLoop_follows
    (e : Engine)
    (left i : Nat)
    (pi : UInt32)
    (m : Memory) :
    contract.Follows (Hba.probeLoop left i pi)
      (fun _ t m' => t = ⟨.enabled, e⟩ ∧ m' = m)
      ⟨.enabled, e⟩ m := by
  induction left generalizing i pi with
  | zero => exact .pure ⟨rfl, rfl⟩
  | succ left ih =>
      rw [Hba.probeLoop]
      split
      · refine (ahciCheckType_follows e i m).bind ?_
        rintro _ _ _ ⟨rfl, rfl⟩
        exact ih _ _
      · exact ih _ _

theorem ahciProbePort_follows
    (e : Engine)
    (m : Memory) :
    contract.Follows Hba.ahciProbePort
      (fun _ t m' => t = ⟨.enabled, e⟩ ∧ m' = m)
      ⟨.enabled, e⟩ m := by
  unfold Hba.ahciProbePort
  refine .readReg_bind rfl fun pi t hPi => ?_
  rcases hPi with ⟨⟩
  exact probeLoop_follows e 32 0 pi m

------------------------------------------------------------
-- The Whole Bring-Up
------------------------------------------------------------

/- A controller of which nothing is known but its phase. -/
def inPhase
    (phase : Phase) : HbaState :=
  { unknownHba with phase := phase }

/- The wait for the end of the reset. -/
theorem resetting_follows
    (m : Memory) :
    contract.Follows
      (pollWhile .ghc fun v => v &&& ahciGhcHr != 0)
      (fun _ t m' => t = inPhase .ready ∧ m' = m)
      (inPhase .resetting) m := by
  refine .pollWhile (fun s => s = inPhase .resetting) ?_ ?_ rfl
  · rintro s rfl
    rfl
  rintro s v t rfl hRead
  change (if commands ahciGhcHr v then
    some (inPhase .resetting)
    else some (inPhase .ready)) = some t at hRead
  change if commands ahciGhcHr v then _ else _
  by_cases hBusy : commands ahciGhcHr v = true
  · rw [if_pos hBusy] at hRead
    rw [if_pos hBusy]
    exact (Option.some.inj hRead).symm
  · rw [if_neg hBusy] at hRead
    rw [if_neg hBusy]
    exact ⟨(Option.some.inj hRead).symm, rfl⟩

/-
  Against every device `ahci_init` keeps the contract, at
  every moment of every run.  Where it returns and the device
  has kept its promises, the answer is 0, the controller is
  enabled, the engine of the first port runs on the addresses
  that were set, and every header in memory names the command
  table of its slot.
-/
theorem ahciInit_follows
    (m : Memory)
    (answers : List UInt32) :
    (∀ before after,
      (Hba.ahciInit m answers).accesses = before ++ after →
        contract.Keeps unknownHba before) ∧
    ∀ t r,
      contract.after unknownHba
          (Hba.ahciInit m answers).accesses = some t →
      (Hba.ahciInit m answers).result = some r →
        r = 0 ∧ Based t ∧
          (Hba.ahciInit m answers).memory = portRebase 0 m ∧
          Rebased (Hba.ahciInit m answers).memory := by
  have hFollows : contract.Follows Hba.ahciInit
      (fun r t m' => r = 0 ∧ Based t ∧ m' = portRebase 0 m)
      unknownHba m := by
    unfold Hba.ahciInit
    refine .readReg_bind rfl fun ghc t hGhc => ?_
    rcases hGhc with ⟨⟩
    have hReset : commands ahciGhcHr (ghc ||| ahciGhcHr) =
        true := by
      rw [commands_or, show (ahciGhcHr &&& ahciGhcHr != 0) = true
        by decide, Bool.or_true]
    have hResetDuty : contract.duty unknownHba .ghc
        (ghc ||| ahciGhcHr) = some (inPhase .resetting) :=
      if_pos hReset
    refine .writeReg_bind hResetDuty ?_
    refine (resetting_follows m).bind ?_
    rintro _ _ _ ⟨rfl, rfl⟩
    refine .readReg_bind rfl fun ghc' t hGhc' => ?_
    change (if commands ahciGhcHr ghc' then none
      else some (inPhase .ready)) = some t at hGhc'
    split at hGhc'
    · cases hGhc'
    · next hOver =>
        rw [Option.some.injEq] at hGhc'
        subst hGhc'
        have hOff : commands ahciGhcHr ghc' = false := by
          simpa using hOver
        have hEnable :
            commands ahciGhcAe
                (ghc' ||| (ahciGhcAe ||| ahciIe)) = true ∧
              ¬ commands ahciGhcHr
                (ghc' ||| (ahciGhcAe ||| ahciIe)) = true := by
          rw [commands_or, commands_or, hOff,
            show ((ahciGhcAe ||| ahciIe) &&& ahciGhcAe != 0) =
              true by decide, Bool.or_true]
          decide
        have hEnableDuty : contract.duty (inPhase .ready) .ghc
            (ghc' ||| (ahciGhcAe ||| ahciIe)) =
              some (inPhase .enabled) := if_pos hEnable
        refine .writeReg_bind hEnableDuty ?_
        refine (ahciProbePort_follows unknownHba.engine _).bind
          ?_
        rintro _ _ _ ⟨rfl, rfl⟩
        refine (portRebase_follows rfl _).bind ?_
        rintro _ _ _ ⟨rfl, hBased⟩
        exact .pure ⟨rfl, hBased, rfl⟩
  rcases hFollows answers with ⟨hKeeps, hPost⟩
  constructor
  · intro before after hSplit
    rw [hSplit] at hKeeps
    exact hKeeps.of_append
  · intro t r hAfter hResult
    rcases hPost t r hAfter hResult with
      ⟨hZero, hBased, hMemory⟩
    refine ⟨hZero, hBased, hMemory, ?_⟩
    rw [hMemory]
    exact rebased_portRebase m

/- A device with one disk, which stops at once. -/
def readyAnswers : List UInt32 :=
  [0x80000000, 1, 0, 0x80000000, 1, 0x113, 0x101, 0x4011,
    0x4010, 0x4000, 0x8000, 0x8000, 0, 0, 0x40000, 0x48000,
    0x40000, 0, 0, 0x10]

example :
    (Hba.ahciInit (fun _ => 0) readyAnswers).result = some 0 ∧
      (contract.after unknownHba
        (Hba.ahciInit (fun _ => 0)
          readyAnswers).accesses).isSome = true := by
  decide

end Ahci

end Ester
