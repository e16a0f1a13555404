import Ester.Drivers.Ahci.Handshake
import Ester.Drivers.Ahci.Tables

/-
  Which slot a command is issued for.

  The slot comes from `find_cmdslot` and its bit is written to
  the command-issue register.  `write` fills in the header of
  that slot; `read` always fills in the first header, so its
  slot has to be slot 0.  A command with many entries runs
  over the tables behind its own, which must then not belong
  to slots in flight.

  Key definitions include:
    * `Busy`
    * `ServesOwnSlot`
    * `Issues`

  Key theorems include:
    * `issues_read`, `issues_write`
    * `servesOwnSlot_iff`
    * `port_servesOwnSlot_iff`
    * `port_takes_other_header`
-/

namespace Ester

namespace Ahci

open Polling PackedCodec

------------------------------------------------------------
-- Slots in Flight
------------------------------------------------------------

/- The slot is marked in `sact` or `ci`. -/
def Busy
    (sact ci : UInt32)
    (j : Nat) : Prop :=
  (sact ||| ci).toNat.testBit j = true

/-
  In every layout of the memory and for every behaviour of the
  device after `sact` and `ci` are read: the command stands in
  the header and the table of a free slot, only the bit of
  this slot is issued, and the slots in flight keep theirs.
-/
def ServesOwnSlot
    (kind : CommandKind)
    (driver : PortDriver UInt8)
    (startl starth count : UInt32)
    (buf : UInt64)
    (sact ci : UInt32) : Prop :=
  ∀ mem answers, Rebased mem →
    let out := driver mem (sact :: ci :: answers)
    ∃ s, s < 32 ∧ ¬ Busy sact ci s ∧
      commandAt out.memory (headerAddr portClb s) =
        kind.builds s startl starth count buf ∧
      (∀ v, .write .ci v ∈ out.accesses → v = slotBit s) ∧
      ∀ j, j < 32 → Busy sact ci j →
        ∀ x ∈ slotBytes j, out.memory x = mem x

/- The bits of different slots are different. -/
theorem slotBit_inj
    {s t : Nat}
    (hs : s < 32)
    (ht : t < 32)
    (h : slotBit s = slotBit t) :
    s = t := by
  have hPow : ∀ k, k < 32 → (slotBit k).toNat = 2 ^ k := by
    intro k hk
    rw [slotBit, UInt32.toNat_shiftLeft,
      UInt32.toNat_ofNat_of_lt' (by
        simp only [UInt32.size]
        omega), Nat.mod_eq_of_lt hk, Nat.shiftLeft_eq]
    have hOne : (1 : UInt32).toNat = 1 := rfl
    rw [hOne, Nat.one_mul]
    exact Nat.mod_eq_of_lt
      (Nat.pow_lt_pow_right (by omega) hk)
  have hNat := congrArg UInt32.toNat h
  rw [hPow s hs, hPow t ht] at hNat
  exact Nat.pow_right_injective (Nat.le_refl 2) hNat

/- The lowest slot that is not in flight. -/
structure LowestFree
    (sact ci : UInt32)
    (s : Nat) : Prop where
  lt : s < 32
  free : ¬ Busy sact ci s
  busy : ∀ i, i < s → Busy sact ci i

theorem LowestFree.unique
    {sact ci : UInt32}
    {s t : Nat}
    (hs : LowestFree sact ci s)
    (ht : LowestFree sact ci t) :
    s = t := by
  rcases Nat.lt_trichotomy s t with hLt | hEq | hLt
  · exact absurd (ht.busy s hLt) hs.free
  · exact hEq
  · exact absurd (hs.busy t hLt) ht.free

theorem exists_lowestFree
    {sact ci : UInt32}
    (hFree : ∃ j, j < 32 ∧ ¬ Busy sact ci j) :
    ∃ s, LowestFree sact ci s := by
  classical
  have hMin := Nat.find_spec hFree
  refine ⟨Nat.find hFree, hMin.1, hMin.2, fun j hj => ?_⟩
  by_contra hBit
  exact Nat.find_min hFree hj ⟨by omega, hBit⟩

/- `find_cmdslot` finds the lowest free slot. -/
theorem freeSlot_eq_some_iff_lowestFree
    {sact ci : UInt32}
    {s : Nat} :
    freeSlot 32 0 (sact ||| ci) = some s ↔
      LowestFree sact ci s := by
  rw [freeSlot_eq_some_iff, Nat.sub_zero]
  constructor
  · rintro ⟨-, hLt, hClear, hBelow⟩
    refine ⟨by omega, ?_, hBelow⟩
    rw [Busy, hClear]
    exact Bool.false_ne_true
  · rintro ⟨hLt, hFree, hBelow⟩
    exact ⟨Nat.zero_le s, by omega, by simpa [Busy] using hFree,
      hBelow⟩

------------------------------------------------------------
-- What a Driver Issues
------------------------------------------------------------

/- The driver builds one command and issues one slot's bit. -/
structure Issues
    (kind : CommandKind)
    (driver : PortDriver UInt8)
    (startl starth count : UInt32)
    (buf : UInt64)
    (sact ci : UInt32)
    (s : Nat) : Prop where
  memory : ∀ mem answers,
    (driver mem (sact :: ci :: answers)).memory =
      buildCommand kind portClb s startl starth count buf mem
  bit : ∀ mem answers v,
    .write .ci v ∈ (driver mem (sact :: ci :: answers)).accesses →
      v = slotBit s
  issued : ∀ mem,
    .write .ci (slotBit s) ∈
      (driver mem [sact, ci, 0]).accesses

/- The access is not an issue of another slot. -/
def OnlyBit
    (s : Nat)
    (x : PortAccess) : Prop :=
  ∀ v, x = .write .ci v → v = slotBit s

theorem onlyBit_of_noIssue
    {s : Nat}
    {x : PortAccess}
    (h : NoIssue x) :
    OnlyBit s x := by
  rintro v rfl
  cases h

theorem keepsMemory_awaitCompletion
    (slot : Nat) :
    KeepsMemory (awaitCompletion slot) :=
  (keepsMemory_awaitUnless _ _ _ _).bind fun completed => by
    cases completed with
    | false => exact keepsMemory_pure _
    | true =>
        exact (keepsMemory_readReg _).bind fun _ =>
          keepsMemory_pure _

theorem keepsMemory_handshake
    (slot : Nat) :
    KeepsMemory (handshake slot) :=
  (keepsMemory_spinWhile _ _ _ _).bind fun spin => by
    split
    · exact keepsMemory_pure _
    · refine (keepsMemory_writeReg _ _).bind fun _ =>
        (keepsMemory_awaitCompletion slot).bind fun completed =>
          ?_
      split
      · exact keepsMemory_pure _
      · exact keepsMemory_pure _

theorem keepsMemory_waitAgain
    (spin : Nat) :
    KeepsMemory (do
      let spin ← spinWhile .tfd deviceBusy spinBudget spin
      if spin = spinBudget then pure 1 else pure 0 :
        PortDriver UInt8) :=
  (keepsMemory_spinWhile _ _ _ _).bind fun spin => by
    split
    · exact keepsMemory_pure _
    · exact keepsMemory_pure _

theorem onlyBit_handshake
    (slot : Nat) :
    Accesses (OnlyBit slot) (handshake slot) := by
  have hSpin : Accesses (OnlyBit slot)
      (spinWhile .tfd deviceBusy spinBudget 0 : PortDriver Nat) :=
    fun m answers x hx =>
      onlyBit_of_noIssue (noIssue_spinWhile 0 m answers x hx)
  have hAwait : Accesses (OnlyBit slot) (awaitCompletion slot) :=
    fun m answers x hx =>
      onlyBit_of_noIssue
        (noIssue_awaitCompletion slot m answers x hx)
  refine hSpin.bind fun spin => ?_
  split
  · exact accesses_pure _ _
  · refine (accesses_writeReg fun v hv => ?_).bind fun _ =>
      hAwait.bind fun completed => ?_
    · cases hv
      rfl
    · split
      · exact accesses_pure _ _
      · exact accesses_pure _ _

/- The steps of a command, before what `read` adds to it. -/
theorem issueCommand_issues
    (kind : CommandKind)
    (startl starth count : UInt32)
    (buf : UInt64)
    {sact ci : UInt32}
    {s : Nat}
    (hSlot : freeSlot 32 0 (sact ||| ci) = some s)
    (mem : Memory)
    (answers : List UInt32) :
    (issueCommand kind portClb startl starth count buf mem
        (sact :: ci :: answers)).memory =
      buildCommand kind portClb s startl starth count buf mem ∧
    ∀ x ∈ (issueCommand kind portClb startl starth count buf mem
      (sact :: ci :: answers)).accesses, OnlyBit s x := by
  rw [issueCommand_run, hSlot]
  refine ⟨keepsMemory_handshake s _ _, fun x hx => ?_⟩
  rcases List.mem_append.mp hx with hx | hx
  · apply onlyBit_of_noIssue
    simp only [List.mem_cons, List.not_mem_nil, or_false] at hx
    rcases hx with rfl | rfl | rfl <;> rfl
  · exact onlyBit_handshake s _ _ x hx

/- An idle port has the bit of the slot issued. -/
theorem issueCommand_issued
    (kind : CommandKind)
    (startl starth count : UInt32)
    (buf : UInt64)
    {sact ci : UInt32}
    {s : Nat}
    (hSlot : freeSlot 32 0 (sact ||| ci) = some s)
    (mem : Memory) :
    .write .ci (slotBit s) ∈
      (issueCommand kind portClb startl starth count buf mem
        [sact, ci, 0]).accesses := by
  have hShake : ∀ m, (handshake s m [0]).accesses =
      [.read .tfd 0, .write .ci (slotBit s)] := fun _ => rfl
  rw [issueCommand_run, hSlot]
  simp only [Outcome.after, hShake]
  simp

section Drivers

variable (startl starth count : UInt32)
variable (buf : UInt64)
variable {sact ci : UInt32}
variable {s : Nat}
variable (hSlot : freeSlot 32 0 (sact ||| ci) = some s)

include hSlot

/- What follows a command may poll, but not issue another. -/
theorem issues_bind
    (kind : CommandKind)
    {f : Option Nat → PortDriver UInt8}
    (hMemory : ∀ a, KeepsMemory (f a))
    (hPolls : ∀ a, Accesses NoIssue (f a)) :
    Issues kind
      (issueCommand kind portClb startl starth count buf >>= f)
      startl starth count buf sact ci s := by
  constructor
  · intro mem answers
    rw [bind_memory hMemory]
    exact (issueCommand_issues kind startl starth count buf
      hSlot mem answers).1
  · intro mem answers v hv
    rcases mem_bind_accesses hv with hv | ⟨a, m, rest, hv⟩
    · exact (issueCommand_issues kind startl starth count buf
        hSlot mem answers).2 _ hv v rfl
    · cases hPolls a m rest _ hv
  · intro mem
    apply mem_bind_accesses_left
    exact issueCommand_issued kind startl starth count buf hSlot
      mem

theorem issues_read :
    Issues readKind (Port.read portClb startl starth count buf)
      startl starth count buf sact ci s := by
  apply issues_bind startl starth count buf hSlot readKind
  · intro issued
    cases issued with
    | none => exact keepsMemory_pure _
    | some spin => exact keepsMemory_waitAgain spin
  · intro issued
    cases issued with
    | none => exact accesses_pure _ _
    | some spin =>
        refine (noIssue_spinWhile spin).bind fun n => ?_
        split
        · exact accesses_pure _ _
        · exact accesses_pure _ _

theorem issues_write :
    Issues writeKind (Port.write portClb startl starth count buf)
      startl starth count buf sact ci s := by
  apply issues_bind startl starth count buf hSlot writeKind
  · intro issued
    cases issued with
    | none => exact keepsMemory_pure _
    | some spin => exact keepsMemory_pure _
  · intro issued
    cases issued with
    | none => exact accesses_pure _ _
    | some spin => exact accesses_pure _ _

end Drivers

------------------------------------------------------------
-- Serving the Own Slot
------------------------------------------------------------

/- No slot in flight has a table that the command reaches. -/
def SparesTables
    (kind : CommandKind)
    (sact ci count : UInt32)
    (s : Nat) : Prop :=
  ∀ j, j < 32 → Busy sact ci j → s < j →
    kind.cleared (Ahci.prdtl count).toNat ≤ 256 * (j - s)

section Serving

variable (kind : CommandKind)
variable {driver : PortDriver UInt8}
variable (startl starth count : UInt32)
variable (buf : UInt64)
variable {sact ci : UInt32}
variable {s : Nat}
variable (hSlot : LowestFree sact ci s)
variable (hIssues : Issues kind driver startl starth count buf
  sact ci s)

include hSlot hIssues

theorem servesOwnSlot_of
    (hHeader : kind.header s = s)
    (hSpares : SparesTables kind sact ci count s) :
    ServesOwnSlot kind driver startl starth count buf sact
      ci := by
  intro mem answers hRebased out
  have hs := hSlot.lt
  have hMemory : out.memory = buildCommand kind portClb s startl
      starth count buf mem := hIssues.memory mem answers
  refine ⟨s, hs, hSlot.free, ?_, hIssues.bit mem answers, ?_⟩
  · have hCommand := commandAt_buildCommand hRebased kind hs
      startl starth count buf
    rw [hHeader] at hCommand
    rw [hMemory, hCommand]
  · intro j hj hBusy x hx
    rw [hMemory]
    apply buildCommand_changesWithin hRebased kind hs
    have hNe : j ≠ s := by
      rintro rfl
      exact hSlot.free hBusy
    have hFar := hSpares j hj hBusy
    simp only [slotBytes, CommandKind.footprint, hHeader,
      CommandKind.extent, sizeofCmdTbl, Set.mem_union, Set.mem_Ico,
      headerAddr, portClb, tableAddr] at hx ⊢
    omega

/- The header of another slot than the issued one is wrong. -/
theorem header_of_servesOwnSlot
    (hServes : ServesOwnSlot kind driver startl starth count buf
      sact ci) :
    kind.header s = s := by
  have hs := hSlot.lt
  have hIdx := kind.header_lt s hs
  -- a header of the slot that holds no command yet
  have hBase := rebased_portRebase fun _ => 0
  generalize portRebase 0 (fun _ => 0) = base at hBase
  have hRebased : Rebased
      (base.store word8 (headerAddr portClb s) 0) := by
    constructor
    intro i hi
    rw [Memory.load_store_of_disjoint, hBase.ctba i hi]
    simp only [word8_size, word32_size, headerAddr]
    omega
  rcases hServes _ [0] hRebased with
    ⟨t, ht, -, hCommand, hBit, -⟩
  have hSame := slotBit_inj hs ht (hBit _ (hIssues.issued _))
  subst hSame
  by_contra hHeader
  have hKept : headerAt (buildCommand kind portClb s startl starth
      count buf (base.store word8 (headerAddr portClb s) 0))
        (headerAddr portClb s) =
      headerAt (base.store word8 (headerAddr portClb s) 0)
        (headerAddr portClb s) := by
    apply headerAt_congr
    intro j hLe hLt'
    apply buildCommand_changesWithin hRebased kind hs
    simp only [CommandKind.footprint, Set.mem_union, Set.mem_Ico,
      headerAddr, portClb, tableAddr] at hLe hLt' ⊢
    omega
  rw [hIssues.memory] at hCommand
  have hHead : headerAt _ (headerAddr portClb s) = _ :=
    congrArg HbaCommand.header hCommand
  rw [hKept] at hHead
  have hCfl := congrArg HbaCmdHeader.cfl hHead
  simp only [headerAt, Memory.load_store_self,
    CommandKind.builds] at hCfl
  exact absurd hCfl (by decide)

/- A table in flight behind the own one can be overwritten. -/
theorem sparesTables_of_servesOwnSlot
    (hServes : ServesOwnSlot kind driver startl starth count buf
      sact ci) :
    SparesTables kind sact ci count s := by
  have hHeader := header_of_servesOwnSlot kind startl starth count
    buf hSlot hIssues hServes
  have hs := hSlot.lt
  intro j hj hBusy hAbove
  by_contra hShort
  have hPos : 0 < (Ahci.prdtl count).toNat := by
    apply Nat.pos_of_ne_zero
    intro hZero
    have hNone := kind.cleared_zero
    rw [hZero] at hShort
    simp only [sizeofCmdTbl] at hNone
    omega
  rcases exists_table_modified kind hs startl starth count buf
    (show kind.header s < j by omega) hPos
    (by rw [hHeader]; omega) with ⟨mem, hRebased, hModified⟩
  rcases hServes mem [] hRebased with ⟨t, -, -, -, -, hKept⟩
  apply hModified
  rw [← hIssues.memory mem []]
  apply hKept j hj hBusy
  simp only [slotBytes, Set.mem_union, Set.mem_Ico]
  omega

/- The two conditions are the whole of it. -/
theorem servesOwnSlot_iff :
    ServesOwnSlot kind driver startl starth count buf sact ci ↔
      kind.header s = s ∧ SparesTables kind sact ci count s := by
  constructor
  · intro hServes
    exact ⟨header_of_servesOwnSlot kind startl starth count buf
      hSlot hIssues hServes, sparesTables_of_servesOwnSlot kind
        startl starth count buf hSlot hIssues hServes⟩
  · rintro ⟨hHeader, hSpares⟩
    exact servesOwnSlot_of kind startl starth count buf hSlot
      hIssues hHeader hSpares

end Serving

/-
  With a free slot, a read serves the slot it issues exactly
  if that is slot 0 and no table it clears is in flight; a
  write does if it spares the tables behind its own.
-/
theorem port_servesOwnSlot_iff
    {sact ci : UInt32}
    (hFree : ∃ j, j < 32 ∧ ¬ Busy sact ci j)
    (startl starth count : UInt32)
    (buf : UInt64) :
    (ServesOwnSlot readKind
        (Port.read portClb startl starth count buf)
        startl starth count buf sact ci ↔
      ¬ Busy sact ci 0 ∧
        ∀ j, j < 32 → Busy sact ci j →
          144 + 16 * (Ahci.prdtl count).toNat ≤ 256 * j) ∧
    (ServesOwnSlot writeKind
        (Port.write portClb startl starth count buf)
        startl starth count buf sact ci ↔
      ∀ s j, LowestFree sact ci s → j < 32 → Busy sact ci j →
        s < j →
          128 + 16 * (Ahci.prdtl count).toNat ≤
            256 * (j - s)) := by
  rcases exists_lowestFree hFree with ⟨s, hLowest⟩
  have hSlot := freeSlot_eq_some_iff_lowestFree.mpr hLowest
  rw [servesOwnSlot_iff readKind startl starth count buf hLowest
      (issues_read startl starth count buf hSlot),
    servesOwnSlot_iff writeKind startl starth count buf hLowest
      (issues_write startl starth count buf hSlot)]
  simp only [SparesTables, readKind, writeKind, sizeofCmdTbl,
    sizeofPrdtEntry, true_and]
  constructor
  · constructor
    · rintro ⟨rfl, hSpares⟩
      refine ⟨hLowest.free, fun j hj hBusy => ?_⟩
      have hNe : j ≠ 0 := by
        rintro rfl
        exact hLowest.free hBusy
      have hFar := hSpares j hj hBusy (by omega)
      omega
    · rintro ⟨hZero, hSpares⟩
      have hFirst : 0 = s := by
        by_contra hNe
        exact hZero (hLowest.busy 0 (by omega))
      subst hFirst
      refine ⟨rfl, fun j hj hBusy _ => ?_⟩
      have hFar := hSpares j hj hBusy
      omega
  · constructor
    · intro hSpares t j hLow hj hBusy hAbove
      have hSame := hLow.unique hLowest
      subst hSame
      have hFar := hSpares j hj hBusy hAbove
      omega
    · intro hSpares j hj hBusy hAbove
      have hFar := hSpares s j hLowest hj hBusy hAbove
      omega

/- Slot 0 in flight, a single sector: only `write` is right. -/
theorem port_servesOwnSlot_second :
    (ServesOwnSlot readKind (Port.read portClb 64 0 1 0x100000)
        64 0 1 0x100000 0 1 ↔
      ¬ Busy 0 1 0 ∧
        ∀ j, j < 32 → Busy 0 1 j →
          144 + 16 * (Ahci.prdtl 1).toNat ≤ 256 * j) ∧
    (ServesOwnSlot writeKind (Port.write portClb 64 0 1 0x100000)
        64 0 1 0x100000 0 1 ↔
      ∀ s j, LowestFree 0 1 s → j < 32 → Busy 0 1 j → s < j →
        128 + 16 * (Ahci.prdtl 1).toNat ≤ 256 * (j - s)) :=
  port_servesOwnSlot_iff
    ⟨1, by decide, by unfold Busy; decide⟩ 64 0 1 0x100000

/- The command of slot 1 is built under the header of slot 0. -/
theorem port_takes_other_header :
    ¬ ∀ (sact ci startl starth count : UInt32) (buf : UInt64),
      (∃ j, j < 32 ∧ ¬ Busy sact ci j) →
        ServesOwnSlot readKind
            (Port.read portClb startl starth count buf)
            startl starth count buf sact ci ∧
          ServesOwnSlot writeKind
            (Port.write portClb startl starth count buf)
            startl starth count buf sact ci := by
  intro hClaim
  have hFree : LowestFree 0 1 1 :=
    freeSlot_eq_some_iff_lowestFree.mp (by decide)
  have hRead := (hClaim 0 1 64 0 1 0x100000
    ⟨1, hFree.lt, hFree.free⟩).1
  have hHeader := header_of_servesOwnSlot readKind 64 0 1 0x100000
    hFree (issues_read 64 0 1 0x100000
      (freeSlot_eq_some_iff_lowestFree.mpr hFree)) hRead
  exact absurd hHeader (by decide)

end Ahci

end Ester
