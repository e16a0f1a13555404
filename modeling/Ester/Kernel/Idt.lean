import Mathlib.Logic.Function.Basic
import Ester.Library.Memory

/-
  The interrupt descriptor table of kernel/set_idt.c.

  The table is an array of packed entries in memory.  The
  processor finds the entry of a vector through the register
  that `lidt` has loaded, if the entry lies within its limit,
  and enters the handler of a present gate of the kernel's
  code segment.  What the table stands for is a map from
  vectors to gates, and setting a descriptor updates it.

  Key definitions include:
    * `IdtEntry`
    * `idtSetDescriptor`, `idtInit`
    * `registerInterruptHandler`
    * `target`
    * `handlersAfter`

  Key theorems include:
    * `offset_idtDescriptor`
    * `target_idtSetDescriptor`
    * `target_setAll`
    * `handlers_after_init`
-/

namespace Ester

namespace Idt

open PackedCodec

------------------------------------------------------------
-- Entries
------------------------------------------------------------

/- An entry, `idt_entry_t`. -/
structure IdtEntry where
  isrLow : UInt16
  kernelCs : UInt16
  ist : UInt8
  attributes : UInt8
  isrMid : UInt16
  isrHigh : UInt32
  reserved : UInt32

def idtEntryCodec : PackedCodec IdtEntry :=
  (word16.pair <| word16.pair <| word8.pair <| word8.pair <|
    word16.pair <| word32.pair word32).iso
  { toFun := fun (a, b, c, d, e, f, g) => ⟨a, b, c, d, e, f, g⟩
    invFun := fun s =>
      (s.isrLow, s.kernelCs, s.ist, s.attributes, s.isrMid,
        s.isrHigh, s.reserved)
    left_inv := fun _ => rfl
    right_inv := fun _ => rfl }

@[simp] theorem idtEntryCodec_size :
    idtEntryCodec.size = 16 := rfl

/- The register of the table, `idtr_t`. -/
structure Idtr where
  limit : UInt16
  base : UInt64

/- The constants of the table. -/
abbrev idtMaxDescriptors : UInt16 := 256

abbrev gdtOffsetKernelCode : UInt16 := 0x08

/- The flags of an interrupt gate. -/
abbrev interruptGate : UInt8 := 0x8E

/- The entry that `idt_set_descriptor` puts together. -/
def idtDescriptor
    (isr : UInt64)
    (flags : UInt8) : IdtEntry where
  isrLow := (isr &&& 0xFFFF).toUInt16
  kernelCs := gdtOffsetKernelCode
  ist := 0
  attributes := flags
  isrMid := (isr >>> 16 &&& 0xFFFF).toUInt16
  isrHigh := (isr >>> 32 &&& 0xFFFFFFFF).toUInt32
  reserved := 0

/- Set the entry of a vector in the table at `idt`. -/
def idtSetDescriptor
    (idt : UInt64)
    (vector : UInt8)
    (isr : UInt64)
    (flags : UInt8)
    (m : Memory) : Memory :=
  Memory.store idtEntryCodec m
    (idt.toNat + vector.toNat * idtEntryCodec.size)
    (idtDescriptor isr flags)

/- What `idt_init` loads into the register. -/
def idtrInit
    (idt : UInt64) : Idtr where
  limit := UInt16.ofNat idtEntryCodec.size *
    (idtMaxDescriptors - 1)
  base := idt

/- Set the descriptors of the stub table. -/
def idtInit
    (idt : UInt64)
    (isrStubTable : Nat → UInt64)
    (m : Memory) : Memory :=
  (List.range 47).foldl
    (fun m vector => idtSetDescriptor idt (UInt8.ofNat vector)
      (isrStubTable vector) interruptGate m) m

def registerInterruptHandler
    (idt : UInt64)
    (vector : UInt8)
    (addr : UInt64)
    (m : Memory) : Memory :=
  idtSetDescriptor idt vector addr interruptGate m

------------------------------------------------------------
-- The Processor
------------------------------------------------------------

/- The attributes of a present interrupt or trap gate. -/
def isGate
    (attributes : UInt8) : Bool :=
  attributes &&& 0x80 != 0 && attributes &&& 0x1E == 0x0E

namespace IdtEntry

/- The address in an entry, its parts put side by side. -/
def offset
    (e : IdtEntry) : UInt64 :=
  UInt64.ofNat (e.isrLow.toNat + 2 ^ 16 * e.isrMid.toNat +
    2 ^ 32 * e.isrHigh.toNat)

/- A present interrupt or trap gate of the kernel's code. -/
def enters
    (e : IdtEntry) : Bool :=
  isGate e.attributes && e.kernelCs == gdtOffsetKernelCode

end IdtEntry

/- The entry of a vector, within the limit of the register. -/
def entryOf
    (r : Idtr)
    (m : Memory)
    (v : UInt8) : Option IdtEntry :=
  if v.toNat * 16 + 15 ≤ r.limit.toNat then
    some (Memory.load idtEntryCodec m
      (r.base.toNat + v.toNat * 16))
  else none

/- Where an interrupt of a vector goes, if it does not fault. -/
def target
    (r : Idtr)
    (m : Memory)
    (v : UInt8) : Option UInt64 :=
  match entryOf r m v with
  | none => none
  | some e => if e.enters then some e.offset else none

/- The parts of an address give the address again. -/
theorem offset_idtDescriptor
    (isr : UInt64)
    (flags : UInt8) :
    (idtDescriptor isr flags).offset = isr := by
  have hLow : (isr &&& 0xFFFF).toNat = isr.toNat % 2 ^ 16 := by
    rw [UInt64.toNat_and,
      show (0xFFFF : UInt64).toNat = 2 ^ 16 - 1 from rfl,
      Nat.and_two_pow_sub_one_eq_mod]
  have hMid : (isr >>> 16 &&& 0xFFFF).toNat =
      isr.toNat / 2 ^ 16 % 2 ^ 16 := by
    rw [UInt64.toNat_and, UInt64.toNat_shiftRight,
      show (0xFFFF : UInt64).toNat = 2 ^ 16 - 1 from rfl,
      Nat.and_two_pow_sub_one_eq_mod, Nat.shiftRight_eq_div_pow]
    rfl
  have hHigh : (isr >>> 32 &&& 0xFFFFFFFF).toNat =
      isr.toNat / 2 ^ 32 % 2 ^ 32 := by
    rw [UInt64.toNat_and, UInt64.toNat_shiftRight,
      show (0xFFFFFFFF : UInt64).toNat = 2 ^ 32 - 1 from rfl,
      Nat.and_two_pow_sub_one_eq_mod, Nat.shiftRight_eq_div_pow]
    rfl
  have hIsr := isr.toNat_lt
  rw [← UInt64.toNat_inj]
  unfold IdtEntry.offset idtDescriptor
  dsimp only
  rw [UInt64.toNat_toUInt16, UInt64.toNat_toUInt16,
    UInt64.toNat_toUInt32, hLow, hMid, hHigh,
    UInt64.toNat_ofNat_of_lt' (by
      rw [show UInt64.size = 2 ^ 64 from rfl]
      omega)]
  omega

------------------------------------------------------------
-- The Table as a Map
------------------------------------------------------------

section Table

variable {idt : UInt64} {m : Memory}

theorem toNat_limit_idtrInit :
    (idtrInit idt).limit.toNat = 4080 := by
  change (UInt16.ofNat 16 * (256 - 1)).toNat = 4080
  decide

/- The limit covers all vectors but the last. -/
theorem entryOf_idtrInit
    (v : UInt8) :
    entryOf (idtrInit idt) m v =
      if v = 255 then none
      else some (Memory.load idtEntryCodec m
        (idt.toNat + v.toNat * 16)) := by
  have hv : v.toNat < 256 := v.toNat_lt
  have hLast : v = 255 ↔ v.toNat = 255 := by
    rw [← UInt8.toNat_inj]
    rfl
  unfold entryOf
  rw [toNat_limit_idtrInit]
  by_cases hEq : v = 255
  · rw [if_pos hEq, if_neg (by
      rw [hLast.mp hEq]
      decide)]
  · have hNe : v.toNat ≠ 255 := fun h => hEq (hLast.mpr h)
    have hWithin : v.toNat * 16 + 15 ≤ 4080 := by omega
    rw [if_neg hEq, if_pos hWithin]
    rfl

/- The vector beyond the limit has no handler. -/
theorem target_last
    (m : Memory) :
    target (idtrInit idt) m 255 = none := by
  unfold target
  rw [entryOf_idtrInit, if_pos rfl]

/- What a descriptor stands for. -/
def handlerOf
    (isr : UInt64)
    (flags : UInt8) : Option UInt64 :=
  if isGate flags then some isr else none

/- Setting a descriptor changes where its vector goes only. -/
theorem target_idtSetDescriptor
    (isr : UInt64)
    (flags w : UInt8)
    {v : UInt8}
    (hv : v ≠ 255) :
    target (idtrInit idt) (idtSetDescriptor idt w isr flags m)
        v =
      if v = w then handlerOf isr flags
      else target (idtrInit idt) m v := by
  unfold target
  rw [entryOf_idtrInit, entryOf_idtrInit, if_neg hv, if_neg hv]
  by_cases hEq : v = w
  · subst hEq
    rw [if_pos rfl, idtSetDescriptor, idtEntryCodec_size,
      Memory.load_store_self]
    dsimp only
    rw [offset_idtDescriptor, IdtEntry.enters]
    simp only [idtDescriptor, beq_self_eq_true, Bool.and_true]
    rfl
  · have hNe : v.toNat ≠ w.toNat :=
      fun h => hEq (UInt8.toNat_inj.mp h)
    rw [if_neg hEq, idtSetDescriptor,
      Memory.load_store_of_disjoint idtEntryCodec
        idtEntryCodec m _ (by
          simp only [idtEntryCodec_size]
          omega)]

/- A call of `idt_set_descriptor`. -/
structure SetCall where
  vector : UInt8
  isr : UInt64
  flags : UInt8

/- The memory after a number of calls. -/
def setAll
    (idt : UInt64)
    (calls : List SetCall)
    (m : Memory) : Memory :=
  calls.foldl
    (fun m c => idtSetDescriptor idt c.vector c.isr c.flags m) m

/- The map from vectors to handlers after the calls. -/
def handlersAfter
    (calls : List SetCall)
    (handlers : UInt8 → Option UInt64) :
    UInt8 → Option UInt64 :=
  calls.foldl
    (fun f c =>
      Function.update f c.vector (handlerOf c.isr c.flags))
    handlers

/- The table refines the map, call by call. -/
theorem target_setAll
    (calls : List SetCall)
    {handlers : UInt8 → Option UInt64}
    (h : ∀ v, v ≠ 255 →
      target (idtrInit idt) m v = handlers v)
    {v : UInt8}
    (hv : v ≠ 255) :
    target (idtrInit idt) (setAll idt calls m) v =
      handlersAfter calls handlers v := by
  induction calls generalizing m handlers with
  | nil => exact h v hv
  | cons c calls ih =>
      refine ih fun w hw => ?_
      rw [target_idtSetDescriptor _ _ _ hw, h w hw]
      exact (Function.update_apply ..).symm

------------------------------------------------------------
-- The Initial Table
------------------------------------------------------------

/- The handlers that a prefix of the stub table gives. -/
def stubs
    (isrStubTable : Nat → UInt64)
    (n : Nat)
    (v : UInt8) : Option UInt64 :=
  if v.toNat < n then some (isrStubTable v.toNat) else none

/- The calls of the loop of `idt_init` up to a vector. -/
def initCalls
    (isrStubTable : Nat → UInt64)
    (n : Nat) : List SetCall :=
  (List.range n).map fun i =>
    ⟨UInt8.ofNat i, isrStubTable i, interruptGate⟩

theorem idtInit_eq
    (isrStubTable : Nat → UInt64) :
    idtInit idt isrStubTable m =
      setAll idt (initCalls isrStubTable 47) m := by
  rw [setAll, initCalls, List.foldl_map]
  rfl

/- The loop gives the first vectors their stubs. -/
theorem handlersAfter_initCalls
    (isrStubTable : Nat → UInt64)
    {n : Nat}
    (hn : n ≤ 256) :
    handlersAfter (initCalls isrStubTable n) (fun _ => none) =
      stubs isrStubTable n := by
  induction n with
  | zero =>
      funext v
      exact (if_neg (Nat.not_lt_zero _)).symm
  | succ n ih =>
      have hGate : ∀ isr, handlerOf isr interruptGate =
          some isr := fun isr => if_pos (by decide)
      have hVector : (UInt8.ofNat n).toNat = n :=
        UInt8.toNat_ofNat_of_lt' (by
          rw [show UInt8.size = 256 from rfl]
          omega)
      funext v
      have hStep := ih (by omega)
      unfold handlersAfter initCalls at hStep ⊢
      rw [List.range_succ, List.map_append, List.foldl_append,
        hStep]
      change Function.update (stubs isrStubTable n)
        (UInt8.ofNat n)
        (handlerOf (isrStubTable n) interruptGate) v = _
      rw [Function.update_apply, hGate]
      unfold stubs
      by_cases hv : v = UInt8.ofNat n
      · rw [if_pos hv, if_pos (by
          rw [hv, hVector]
          omega), hv, hVector]
      · have hNe : v.toNat ≠ n := fun h =>
          hv (by rw [← UInt8.toNat_inj, hVector, h])
        rw [if_neg hv]
        by_cases hLt : v.toNat < n
        · rw [if_pos hLt, if_pos (by omega)]
        · rw [if_neg hLt, if_neg (by omega)]

/- The gates of a cleared table are not present. -/
theorem target_of_cleared
    (hCleared : ∀ j, idt.toNat ≤ j →
      j < idt.toNat + 256 * idtEntryCodec.size → m j = 0)
    (v : UInt8) :
    target (idtrInit idt) m v = none := by
  have hv : v.toNat < 256 := v.toNat_lt
  unfold target
  rw [entryOf_idtrInit]
  by_cases hLast : v = 255
  · rw [if_pos hLast]
  · rw [if_neg hLast,
      @Memory.load_of_const _ idtEntryCodec m _ 0 (by
        intro j hLe hLt
        rw [idtEntryCodec_size] at hLt
        exact hCleared j (by omega) (by
          rw [idtEntryCodec_size]
          omega))]
    exact if_neg (by decide)

/- The handlers behind all vectors but the last. -/
theorem target_after_init
    (isrStubTable : Nat → UInt64)
    (calls : List SetCall)
    (hCleared : ∀ j, idt.toNat ≤ j →
      j < idt.toNat + 256 * idtEntryCodec.size → m j = 0)
    {v : UInt8}
    (hv : v ≠ 255) :
    target (idtrInit idt)
        (setAll idt calls (idtInit idt isrStubTable m)) v =
      handlersAfter calls (stubs isrStubTable 47) v := by
  refine target_setAll calls (fun w hw => ?_) hv
  rw [idtInit_eq, target_setAll _
    (fun u _ => target_of_cleared hCleared u) hw,
    handlersAfter_initCalls isrStubTable (by omega)]

/-
  After `idt_init` on the cleared table and any number of
  descriptors set later, an interrupt goes to the handler
  set last for its vector, else to its stub; vectors from 47
  on have none until one is set, and vector 255 never has.
-/
theorem handlers_after_init
    (isrStubTable : Nat → UInt64)
    (calls : List SetCall)
    (hCleared : ∀ j, idt.toNat ≤ j →
      j < idt.toNat + 256 * idtEntryCodec.size → m j = 0)
    (v : UInt8) :
    target (idtrInit idt)
        (setAll idt calls (idtInit idt isrStubTable m)) v =
      if v = 255 then none
      else handlersAfter calls (stubs isrStubTable 47) v := by
  by_cases hv : v = 255
  · rw [if_pos hv, hv, target_last]
  · rw [if_neg hv]
    exact target_after_init isrStubTable calls hCleared hv

/-
  With the memory cleared and the keyboard's handler set, as
  `ps2_keyboard_init` does, vector 33 goes to it.
-/
theorem handlers_after_init_keyboard :
    target (idtrInit 0x1000)
        (setAll 0x1000 [⟨33, 0x5000, interruptGate⟩]
          (idtInit 0x1000 (fun i => UInt64.ofNat i)
            fun _ => 0)) 33 =
      some 0x5000 :=
  (handlers_after_init (fun i => UInt64.ofNat i)
    [⟨33, 0x5000, interruptGate⟩] (fun _ _ _ => rfl) 33).trans
    (by decide)

end Table

end Idt

end Ester
