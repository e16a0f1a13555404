import Ester.Library.FirstFit
import Ester.Ext2.Allocation.Effect

/-
  The allocators refine first-fit allocation.

  The pools of a state are the clear bits of its bitmaps,
  one pool for each resource and group.  An allocation takes
  the least bit the scan sees from its pool and leaves all
  other pools alone, because bitmaps lie in distinct blocks
  and neither is block 0 nor block 1.  Runs of allocations
  therefore never hand out a number twice.

  Key definitions include:
    * `AllocCall` and `allocStep`
    * `Fs.pool`
    * `returned`
    * `Represents`

  Key theorems include:
    * `allocStep_refines`
    * `alloc_run_refines`
-/

------------------------------------------------------------
-- Allocation Calls
------------------------------------------------------------

namespace Ester

namespace Ext2

/- A call of one of the two allocators. -/
structure AllocCall where
  resource : Resource
  group : UInt32
deriving DecidableEq

/- Execute a call. -/
def allocStep
    (c : AllocCall)
    (s : Fs) : Option (UInt32 × Fs) :=
  match c.resource with
  | .inode => ext2FreeInodeAlloc c.group s
  | .block => ext2FreeBlockAlloc c.group s

theorem allocStep_eq
    (c : AllocCall)
    (s : Fs) :
    allocStep c s = ext2FreeAlloc c.resource c.group s := by
  unfold allocStep
  split <;> simp_all [ext2FreeInodeAlloc, ext2FreeBlockAlloc]

/- The non-zero numbers a trace returned for a resource. -/
def returned
    (r : Resource)
    (trace : List (AllocCall × UInt32)) : List UInt32 :=
  (trace.filter fun e =>
    e.1.resource = r ∧ e.2 ≠ 0).map Prod.snd

------------------------------------------------------------
-- Pools
------------------------------------------------------------

/- A group's bitmap of one resource. -/
def Fs.bitmapBlock
    (s : Fs)
    (r : Resource)
    (g : Fin maxGroups) : Block :=
  s.disk (s.layout.bitmap r g)

/- The free bits of a resource in a group. -/
def Fs.pool
    (s : Fs)
    (k : Resource × Fin maxGroups) : Finset Nat :=
  (s.bitmapBlock k.1 k.2).clearBits (s.layout.limit k.1)

theorem Fs.mem_pool
    (s : Fs)
    (r : Resource)
    (g : Fin maxGroups)
    (i : Nat) :
    i ∈ s.pool (r, g) ↔
      i < s.layout.limit r ∧
        (s.bitmapBlock r g).bit i = false :=
  ByteBuffer.mem_clearBits _ _ _

/- The bits the scan of an allocator reaches. -/
def Scanned
    (L : Layout)
    (_ : Resource × Fin maxGroups)
    (i : Nat) : Prop :=
  i < L.inodesPerGroup

instance
    (L : Layout)
    (k : Resource × Fin maxGroups) :
    DecidablePred (Scanned L k) := by
  unfold Scanned
  infer_instance

/-
  A state represents a family of pools: its layout is the
  given one and the pools of its groups are the given ones.
-/
structure Represents
    (L : Layout)
    (s : Fs)
    (pools : Resource × Fin maxGroups → Finset Nat) :
    Prop where
  steady : s.Steady
  layout : s.layout = L
  pool_eq :
    ∀ k : Resource × Fin maxGroups, k.2 < L.groups →
      s.pool k = pools k

------------------------------------------------------------
-- One Claim
------------------------------------------------------------

section

variable {L : Layout} (hL : L.BitmapsOk)
variable {s : Fs} {r : Resource} {g : Fin maxGroups}
variable {i : Nat}

include hL

/- A claim sets its own bit and no bit of another bitmap. -/
theorem Fs.bitmapBlock_claim
    (hLayout : s.layout = L)
    (hg : g < L.groups)
    {r' : Resource}
    {g' : Fin maxGroups}
    (hg' : g' < L.groups) :
    (s.claim r g i).bitmapBlock r' g' =
      if (r', g') = (r, g) then (s.bitmapBlock r g).setBit i
      else s.bitmapBlock r' g' := by
  subst hLayout
  rw [bitmapBlock, claim_layout]
  by_cases hk : (r', g') = (r, g)
  · rw [if_pos hk]
    cases hk
    exact claim_disk_bitmap (hL.bitmap_ne_zero r g hg)
      (hL.bitmap_ne_one r g hg)
  · rw [if_neg hk, claim_disk_of_ne _
      (hL.bitmap_ne_zero r' g' hg')
      (hL.bitmap_ne_one r' g' hg')]
    · rfl
    · intro hEq
      rcases hL.bitmap_inj r' r g' g hg' hg hEq with ⟨hr, hgg⟩
      exact hk (by rw [hr, hgg])

/- A claim removes its bit from its pool. -/
theorem Fs.pool_claim
    (hLayout : s.layout = L)
    (hg : g < L.groups)
    (hi : i < 32768)
    {k : Resource × Fin maxGroups}
    (hk : k.2 < L.groups) :
    (s.claim r g i).pool k =
      FirstFit.remove s.pool (r, g) i k := by
  have hByte : i / 8 < logicalBlockSize :=
    Nat.div_lt_of_lt_mul hi
  rw [pool, claim_layout,
    bitmapBlock_claim hL hLayout hg hk]
  by_cases hEq : k = (r, g)
  · subst hEq
    rw [if_pos rfl, ByteBuffer.clearBits_setBit _ hByte,
      FirstFit.remove, Function.update_self]
    rfl
  · rw [if_neg hEq, FirstFit.remove,
      Function.update_of_ne hEq]
    rfl

/- The lowest clear bit is what first-fit takes. -/
theorem firstClear_eq_take
    {pools : Resource × Fin maxGroups → Finset Nat}
    (hRep : Represents L s pools)
    (r : Resource)
    (hg : g < L.groups) :
    (s.bitmapBlock r g).firstClear L.inodesPerGroup =
      (FirstFit.take (Scanned L) (r, g) pools).1 := by
  have hLimit := hL.inodes_le_limit r
  have hMem (j : Nat) (hj : j < L.inodesPerGroup) :
      j ∈ pools (r, g) ↔
        (s.bitmapBlock r g).bit j = false := by
    rw [← hRep.pool_eq (r, g) hg, Fs.mem_pool, hRep.layout]
    exact and_iff_right (by omega)
  cases hTake :
      (FirstFit.take (Scanned L) (r, g) pools).1 with
  | none =>
      rw [FirstFit.take_eq_none_iff] at hTake
      rw [ByteBuffer.firstClear_eq_none_iff]
      intro j hj
      by_contra hBit
      exact hTake j
        ((hMem j hj).mpr (Bool.eq_false_iff.mpr hBit)) hj
  | some j =>
      rw [FirstFit.take_eq_some_iff] at hTake
      rcases hTake with ⟨hIn, hScan, hLeast⟩
      rw [ByteBuffer.firstClear_eq_some_iff]
      refine ⟨(hMem j hScan).mp hIn, hScan, ?_⟩
      intro j' hj'
      by_contra hBit
      have hScan' : j' < L.inodesPerGroup :=
        Nat.lt_trans hj' hScan
      have hIn' := (hMem j' hScan').mpr
        (Bool.eq_false_iff.mpr hBit)
      have := hLeast j' hIn' hScan'
      omega

end

------------------------------------------------------------
-- Refinement
------------------------------------------------------------

/- The pool a call draws from. -/
def AllocCall.key
    (c : AllocCall) : Resource × Fin maxGroups :=
  (c.resource, Fin.ofNat maxGroups c.group.toNat)

/- The number returned for what a pool handed out. -/
def answerOf
    (L : Layout)
    (c : AllocCall)
    (taken : Option Nat) : UInt32 :=
  match taken with
  | none => 0
  | some i =>
      UInt32.ofNat (L.numberOf c.resource c.key.2 i)

@[simp] theorem AllocCall.key_fst
    (c : AllocCall) :
    c.key.1 = c.resource := rfl

@[simp] theorem answerOf_none
    (L : Layout)
    (c : AllocCall) :
    answerOf L c none = 0 := rfl

@[simp] theorem answerOf_some
    (L : Layout)
    (c : AllocCall)
    (i : Nat) :
    answerOf L c (some i) =
      UInt32.ofNat (L.numberOf c.resource c.key.2 i) := rfl

/- The abstract step: first-fit on the pool of the call. -/
def takeStep
    (L : Layout)
    (c : AllocCall)
    (pools : Resource × Fin maxGroups → Finset Nat) :
    Option Nat × (Resource × Fin maxGroups → Finset Nat) :=
  FirstFit.take (Scanned L) c.key pools

theorem AllocCall.key_of_lt
    {c : AllocCall}
    (h : c.group.toNat < maxGroups) :
    c.key = (c.resource, ⟨c.group.toNat, h⟩) := by
  rw [key]
  congr 1
  exact Fin.ext (Nat.mod_eq_of_lt h)

/- The 32-bit number of a bit is the number it stands for. -/
theorem number_eq_ofNat
    (s : Fs)
    (r : Resource)
    (group : UInt32)
    (i : Nat)
    (hg : group.toNat < maxGroups) :
    r.number s.sb group (UInt32.ofNat i) =
      UInt32.ofNat
        (s.layout.numberOf r ⟨group.toNat, hg⟩ i) := by
  cases r with
  | inode =>
      simp [Resource.number, Layout.numberOf, Fs.layout]
  | block =>
      simp [Resource.number, Layout.numberOf, Fs.layout]

/- One call answers and acts as first-fit on its pool. -/
theorem allocStep_refines
    {L : Layout}
    (hL : L.BitmapsOk)
    {c : AllocCall}
    (hGroup : c.group.toNat < L.groups)
    {s : Fs}
    {pools : Resource × Fin maxGroups → Finset Nat}
    (hRep : Represents L s pools) :
    ∃ s', allocStep c s =
        some (answerOf L c (takeStep L c pools).1, s') ∧
      Represents L s' (takeStep L c pools).2 := by
  have hg : c.group.toNat < maxGroups :=
    Nat.lt_of_lt_of_le hGroup hL.groups_le
  have hBits : L.inodesPerGroup ≤ 32768 :=
    Nat.le_trans hL.inodes_le hL.blocks_le
  have hAlloc := ext2FreeAlloc_eq hRep.steady
    (hRep.layout ▸ hBits) c.resource hg
  have hScan := firstClear_eq_take hL hRep c.resource
    (g := ⟨c.group.toNat, hg⟩) hGroup
  rw [Fs.bitmapBlock] at hScan
  rw [hRep.layout] at hScan hAlloc
  rw [hScan] at hAlloc
  rw [allocStep_eq, hAlloc, takeStep,
    AllocCall.key_of_lt hg]
  cases hTake : (FirstFit.take (Scanned L)
      (c.resource, ⟨c.group.toNat, hg⟩) pools).1 with
  | none =>
      rw [FirstFit.take_pools_of_none _ hTake]
      exact ⟨s, rfl, hRep⟩
  | some i =>
      rw [FirstFit.take_pools_of_some _ hTake]
      have hVisible :=
        ((FirstFit.take_eq_some_iff _ _ _ _).mp hTake).2.1
      have hi : i < 32768 :=
        Nat.lt_of_lt_of_le hVisible hBits
      refine ⟨s.claim c.resource ⟨c.group.toNat, hg⟩ i,
        ?_, ?_, ?_, ?_⟩
      · simp only [number_eq_ofNat s _ _ _ hg, hRep.layout,
          answerOf, AllocCall.key_of_lt hg]
      · exact Fs.claim_steady _ _ _ _ hRep.steady
      · rw [Fs.claim_layout, hRep.layout]
      · intro k hk
        rw [Fs.pool_claim hL hRep.layout hGroup hi hk]
        simp only [FirstFit.remove, Function.update_apply]
        split
        · rw [hRep.pool_eq _ hGroup]
        · exact hRep.pool_eq k hk

/- A run of allocations is a run of first-fit. -/
theorem alloc_run_refines
    {L : Layout}
    (hL : L.BitmapsOk)
    {s : Fs}
    (hSteady : s.Steady)
    (hLayout : s.layout = L)
    (calls : List AllocCall)
    (hGroups : ∀ c ∈ calls, c.group.toNat < L.groups) :
    ∃ s', runAll allocStep calls s =
        some ((traceAll (takeStep L) calls s.pool).1.map
          fun e => (e.1, answerOf L e.1 e.2), s') ∧
      Represents L s'
        (traceAll (takeStep L) calls s.pool).2 :=
  runAll_refines allocStep (takeStep L) (Represents L)
    (answerOf L) (fun c => c.group.toNat < L.groups)
    (fun _ _ _ hGroup hRep =>
      allocStep_refines hL hGroup hRep)
    calls hGroups ⟨hSteady, hLayout, fun _ _ => rfl⟩

end Ext2

end Ester
