import Ester.Ext2.Allocation.Refinement
import Ester.Ext2.SampleImage

/-
  No run of allocations hands out a number twice.

  Along any run the non-zero numbers returned for a resource
  are pairwise distinct and were free in the bitmaps the run
  started with, and the inode allocator fails only on a full
  group.

  Key definitions include:
    * `Fs.FreeNumber`

  Key theorems include:
    * `returned_eq`
    * `ext2FreeInodeAlloc_lowest`
    * `alloc_run_fresh`
-/

------------------------------------------------------------
-- Numbers of a Trace
------------------------------------------------------------

namespace Ester

namespace Ext2

/- A number whose bit is clear in its group's bitmap. -/
def Fs.FreeNumber
    (s : Fs)
    (r : Resource)
    (n : UInt32) : Prop :=
  ∃ g : Fin maxGroups, ∃ i,
    g < s.layout.groups ∧ i < s.layout.inodesPerGroup ∧
      n.toNat = s.layout.numberOf r g i ∧
      (s.bitmapBlock r g).bit i = false

/- The bits a trace of first-fit calls handed out. -/
def grantedBits
    (trace : List (AllocCall × Option Nat)) :
    List ((Resource × Fin maxGroups) × Nat) :=
  FirstFit.granted (trace.map fun e => (e.1.key, e.2))

/- Returned numbers are the numbers of the bits handed out. -/
theorem returned_eq
    (L : Layout)
    (r : Resource)
    (trace : List (AllocCall × Option Nat)) :
    returned r
        (trace.map fun e => (e.1, answerOf L e.1 e.2)) =
      (((grantedBits trace).filter fun p => p.1.1 = r).map
        fun p => UInt32.ofNat (L.numberOf r p.1.2 p.2)).filter
          fun n => n ≠ 0 := by
  induction trace with
  | nil => rfl
  | cons e trace ih =>
      rcases e with ⟨c, taken⟩
      unfold returned grantedBits at ih ⊢
      cases taken with
      | none =>
          rw [List.map_cons, List.map_cons,
            FirstFit.granted_cons_none, List.filter_cons_of_neg
              (by simp [answerOf])]
          exact ih
      | some i =>
          rw [List.map_cons, List.map_cons,
            FirstFit.granted_cons_some, List.filter_cons,
            List.filter_cons]
          by_cases hr : c.resource = r
          · subst hr
            by_cases hZero :
                UInt32.ofNat (L.numberOf c.resource
                  c.key.2 i) = 0
            · simpa [hZero] using ih
            · simpa [hZero] using ih
          · simpa [hr] using ih

section

variable {L : Layout} (hL : L.BitmapsOk)
variable (calls : List AllocCall)
variable (pools : Resource × Fin maxGroups → Finset Nat)

/- The trace of the calls is the trace of their pools. -/
theorem grantedBits_traceAll :
    grantedBits (traceAll (takeStep L) calls pools).1 =
      FirstFit.granted
        (traceAll (FirstFit.take (Scanned L))
          (calls.map AllocCall.key) pools).1 := by
  rw [traceAll_comap]
  rfl

/- Bits are handed out once. -/
theorem grantedBits_nodup :
    (grantedBits
      (traceAll (takeStep L) calls pools).1).Nodup := by
  rw [grantedBits_traceAll]
  exact FirstFit.granted_nodup _ _ _

/- Bits handed out were free and within reach of the scan. -/
theorem grantedBits_free
    {k : Resource × Fin maxGroups}
    {i : Nat}
    (h : (k, i) ∈ grantedBits
      (traceAll (takeStep L) calls pools).1) :
    i ∈ pools k ∧ i < L.inodesPerGroup := by
  rw [grantedBits_traceAll] at h
  exact FirstFit.granted_free _ _ _ h

/- Bits are handed out from the pools that were asked. -/
theorem grantedBits_key
    {k : Resource × Fin maxGroups}
    {i : Nat}
    (h : (k, i) ∈ grantedBits
      (traceAll (takeStep L) calls pools).1) :
    ∃ c ∈ calls, k = c.key := by
  simp only [grantedBits, FirstFit.granted,
    List.mem_filterMap, List.mem_map] at h
  rcases h with ⟨e, ⟨⟨c, taken⟩, hMem, rfl⟩, hSome⟩
  refine ⟨c, ?_, ?_⟩
  · rw [← map_fst_traceAll (takeStep L) calls pools]
    exact List.mem_map_of_mem (f := Prod.fst) hMem
  · cases taken with
    | none => simp at hSome
    | some j =>
        simp only [Option.map_some, Option.some.injEq,
          Prod.mk.injEq] at hSome
        exact hSome.1.symm

include hL

/- Distinct bits have distinct numbers. -/
theorem grantedNumbers_nodup
    (r : Resource) :
    (((grantedBits
        (traceAll (takeStep L) calls pools).1).filter
          fun p => p.1.1 = r).map fun p =>
            UInt32.ofNat (L.numberOf r p.1.2 p.2)).Nodup := by
  apply List.Nodup.map_on
  · rintro ⟨⟨r₁, g₁⟩, i₁⟩ h₁ ⟨⟨r₂, g₂⟩, i₂⟩ h₂ hEq
    simp only [List.mem_filter, decide_eq_true_eq] at h₁ h₂
    rcases h₁ with ⟨hMem₁, rfl⟩
    rcases h₂ with ⟨hMem₂, rfl⟩
    have hReach := hL.inodes_le_limit r₂
    have hi₁ : i₁ < L.limit r₂ := Nat.lt_of_lt_of_le
      (grantedBits_free calls pools hMem₁).2 hReach
    have hi₂ : i₂ < L.limit r₂ := Nat.lt_of_lt_of_le
      (grantedBits_free calls pools hMem₂).2 hReach
    have hNat := congrArg UInt32.toNat hEq
    rw [UInt32.toNat_ofNat_of_lt' (hL.numberOf_lt _ g₁ hi₁),
      UInt32.toNat_ofNat_of_lt' (hL.numberOf_lt _ g₂ hi₂)]
      at hNat
    rcases Layout.numberOf_inj r₂ hi₁ hi₂ hNat with ⟨hg, hi⟩
    rw [hg, hi]
  · exact (grantedBits_nodup calls pools).filter _

end

------------------------------------------------------------
-- Runs From an Image
------------------------------------------------------------

/-
  The inode allocator returns 0 exactly on a full group and
  the inode of the lowest clear bit otherwise.
-/
theorem ext2FreeInodeAlloc_lowest
    {s : Fs}
    (hSteady : s.Steady)
    (hLayout : s.layout.BitmapsOk)
    {group : UInt32}
    (hg : group.toNat < maxGroups) :
    ∃ n s', ext2FreeInodeAlloc group s = some (n, s') ∧
      (n = 0 ↔ ∀ i, i < s.layout.inodesPerGroup →
        (s.bitmapBlock .inode ⟨_, hg⟩).bit i = true) ∧
      ∀ i, i < s.layout.inodesPerGroup →
        (s.bitmapBlock .inode ⟨_, hg⟩).bit i = false →
        (∀ j, j < i →
          (s.bitmapBlock .inode ⟨_, hg⟩).bit j = true) →
        n.toNat =
          group.toNat * s.layout.inodesPerGroup + i + 1 := by
  have hBits : s.layout.inodesPerGroup ≤ 32768 :=
    Nat.le_trans hLayout.inodes_le hLayout.blocks_le
  have hAlloc := ext2FreeAlloc_eq hSteady hBits .inode hg
  rw [ext2FreeInodeAlloc, hAlloc]
  cases hScan : (s.disk (s.layout.bitmap .inode
      ⟨group.toNat, hg⟩)).firstClear
        s.layout.inodesPerGroup with
  | none =>
      rw [ByteBuffer.firstClear_eq_none_iff] at hScan
      refine ⟨0, s, rfl, ⟨fun _ => hScan, fun _ => rfl⟩, ?_⟩
      intro i hi hClear
      exact absurd (hScan i hi) (by
        rw [Fs.bitmapBlock] at hClear
        simp [hClear])
  | some i =>
      rw [ByteBuffer.firstClear_eq_some_iff] at hScan
      rcases hScan with ⟨hClear, hi, hBelow⟩
      have hNumber :
          (Resource.inode.number s.sb group
            (UInt32.ofNat i)).toNat =
          group.toNat * s.layout.inodesPerGroup + i + 1 := by
        rw [number_eq_ofNat s .inode group i hg]
        exact UInt32.toNat_ofNat_of_lt'
          (hLayout.numberOf_lt .inode ⟨_, hg⟩ hi)
      refine ⟨_, _, rfl, ?_, ?_⟩
      · constructor
        · intro hZero
          rw [hZero] at hNumber
          simp at hNumber
        · intro hFull
          exact absurd (hFull i hi) (by
            rw [Fs.bitmapBlock]
            simp [hClear])
      · intro j hj hClearJ hBelowJ
        rw [hNumber]
        rcases Nat.lt_trichotomy i j with hLt | hEq | hGt
        · exact absurd (hBelowJ i hLt) (by
            rw [Fs.bitmapBlock]
            simp [hClear])
        · rw [hEq]
        · exact absurd (hBelow j hGt) (by
            rw [Fs.bitmapBlock] at hClearJ
            simp [hClearJ])

/-
  For every well-formed image and every sequence of inode
  and block allocations on its groups: the run completes, no
  non-zero number is returned twice, every returned number
  was free at the start, and in the state reached the inode
  allocator returns 0 exactly on a full group, otherwise the
  inode of the lowest clear bit.
-/
theorem alloc_run_fresh
    (s₀ : Fs)
    (hSteady : s₀.Steady)
    (hLayout : s₀.layout.BitmapsOk)
    (calls : List AllocCall)
    (hGroups :
      ∀ c ∈ calls, c.group.toNat < s₀.layout.groups) :
    ∃ trace s, runAll allocStep calls s₀ =
        some (trace, s) ∧
      (∀ r, (returned r trace).Nodup) ∧
      (∀ r n, n ∈ returned r trace → s₀.FreeNumber r n) ∧
      ∀ (group : UInt32) (hg : group.toNat < maxGroups),
        group.toNat < s₀.layout.groups →
        ∃ n s', ext2FreeInodeAlloc group s = some (n, s') ∧
          (n = 0 ↔ ∀ i, i < s₀.layout.inodesPerGroup →
            (s.bitmapBlock .inode ⟨_, hg⟩).bit i = true) ∧
          ∀ i, i < s₀.layout.inodesPerGroup →
            (s.bitmapBlock .inode ⟨_, hg⟩).bit i = false →
            (∀ j, j < i →
              (s.bitmapBlock .inode ⟨_, hg⟩).bit j = true) →
            n.toNat = group.toNat *
              s₀.layout.inodesPerGroup + i + 1 := by
  rcases alloc_run_refines hLayout hSteady rfl calls hGroups
    with ⟨s, hRun, hRep⟩
  refine ⟨_, s, hRun, ?_, ?_, ?_⟩
  · intro r
    rw [returned_eq]
    exact (grantedNumbers_nodup hLayout calls s₀.pool r).filter _
  · intro r n hn
    rw [returned_eq] at hn
    rcases List.mem_map.mp (List.mem_filter.mp hn).1 with
      ⟨⟨⟨r', g⟩, i⟩, hMem, rfl⟩
    rcases List.mem_filter.mp hMem with ⟨hBit, hr⟩
    simp only [decide_eq_true_eq] at hr
    subst hr
    have hFree := grantedBits_free calls s₀.pool hBit
    rcases grantedBits_key calls s₀.pool hBit with
      ⟨c, hc, hKey⟩
    have hGroup := hGroups c hc
    have hKeyGroup : (g : Nat) = c.group.toNat := by
      rw [AllocCall.key_of_lt
        (Nat.lt_of_lt_of_le hGroup hLayout.groups_le)] at hKey
      rw [(Prod.mk.inj hKey).2]
    rw [Fs.mem_pool] at hFree
    refine ⟨g, i, by omega, hFree.2, ?_, hFree.1.2⟩
    exact UInt32.toNat_ofNat_of_lt'
      (hLayout.numberOf_lt r' g hFree.1.1)
  · intro group hg _
    have hLowest := ext2FreeInodeAlloc_lowest hRep.steady
      (hRep.layout ▸ hLayout) hg
    rwa [hRep.layout] at hLowest

/- Two blocks and an inode of an image without files. -/
theorem alloc_run_fresh_sample :
    ∃ trace s, runAll allocStep
        [⟨.block, 0⟩, ⟨.inode, 0⟩, ⟨.block, 0⟩] emptySample =
          some (trace, s) ∧
      ∀ r, (returned r trace).Nodup := by
  rcases alloc_run_fresh emptySample emptySample_steady
      (emptySample_layout ▸ sampleLayout_ok.toBitmapsOk)
      [⟨.block, 0⟩, ⟨.inode, 0⟩, ⟨.block, 0⟩]
      (by
        rw [emptySample_layout]
        decide) with
    ⟨trace, s, hRun, hNodup, -⟩
  exact ⟨trace, s, hRun, hNodup⟩

end Ext2

end Ester
