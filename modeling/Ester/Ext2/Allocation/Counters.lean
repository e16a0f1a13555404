import Mathlib.Algebra.BigOperators.Group.Finset.Piecewise
import Mathlib.Algebra.Order.BigOperators.Group.Finset
import Ester.Ext2.Allocation.Refinement
import Ester.Ext2.SampleImage

/-
  Free counters and the frame of allocations.

  After mounting, the superblock and the group descriptor
  table in memory are those on disk.  Every allocation keeps
  them equal, keeps each counter the number of clear bits it
  stands for, and changes no byte of the disk besides the
  flipped bit and the two counters.

  Key definitions include:
    * `Resource.count`, `Resource.total`
    * `Synced`
    * `CountersAgree`
    * `OnlyAllocated`

  Key theorems include:
    * `allocStep_cases`
    * `CountersAgree.claim`
    * `OnlyAllocated.claim`
    * `alloc_run_counters`
-/

------------------------------------------------------------
-- Counters
------------------------------------------------------------

namespace Ester

namespace Ext2

namespace Resource

/- The free count of a group. -/
def count : Resource → BlockGroupDescriptor → UInt16
  | inode, bgd => bgd.bgFreeInodesCount
  | block, bgd => bgd.bgFreeBlocksCount

/- The free count of the file system. -/
def total : Resource → SuperBlock → UInt32
  | inode, sb => sb.sFreeInodesCount
  | block, sb => sb.sFreeBlocksCount

theorem count_decBgd
    (r r' : Resource)
    (bgd : BlockGroupDescriptor) :
    r'.count (r.decBgd bgd) =
      if r' = r then r'.count bgd - 1 else r'.count bgd := by
  cases r <;> cases r' <;> rfl

theorem total_decSb
    (r r' : Resource)
    (sb : SuperBlock) :
    r'.total (r.decSb sb) =
      if r' = r then r'.total sb - 1 else r'.total sb := by
  cases r <;> cases r' <;> rfl

/- Decreasing a counter rewrites bytes 12 to 19 at most. -/
theorem encode_decSb
    (r : Resource)
    (sb : SuperBlock)
    {i : Nat}
    (hi : i < 12 ∨ 20 ≤ i) :
    superBlockCodec.encode (r.decSb sb) i =
      superBlockCodec.encode sb i := by
  have hTail {j : Nat} (h : ¬ (12 ≤ j ∧ j < 20))
      (h4 : 4 ≤ j) (h8 : 4 ≤ j - 4) (h12 : 4 ≤ j - 4 - 4)
      (hj : j - 4 - 4 - 4 < 4 ∨ j - 4 - 4 - 4 - 4 < 4) :
      False := by omega
  have hOut : ¬ (12 ≤ i ∧ i < 20) := by omega
  cases r with
  | inode =>
      refine PackedCodec.pair_encode_congr (fun _ => rfl)
        fun h4 => ?_
      refine PackedCodec.pair_encode_congr (fun _ => rfl)
        fun h8 => ?_
      refine PackedCodec.pair_encode_congr (fun _ => rfl)
        fun h12 => ?_
      refine PackedCodec.pair_encode_congr (fun _ => rfl)
        fun _ => ?_
      refine PackedCodec.pair_encode_congr (fun hj => ?_)
        fun _ => rfl
      exact (hTail hOut h4 h8 h12 (.inr hj)).elim
  | block =>
      refine PackedCodec.pair_encode_congr (fun _ => rfl)
        fun h4 => ?_
      refine PackedCodec.pair_encode_congr (fun _ => rfl)
        fun h8 => ?_
      refine PackedCodec.pair_encode_congr (fun _ => rfl)
        fun h12 => ?_
      refine PackedCodec.pair_encode_congr (fun hj => ?_)
        fun _ => rfl
      exact (hTail hOut h4 h8 h12 (.inl hj)).elim

/- Decreasing a counter rewrites bytes 12 to 15 at most. -/
theorem encode_decBgd
    (r : Resource)
    (bgd : BlockGroupDescriptor)
    {i : Nat}
    (hi : i < 12 ∨ 16 ≤ i) :
    bgdCodec.encode (r.decBgd bgd) i =
      bgdCodec.encode bgd i := by
  have hTail {j : Nat} (h : ¬ (12 ≤ j ∧ j < 16))
      (h4 : 4 ≤ j) (h8 : 4 ≤ j - 4) (h12 : 4 ≤ j - 4 - 4)
      (hj : j - 4 - 4 - 4 < 2 ∨ j - 4 - 4 - 4 - 2 < 2) :
      False := by omega
  have hOut : ¬ (12 ≤ i ∧ i < 16) := by omega
  cases r with
  | inode =>
      refine PackedCodec.pair_encode_congr (fun _ => rfl)
        fun h4 => ?_
      refine PackedCodec.pair_encode_congr (fun _ => rfl)
        fun h8 => ?_
      refine PackedCodec.pair_encode_congr (fun _ => rfl)
        fun h12 => ?_
      refine PackedCodec.pair_encode_congr (fun _ => rfl)
        fun _ => ?_
      refine PackedCodec.pair_encode_congr (fun hj => ?_)
        fun _ => rfl
      exact (hTail hOut h4 h8 h12 (.inr hj)).elim
  | block =>
      refine PackedCodec.pair_encode_congr (fun _ => rfl)
        fun h4 => ?_
      refine PackedCodec.pair_encode_congr (fun _ => rfl)
        fun h8 => ?_
      refine PackedCodec.pair_encode_congr (fun _ => rfl)
        fun h12 => ?_
      refine PackedCodec.pair_encode_congr (fun hj => ?_)
        fun _ => rfl
      exact (hTail hOut h4 h8 h12 (.inl hj)).elim

end Resource

------------------------------------------------------------
-- Agreement of the Three Copies
------------------------------------------------------------

/- Memory holds what blocks 0 and 1 hold. -/
structure Synced (s : Fs) : Prop where
  sb :
    superBlockCodec.decode ((s.disk 0).slice 1024) = s.sb
  bgdt : bgdtCodec.decode ((s.disk 1).slice 0) = s.bgdt

/- The groups an image has. -/
def Layout.groupSet
    (L : Layout) : Finset (Fin maxGroups) :=
  Finset.univ.filter fun g => g < L.groups

@[simp] theorem Layout.mem_groupSet
    (L : Layout)
    (g : Fin maxGroups) :
    g ∈ L.groupSet ↔ g < L.groups := by
  simp [groupSet]

/- Counters are the numbers of clear bits. -/
structure CountersAgree (s : Fs) : Prop where
  group :
    ∀ r (g : Fin maxGroups), g < s.layout.groups →
      (r.count (s.bgdt g)).toNat = (s.pool (r, g)).card
  total :
    ∀ r, (r.total s.sb).toNat =
      ∑ g ∈ s.layout.groupSet, (s.pool (r, g)).card

/-
  A state differs from another by allocations only: in block
  0 the two superblock counters, in block 1 the counters of
  the image's groups, in the bitmaps bits that went from
  clear to set below the scanned bound, and nothing else.
-/
structure OnlyAllocated (s₀ s : Fs) : Prop where
  superBlock :
    ∀ i, i < 1036 ∨ 1044 ≤ i →
      (s.disk 0).get i = (s₀.disk 0).get i
  groupTable :
    ∀ i, i % 32 < 12 ∨ 16 ≤ i % 32 ∨
        s₀.layout.groups ≤ i / 32 →
      (s.disk 1).get i = (s₀.disk 1).get i
  bitmapSet :
    ∀ r (g : Fin maxGroups), g < s₀.layout.groups →
      ∀ i, (s₀.bitmapBlock r g).bit i = true →
        (s.bitmapBlock r g).bit i = true
  bitmapRest :
    ∀ r (g : Fin maxGroups), g < s₀.layout.groups →
      ∀ i, s₀.layout.inodesPerGroup ≤ i →
        (s.bitmapBlock r g).bit i =
          (s₀.bitmapBlock r g).bit i
  other :
    ∀ n, n ≠ 0 → n ≠ 1 →
      (∀ r (g : Fin maxGroups), g < s₀.layout.groups →
        n ≠ s₀.layout.bitmap r g) →
      s.disk n = s₀.disk n

theorem OnlyAllocated.refl
    (s : Fs) :
    OnlyAllocated s s :=
  ⟨fun _ _ => rfl, fun _ _ => rfl, fun _ _ _ _ h => h,
    fun _ _ _ _ _ => rfl, fun _ _ _ _ => rfl⟩

------------------------------------------------------------
-- One Claim
------------------------------------------------------------

/-
  A call changes nothing or claims a bit that was clear and
  below the scanned bound.
-/
theorem allocStep_cases
    {s s' : Fs}
    {c : AllocCall}
    {n : UInt32}
    (hSteady : s.Steady)
    (hLayout : s.layout.BitmapsOk)
    (hGroup : c.group.toNat < s.layout.groups)
    (hStep : allocStep c s = some (n, s')) :
    s' = s ∨ ∃ (g : Fin maxGroups) (i : Nat),
      g < s.layout.groups ∧ i < s.layout.inodesPerGroup ∧
        (s.bitmapBlock c.resource g).bit i = false ∧
        s' = s.claim c.resource g i := by
  have hg : c.group.toNat < maxGroups :=
    Nat.lt_of_lt_of_le hGroup hLayout.groups_le
  have hBits : s.layout.inodesPerGroup ≤ 32768 :=
    Nat.le_trans hLayout.inodes_le hLayout.blocks_le
  rw [allocStep_eq,
    ext2FreeAlloc_eq hSteady hBits c.resource hg] at hStep
  cases hScan : (s.disk (s.layout.bitmap c.resource
      ⟨c.group.toNat, hg⟩)).firstClear
        s.layout.inodesPerGroup with
  | none =>
      simp only [hScan, Option.some.injEq,
        Prod.mk.injEq] at hStep
      exact .inl hStep.2.symm
  | some i =>
      simp only [hScan, Option.some.injEq,
        Prod.mk.injEq] at hStep
      rw [ByteBuffer.firstClear_eq_some_iff] at hScan
      exact .inr ⟨⟨c.group.toNat, hg⟩, i, hGroup,
        hScan.2.1, hScan.1, hStep.2.symm⟩

section

variable {s : Fs} {r : Resource} {g : Fin maxGroups}
variable {i : Nat}
variable (hLayout : s.layout.BitmapsOk)
variable (hg : g < s.layout.groups)

include hLayout hg

/- Write-back keeps memory and disk equal. -/
theorem Synced.claim :
    Synced (s.claim r g i) := by
  constructor
  · rw [Fs.claim_disk_zero (hLayout.bitmap_ne_zero r g hg)]
    refine Eq.trans ?_ (superBlockCodec.decode_encode _)
    apply superBlockCodec.decode_congr
    intro j hj
    rw [superBlockCodec_size] at hj
    rw [ByteBuffer.slice_apply,
      ByteBuffer.get_splice_of_inside _ _ hj (by decide)]
  · rw [Fs.claim_disk_one (hLayout.bitmap_ne_one r g hg)]
    refine Eq.trans ?_ (bgdtCodec.decode_encode _)
    apply bgdtCodec.decode_congr
    intro j hj
    rw [bgdtCodec_size] at hj
    rw [ByteBuffer.slice_apply,
      ByteBuffer.get_splice_of_inside _ _ hj (by decide)]

variable (hi : i < s.layout.inodesPerGroup)
variable (hClear : (s.bitmapBlock r g).bit i = false)

include hi hClear

/- The claimed bit leaves its pool. -/
theorem card_pool_claim
    {r' : Resource}
    {g' : Fin maxGroups}
    (hg' : g' < s.layout.groups) :
    ((s.claim r g i).pool (r', g')).card +
        (if (r', g') = (r, g) then 1 else 0) =
      (s.pool (r', g')).card := by
  have hReach := hLayout.inodes_le_limit r
  have hMax := hLayout.limit_le r
  have hMem : i ∈ s.pool (r, g) := by
    rw [Fs.mem_pool]
    exact ⟨by omega, hClear⟩
  rw [Fs.pool_claim hLayout rfl hg (by omega) hg',
    FirstFit.remove, Function.update_apply]
  split
  · next hEq =>
      rw [hEq]
      exact Finset.card_erase_add_one hMem
  · rfl

/- The claim lowers each counter with its clear bits. -/
theorem CountersAgree.claim
    (h : CountersAgree s) :
    CountersAgree (s.claim r g i) := by
  have hReach := hLayout.inodes_le_limit r
  have hPos : 0 < (s.pool (r, g)).card := by
    apply Finset.card_pos.mpr
    refine ⟨i, ?_⟩
    rw [Fs.mem_pool]
    exact ⟨by omega, hClear⟩
  have hGroupMem : g ∈ s.layout.groupSet := by simp [hg]
  constructor
  · intro r' g' hg'
    rw [Fs.claim_layout] at hg'
    have hCard := @card_pool_claim _ _ _ _ hLayout hg hi hClear
      r' _ hg'
    have hOld := h.group r' g' hg'
    rw [Fs.claim_bgdt]
    by_cases hgg : g' = g
    · subst hgg
      rw [Function.update_self, Resource.count_decBgd]
      by_cases hr : r' = r
      · subst hr
        rw [if_pos rfl] at hCard ⊢
        rw [UInt16.toNat_sub_of_le _ _ (by
          rw [UInt16.le_iff_toNat_le]
          simp only [UInt16.toNat_one]
          omega)]
        simp only [UInt16.toNat_one]
        omega
      · rw [if_neg hr]
        rw [if_neg (by simp [hr])] at hCard
        omega
    · rw [Function.update_of_ne hgg]
      rw [if_neg (by simp [hgg])] at hCard
      omega
  · intro r'
    have hOld := h.total r'
    have hSum :
        (∑ g' ∈ s.layout.groupSet,
          ((s.claim r g i).pool (r', g')).card) +
            (if r' = r then 1 else 0) =
          ∑ g' ∈ s.layout.groupSet,
            (s.pool (r', g')).card := by
      have hOne :
          (∑ g' ∈ s.layout.groupSet,
            if (r', g') = (r, g) then 1 else 0) =
              if r' = r then 1 else 0 := by
        by_cases hr : r' = r
        · simp [hr, hg]
        · simp [hr]
      rw [← hOne, ← Finset.sum_add_distrib]
      apply Finset.sum_congr rfl
      intro g' hg'
      exact card_pool_claim hLayout hg hi hClear
        ((Layout.mem_groupSet _ _).mp hg')
    rw [Fs.claim_sb, Fs.claim_layout, Resource.total_decSb]
    by_cases hr : r' = r
    · subst hr
      rw [if_pos rfl] at hSum ⊢
      have hLe := Finset.single_le_sum
        (f := fun g' => (s.pool (r', g')).card)
        (fun _ _ => Nat.zero_le _) hGroupMem
      rw [UInt32.toNat_sub_of_le _ _ (by
        rw [UInt32.le_iff_toNat_le]
        simp only [UInt32.toNat_one]
        omega)]
      simp only [UInt32.toNat_one]
      omega
    · rw [if_neg hr] at hSum ⊢
      omega

omit hi hClear in
/- Of the superblock only the two counters change. -/
theorem Synced.claim_superBlock
    (hSync : Synced s)
    {j : Nat}
    (hj : j < 1036 ∨ 1044 ≤ j) :
    ((s.claim r g i).disk 0).get j = (s.disk 0).get j := by
  rw [Fs.claim_disk_zero (hLayout.bitmap_ne_zero r g hg)]
  by_cases hIn : 1024 ≤ j ∧ j < 1024 + 92
  · obtain ⟨k, rfl⟩ := Nat.exists_eq_add_of_le hIn.1
    rw [ByteBuffer.get_splice_of_inside _ _ (by omega)
      (by decide), Fs.claim_sb,
      Resource.encode_decSb r s.sb (by omega), ← hSync.sb,
      superBlockCodec.encode_decode _ _ (by
        rw [superBlockCodec_size]
        omega)]
    rfl
  · rw [ByteBuffer.get_splice_of_outside _ _ (by omega)]

omit hi hClear in
/- Of a group descriptor only the two counters change. -/
theorem Synced.claim_groupTable
    (hSync : Synced s)
    {j : Nat}
    (hj : j % 32 < 12 ∨ 16 ≤ j % 32 ∨
      s.layout.groups ≤ j / 32) :
    ((s.claim r g i).disk 1).get j = (s.disk 1).get j := by
  rw [Fs.claim_disk_one (hLayout.bitmap_ne_one r g hg)]
  by_cases hIn : j < 4096
  · have hInside := @ByteBuffer.get_splice_of_inside _
      (s.disk 1) 0 _
      (bgdtCodec.encode (s.claim r g i).bgdt) _ hIn
      (by decide)
    have hOld :
        bgdtCodec.encode s.bgdt j = (s.disk 1).get j := by
      rw [← hSync.bgdt, bgdtCodec.encode_decode _ _
        (by rw [bgdtCodec_size]; exact hIn),
        ByteBuffer.slice_apply, Nat.zero_add]
    rw [Nat.zero_add] at hInside
    rw [hInside, Fs.claim_bgdt, ← hOld, bgdtCodec,
      PackedCodec.array_encode_update _ _ _ _ _ hIn]
    split
    · next hEq =>
        rw [bgdCodec_size] at hEq
        rw [Resource.encode_decBgd r _ (by
          rw [bgdCodec_size]
          omega)]
        simp only [PackedCodec.array, bgdCodec_size, hEq,
          g.isLt, dif_pos, Fin.eta]
    · rfl
  · rw [ByteBuffer.get_splice_of_outside _ _ (by omega)]

/- The claim touches one bit and the counters only. -/
omit hClear in
theorem OnlyAllocated.claim
    {s₀ : Fs}
    (hSame : s.layout = s₀.layout)
    (hSync : Synced s)
    (h : OnlyAllocated s₀ s) :
    OnlyAllocated s₀ (s.claim r g i) := by
  have hReach := hLayout.inodes_le_limit r
  have hMax := hLayout.limit_le r
  have hByte : i / 8 < logicalBlockSize :=
    Nat.div_lt_of_lt_mul
      (show i < 8 * 4096 by omega)
  constructor
  · intro j hj
    exact (hSync.claim_superBlock hLayout hg hj).trans
      (h.superBlock j hj)
  · intro j hj
    exact (hSync.claim_groupTable hLayout hg
      (hSame ▸ hj)).trans (h.groupTable j hj)
  · intro r' g' hg' j hj
    rw [Fs.bitmapBlock_claim hLayout rfl hg (hSame ▸ hg')]
    have hBit := h.bitmapSet r' g' hg' j hj
    split
    · next hEq =>
        cases hEq
        rw [ByteBuffer.bit_setBit _ hByte, hBit,
          Bool.true_or]
    · exact hBit
  · intro r' g' hg' j hj
    rw [Fs.bitmapBlock_claim hLayout rfl hg (hSame ▸ hg')]
    have hRest := h.bitmapRest r' g' hg' j hj
    split
    · next hEq =>
        cases hEq
        have hNe : j ≠ i := by
          rw [← hSame] at hj
          omega
        rw [ByteBuffer.bit_setBit _ hByte, ← hRest]
        simp [hNe]
    · exact hRest
  · intro n h0 h1 hBitmaps
    rw [← h.other n h0 h1 hBitmaps]
    refine Fs.claim_disk_of_ne ?_ h0 h1
    rw [hSame]
    exact hBitmaps r g (hSame ▸ hg)

end

------------------------------------------------------------
-- Runs From a Mounted Image
------------------------------------------------------------

/- What every state of a run of allocations satisfies. -/
structure AllocInv (s₀ s : Fs) : Prop where
  steady : s.Steady
  layout : s.layout = s₀.layout
  synced : Synced s
  counters : CountersAgree s
  frame : OnlyAllocated s₀ s

/- One call preserves the invariant. -/
theorem AllocInv.step
    {s₀ s s' : Fs}
    {c : AllocCall}
    {n : UInt32}
    (hLayout : s₀.layout.BitmapsOk)
    (hGroup : c.group.toNat < s₀.layout.groups)
    (h : AllocInv s₀ s)
    (hStep : allocStep c s = some (n, s')) :
    AllocInv s₀ s' := by
  have hOk : s.layout.BitmapsOk := h.layout ▸ hLayout
  rcases allocStep_cases h.steady hOk
      (h.layout ▸ hGroup) hStep with
    rfl | ⟨g, i, hg, hi, hClear, rfl⟩
  · exact h
  · exact
      { steady := Fs.claim_steady _ _ _ _ h.steady
        layout := by rw [Fs.claim_layout, h.layout]
        synced := Synced.claim hOk hg
        counters := h.counters.claim hOk hg hi hClear
        frame := h.frame.claim hOk hg hi
          h.layout h.synced }

/- A call never raises a counter, so none wraps. -/
theorem counters_le_of_step
    {s s' : Fs}
    {c : AllocCall}
    {n : UInt32}
    (hSteady : s.Steady)
    (hLayout : s.layout.BitmapsOk)
    (hGroup : c.group.toNat < s.layout.groups)
    (hAgree : CountersAgree s)
    (hStep : allocStep c s = some (n, s')) :
    (∀ (r : Resource) (g : Fin maxGroups),
      g < s.layout.groups →
      (r.count (s'.bgdt g)).toNat ≤
        (r.count (s.bgdt g)).toNat) ∧
      ∀ r : Resource, (r.total s'.sb).toNat ≤ (r.total s.sb).toNat := by
  rcases allocStep_cases hSteady hLayout hGroup hStep with
    rfl | ⟨g, i, hg, hi, hClear, rfl⟩
  · exact ⟨fun _ _ _ => Nat.le_refl _,
      fun _ => Nat.le_refl _⟩
  · have hAfter := hAgree.claim hLayout hg hi hClear
    constructor
    · intro r' g' hg'
      have hCard := @card_pool_claim _ _ _ _ hLayout hg hi hClear
        r' _ hg'
      rw [hAgree.group r' g' hg', hAfter.group r' g'
        (by rw [Fs.claim_layout]; exact hg')]
      omega
    · intro r'
      rw [hAgree.total r', hAfter.total r', Fs.claim_layout]
      apply Finset.sum_le_sum
      intro g' hg'
      have hCard := @card_pool_claim _ _ _ _ hLayout hg hi hClear
        r' _ ((Layout.mem_groupSet _ _).mp hg')
      omega

/- Mounting reads both structures and writes nothing. -/
theorem mount_spec
    {boot s₁ s₀ : Fs}
    (hFaults : boot.faults = [])
    (hSb : ext2ExtractSb boot = (0, s₁))
    (hBgdt : ext2ExtractBgdt s₁ = some (0, s₀)) :
    s₀.disk = boot.disk ∧ s₀.Steady ∧ Synced s₀ := by
  have hRead : ext2ReadBlock 0 boot =
      (0, boot.disk 0, boot) := by
    simp [ext2ReadBlock, hFaults]
  simp only [ext2ExtractSb, hRead] at hSb
  split at hSb
  · simp at hSb
  · split at hSb
    · simp at hSb
    · have hs₁ := (Prod.mk.inj hSb).2
      subst hs₁
      simp only [ext2ExtractBgdt, readLocal] at hBgdt
      split at hBgdt
      · next hSize =>
          simp only [Option.bind_eq_bind, Option.bind_some,
            ext2ReadBlock, Fs.setSb_faults, hFaults,
            Option.some.injEq, Prod.mk.injEq] at hBgdt
          rcases hBgdt with ⟨-, rfl⟩
          exact ⟨rfl, ⟨hFaults, hSize⟩, ⟨rfl, rfl⟩⟩
      · simp at hBgdt

/-
  For every well-formed image mounted by `ext2_extract_sb`
  and `ext2_extract_bgdt` whose counters agree with its
  bitmaps and every sequence of allocations on its groups:
  the run completes, and in the state reached memory and
  disk hold the same superblock and descriptor table, each
  counter is the number of clear bits it stands for, no
  further call makes a counter wrap, and the disk differs
  from the initial one in flipped bits and counters only.
-/
theorem alloc_run_counters
    (boot s₁ s₀ : Fs)
    (hFaults : boot.faults = [])
    (hSb : ext2ExtractSb boot = (0, s₁))
    (hBgdt : ext2ExtractBgdt s₁ = some (0, s₀))
    (hLayout : s₀.layout.BitmapsOk)
    (hAgree : CountersAgree s₀)
    (calls : List AllocCall)
    (hGroups :
      ∀ c ∈ calls, c.group.toNat < s₀.layout.groups) :
    s₀.disk = boot.disk ∧
    ∃ trace s, runAll allocStep calls s₀ =
        some (trace, s) ∧
      Synced s ∧
      s.layout = s₀.layout ∧
      CountersAgree s ∧
      (∀ c n s', c.group.toNat < s₀.layout.groups →
        allocStep c s = some (n, s') →
        (∀ (r : Resource) (g : Fin maxGroups),
          g < s₀.layout.groups →
          (r.count (s'.bgdt g)).toNat ≤
            (r.count (s.bgdt g)).toNat) ∧
        ∀ r : Resource, (r.total s'.sb).toNat ≤
          (r.total s.sb).toNat) ∧
      OnlyAllocated s₀ s := by
  rcases mount_spec hFaults hSb hBgdt with
    ⟨hDisk, hSteady, hSync⟩
  refine ⟨hDisk, ?_⟩
  rcases alloc_run_refines hLayout hSteady rfl calls hGroups
    with ⟨s, hRun, -⟩
  have hInv : AllocInv s₀ s :=
    runAll_invariant
      (fun _ _ _ _ hGroup h hStep =>
        AllocInv.step hLayout hGroup h hStep)
      hGroups hRun
      ⟨hSteady, rfl, hSync, hAgree, .refl s₀⟩
  refine ⟨_, s, hRun, hInv.synced, hInv.layout,
    hInv.counters, ?_, hInv.frame⟩
  intro c n s' hGroup hStep
  have hLe := counters_le_of_step hInv.steady
    (hInv.layout ▸ hLayout) (hInv.layout ▸ hGroup)
    hInv.counters hStep
  rwa [hInv.layout] at hLe

/- The counters of an image without files. -/
theorem emptySample_countersAgree :
    CountersAgree emptySample := by
  have hLayout := emptySample_layout
  have hCard (r : Resource) :
      (emptySample.pool (r, 0)).card =
        sampleLayout.limit r - 16 := by
    have hPool : emptySample.pool (r, 0) =
        sampleBitmap.clearBits (sampleLayout.limit r) := by
      rw [Fs.pool, Fs.bitmapBlock, hLayout]
      cases r <;> rfl
    rw [hPool]
    exact sampleBitmap_card (by cases r <;> decide)
  have hGroups : sampleLayout.groupSet = {0} := by
    ext g
    rw [Layout.mem_groupSet, Finset.mem_singleton]
    constructor
    · exact sampleLayout_group_eq
    · rintro rfl
      decide
  constructor
  · intro r g hg
    rw [hLayout] at hg
    rw [sampleLayout_group_eq hg, hCard]
    cases r <;> rfl
  · intro r
    rw [hLayout, hGroups, Finset.sum_singleton, hCard]
    cases r <;> rfl

/- Mounting an image without files, then two allocations. -/
theorem alloc_run_counters_sample :
    ∃ trace s, runAll allocStep
        [⟨.inode, 0⟩, ⟨.block, 0⟩] emptySample =
          some (trace, s) ∧
      Synced s ∧ CountersAgree s ∧
        OnlyAllocated emptySample s := by
  have hLayout := emptySample_layout
  have hMount := sampleBoot_mount (fun _ => Inode.zero)
    fun _ => .fill logicalBlockSize 0
  rcases alloc_run_counters _ _ emptySample rfl hMount.1
      hMount.2 (hLayout ▸ sampleLayout_ok.toBitmapsOk)
      emptySample_countersAgree [⟨.inode, 0⟩, ⟨.block, 0⟩]
      (by
        rw [hLayout]
        decide) with
    ⟨-, trace, s, hRun, hSynced, -, hCounters, -, hFrame⟩
  exact ⟨trace, s, hRun, hSynced, hCounters, hFrame⟩

end Ext2

end Ester
