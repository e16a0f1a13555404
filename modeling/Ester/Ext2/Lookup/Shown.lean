import Ester.Ext2.Directory.Records
import Ester.Ext2.Lookup.Glued
import Ester.Ext2.Lookup.Resolution

/-
  What the lookup of the source finds in a directory tree.

  The lookup lists every directory it comes to into the same
  slots, so it is a walk over stale slots: a component is
  found under the name its slot shows, not under the name of
  its entry.  The glued path of a parent has one component,
  which is looked up in the root directory only.

  Key definitions include:
    * `Fs.InodeUsed`, `UsedLive`
    * `TreeOk`
    * `Seen`, `gluedTarget`

  Key theorems include:
    * `walkLoop_slots`
    * `ext2InodeFind_slots`
    * `ext2InodeFind_glued`
-/

------------------------------------------------------------
-- Directory Trees
------------------------------------------------------------

namespace Ester

namespace Ext2

open StaleSlots (Slots after shown slotWalk)

/- A number whose bit is set in its group's bitmap. -/
def Fs.InodeUsed
    (s : Fs)
    (n : UInt32) : Prop :=
  ∃ (g : Fin maxGroups) (i : Nat),
    g < s.layout.groups ∧ i < s.layout.inodesPerGroup ∧
      n.toNat = s.layout.numberOf .inode g i ∧
      (s.bitmapBlock .inode g).bit i = true

/- Every inode in use is live. -/
def UsedLive
    (owners : Owners)
    (s : Fs) : Prop :=
  ∀ n, s.InodeUsed n → owners.live n

theorem UsedLive.mono
    {owners owners' : Owners}
    {s : Fs}
    (h : UsedLive owners s)
    (hMore : Extends owners owners') :
    UsedLive owners' s :=
  fun n hUsed => hMore.live n (h n hUsed)

/-
  The records of all directories in use: their blocks are
  tiled, their entries have proper names and lead to inodes
  in use, and so does the number of the root.
-/
structure TreeOk
    (s : Fs)
    (recs : UInt32 → List Entries) : Prop where
  root : s.InodeUsed 2
  records :
    ∀ n, s.InodeUsed n → RecordsOf s n (recs n)
  unused : ∀ n, ¬ s.InodeUsed n → recs n = []
  used : ∀ n, ∀ e ∈ present (recs n), s.InodeUsed e.2
  names : ∀ n, ∀ e ∈ present (recs n), IsName e.1

/- What listings deliver of each directory. -/
abbrev Seen
    (recs : UInt32 → List Entries)
    (n : UInt32) : Entries :=
  visible (recs n)

/- Where the parent's path leads when its names are glued. -/
def gluedTarget
    (recs : UInt32 → List Entries)
    (way : List (List UInt8)) : UInt32 :=
  (StaleSlots.find (Seen recs 2) way.flatten).getD 2

section

variable {s : Fs} {recs : UInt32 → List Entries}

/- Inodes in use have slots. -/
theorem Fs.InodeUsed.valid
    {n : UInt32}
    (h : s.InodeUsed n) :
    s.layout.ValidInode n := by
  rcases h with ⟨g, i, hg, hi, hNumber, -⟩
  have hMul :
      (g + 1) * s.layout.inodesPerGroup ≤
        s.layout.groups * s.layout.inodesPerGroup :=
    Nat.mul_le_mul_right _ hg
  rw [Nat.add_mul, Nat.one_mul] at hMul
  unfold Layout.ValidInode
  rw [hNumber, Layout.numberOf]
  omega

/- Zero is not the number of an inode. -/
theorem Fs.InodeUsed.ne_zero
    {n : UInt32}
    (h : s.InodeUsed n) :
    n ≠ 0 := by
  intro h0
  subst h0
  exact absurd h.valid.1 (by decide)

theorem TreeOk.seen_used
    (h : TreeOk s recs)
    {n : UInt32}
    {e : List UInt8 × UInt32}
    (hMem : e ∈ Seen recs n) :
    s.InodeUsed e.2 :=
  h.used n e (mem_present_of_visible hMem)

theorem TreeOk.seen_names
    (h : TreeOk s recs)
    {n : UInt32}
    {e : List UInt8 × UInt32}
    (hMem : e ∈ Seen recs n) :
    IsName e.1 :=
  h.names n e (mem_present_of_visible hMem)

------------------------------------------------------------
-- Slots of Text
------------------------------------------------------------

/- Every slot shows a text that its array has room for. -/
def TextSlots
    (old : Slots UInt8) : Prop :=
  ∀ j, (∀ x ∈ old j, x ≠ 0) ∧
    (old j).length ≤ ext2NameLen

theorem textSlots_empty :
    TextSlots StaleSlots.empty :=
  fun _ => ⟨by simp [StaleSlots.empty], Nat.zero_le _⟩

variable {old : Slots UInt8} {es : Entries}
variable {slots : DirEntries}

/- Listing names leaves texts in the slots. -/
theorem TextSlots.after
    (h : TextSlots old)
    (hNames : ∀ e ∈ es, IsName e.1) :
    TextSlots (after old es) := by
  intro j
  rcases h j with ⟨hText, hLen⟩
  unfold StaleSlots.after
  cases hEntry : es[j]? with
  | none =>
      rw [Option.map_none, Option.getD_none,
        StaleSlots.overlay_nil_left]
      exact ⟨hText, hLen⟩
  | some e =>
      have hName := hNames e (List.mem_of_getElem? hEntry)
      rw [Option.map_some, Option.getD_some]
      constructor
      · intro x hx
        rcases StaleSlots.mem_overlay hx with hx | hx
        · exact (hName.text x hx).1
        · exact hText x hx
      · rw [StaleSlots.length_overlay]
        exact Nat.max_le.mpr ⟨hName.length_le, hLen⟩

/- The slots deliver the entries under the names they show. -/
theorem Listed.delivered
    (h : Listed old es slots)
    (hText : TextSlots (StaleSlots.after old es)) :
    Delivered slots (shown old es) := by
  have hLe : (shown old es).length ≤ maxSubdirs := by
    rw [StaleSlots.length_shown]
    exact h.length_le
  refine ⟨hLe, ?_⟩
  intro j hj
  have hj' : j < es.length := by simpa using hj
  have hSlot : j < maxSubdirs := Nat.lt_of_lt_of_le hj hLe
  rcases hText j with ⟨hClean, hLen⟩
  have hShows : (slots ⟨j, hSlot⟩).dirName.ShowsText 0
      (StaleSlots.after old es j) := by
    constructor
    · intro k hk
      rw [Nat.zero_add, h.names ⟨j, hSlot⟩ k]
      exact List.getD_eq_getElem _ _ hk
    · rw [Nat.zero_add, h.names ⟨j, hSlot⟩]
      exact List.getD_eq_default _ _ (Nat.le_refl _)
    · rw [Nat.zero_add]
      exact Nat.lt_succ_of_le hLen
  rw [StaleSlots.getElem_shown old es hj' hj]
  exact ⟨hShows.terminated, hShows.cString_eq hClean,
    h.inodes j hj'⟩

------------------------------------------------------------
-- Lookups
------------------------------------------------------------

section

variable (hSteady : s.Steady) (hL : s.layout.Ok)
variable (hTree : TreeOk s recs)
include hSteady hL hTree

/- The loop of the lookup is a walk over stale slots. -/
theorem walkLoop_slots
    {rows : UnpackedPath}
    {cs : List (List UInt8)}
    {i : Nat}
    (hRows : ∀ k (hk : k < cs.length),
      Terminated (rows.row (i + k)) ∧
        cString (rows.row (i + k)) = cs[k])
    {n : UInt32}
    (hn : s.InodeUsed n)
    (hSlots : Listed old ([] : Entries) slots)
    (hText : TextSlots old)
    (inode : Inode) :
    ∃ inode', walkLoop ext2ListDirectory rows cs.length i n
        slots (s.setCurrentInode inode) =
      some (slotWalk (Seen recs) old n cs,
        s.setCurrentInode inode') := by
  induction cs generalizing i n slots old inode with
  | nil => exact ⟨inode, rfl⟩
  | cons c cs ih =>
      rcases ext2ListDirectory_listed hSteady hL hn.valid
          (hTree.records n hn) hSlots inode with
        ⟨slots₁, hRun, hListed⟩
      have hText₁ : TextSlots (after old (Seen recs n)) :=
        hText.after fun e he => hTree.seen_names he
      rcases hRows 0 (by simp) with ⟨hTerm, hRow⟩
      rw [Nat.add_zero] at hTerm hRow
      have hMatch := matchEntry_eq hTerm
        (hListed.delivered hText₁)
      rw [hRow, List.getElem_cons_zero,
        StaleSlots.length_shown] at hMatch
      change matchEntry _ _ _ = some (StaleSlots.find
        (shown old (Seen recs n)) c) at hMatch
      simp only [List.length_cons, walkLoop, hRun, hMatch,
        slotWalk, Option.bind_eq_bind, Option.bind_some]
      split
      · exact ⟨_, rfl⟩
      · next hMoves =>
          apply ih ?_ ?_ hListed.start hText₁
          · intro k hk
            have hNext := hRows (k + 1)
              (Nat.succ_lt_succ hk)
            rwa [List.getElem_cons_succ, ← Nat.add_assoc,
              Nat.add_right_comm] at hNext
          · cases hFind : StaleSlots.find
                (shown old (Seen recs n)) c with
            | none => exact hn
            | some k =>
                rcases StaleSlots.mem_of_find_shown hFind with
                  ⟨e, hMem, rfl⟩
                exact hTree.seen_used hMem

variable {stack : FindStack}
variable (hSlots :
  Listed StaleSlots.empty ([] : Entries) stack.dirEntries)
include hSlots

/- A lookup whose path was split walks from the root. -/
theorem ext2InodeFind_of_rows
    {path : List UInt8}
    (hPath : Terminated path)
    {depth : UInt16}
    {rows : UnpackedPath}
    (hRun : unpackDirPath path stack.unpackedPath =
      some (depth, rows))
    {cs : List (List UInt8)}
    (hRoot : cString path = [slash] → cs = [])
    (hRows : cString path ≠ [slash] →
      depth.toNat - 1 = cs.length ∧
        ∀ k (hk : k < cs.length),
          Terminated (rows.row (1 + k)) ∧
            cString (rows.row (1 + k)) = cs[k]) :
    ∃ inode', ext2InodeFind path stack s =
      some (slotWalk (Seen recs) StaleSlots.empty 2 cs,
        s.setCurrentInode inode') := by
  have hSlash : Terminated [slash, 0] := by decide
  have hSome := strcmp_isSome hPath hSlash
  rcases Option.isSome_iff_exists.mp hSome with ⟨cmp, hCmp⟩
  have hZero := strcmp_eq_zero_iff hPath hSlash
  rw [hCmp, Option.some.injEq] at hZero
  unfold ext2InodeFind inodeFindWith
  simp only [hRun, hCmp, Option.bind_eq_bind,
    Option.bind_some]
  by_cases hEq : cmp = 0
  · rw [if_pos hEq, hRoot (hZero.mp hEq)]
    exact ⟨s.currentInode, rfl⟩
  · rcases hRows fun hIs => hEq (hZero.mpr hIs) with
      ⟨hDepth, hShow⟩
    rw [if_neg hEq, hDepth]
    exact walkLoop_slots hSteady hL hTree hShow hTree.root
      hSlots textSlots_empty s.currentInode

/- The lookup of an absolute path. -/
theorem ext2InodeFind_slots
    (hZero : ZeroFrom stack.unpackedPath 0)
    (p : AbsPath) :
    ∃ inode', ext2InodeFind p.bytes stack s =
      some (slotWalk (Seen recs) StaleSlots.empty 2 p.comps,
        s.setCurrentInode inode') := by
  rcases deliversComps_unpackDirPath p hZero with
    ⟨rows, hRun, hRows⟩
  have hDepth : p.comps.length < 10 := p.depth
  refine ext2InodeFind_of_rows hSteady hL hTree hSlots
    p.terminated hRun AbsPath.comps_eq_nil fun _ => ⟨?_, ?_⟩
  · rw [UInt16.toNat_ofNat_of_lt' (show _ < 65536 by omega)]
    omega
  · intro k hk
    rw [Nat.add_comm]
    exact hRows k hk

/- The lookup of the glued path of a parent. -/
theorem ext2InodeFind_glued
    (hZero : ZeroFrom stack.unpackedPath 0)
    {way : List (List UInt8)}
    (hNames : ∀ c ∈ way, IsName c)
    (hRoom : way.flatten.length ≤ 2040)
    {path : List UInt8}
    (hPath : Terminated path)
    (hSame : cString path = slash :: way.flatten) :
    ∃ inode', ext2InodeFind path stack s =
      some (gluedTarget recs way,
        s.setCurrentInode inode') := by
  have hText : IsText way.flatten := by
    intro x hx
    rcases List.mem_flatten.mp hx with ⟨c, hc, hx⟩
    exact (hNames c hc).text x hx
  rcases unpackDirPath_glued hPath hSame hText hRoom hZero
    with ⟨depth, rows, hRun, hRows⟩
  by_cases hNone : way.flatten = []
  · have hTarget : gluedTarget recs way = 2 := by
      unfold gluedTarget
      rw [hNone, StaleSlots.find_eq_none, Option.getD_none]
      intro e he
      exact (hTree.seen_names he).ne_nil
    rw [hTarget]
    refine ext2InodeFind_of_rows hSteady hL hTree hSlots
      hPath hRun (fun _ => rfl) fun hNot => ?_
    rw [hSame, hNone] at hNot
    exact absurd rfl hNot
  · rcases hRows hNone with ⟨hDepth, hTerm, hRow⟩
    have hTarget : gluedTarget recs way =
        slotWalk (Seen recs) StaleSlots.empty 2
          [way.flatten] := by
      simp only [slotWalk, StaleSlots.shown_empty,
        gluedTarget]
      split
      · next hStays => exact hStays
      · rfl
    rw [hTarget]
    refine ext2InodeFind_of_rows hSteady hL hTree hSlots
      hPath hRun ?_ fun _ => ⟨?_, ?_⟩
    · intro hRoot
      rw [hSame] at hRoot
      exact absurd (List.cons.inj hRoot).2 hNone
    · rw [hDepth]
      rfl
    · intro k hk
      have h0 : k = 0 := by simpa using hk
      subst h0
      exact ⟨hTerm, hRow⟩

end

end

end Ext2

end Ester
