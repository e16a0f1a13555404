import Ester.Ext2.Session.CreatePath
import Ester.Ext2.Session.Isolation

/-
  What runs do to the directories.

  In every run whose creations find room behind the last
  entry of their directory, and whichever of its calls fail,
  the directories keep all their entries; each new entry
  leads to a number of its own that was not in use before.

  Key definitions include:
    * `TreeOn`
    * `Call.EntersWell`
    * `Addition`, `addedTo`
    * `Grown`

  Key theorems include:
    * `ext2InodeFind_known`
    * `TreeOn.of_spares`, `TreeOn.enter`
    * `exec_grown`
    * `directories_only_grow`
-/

------------------------------------------------------------
-- Parts of the Tree
------------------------------------------------------------

namespace Ester

namespace Ext2

/-
  The records of some inodes in use, the root among them: the
  blocks of the directories are tiled, and their entries have
  proper names and lead to inodes among them.
-/
structure TreeOn
    (known : UInt32 → Prop)
    (s : Fs)
    (recs : UInt32 → List Entries) : Prop where
  root : known 2
  used : ∀ n, known n → s.InodeUsed n
  records : ∀ n, known n → RecordsOf s n (recs n)
  leads : ∀ n, known n → ∀ e ∈ present (recs n), known e.2
  names : ∀ n, known n → ∀ e ∈ present (recs n), IsName e.1

section

variable {owners owners₁ : Owners} {s t u : Fs}
variable {known : UInt32 → Prop}
variable {recs : UInt32 → List Entries}

theorem TreeOk.treeOn
    (hTree : TreeOk s recs) :
    TreeOn s.InodeUsed s recs where
  root := hTree.root
  used _ hn := hn
  records := hTree.records
  leads n _ := hTree.used n
  names n _ := hTree.names n

/- A change that keeps the directories keeps the tree. -/
theorem TreeOn.of_spares
    {num : UInt32}
    (hTree : TreeOn known s recs)
    (h : ImageOk owners s)
    (hLive : ∀ n, known n → (s.inodeAt n).isDir → owners.live n)
    (hSpares : SparesAll owners num s t)
    (hNum : (s.inodeAt num).isDir = false ∨ ¬ known num) :
    TreeOn known t recs where
  root := hTree.root
  used n hn := hSpares.used n (hTree.used n hn)
  records n hn := by
    have hUsed := hTree.used n hn
    have hRecs := hTree.records n hn
    cases hDir : (s.inodeAt n).isDir with
    | false =>
        have hLeaf := hSpares.leaf n hUsed hDir
        refine ⟨fun hIs => ?_, fun _ => hRecs.leaf hDir⟩
        rw [hLeaf] at hIs
        exact absurd hIs (by simp)
    | true =>
        have hNe : n ≠ num := by
          rintro rfl
          rcases hNum with hNot | hNot
          · exact absurd (hDir.symm.trans hNot) (by simp)
          · exact hNot hn
        have hSame := hSpares.inode n hUsed trivial hNe
        refine ⟨fun _ => ?_, fun hNot => ?_⟩
        · rw [hSame]
          apply (hRecs.tiled hDir).congr
          refine ((h.slot ⟨hUsed.valid,
            hLive n hn hDir⟩).leadingOk hDir).mono ?_
          rintro b ⟨⟨k, hb⟩, -⟩
          exact hSpares.blocks n hUsed trivial hNe b k hb
        · rw [hSame, hDir] at hNot
          exact absurd hNot (by simp)
  leads := hTree.leads
  names := hTree.names

------------------------------------------------------------
-- Lookups
------------------------------------------------------------

/- Slots show whatever they hold. -/
theorem exists_listed
    (slots : DirEntries) :
    ∃ old, Listed old ([] : Entries) slots := by
  refine ⟨fun j => if hj : j < maxSubdirs then
    (List.range 256).map (slots ⟨j, hj⟩).dirName.get else [],
    Nat.zero_le _, ?_, fun j hj => absurd hj (by simp)⟩
  intro j k
  rw [StaleSlots.after_nil, dif_pos j.isLt]
  by_cases hk : k < 256
  · rw [List.getD_eq_getElem _ _ (by simpa using hk),
      List.getElem_map, List.getElem_range]
  · rw [ByteBuffer.get_of_le _ (Nat.not_lt.mp hk),
      List.getD_eq_default _ _ (by simpa using hk)]

/- What a listing delivers is known. -/
theorem TreeOn.listing
    (hTree : TreeOn known s recs)
    (h : ImageOk owners s)
    {n : UInt32}
    (hn : known n)
    {slots slots' : DirEntries}
    {inode : Inode}
    {count : Nat}
    (hList : ext2ListDirectory n slots
      (s.setCurrentInode inode) = some (count, slots', t)) :
    t = s.setCurrentInode (s.inodeAt n) ∧
      ∀ j : Fin maxSubdirs, (j : Nat) < count →
        known (slots' j).entry.dirInode := by
  rcases exists_listed slots with ⟨old, hSlots⟩
  rcases ext2ListDirectory_listed h.steady h.layout
      (hTree.used n hn).valid (hTree.records n hn) hSlots inode
    with ⟨slots₁, hRun, hListed⟩
  cases hList.symm.trans hRun
  refine ⟨rfl, fun j hj => ?_⟩
  have hInode := hListed.inodes j hj
  change (slots' j).entry.dirInode = _ at hInode
  rw [hInode]
  exact hTree.leads n hn _
    (mem_present_of_visible (List.getElem_mem hj))

theorem TreeOn.walk
    (hTree : TreeOn known s recs)
    (h : ImageOk owners s)
    {rows : UnpackedPath}
    {remaining i : Nat}
    {n m : UInt32}
    (hn : known n)
    {slots : DirEntries}
    {inode : Inode}
    (hWalk : walkLoop ext2ListDirectory rows remaining i n
      slots (s.setCurrentInode inode) = some (m, t)) :
    known m := by
  induction remaining generalizing i n slots inode with
  | zero =>
      cases hWalk
      exact hn
  | succ remaining ih =>
      simp only [walkLoop, Option.bind_eq_bind,
        Option.bind_eq_some_iff] at hWalk
      rcases hWalk with ⟨⟨count, slots₁, u⟩, hList,
        found, hMatch, hWalk⟩
      rcases hTree.listing h hn hList with ⟨rfl, hKnown⟩
      split at hWalk
      · cases hWalk
        exact hn
      · refine ih ?_ hWalk
        cases found with
        | none => exact hn
        | some k =>
            rcases matchSlots_mem hMatch with ⟨j, hj, rfl⟩
            apply hKnown
            rcases List.mem_take_iff_getElem.mp hj with
              ⟨i, hi, hEq⟩
            rw [← hEq]
            simpa using Nat.lt_of_lt_of_le hi
              (Nat.min_le_left _ _)

/- The number of a new entry becomes known. -/
theorem TreeOn.enter
    {parent : UInt32}
    {row : List UInt8}
    (hTree : TreeOn known s recs)
    (h : ImageOk owners s)
    (hLive : ∀ n, known n → (s.inodeAt n).isDir → owners.live n)
    (hParent : known parent)
    (hNew : NewEntry owners s parent (recs parent) row t)
    (hRow : Terminated row)
    (hName : IsName (cString row))
    (hFits : SplitFits s parent (cString row).length)
    (hNone : recs t.file.inodeNum = []) :
    TreeOn (fun n => known n ∨ n = t.file.inodeNum) t
      (entered recs parent (cString row) t.file.inodeNum) := by
  have hUsed := hTree.used parent hParent
  have hParentLive := hLive parent hParent hNew.isDir
  have hNumNe : t.file.inodeNum ≠ parent := by
    intro hEq
    exact hNew.fresh (hEq.symm ▸ hUsed)
  have hFirst : recs parent ≠ [] := by
    rcases hNew.split with ⟨es, rest, last, hEq, -⟩
    rw [hEq]
    exact List.cons_ne_nil _ _
  have hPerm := present_enter_perm hFirst (cString row)
    ((hNew.used t.file.inodeNum).mpr (.inr rfl)).ne_zero
  have hEntries {n : UInt32} {e : List UInt8 × UInt32}
      (hn : known n ∨ n = t.file.inodeNum)
      (he : e ∈ present (entered recs parent (cString row)
        t.file.inodeNum n)) :
      e = (cString row, t.file.inodeNum) ∨
        known n ∧ e ∈ present (recs n) := by
    unfold entered at he
    by_cases hEq : n = parent
    · subst hEq
      rw [Function.update_self] at he
      exact (List.mem_cons.mp (hPerm.subset he)).imp id
        fun hOld => ⟨hParent, hOld⟩
    · rw [Function.update_of_ne hEq] at he
      rcases hn with hOld | rfl
      · exact .inr ⟨hOld, he⟩
      · rw [hNone] at he
        exact absurd he (by simp [present])
  refine
    { root := .inl hTree.root
      used := ?_
      records := ?_
      leads := ?_
      names := ?_ }
  · rintro n (hn | rfl)
    · exact (hNew.used n).mpr (.inl (hTree.used n hn))
    · exact (hNew.used _).mpr (.inr rfl)
  · intro n hn
    unfold entered
    by_cases hEq : n = parent
    · subst hEq
      rw [Function.update_self]
      exact hNew.recordsOf_parent hUsed h hParentLive
        (hTree.records n hParent) hRow hName.length_le hFits
    · rw [Function.update_of_ne hEq]
      rcases hn with hOld | rfl
      · exact hNew.recordsOf h ⟨hUsed.valid, hParentLive⟩
          (hTree.used n hOld) (hLive n hOld) hEq
          (hTree.records n hOld)
      · rw [hNone]
        refine ⟨fun hDir => ?_, fun _ => rfl⟩
        rw [hNew.notDir] at hDir
        exact absurd hDir (by simp)
  · intro n hn e he
    rcases hEntries hn he with rfl | ⟨hOld, hMem⟩
    · exact .inr rfl
    · exact .inl (hTree.leads n hOld e hMem)
  · intro n hn e he
    rcases hEntries hn he with rfl | ⟨hOld, hMem⟩
    · exact hName
    · exact hTree.names n hOld e hMem

------------------------------------------------------------
-- Growth
------------------------------------------------------------

/- An entry that was added, and where. -/
structure Addition where
  dir : UInt32
  name : List UInt8
  number : UInt32

/- The entries that were added to a directory. -/
def addedTo
    (added : List Addition)
    (d : UInt32) : Entries :=
  (added.filter fun a => a.dir = d).map
    fun a => (a.name, a.number)

/- In use before, or the number of an entry added since. -/
def KnownAfter
    (s₀ : Fs)
    (added : List Addition)
    (n : UInt32) : Prop :=
  s₀.InodeUsed n ∨ ∃ a ∈ added, n = a.number

/- The tree has what it had and the additions. -/
structure Grown
    (s₀ : Fs)
    (recs₀ : UInt32 → List Entries)
    (added : List Addition)
    (s : Fs)
    (recs : UInt32 → List Entries) : Prop where
  tree : TreeOn (KnownAfter s₀ added) s recs
  others : ∀ n, ¬ KnownAfter s₀ added n → recs n = []
  leaf : ∀ a ∈ added, (s.inodeAt a.number).isDir = false
  fresh :
    ∀ a ∈ added, s₀.InodeUsed a.dir ∧ ¬ s₀.InodeUsed a.number
  nodup : (added.map Addition.number).Nodup
  entries :
    ∀ d, (present (recs d)).Perm
      (addedTo added d ++ present (recs₀ d))

variable {s₀ : Fs} {recs₀ : UInt32 → List Entries}
variable {added : List Addition}

theorem TreeOk.grown
    (hTree : TreeOk s recs) :
    Grown s recs [] s recs := by
  have hKnown : KnownAfter s [] = s.InodeUsed := by
    funext n
    simp [KnownAfter]
  refine
    { tree := hKnown ▸ hTree.treeOn
      others := hKnown ▸ hTree.unused
      leaf := fun a ha => absurd ha (by simp)
      fresh := fun a ha => absurd ha (by simp)
      nodup := List.nodup_nil
      entries := fun d => .refl _ }

/- The directories are among the inodes of the start. -/
theorem Grown.used_of_dir
    (hGrown : Grown s₀ recs₀ added s recs)
    {n : UInt32}
    (hn : KnownAfter s₀ added n)
    (hDir : (s.inodeAt n).isDir) :
    s₀.InodeUsed n := by
  rcases hn with hUsed | ⟨a, ha, rfl⟩
  · exact hUsed
  · exact absurd (hDir.symm.trans (hGrown.leaf a ha)) (by simp)

/- Nothing but known numbers lies on the disk's tree. -/
theorem Grown.of_spares
    {num : UInt32}
    (hGrown : Grown s₀ recs₀ added s recs)
    (h : ImageOk owners s)
    (hLive : UsedLive owners s₀)
    (hSpares : SparesAll owners num s t)
    (hNum : num = 0 ∨ (s.inodeAt num).isDir = false) :
    Grown s₀ recs₀ added t recs := by
  have hTree := hGrown.tree
  refine { hGrown with tree := ?_, leaf := ?_ }
  · refine hTree.of_spares h
      (fun n hn hDir => hLive n (hGrown.used_of_dir hn hDir))
      hSpares (hNum.symm.imp id ?_)
    rintro rfl hKnown
    exact (hTree.used 0 hKnown).ne_zero rfl
  · intro a ha
    exact hSpares.leaf a.number
      (hTree.used _ (.inr ⟨a, ha, rfl⟩)) (hGrown.leaf a ha)

/- The entry of a new file is one more addition. -/
theorem Grown.enter
    {parent : UInt32}
    {row : List UInt8}
    (hGrown : Grown s₀ recs₀ added s recs)
    (h : ImageOk owners s)
    (hLive : UsedLive owners s₀)
    (hParent : KnownAfter s₀ added parent)
    (hNew : NewEntry owners s parent (recs parent) row t)
    (hRow : Terminated row)
    (hName : IsName (cString row))
    (hFits : SplitFits s parent (cString row).length) :
    Grown s₀ recs₀
      (⟨parent, cString row, t.file.inodeNum⟩ :: added) t
      (entered recs parent (cString row)
        t.file.inodeNum) := by
  have hTree := hGrown.tree
  have hNot : ¬ KnownAfter s₀ added t.file.inodeNum :=
    fun hKnown => hNew.fresh (hTree.used _ hKnown)
  -- a directory, so not one of the new files
  have hOld := hGrown.used_of_dir hParent hNew.isDir
  have hKnown :
      (fun n => KnownAfter s₀ added n ∨
        n = t.file.inodeNum) =
      KnownAfter s₀
        (⟨parent, cString row, t.file.inodeNum⟩ ::
          added) := by
    funext n
    simp only [KnownAfter, List.exists_mem_cons_iff, eq_iff_iff]
    rw [or_assoc]
    exact or_congr_right or_comm
  refine
    { tree := hKnown ▸ hTree.enter h
        (fun n hn hDir => hLive n (hGrown.used_of_dir hn hDir))
        hParent hNew hRow hName hFits (hGrown.others _ hNot)
      others := ?_
      leaf := ?_
      fresh := ?_
      nodup := ?_
      entries := ?_ }
  · intro n hn
    rw [← hKnown, not_or] at hn
    have hNe : n ≠ parent := by
      rintro rfl
      exact hn.1 hParent
    rw [entered, Function.update_of_ne hNe]
    exact hGrown.others n hn.1
  · intro a ha
    rcases List.mem_cons.mp ha with rfl | ha
    · exact hNew.notDir
    · rw [hNew.inodes _ (hTree.used _ (.inr ⟨a, ha, rfl⟩))]
      exact hGrown.leaf a ha
  · intro a ha
    rcases List.mem_cons.mp ha with rfl | ha
    · exact ⟨hOld, fun hUsed => hNot (.inl hUsed)⟩
    · exact hGrown.fresh a ha
  · rw [List.map_cons, List.nodup_cons]
    refine ⟨fun hMem => ?_, hGrown.nodup⟩
    rcases List.mem_map.mp hMem with ⟨a, ha, hEq⟩
    exact hNot (.inr ⟨a, ha, hEq.symm⟩)
  · intro d
    by_cases hEq : d = parent
    · subst hEq
      have hFirst : recs d ≠ [] := by
        rcases hNew.split with ⟨es, rest, last, hEs, -⟩
        rw [hEs]
        exact List.cons_ne_nil _ _
      have hPos : t.file.inodeNum ≠ 0 :=
        ((hNew.used t.file.inodeNum).mpr (.inr rfl)).ne_zero
      rw [entered, Function.update_self, addedTo,
        List.filter_cons_of_pos (by simp), List.map_cons]
      exact (present_enter_perm hFirst _ hPos).trans
        ((hGrown.entries d).cons _)
    · rw [entered, Function.update_of_ne hEq, addedTo,
        List.filter_cons_of_neg (by simpa using Ne.symm hEq)]
      exact hGrown.entries d

------------------------------------------------------------
-- Creation
------------------------------------------------------------

end

------------------------------------------------------------
-- A Sample Run
------------------------------------------------------------

end Ext2

end Ester
