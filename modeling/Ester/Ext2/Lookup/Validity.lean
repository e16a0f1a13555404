import Mathlib.Data.List.FinRange
import Ester.Ext2.Image
import Ester.Ext2.Lookup

/-
  Lookups in well-formed images.

  Every number a listing delivers is the number of a live
  inode, so a lookup moves from one live inode to another,
  whatever the path is.  It changes the current inode and
  nothing else.

  Key definitions include:
    * `LeadingOk`
    * `DeliveredOk`

  Key theorems include:
    * `ext2ListDirectory_delivers`
    * `ext2InodeFind_live`
-/

------------------------------------------------------------
-- Leading Pointers
------------------------------------------------------------

namespace Ester

namespace Ext2

/- A property of all pointers before the first zero one. -/
def LeadingOk
    (P : UInt32 → Prop) : List UInt32 → Prop
  | [] => True
  | b :: blocks => b ≠ 0 → P b ∧ LeadingOk P blocks

theorem LeadingOk.mono
    {P Q : UInt32 → Prop}
    (hImp : ∀ b, P b → Q b)
    {blocks : List UInt32}
    (h : LeadingOk P blocks) :
    LeadingOk Q blocks := by
  induction blocks with
  | nil => trivial
  | cons b blocks ih =>
      intro hb
      exact ⟨hImp b (h hb).1, ih (h hb).2⟩

theorem leadingOk_map_finRange
    {P : UInt32 → Prop}
    {n : Nat}
    {f : Fin n → UInt32}
    (h : ∀ k, (∀ j, j ≤ k → f j ≠ 0) → P (f k)) :
    LeadingOk P ((List.finRange n).map f) := by
  induction n with
  | zero => trivial
  | succ n ih =>
      rw [List.finRange_succ, List.map_cons, List.map_map]
      intro hHead
      constructor
      · apply h 0
        intro j hj
        rwa [Fin.le_zero_iff.mp hj]
      · apply ih
        intro k hk
        apply h k.succ
        intro j hj
        refine j.cases (fun _ => hHead) (fun i hi => ?_) hj
        exact hk i (Fin.succ_le_succ_iff.mp hi)

/- The blocks a directory's listing reads. -/
theorem SlotOk.leadingOk
    {L : Layout}
    {owners : Owners}
    {disk : UInt32 → Block}
    {n : UInt32}
    {inode : Inode}
    (h : SlotOk L owners disk n inode)
    (hDir : inode.isDir) :
    LeadingOk
      (fun b => (∃ k, owners b = some (.data n k)) ∧
        DirBlockOk L owners (disk b))
      inode.directBlocks := by
  apply leadingOk_map_finRange
  intro k hk
  have hSlot := h.dir hDir k k.isLt fun j hj =>
    hk ⟨j, Nat.lt_of_le_of_lt hj k.isLt⟩ hj
  exact ⟨⟨k, hSlot.1⟩, hSlot.2⟩

------------------------------------------------------------
-- Delivered Entries
------------------------------------------------------------

/- The first `count` slots of an array name live inodes. -/
def DeliveredOk
    (L : Layout)
    (owners : Owners)
    (count : Nat)
    (entries : DirEntries) : Prop :=
  ∀ j : Fin maxSubdirs, (j : Nat) < count →
    LiveInode L owners (entries j).entry.dirInode

theorem listBlock_delivers
    {L : Layout}
    {owners : Owners}
    {buffer : Block}
    {room offset : Nat}
    {entries : DirEntries}
    {full : Bool}
    {room' : Nat}
    {entries' : DirEntries}
    (hList : listBlock buffer room offset entries =
      some (full, room', entries'))
    (hRoom : room ≤ maxSubdirs)
    (hOk : EntriesOk L owners buffer offset)
    (hOld : DeliveredOk L owners (maxSubdirs - room) entries) :
    room' ≤ maxSubdirs ∧
      DeliveredOk L owners (maxSubdirs - room') entries' := by
  induction room generalizing offset entries with
  | zero =>
      simp only [listBlock, Option.some.injEq,
        Prod.mk.injEq] at hList
      rcases hList with ⟨-, rfl, rfl⟩
      exact ⟨hRoom, hOld⟩
  | succ room ih =>
      cases hOk with
      | done hEnd =>
          rw [listBlock, if_pos hEnd] at hList
          cases hList
          exact ⟨hRoom, hOld⟩
      | entry hIn hSize hInode hRest =>
          rw [listBlock, if_neg (by exact Nat.not_le.mpr hIn)]
            at hList
          split at hList
          · cases hList
          · split at hList
            · cases hList
              exact ⟨hRoom, hOld⟩
            · next hUsed =>
                dsimp only at hList
                split at hList
                · cases hList
                · refine ih hList (by omega) hRest ?_
                  intro j hj
                  by_cases hSlot :
                      j = ⟨maxSubdirs - (room + 1),
                        Nat.sub_lt (by decide) (by omega)⟩
                  · rw [hSlot, Function.update_self]
                    exact hInode.resolve_left hUsed
                  · rw [Function.update_of_ne hSlot]
                    apply hOld
                    have hVal : (j : Nat) ≠
                        maxSubdirs - (room + 1) :=
                      fun hEq => hSlot (Fin.ext hEq)
                    omega

theorem listBlocks_delivers
    {L : Layout}
    {owners : Owners}
    {P : UInt32 → Prop}
    {blocks : List UInt32}
    {room : Nat}
    {entries : DirEntries}
    {s : Fs}
    {room' : Nat}
    {entries' : DirEntries}
    {t : Fs}
    (hList : listBlocks blocks room entries s =
      some (room', entries', t))
    (hSteady : s.Steady)
    (hRoom : room ≤ maxSubdirs)
    (hBlocks : LeadingOk
      (fun b => P b ∧ DirBlockOk L owners (s.disk b)) blocks)
    (hOld : DeliveredOk L owners (maxSubdirs - room) entries) :
    t = s ∧ DeliveredOk L owners (maxSubdirs - room') entries' := by
  induction blocks generalizing room entries with
  | nil =>
      cases hList
      exact ⟨rfl, hOld⟩
  | cons b blocks ih =>
      rw [listBlocks] at hList
      split at hList
      · cases hList
        exact ⟨rfl, hOld⟩
      · next hb =>
          rcases hBlocks hb with ⟨⟨-, hOk⟩, hRest⟩
          simp only [readLocal_of_steady hSteady,
            Option.bind_eq_bind, Option.bind_some,
            Option.bind_eq_some_iff] at hList
          rcases hList with ⟨⟨full, room₁, entries₁⟩,
            hBlock, hList⟩
          rcases listBlock_delivers hBlock hRoom hOk hOld with
            ⟨hRoom₁, hOld₁⟩
          split at hList
          · cases hList
            exact ⟨rfl, hOld₁⟩
          · exact ih hList hRoom₁ hRest hOld₁

section

variable {owners : Owners} {s t : Fs}

/-
  A listing delivers live numbers and extracts the inode of
  the directory.
-/
theorem ext2ListDirectory_delivers
    (h : ImageOk owners s)
    {n : UInt32}
    (hn : LiveInode s.layout owners n)
    {entries entries' : DirEntries}
    {count : Nat}
    (hList : ext2ListDirectory n entries s =
      some (count, entries', t)) :
    t = s.setCurrentInode (s.inodeAt n) ∧
      DeliveredOk s.layout owners count entries' := by
  rw [ext2ListDirectory,
    ext2ExtractInode_eq h.steady h.layout hn.valid] at hList
  simp only [Option.bind_eq_bind, Option.bind_some] at hList
  have hNone (entries : DirEntries) :
      DeliveredOk s.layout owners 0 entries :=
    fun _ hj => absurd hj (Nat.not_lt_zero _)
  split at hList
  · next hDir =>
      simp only [Option.bind_eq_some_iff] at hList
      rcases hList with ⟨⟨room, entries₁, u⟩, hBlocks, hList⟩
      cases hList
      have hLead := (h.slot hn).leadingOk hDir
      rcases listBlocks_delivers hBlocks
          (h.steady.setCurrentInode _) (Nat.le_refl _) hLead
          (hNone entries) with
        ⟨rfl, hDelivered⟩
      exact ⟨rfl, hDelivered⟩
  · cases hList
    exact ⟨rfl, hNone entries⟩

------------------------------------------------------------
-- Walking
------------------------------------------------------------

theorem matchSlots_mem
    {name : List UInt8}
    {entries : DirEntries}
    {slots : List (Fin maxSubdirs)}
    {n : UInt32}
    (hMatch : matchSlots name entries slots =
      some (some n)) :
    ∃ j ∈ slots, (entries j).entry.dirInode = n := by
  induction slots with
  | nil => cases hMatch
  | cons j slots ih =>
      simp only [matchSlots, Option.bind_eq_bind,
        Option.bind_eq_some_iff] at hMatch
      rcases hMatch with ⟨cmp, -, hMatch⟩
      split at hMatch
      · cases hMatch
        exact ⟨j, by simp, rfl⟩
      · rcases ih hMatch with ⟨i, hi, hEq⟩
        exact ⟨i, by simp [hi], hEq⟩

theorem matchEntry_live
    {L : Layout}
    {owners : Owners}
    {name : List UInt8}
    {count : Nat}
    {entries : DirEntries}
    (hOk : DeliveredOk L owners count entries)
    {n : UInt32}
    (hMatch : matchEntry name count entries =
      some (some n)) :
    LiveInode L owners n := by
  rcases matchSlots_mem hMatch with ⟨j, hj, rfl⟩
  apply hOk
  rcases List.mem_take_iff_getElem.mp hj with ⟨i, hi, hEq⟩
  rw [← hEq]
  simpa using Nat.lt_of_lt_of_le hi (Nat.min_le_left _ _)

theorem walkLoop_live
    (h : ImageOk owners s)
    {rows : UnpackedPath}
    {remaining i : Nat}
    {n m : UInt32}
    (hn : LiveInode s.layout owners n)
    {entries : DirEntries}
    {inode : Inode}
    (hWalk : walkLoop ext2ListDirectory rows remaining i n
      entries (s.setCurrentInode inode) = some (m, t)) :
    LiveInode s.layout owners m ∧
      ∃ inode', t = s.setCurrentInode inode' := by
  induction remaining generalizing i n entries inode with
  | zero =>
      cases hWalk
      exact ⟨hn, inode, rfl⟩
  | succ remaining ih =>
      simp only [walkLoop, Option.bind_eq_bind,
        Option.bind_eq_some_iff] at hWalk
      rcases hWalk with ⟨⟨count, entries₁, u⟩, hList,
        found, hMatch, hWalk⟩
      rcases ext2ListDirectory_delivers
          (h.setCurrentInode inode) hn hList with
        ⟨rfl, hOk⟩
      split at hWalk
      · cases hWalk
        exact ⟨hn, _, rfl⟩
      · refine ih ?_ hWalk
        cases found with
        | none => exact hn
        | some k => exact matchEntry_live hOk hMatch

/-
  A lookup ends at a live inode of the image and changes the
  current inode only.
-/
theorem ext2InodeFind_live
    (h : ImageOk owners s)
    {pathname : List UInt8}
    {stack : FindStack}
    {n : UInt32}
    (hFind : ext2InodeFind pathname stack s =
      some (n, t)) :
    LiveInode s.layout owners n ∧
      ∃ inode, t = s.setCurrentInode inode := by
  simp only [ext2InodeFind, inodeFindWith,
    Option.bind_eq_bind, Option.bind_eq_some_iff] at hFind
  rcases hFind with ⟨⟨depth, rows⟩, -, cmp, -, hFind⟩
  split at hFind
  · cases hFind
    exact ⟨.root h.layout owners, s.currentInode, rfl⟩
  · have hSame : s.setCurrentInode s.currentInode = s := rfl
    rw [← hSame] at hFind
    exact walkLoop_live h (.root h.layout owners) hFind

end

end Ext2

end Ester
