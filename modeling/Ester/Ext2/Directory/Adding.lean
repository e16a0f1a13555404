import Ester.Ext2.Directory.Split
import Ester.Ext2.Lookup.Validity

/-
  Adding an entry keeps an image well formed.

  Whatever place `ext2_add_dir_entry` picks, the block it
  writes is a block of the directory and its records still
  chain to the end of the block.

  Key theorems include:
    * `addInBlock_entriesOk`
    * `ext2AddDirEntry_cases`
-/

------------------------------------------------------------
-- One Block
------------------------------------------------------------

namespace Ester

namespace Ext2

/- Splitting the last record leaves a chain of records. -/
theorem EntriesOk.placeEntry
    {L : Layout}
    {owners : Owners}
    {b : Block}
    {offset len : Nat}
    {inodeNum : UInt32}
    {name : List UInt8}
    (hInode : (entryAt b offset).dirInode = 0 ∨
      LiveInode L owners (entryAt b offset).dirInode)
    (hLast : 4096 ≤
      offset + (entryAt b offset).dirEntrySize.toNat)
    (hNew : LiveInode L owners inodeNum)
    (hFits :
      offset + splitSize offset len + 8 + len ≤ 4096) :
    EntriesOk L owners
      (placeEntry b offset inodeNum name len) offset := by
  have hRound := roundFour_le (8 + len)
  have hGe : 8 ≤ splitSize offset len := by
    unfold splitSize
    omega
  have hSize : (UInt16.ofNat (splitSize offset len)).toNat =
      splitSize offset len :=
    UInt16.toNat_ofNat_of_lt' (by
      simp only [UInt16.size]
      omega)
  have hOld : entryAt
      (Ext2.placeEntry b offset inodeNum name len) offset = _ :=
    entryAt_placeEntry_old b inodeNum name (by omega)
  have hNewHeader :=
    entryAt_placeEntry_new b inodeNum name hFits
  have hSub :
      ((entryAt b offset).dirEntrySize -
        UInt16.ofNat (splitSize offset len)).toNat =
      (entryAt b offset).dirEntrySize.toNat -
        splitSize offset len := by
    rw [UInt16.toNat_sub_of_le, hSize]
    rw [UInt16.le_iff_toNat_le, hSize]
    omega
  refine .entry (by omega) ?_ ?_ ?_
  · rw [hOld]
    exact Nat.le_trans hGe (Nat.le_of_eq hSize.symm)
  · rw [hOld]
    exact hInode
  · rw [hOld, hSize]
    refine .entry (by omega) ?_ ?_ (.done ?_)
    · rw [hNewHeader, newHeader, hSub]
      omega
    · rw [hNewHeader]
      exact .inr hNew
    · rw [hNewHeader, newHeader, hSub]
      omega

/-
  Walking a chain of records and splitting the last one: the
  walked part is untouched and the chain is again complete.
-/
theorem addInBlock_entriesOk
    {L : Layout}
    {owners : Owners}
    {b b' : Block}
    {inodeNum : UInt32}
    {name : List UInt8}
    {room offset : Nat}
    (hAdd : addInBlock b inodeNum name room offset =
      some (.added b'))
    (hOk : EntriesOk L owners b offset)
    (hNew : LiveInode L owners inodeNum) :
    EntriesOk L owners b' offset ∧
      ∀ i, i < offset → b'.get i = b.get i := by
  induction room generalizing offset with
  | zero =>
      rw [addInBlock] at hAdd
      split at hAdd <;> cases hAdd
  | succ room ih =>
      cases hOk with
      | done hEnd =>
          rw [addInBlock, if_pos hEnd] at hAdd
          cases hAdd
      | entry hIn hSize hInode hRest =>
          rw [addInBlock, if_neg (by exact Nat.not_le.mpr hIn)]
            at hAdd
          split at hAdd
          · cases hAdd
          · dsimp only at hAdd
            split at hAdd
            · next hLast =>
                rcases Option.map_eq_some_iff.mp hAdd with
                  ⟨b₁, hSplit, hEq⟩
                cases hEq
                cases hName : strlen name with
                | none => simp [splitLast, hName] at hSplit
                | some len =>
                    rcases (splitLast_eq_some_iff hIn
                      hName).mp hSplit with ⟨hFits, rfl⟩
                    exact ⟨.placeEntry hInode hLast hNew hFits,
                      fun i hi =>
                        get_placeEntry_of_lt b _ _ hi⟩
            · rcases ih hAdd hRest with ⟨hRest', hSame⟩
              have hHead : entryAt b' offset =
                  entryAt b offset :=
                entryAt_congr fun i _ hi =>
                  hSame i (by omega)
              refine ⟨.entry hIn ?_ ?_ ?_,
                fun i hi => hSame i (by omega)⟩
              · rwa [hHead]
              · rwa [hHead]
              · rwa [hHead]

------------------------------------------------------------
-- A Whole Directory
------------------------------------------------------------

theorem addInBlocks_cases
    {L : Layout}
    {owners : Owners}
    {P : UInt32 → Prop}
    {s t : Fs}
    {inodeNum : UInt32}
    {name : List UInt8}
    {blocks : List UInt32}
    {room : Nat}
    {err : UInt8}
    (hAdd : addInBlocks inodeNum name blocks room s =
      some (err, t))
    (hSteady : s.Steady)
    (hBlocks : LeadingOk
      (fun b => P b ∧ DirBlockOk L owners (s.disk b)) blocks)
    (hNew : LiveInode L owners inodeNum) :
    t = s ∨ ∃ b content, P b ∧ DirBlockOk L owners content ∧
      t = s.putBlock b content := by
  induction blocks generalizing room with
  | nil =>
      cases hAdd
      exact .inl rfl
  | cons b blocks ih =>
      rw [addInBlocks] at hAdd
      split at hAdd
      · cases hAdd
        exact .inl rfl
      · next hb =>
          rcases hBlocks hb with ⟨⟨hP, hOk⟩, hRest⟩
          simp only [readLocal_of_steady hSteady,
            Option.bind_eq_bind, Option.bind_some,
            Option.bind_eq_some_iff,
            ext2WriteBlock_of_steady hSteady] at hAdd
          rcases hAdd with ⟨result, hResult, hAdd⟩
          cases result with
          | full =>
              cases hAdd
              exact .inl rfl
          | passed room => exact ih hAdd hRest
          | added content =>
              cases hAdd
              exact .inr ⟨b, content, hP,
                (addInBlock_entriesOk hResult hOk hNew).1,
                rfl⟩

/-
  The call changes nothing, or it rewrites one block of the
  directory with records.
-/
theorem ext2AddDirEntry_cases
    {owners : Owners}
    {s t : Fs}
    (h : ImageOk owners s)
    {dirNum : UInt32}
    {dirInode : Inode}
    (hDir : SlotOk s.layout owners s.disk dirNum dirInode)
    {inodeNum : UInt32}
    (hNew : LiveInode s.layout owners inodeNum)
    {name : List UInt8}
    {err : UInt8}
    (hAdd : ext2AddDirEntry dirInode inodeNum name s =
      some (err, t)) :
    t = s ∨ ∃ b content k, owners b = some (.data dirNum k) ∧
      DirBlockOk s.layout owners content ∧
        t = s.putBlock b content := by
  rw [ext2AddDirEntry] at hAdd
  split at hAdd
  · next hIsDir =>
      rcases addInBlocks_cases hAdd h.steady
          (hDir.leadingOk hIsDir) hNew with
        rfl | ⟨b, content, ⟨k, hk⟩, hOk, rfl⟩
      · exact .inl rfl
      · exact .inr ⟨b, content, k, hk, hOk, rfl⟩
  · cases hAdd
    exact .inl rfl

end Ext2

end Ester
