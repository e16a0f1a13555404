import Ester.Ext2.Directory.Split
import Ester.Ext2.SampleImage

/-
  Directory blocks tiled by entries, and additions to them.

  A block is tiled when its records follow each other from
  the first byte to the last, aligned to four bytes, each
  long enough for its name.  The split that adds an entry
  sizes the shrunken record by its offset in the block, so it
  keeps the block tiled only when that happens to leave room
  for the old name before it and for the new one behind it.

  Key definitions include:
    * `Entries`, `nameAt`
    * `Tiled`
    * `FitsBehind`, `FitAll`
    * `AddsExactly`

  Key theorems include:
    * `Tiled.placeEntry`
    * `Tiled.fits_of_placeEntry`
    * `addsExactly_iff`
-/

------------------------------------------------------------
-- Tiled Blocks
------------------------------------------------------------

namespace Ester

namespace Ext2

/- Names and inode numbers of a directory, in order. -/
abbrev Entries : Type :=
  List (List UInt8 × UInt32)

/- The name stored behind a header. -/
def nameAt
    (b : Block)
    (o : Nat) : List UInt8 :=
  (List.range (entryAt b o).dirNameLen.toNat).map fun i =>
    b.get (o + 8 + i)

/- A record is aligned and long enough for its name. -/
structure RecordOk
    (b : Block)
    (o : Nat) : Prop where
  aligned : (entryAt b o).dirEntrySize.toNat % 4 = 0
  size_ge :
    8 + (entryAt b o).dirNameLen.toNat ≤
      (entryAt b o).dirEntrySize.toNat

/-
  From offset `o` on the block is tiled exactly by records
  with these names and inodes, the last one at `last`.
-/
inductive Tiled
    (b : Block) :
    (o last : Nat) → Entries → Prop
  | last
      {o : Nat}
      (hRecord : RecordOk b o)
      (hEnd : o + (entryAt b o).dirEntrySize.toNat = 4096) :
      Tiled b o o [(nameAt b o, (entryAt b o).dirInode)]
  | entry
      {o last : Nat}
      {es : Entries}
      (hRecord : RecordOk b o)
      (hRest : Tiled b
        (o + (entryAt b o).dirEntrySize.toNat) last es) :
      Tiled b o last
        ((nameAt b o, (entryAt b o).dirInode) :: es)

namespace Tiled

variable {b b' : Block} {o last : Nat} {es : Entries}

theorem recordOk
    (h : Tiled b o last es) :
    RecordOk b o := by
  cases h with
  | last hRecord => exact hRecord
  | entry hRecord => exact hRecord

/- The last record ends with the block. -/
theorem last_end
    (h : Tiled b o last es) :
    last + (entryAt b last).dirEntrySize.toNat = 4096 := by
  induction h with
  | last _ hEnd => exact hEnd
  | entry _ _ ih => exact ih

theorem last_recordOk
    (h : Tiled b o last es) :
    RecordOk b last := by
  induction h with
  | last hRecord => exact hRecord
  | entry _ _ ih => exact ih

theorem le_last
    (h : Tiled b o last es) :
    o ≤ last := by
  induction h with
  | last => exact Nat.le_refl _
  | entry _ _ ih => exact Nat.le_trans (Nat.le_add_right _ _) ih

/- The last record is not longer than the block's rest. -/
theorem last_lt
    (h : Tiled b o last es) :
    last + 8 ≤ 4096 := by
  have hEnd := h.last_end
  have hSize := h.last_recordOk.size_ge
  omega

/- A tiling is determined by the block. -/
theorem unique
    {last' : Nat}
    {es' : Entries}
    (h : Tiled b o last es)
    (h' : Tiled b o last' es') :
    last = last' ∧ es = es' := by
  induction h generalizing last' es' with
  | last _ hEnd =>
      cases h' with
      | last => exact ⟨rfl, rfl⟩
      | entry _ hRest =>
          have hLt := hRest.last_lt
          have hLe := hRest.le_last
          omega
  | entry _ hRest ih =>
      cases h' with
      | last _ hEnd =>
          have hLt := hRest.last_lt
          have hLe := hRest.le_last
          omega
      | entry _ hRest' =>
          rcases ih hRest' with ⟨hLast, hEq⟩
          exact ⟨hLast, by rw [hEq]⟩

end Tiled

/- Walk the records of a block and read them. -/
def readTiling
    (b : Block) :
    (fuel o : Nat) → Option (Nat × Entries)
  | 0, _ => none
  | fuel + 1, o =>
      let size := (entryAt b o).dirEntrySize.toNat
      let e := (nameAt b o, (entryAt b o).dirInode)
      if size % 4 = 0 ∧
          8 + (entryAt b o).dirNameLen.toNat ≤ size then
        if o + size = 4096 then some (o, [e])
        else (readTiling b fuel (o + size)).map fun (last, es) =>
          (last, e :: es)
      else none

/- A walk that reaches the end of the block read a tiling. -/
theorem tiled_of_readTiling
    {b : Block}
    {fuel o last : Nat}
    {es : Entries}
    (hRead : readTiling b fuel o = some (last, es)) :
    Tiled b o last es := by
  induction fuel generalizing o es with
  | zero => cases hRead
  | succ fuel ih =>
      simp only [readTiling] at hRead
      split at hRead
      · next hRecord =>
          split at hRead
          · next hEnd =>
              cases hRead
              exact .last ⟨hRecord.1, hRecord.2⟩ hEnd
          · rcases Option.map_eq_some_iff.mp hRead with
              ⟨⟨last', es'⟩, hRest, hEq⟩
            cases hEq
            exact .entry ⟨hRecord.1, hRecord.2⟩ (ih hRest)
      · cases hRead

theorem nameAt_congr
    {b b' : Block}
    {o : Nat}
    (hHead : entryAt b' o = entryAt b o)
    (hSame : ∀ i, i < (entryAt b o).dirNameLen.toNat →
      b'.get (o + 8 + i) = b.get (o + 8 + i)) :
    nameAt b' o = nameAt b o := by
  rw [nameAt, nameAt, hHead]
  apply List.map_congr_left
  intro i hi
  exact hSame i (List.mem_range.mp hi)

/- A record whose bytes are unchanged. -/
theorem RecordOk.congr
    {b b' : Block}
    {o : Nat}
    (h : RecordOk b o)
    (hSame : ∀ i,
      i < o + (entryAt b o).dirEntrySize.toNat →
        b'.get i = b.get i) :
    entryAt b' o = entryAt b o ∧
      nameAt b' o = nameAt b o := by
  have hSize := h.size_ge
  have hHead : entryAt b' o = entryAt b o :=
    entryAt_congr fun i _ hi => hSame i (by omega)
  exact ⟨hHead, nameAt_congr hHead fun i hi =>
    hSame _ (by omega)⟩

------------------------------------------------------------
-- Splitting the Last Record
------------------------------------------------------------

/-
  The split at `last` leaves room for the old name, of `nl`
  bytes, and for a new one of `len` bytes behind it.
-/
structure FitsBehind
    (last nl len : Nat) : Prop where
  old : 8 + nl ≤ splitSize last len
  new : last + splitSize last len + 8 + len ≤ 4096

theorem fitsBehind_iff
    (last nl len : Nat) :
    FitsBehind last nl len ↔
      8 + nl ≤ splitSize last len ∧
        last + splitSize last len + 8 + len ≤ 4096 :=
  ⟨fun h => ⟨h.old, h.new⟩, fun ⟨hOld, hNew⟩ => ⟨hOld, hNew⟩⟩

instance
    (last nl len : Nat) :
    Decidable (FitsBehind last nl len) :=
  decidable_of_iff _ (fitsBehind_iff last nl len).symm

/- The text of a C string, byte by byte. -/
theorem map_range_cString
    {name : List UInt8}
    {len : Nat}
    (hName : strlen name = some len) :
    ((List.range len).map fun i => name.getD i 0) =
      cString name := by
  have hLen := ((strlen_eq_some_iff _ _).mp hName).2
  apply List.ext_getElem
  · rw [List.length_map, List.length_range, hLen]
  · intro i hi hi'
    rw [List.getElem_map, List.getElem_range,
      getD_eq_cString name hi']

section

variable {b : Block} {o last len : Nat} {es : Entries}
variable {inodeNum : UInt32} {name : List UInt8}

/- The record lengths of the split, as numbers. -/
theorem splitSize_toNat
    (hFits : last + splitSize last len + 8 + len ≤ 4096) :
    (UInt16.ofNat (splitSize last len)).toNat =
      splitSize last len :=
  UInt16.toNat_ofNat_of_lt' (by
    simp only [UInt16.size]
    omega)

theorem roundFour_mod
    (n : Nat) :
    roundFour n % 4 = 0 :=
  Nat.mul_mod_left _ _

/- The record of the new entry reaches to the block's end. -/
theorem newHeader_size
    (hEnd :
      last + (entryAt b last).dirEntrySize.toNat = 4096)
    (hFits : last + splitSize last len + 8 + len ≤ 4096) :
    (newHeader (entryAt b last).dirEntrySize last len
        inodeNum).dirEntrySize.toNat =
      4096 - last - splitSize last len := by
  have hSize := splitSize_toNat hFits
  rw [newHeader, UInt16.toNat_sub_of_le, hSize]
  · omega
  · rw [UInt16.le_iff_toNat_le, hSize]
    omega

/- The last record keeps its name where it fits. -/
theorem nameAt_placeEntry_old
    (hMod : last % 4 = 0)
    (hFits : FitsBehind last
      (entryAt b last).dirNameLen.toNat len) :
    nameAt (placeEntry b last inodeNum name len) last =
      nameAt b last := by
  have hOldFits := hFits.old
  have hNewFits := hFits.new
  rw [nameAt, nameAt,
    entryAt_placeEntry_old b inodeNum name (by omega)]
  apply List.map_congr_left
  intro i hi
  have hi : i < (entryAt b last).dirNameLen.toNat :=
    List.mem_range.mp hi
  exact get_placeEntry_between b inodeNum name
    (by omega) (by omega)

/- The record behind the split is the last one of the block. -/
theorem tiled_placeEntry_new
    (hEnd :
      last + (entryAt b last).dirEntrySize.toNat = 4096)
    (hMod : last % 4 = 0)
    (hFits : last + splitSize last len + 8 + len ≤ 4096)
    (hName : strlen name = some len)
    (hLen : len ≤ ext2NameLen) :
    Tiled (placeEntry b last inodeNum name len)
      (last + splitSize last len) (last + splitSize last len)
      [(cString name, inodeNum)] := by
  have hLe : len ≤ 255 := hLen
  have hRound := roundFour_mod (8 + len)
  have hSplitMod : splitSize last len % 4 = 0 := by
    unfold splitSize
    omega
  have hNew := entryAt_placeEntry_new b inodeNum name hFits
  have hNewSize : (newHeader (entryAt b last).dirEntrySize
      last len inodeNum).dirEntrySize.toNat =
        4096 - last - splitSize last len :=
    newHeader_size hEnd hFits
  have hNewLen : (newHeader (entryAt b last).dirEntrySize
      last len inodeNum).dirNameLen.toNat = len :=
    UInt8.toNat_ofNat_of_lt' (by
      simp only [UInt8.size]
      omega)
  have hNewName :
      nameAt (placeEntry b last inodeNum name len)
        (last + splitSize last len) = cString name := by
    rw [nameAt, hNew, hNewLen, ← map_range_cString hName]
    apply List.map_congr_left
    intro i hi
    exact get_placeEntry_name b inodeNum name hFits
      (List.mem_range.mp hi)
  have hRecordNew : RecordOk
      (placeEntry b last inodeNum name len)
      (last + splitSize last len) := by
    constructor
    · rw [hNew, hNewSize]
      omega
    · rw [hNew, hNewSize, hNewLen]
      omega
  have hLast := Tiled.last hRecordNew (by
    rw [hNew, hNewSize]
    omega)
  rwa [hNewName, hNew] at hLast

/- The two records the last one is split into. -/
theorem tiled_placeEntry_last
    (hEnd :
      last + (entryAt b last).dirEntrySize.toNat = 4096)
    (hMod : last % 4 = 0)
    (hFits : FitsBehind last
      (entryAt b last).dirNameLen.toNat len)
    (hName : strlen name = some len)
    (hLen : len ≤ ext2NameLen) :
    Tiled (placeEntry b last inodeNum name len) last
      (last + splitSize last len)
      [(nameAt b last, (entryAt b last).dirInode),
        (cString name, inodeNum)] := by
  have hOldFits := hFits.old
  have hNewFits := hFits.new
  have hRound := roundFour_mod (8 + len)
  have hSplitMod : splitSize last len % 4 = 0 := by
    unfold splitSize
    omega
  have hSize := splitSize_toNat hNewFits
  have hOld : entryAt (placeEntry b last inodeNum name len)
      last = { entryAt b last with
        dirEntrySize := UInt16.ofNat (splitSize last len) } :=
    entryAt_placeEntry_old b inodeNum name (by omega)
  have hTail := @tiled_placeEntry_new b last len inodeNum name
    hEnd hMod hNewFits hName hLen
  have hHead : Tiled (placeEntry b last inodeNum name len)
      last (last + splitSize last len)
      ((nameAt (placeEntry b last inodeNum name len) last,
        (entryAt (placeEntry b last inodeNum name len)
          last).dirInode) :: [(cString name, inodeNum)]) := by
    apply Tiled.entry
    · constructor
      · rw [hOld]
        exact hSize.symm ▸ hSplitMod
      · rw [hOld]
        exact hSize.symm ▸ hOldFits
    · rw [hOld]
      change Tiled _ (last +
        (UInt16.ofNat (splitSize last len)).toNat) _ _
      rwa [hSize]
  rwa [nameAt_placeEntry_old hMod hFits, hOld] at hHead

/-
  Splitting the last record of a tiled block where both names
  fit appends the new entry.
-/
theorem Tiled.placeEntry
    (h : Tiled b o last es)
    (hMod : o % 4 = 0)
    (hFits : FitsBehind last
      (entryAt b last).dirNameLen.toNat len)
    (hName : strlen name = some len)
    (hLen : len ≤ ext2NameLen) :
    Tiled (placeEntry b last inodeNum name len) o
      (last + splitSize last len)
      (es ++ [(cString name, inodeNum)]) := by
  induction h with
  | last _ hEnd =>
      exact tiled_placeEntry_last hEnd hMod hFits hName hLen
  | @entry o last es hRecord hRest ih =>
      have hLe := hRest.le_last
      have hNext := ih (by
        rw [Nat.add_mod, hMod, hRecord.aligned]) hFits
      have hSame : ∀ i,
          i < o + (entryAt b o).dirEntrySize.toNat →
            (Ext2.placeEntry b last inodeNum name len).get i =
              b.get i := fun i hi =>
        get_placeEntry_of_lt b inodeNum name (by omega)
      rcases hRecord.congr hSame with ⟨hHead, hText⟩
      have hEntry := Tiled.entry
        (b := Ext2.placeEntry b last inodeNum name len)
        (o := o) ⟨hHead ▸ hRecord.aligned,
          hHead ▸ hRecord.size_ge⟩ (by
            rw [hHead]
            exact hNext)
      rwa [hHead, hText] at hEntry

/-
  Only then: in a tiled result the shrunken record is long
  enough for its name.
-/
theorem Tiled.fits_of_placeEntry
    (h : Tiled b o last es)
    (hFits : last + splitSize last len + 8 + len ≤ 4096)
    {last' : Nat}
    {es' : Entries}
    (h' : Tiled (Ext2.placeEntry b last inodeNum name len) o
      last' es') :
    8 + (entryAt b last).dirNameLen.toNat ≤
      splitSize last len := by
  induction h generalizing es' with
  | @last o hRecord hEnd =>
      have hSize := h'.recordOk.size_ge
      rw [entryAt_placeEntry_old b inodeNum name
        (by omega)] at hSize
      change _ ≤ (UInt16.ofNat (splitSize o len)).toNat
        at hSize
      rwa [splitSize_toNat hFits] at hSize
  | @entry o last es hRecord hRest ih =>
      have hLe := hRest.le_last
      have hLt := hRest.last_lt
      have hSame : ∀ i,
          i < o + (entryAt b o).dirEntrySize.toNat →
            (Ext2.placeEntry b last inodeNum name len).get i =
              b.get i := fun i hi =>
        get_placeEntry_of_lt b inodeNum name (by omega)
      rcases hRecord.congr hSame with ⟨hHead, -⟩
      cases h' with
      | last _ hEnd =>
          rw [hHead] at hEnd
          omega
      | entry _ hRest' =>
          rw [hHead] at hRest'
          exact ih hFits hRest'

end

------------------------------------------------------------
-- Adding an Entry
------------------------------------------------------------

section

variable {s t : Fs} {dirInode : Inode}
variable {inodeNum : UInt32} {name : List UInt8} {len : Nat}

/- The walk through a tiled block ends at its last record. -/
theorem addInBlock_of_tiled
    {b : Block}
    {o last : Nat}
    {es : Entries}
    (h : Tiled b o last es)
    {room : Nat}
    (hRoom : es.length ≤ room) :
    addInBlock b inodeNum name room o =
      (splitLast b last inodeNum name).map .added := by
  induction h generalizing room with
  | @last o hRecord hEnd =>
      cases room with
      | zero => exact absurd hRoom (by simp)
      | succ room =>
          have hSize := hRecord.size_ge
          have hBlock : logicalBlockSize = 4096 := rfl
          rw [addInBlock, if_neg (by omega),
            if_neg (by omega)]
          exact if_pos (by omega)
  | @entry o last es hRecord hRest ih =>
      cases room with
      | zero => exact absurd hRoom (by simp)
      | succ room =>
          have hSize := hRecord.size_ge
          have hLe := hRest.le_last
          have hLt := hRest.last_lt
          have hBlock : logicalBlockSize = 4096 := rfl
          rw [addInBlock, if_neg (by omega),
            if_neg (by omega)]
          refine (if_neg (by omega)).trans (ih ?_)
          simpa using hRoom

/- With more records than slots the walk finds no place. -/
theorem addInBlock_of_many
    {b : Block}
    {o last : Nat}
    {es : Entries}
    (h : Tiled b o last es)
    {room : Nat}
    (hRoom : room < es.length) :
    addInBlock b inodeNum name room o = some .full := by
  have hBlock : logicalBlockSize = 4096 := rfl
  have hLt := h.last_lt
  have hLe := h.le_last
  induction h generalizing room with
  | @last o hRecord hEnd =>
      have h0 : room = 0 := by simpa using hRoom
      subst h0
      unfold addInBlock
      rw [if_pos (by omega)]
  | @entry o last es hRecord hRest ih =>
      cases room with
      | zero =>
          unfold addInBlock
          rw [if_pos (by omega)]
      | succ room =>
          have hSize := hRecord.size_ge
          have hNext := hRest.le_last
          unfold addInBlock
          rw [if_neg (by omega), if_neg (by omega)]
          refine (if_neg (by omega)).trans ?_
          apply ih _ hLt hNext
          simpa using hRoom

/- An addition splits the last record of the first block. -/
theorem ext2AddDirEntry_of_tiled
    (hSteady : s.Steady)
    (hDir : dirInode.isDir)
    (hFirst : dirInode.iBlock 0 ≠ 0)
    {last : Nat}
    {es : Entries}
    (h : Tiled (s.disk (dirInode.iBlock 0)) 0 last es)
    (hCount : es.length ≤ maxSubdirs) :
    ext2AddDirEntry dirInode inodeNum name s =
      (splitLast (s.disk (dirInode.iBlock 0)) last inodeNum
        name).map fun content =>
          (0, s.putBlock (dirInode.iBlock 0) content) := by
  rw [ext2AddDirEntry, if_pos hDir, Inode.directBlocks_eq,
    addInBlocks, if_neg hFirst]
  simp only [readLocal_of_steady hSteady,
    addInBlock_of_tiled h hCount,
    ext2WriteBlock_of_steady hSteady,
    Option.bind_eq_bind, Option.bind_some]
  cases splitLast (s.disk (dirInode.iBlock 0)) last inodeNum
    name with
  | none => rfl
  | some content => rfl

/- One addition does exactly what it should. -/
structure AddsOne
    (dirInode : Inode)
    (inodeNum : UInt32)
    (name : List UInt8)
    (es : Entries)
    (s t : Fs) : Prop where
  added :
    ext2AddDirEntry dirInode inodeNum name s = some (0, t)
  tiled :
    ∃ last, Tiled (t.disk (dirInode.iBlock 0)) 0 last
      (es ++ [(cString name, inodeNum)])
  others :
    ∀ b, b ≠ dirInode.iBlock 0 → t.disk b = s.disk b

/- What there is to know about a directory's first block. -/
structure FirstTiled
    (dirInode : Inode)
    (s : Fs)
    (last nl : Nat)
    (es : Entries) : Prop where
  steady : s.Steady
  isDir : dirInode.isDir
  first : dirInode.iBlock 0 ≠ 0
  tiled : Tiled (s.disk (dirInode.iBlock 0)) 0 last es
  nameLen :
    (entryAt (s.disk (dirInode.iBlock 0))
      last).dirNameLen.toNat = nl

/- The state after the split. -/
def Fs.splitFirst
    (s : Fs)
    (dirInode : Inode)
    (last : Nat)
    (inodeNum : UInt32)
    (name : List UInt8)
    (len : Nat) : Fs :=
  s.putBlock (dirInode.iBlock 0)
    (placeEntry (s.disk (dirInode.iBlock 0)) last inodeNum
      name len)

variable {last nl : Nat} {es : Entries}

/- An addition that succeeds split the last record. -/
theorem splitFirst_of_added
    (h : FirstTiled dirInode s last nl es)
    (hName : strlen name = some len)
    (hAdd : ext2AddDirEntry dirInode inodeNum name s =
      some (0, t)) :
    last + splitSize last len + 8 + len ≤ 4096 ∧
      t = s.splitFirst dirInode last inodeNum name len := by
  have hLast := h.tiled.last_lt
  by_cases hCount : es.length ≤ maxSubdirs
  · rw [ext2AddDirEntry_of_tiled h.steady h.isDir h.first
      h.tiled hCount] at hAdd
    rcases Option.map_eq_some_iff.mp hAdd with
      ⟨content, hSplit, hEq⟩
    rcases (splitLast_eq_some_iff (by omega) hName).mp hSplit
      with ⟨hFits, rfl⟩
    cases hEq
    exact ⟨hFits, rfl⟩
  · rw [ext2AddDirEntry, if_pos h.isDir, Inode.directBlocks_eq,
      addInBlocks, if_neg h.first] at hAdd
    simp only [readLocal_of_steady h.steady,
      addInBlock_of_many h.tiled (Nat.not_le.mp hCount),
      Option.bind_eq_bind, Option.bind_some,
      Option.some.injEq, Prod.mk.injEq] at hAdd
    exact absurd hAdd.1 (by decide)

/- An exact addition left room for both names. -/
theorem AddsOne.fits
    (h : FirstTiled dirInode s last nl es)
    (hName : strlen name = some len)
    (hOne : AddsOne dirInode inodeNum name es s t) :
    FitsBehind last nl len ∧
      t = s.splitFirst dirInode last inodeNum name len := by
  rcases splitFirst_of_added h hName hOne.added with
    ⟨hFits, rfl⟩
  rcases hOne.tiled with ⟨last', hTiled⟩
  rw [Fs.splitFirst, Fs.putBlock_disk_self] at hTiled
  have hOld := h.tiled.fits_of_placeEntry hFits hTiled
  rw [h.nameLen] at hOld
  exact ⟨⟨hOld, hFits⟩, rfl⟩

/- With room for both names an addition is exact. -/
theorem FitsBehind.addsOne
    (h : FirstTiled dirInode s last nl es)
    (hCount : es.length ≤ maxSubdirs)
    (hName : strlen name = some len)
    (hLen : len ≤ ext2NameLen)
    (hFits : FitsBehind last nl len) :
    AddsOne dirInode inodeNum name es s
        (s.splitFirst dirInode last inodeNum name len) ∧
      FirstTiled dirInode
        (s.splitFirst dirInode last inodeNum name len)
        (last + splitSize last len) len
        (es ++ [(cString name, inodeNum)]) := by
  have hLe : len ≤ 255 := hLen
  have hLast := h.tiled.last_lt
  have hSplit : splitLast (s.disk (dirInode.iBlock 0)) last
      inodeNum name = some _ :=
    (splitLast_eq_some_iff (by omega) hName).mpr
      ⟨hFits.new, rfl⟩
  have hTiled : Tiled ((s.splitFirst dirInode last inodeNum
      name len).disk (dirInode.iBlock 0)) 0
        (last + splitSize last len)
        (es ++ [(cString name, inodeNum)]) := by
    rw [Fs.splitFirst, Fs.putBlock_disk_self]
    exact h.tiled.placeEntry rfl (h.nameLen.symm ▸ hFits)
      hName hLen
  constructor
  · refine ⟨?_, ⟨_, hTiled⟩, fun b hb =>
      Fs.putBlock_disk_of_ne _ _ hb⟩
    rw [ext2AddDirEntry_of_tiled h.steady h.isDir h.first
      h.tiled hCount, hSplit]
    rfl
  · refine ⟨⟨h.steady.faults, h.steady.blockSize⟩, h.isDir,
      h.first, hTiled, ?_⟩
    rw [Fs.splitFirst, Fs.putBlock_disk_self,
      entryAt_placeEntry_new _ inodeNum name hFits.new]
    exact UInt8.toNat_ofNat_of_lt' (by
      simp only [UInt8.size]
      omega)

------------------------------------------------------------
-- Successive Additions
------------------------------------------------------------

/- Each of a series of additions does what it should. -/
inductive AddsExactly
    (dirInode : Inode) :
    Entries → Fs → List (UInt32 × List UInt8) → Prop
  | nil
      {es : Entries}
      {s : Fs} :
      AddsExactly dirInode es s []
  | cons
      {es : Entries}
      {s t : Fs}
      {inodeNum : UInt32}
      {name : List UInt8}
      {adds : List (UInt32 × List UInt8)}
      (hOne : AddsOne dirInode inodeNum name es s t)
      (hRest : AddsExactly dirInode
        (es ++ [(cString name, inodeNum)]) t adds) :
      AddsExactly dirInode es s ((inodeNum, name) :: adds)

/-
  Every split of a series leaves room for both names, when
  the last record starts at `last` and has a name of `nl`
  bytes before the first one.
-/
def FitAll :
    (last nl : Nat) → List (UInt32 × List UInt8) → Prop
  | _, _, [] => True
  | last, nl, (_, name) :: adds =>
      FitsBehind last nl (cString name).length ∧
        FitAll (last + splitSize last (cString name).length)
          (cString name).length adds

/- Names that are C strings of at most 255 characters. -/
def NamesOk
    (adds : List (UInt32 × List UInt8)) : Prop :=
  ∀ a ∈ adds, Terminated a.2 ∧
    (cString a.2).length ≤ ext2NameLen

variable {adds : List (UInt32 × List UInt8)}

theorem AddsExactly.fitAll
    (hAdds : AddsExactly dirInode es s adds)
    (h : FirstTiled dirInode s last nl es)
    (hCount : es.length + adds.length ≤ maxSubdirs)
    (hNames : NamesOk adds) :
    FitAll last nl adds := by
  induction hAdds generalizing last nl with
  | nil => trivial
  | @cons es s t inodeNum name adds hOne hRest ih =>
      rcases hNames (inodeNum, name) (by simp) with
        ⟨hTerm, hLen⟩
      have hName := strlen_of_terminated hTerm
      rw [List.length_cons] at hCount
      rcases hOne.fits h hName with ⟨hFits, rfl⟩
      have hNext : AddsOne dirInode inodeNum name es s _ ∧ _ :=
        hFits.addsOne h (by omega) hName hLen
      refine ⟨hFits, ih hNext.2 ?_ fun a ha =>
        hNames a (by simp [ha])⟩
      rw [List.length_append, List.length_singleton]
      omega

theorem FitAll.addsExactly
    (hFit : FitAll last nl adds)
    (h : FirstTiled dirInode s last nl es)
    (hCount : es.length + adds.length ≤ maxSubdirs)
    (hNames : NamesOk adds) :
    AddsExactly dirInode es s adds := by
  induction adds generalizing es s last nl with
  | nil => exact .nil
  | cons a adds ih =>
      rcases a with ⟨inodeNum, name⟩
      rcases hNames (inodeNum, name) (by simp) with
        ⟨hTerm, hLen⟩
      have hName := strlen_of_terminated hTerm
      rw [List.length_cons] at hCount
      have hBoth : AddsOne dirInode inodeNum name es s _ ∧ _ :=
        hFit.1.addsOne h (by omega) hName hLen
      rcases hBoth with ⟨hOne, hNext⟩
      refine .cons hOne (ih hFit.2 hNext ?_ fun a ha =>
        hNames a (by simp [ha]))
      rw [List.length_append, List.length_singleton]
      omega

/-
  A series of additions to a directory with a tiled first
  block and free slots is exact if and only if every split
  leaves room for the last name and the new entry.
-/
theorem addsExactly_iff
    (h : FirstTiled dirInode s last nl es)
    (hCount : es.length + adds.length ≤ maxSubdirs)
    (hNames : NamesOk adds) :
    AddsExactly dirInode es s adds ↔ FitAll last nl adds :=
  ⟨fun hAdds => hAdds.fitAll h hCount hNames,
    fun hFit => hFit.addsExactly h hCount hNames⟩

end

------------------------------------------------------------
-- Additions to Root Directories
------------------------------------------------------------

/- The entries `.`, `..` and `f` of the root directory. -/
def rootListing : Entries :=
  [([46], 2), ([46, 46], 2), ([102], 12)]

theorem rootListing_firstTiled :
    FirstTiled (sampleDir 5) fileSample 24 1 rootListing where
  steady := fileSample_imageOk.steady
  isDir := by decide
  first := by decide
  tiled := tiled_of_readTiling
    (show readTiling _ 3 0 = _ by decide +kernel)
  nameLen := by decide +kernel

/- Adding `g` and `h` to the root directory. -/
theorem addsExactly_sample :
    AddsExactly (sampleDir 5) rootListing fileSample
      [(13, [103, 0]), (14, [104, 0])] :=
  (addsExactly_iff rootListing_firstTiled (by decide)
    (by
      intro a ha
      simp only [List.mem_cons, List.not_mem_nil, or_false]
        at ha
      rcases ha with rfl | rfl <;> decide)).mpr
    ⟨by decide, by decide, trivial⟩

/- A root directory whose last name has forty characters. -/
def longEntries : List UInt8 :=
  [2, 0, 0, 0, 12, 0, 1, 2, 46, 0, 0, 0,
   2, 0, 0, 0, 12, 0, 2, 2, 46, 46, 0, 0,
   12, 0, 0, 0, 232, 15, 40, 1] ++ List.replicate 40 97

def longListing : Entries :=
  [([46], 2), ([46, 46], 2), (List.replicate 40 97, 12)]

def longSample : Fs :=
  sampleFs (fun n => if n = 2 then sampleDir 5 else Inode.zero)
    fun b => if b = 5 then bytesBlock longEntries
      else .fill logicalBlockSize 0

theorem longListing_firstTiled :
    FirstTiled (sampleDir 5) longSample 24 40 longListing where
  steady := ⟨rfl, congrArg Layout.blockSize
    (sampleFs_layout _ _)⟩
  isDir := by decide
  first := by decide
  tiled := tiled_of_readTiling
    (show readTiling _ 3 0 = _ by decide +kernel)
  nameLen := by decide +kernel

/-
  The last entry has room for `x` behind its name of forty
  characters, but adding `x` puts the new header on the name.
-/
theorem ext2AddDirEntry_overwrites_name :
    FirstTiled (sampleDir 5) longSample 24 40 longListing ∧
      roundFour (8 + 40) + roundFour (8 + 1) ≤
        (entryAt (longSample.disk 5) 24).dirEntrySize.toNat ∧
      (∃ t, ext2AddDirEntry (sampleDir 5) 13 [120, 0]
          longSample = some (0, t) ∧
        nameAt (t.disk 5) 24 ≠ List.replicate 40 97) ∧
      ¬ AddsExactly (sampleDir 5) longListing longSample
        [(13, [120, 0])] := by
  have hRoom : roundFour (8 + 40) + roundFour (8 + 1) ≤
      (entryAt (longSample.disk 5) 24).dirEntrySize.toNat := by
    decide +kernel
  have hFacts :
      (ext2AddDirEntry (sampleDir 5) 13 [120, 0]
        longSample).map (fun r => (r.1,
          decide (nameAt (r.2.disk 5) 24 =
            List.replicate 40 97))) = some (0, false) := by
    decide +kernel
  rcases Option.map_eq_some_iff.mp hFacts with
    ⟨⟨err, t⟩, hAdd, hEq⟩
  simp only [Prod.mk.injEq, decide_eq_false_iff_not] at hEq
  rcases hEq with ⟨rfl, hName⟩
  refine ⟨longListing_firstTiled, hRoom, ⟨t, hAdd, hName⟩, ?_⟩
  intro hAdds
  have hFit := hAdds.fitAll longListing_firstTiled (by decide)
    (by
      intro a ha
      rw [List.mem_singleton.mp ha]
      decide)
  exact absurd hFit.1 (by decide)

end Ext2

end Ester
