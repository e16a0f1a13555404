import Ester.Library.FileStore
import Ester.Ext2.Session.Isolation
import Ester.Ext2.Session.Overwrite

/-
  Disk and descriptor as a store of files.

  Between calls they mirror a store of files with one cursor:
  its known bytes are stored in the blocks of live regular
  files in use, and the buffer holds what the cursor sees.  Writes
  and seeks in an existing file are steps of that store, and
  so is creating the file of an access.

  Key definitions include:
    * `Fs.Stores`
    * `Stored`, `Wrote`
    * `Placed`, `Mirrors`, `Reached`

  Key theorems include:
    * `WriteOutcome.stored`
    * `Reached.write`, `Reached.seek`, `Reached.read`
    * `Mirrors.ensure`
-/

------------------------------------------------------------
-- Stored Bytes
------------------------------------------------------------

namespace Ester

namespace Ext2

open FileStore

/- A file in use, one of `inodes`, stores a byte. -/
structure Fs.Stores
    (s : Fs)
    (inodes : UInt32 → Prop)
    (n : UInt32)
    (x : Nat)
    (b : UInt8) : Prop where
  own : inodes n
  used : s.InodeUsed n
  isFile : (s.inodeAt n).isFile
  has : (s.inodeAt n).HasBlock (x / 4096)
  byte :
    (s.disk ((s.inodeAt n).direct (x / 4096)
      has.direct)).get (x % 4096) = b

section

variable {inodes inodes' : UInt32 → Prop}
variable {owners : Owners} {s t u : Fs}
variable {n m : UInt32} {x : Nat} {b : UInt8}

theorem Fs.Stores.mono
    (hStores : s.Stores inodes n x b)
    (hMore : inodes n → inodes' n) :
    s.Stores inodes' n x b :=
  { hStores with
    own := hMore hStores.own }

/- Files that are spared store what they stored. -/
theorem Fs.Stores.of_spares
    (hStores : s.Stores inodes m x b)
    (h : ImageOkFor inodes owners s)
    (hSpares : SparesFiles owners n s t)
    (hNe : m ≠ n) :
    t.Stores inodes m x b := by
  have hUsed := hStores.used
  have hFile := hStores.isFile
  have hInode := hSpares.inode m hUsed hFile hNe
  have hHas := hStores.has
  have hOwner := (h.slots m hStores.own hUsed.valid).file
    hFile _ hHas.direct hHas.lt hHas.set
  exact
    { own := hStores.own
      used := hSpares.used m hUsed
      isFile := hInode ▸ hFile
      has := hInode ▸ hHas
      byte := by
        simp only [hInode]
        rw [hSpares.blocks m hUsed hFile hNe _ _ hOwner]
        exact hStores.byte }

/- What the open file stores is in its blocks. -/
theorem Fs.Stores.fileBlock
    (hStores : s.Stores inodes s.file.inodeNum x b)
    (hStored :
      s.inodeAt s.file.inodeNum = s.file.inode) :
    ∃ hHas : s.file.inode.HasBlock (x / 4096),
      (s.fileBlock (x / 4096) hHas.direct).get
        (x % 4096) = b := by
  have hHas := hStores.has
  have hByte := hStores.byte
  simp only [hStored] at hHas hByte
  exact ⟨hHas, hByte⟩

/- What is in the blocks of the open file is stored. -/
theorem Fs.Stores.of_fileBlock
    (hFile : FileOk inodes s)
    (hOpen : s.file.isOpen)
    (hExist : s.file.exist)
    (hUsed : s.InodeUsed s.file.inodeNum)
    (hHas : s.file.inode.HasBlock (x / 4096))
    (hByte :
      (s.fileBlock (x / 4096) hHas.direct).get
        (x % 4096) = b) :
    s.Stores inodes s.file.inodeNum x b := by
  have hStored := hFile.stored hOpen hExist
  exact
    { own := hFile.own hOpen hExist
      used := hUsed
      isFile := hStored ▸ hFile.isFile hOpen hExist
      has := hStored ▸ hHas
      byte := by
        simp only [hStored]
        exact hByte }

end

------------------------------------------------------------
-- Blocks After a Write
------------------------------------------------------------

/-
  A write put `content` into the block under the position
  and, if there is a rest, that into the next one.
-/
structure Stored
    (content : Block)
    (rest : Option Block)
    (s t : Fs) : Prop where
  isOpen : t.file.isOpen = s.file.isOpen
  exist : t.file.exist = s.file.exist
  num : t.file.inodeNum = s.file.inodeNum
  pos : t.file.pos = s.file.pos
  buff : t.file.buff = content
  keeps :
    ∀ k, s.file.inode.HasBlock k → t.file.inode.HasBlock k
  has : s.file.inode.HasBlock s.file.block
  head : t.fileBlock s.file.block has.direct = content
  next :
    ∀ r, rest = some r →
      ∃ hHas : t.file.inode.HasBlock (s.file.block + 1),
        t.fileBlock (s.file.block + 1) hHas.direct = r
  same :
    ∀ k (hHas : s.file.inode.HasBlock k),
      k ≠ s.file.block →
        k ≠ s.file.block + 1 ∨ rest = none →
          t.fileBlock k hHas.direct =
            s.fileBlock k hHas.direct

section

variable {inodes : UInt32 → Prop}
variable {owners : Owners} {s t : Fs} {err : UInt8}
variable {data : Nat → UInt8} {size : UInt32}

/- The first part of a write, and a change of metadata. -/
theorem Editing.stored_head
    (h : Editing inodes owners s)
    (hHas : s.file.inode.HasBlock s.file.block)
    (len : Nat)
    (hFile : t.file = { s.file with
      buff := s.headBuff data len
      inode := t.file.inode })
    (hKeeps : ∀ k, s.file.inode.HasBlock k →
      t.file.inode.HasBlock k)
    (hBlocks : ∀ k (hk : k < ext2NdirBlocks),
      s.Owns owners k hk →
        t.fileBlock k hk =
          (s.wroteHead hHas.direct data len).fileBlock k hk) :
    Stored (s.headBuff data len) none s t where
  isOpen := by rw [hFile]
  exist := by rw [hFile]
  num := by rw [hFile]
  pos := by rw [hFile]
  buff := by rw [hFile]
  keeps := hKeeps
  has := hHas
  head := (hBlocks _ _ (h.owns hHas)).trans
    (Fs.wroteHead_fileBlock_self hHas.direct data len)
  next r hRest := absurd hRest (by simp)
  same k hk hNe _ := (hBlocks k _ (h.owns hk)).trans
    (h.wroteHead_fileBlock_of_ne hHas len (h.owns hk) hNe)

/- What a write in range leaves in the blocks of the file. -/
inductive Wrote
    (data : Nat → UInt8)
    (size : UInt32)
    (s : Fs) : UInt8 → Fs → Prop
  | refused :
      Wrote data size s 1 s
  | inside
      {t : Fs}
      (hFits : s.file.off + size.toNat ≤ 4096)
      (hStored :
        Stored (s.headBuff data size.toNat) none s t) :
      Wrote data size s 0 t
  | across
      {t : Fs}
      (hSize : size.toNat ≤ 4096)
      (hSpill : 4096 < s.file.off + size.toNat)
      (hStored :
        Stored (s.headBuff data (4096 - s.file.off))
          (some (restOf data s.file.off size.toNat)) s t) :
      Wrote data size s 0 t
  | torn
      {t : Fs}
      (hSpill : 4096 < s.file.off + size.toNat)
      (hStored :
        Stored (s.headBuff data (4096 - s.file.off)) none
          s t) :
      Wrote data size s 1 t

theorem WriteOutcome.stored
    (hOut : WriteOutcome data size s err t)
    (h : Editing inodes owners s) :
    Wrote data size s err t := by
  cases hOut with
  | tooBig => exact .refused
  | inside hSize hHas hFits =>
      have hHead := h.wroteHead hHas data size.toNat
      exact .inside hFits (h.stored_head hHas _ rfl
        (fun _ hk => ⟨hk.direct, hk.lt, hk.set⟩)
        fun k hk hOwns => hHead.finish_fileBlock hOwns)
  | noBlock hSize hHas hLast hSpill hNext =>
      exact .torn hSpill (h.stored_head hHas _ rfl
        (fun _ hk => hk) fun _ _ _ => rfl)
  | noPointer i hSize hHas hLast hMany hSpill hNext =>
      have hHead := h.wroteHead hHas data (4096 - s.file.off)
      exact .torn hSpill (h.stored_head hHas _ rfl
        (fun _ hk => hk)
        fun k hk hOwns => Fs.claim_disk_of_not_meta
          (.of_nextFree (hHead.image.layout.slotGroup_lt
            hHead.valid) hNext)
          (hHead.direct_not_meta hOwns))
  | spilled hSize hHas hHas' hSpill =>
      have hHead := h.wroteHead hHas data (4096 - s.file.off)
      have hBoth := hHead.wrote (hHead.owns hHas') true
        (restOf data s.file.off size.toNat)
      have hOther {k : Nat} (hk : s.file.inode.HasBlock k)
          (hNe : k ≠ s.file.block + 1) :
          ((s.wroteHead hHas.direct data
            (4096 - s.file.off)).wrote
              (s.file.inode.direct (s.file.block + 1)
                hHas'.direct) true
              (restOf data s.file.off size.toNat)).fileBlock
                k hk.direct =
            (s.wroteHead hHas.direct data
              (4096 - s.file.off)).fileBlock k hk.direct :=
        Fs.wrote_disk_of_ne _ _ _ _
          ((h.owns hk).direct_ne (h.owns hHas') hNe)
      exact .across hSize hSpill
        { isOpen := rfl
          exist := rfl
          num := rfl
          pos := rfl
          buff := rfl
          keeps := fun _ hk => ⟨hk.direct, hk.lt, hk.set⟩
          has := hHas
          head := (hBoth.finish_fileBlock (h.owns hHas)).trans
            ((hOther hHas (by omega)).trans
              (Fs.wroteHead_fileBlock_self hHas.direct data _))
          next := fun r hRest => by
            cases hRest
            exact ⟨⟨hHas'.direct, hHas'.lt, hHas'.set⟩,
              (hBoth.finish_fileBlock (h.owns hHas')).trans
                (Fs.wrote_disk_self _ _ _ _)⟩
          same := fun k hk hNe hNot =>
            (hBoth.finish_fileBlock (h.owns hk)).trans
              ((hOther hk (by simpa using hNot)).trans
                (h.wroteHead_fileBlock_of_ne hHas _
                  (h.owns hk) hNe)) }
  | grown i hSize hHas hLast hDirect hSpill hNext =>
      have hHead := h.wroteHead hHas data (4096 - s.file.off)
      have hNew := hHead.grown_hasBlock hNext hDirect
      change Inode.HasBlock _ s.file.inode.allocated at hNew
      rcases @Editing.grownRest_fileBlock _ _ _ size hHead _
          hNext hDirect (restOf data s.file.off size.toNat) with
        ⟨hRest, hOld⟩
      exact .across hSize hSpill
        { isOpen := rfl
          exist := rfl
          num := rfl
          pos := rfl
          buff := rfl
          keeps := fun k hk =>
            have hMore := hk.grown (s := s.wroteHead hHas.direct
              data (4096 - s.file.off)) hDirect i
            ⟨hMore.direct, hMore.lt, hMore.set⟩
          has := hHas
          head := (hOld _ hHas.direct (h.owns hHas)
            (Nat.ne_of_lt hHas.lt)).trans
              (Fs.wroteHead_fileBlock_self hHas.direct data _)
          next := fun r hNone => by
            cases hNone
            simp only [← hLast]
            exact ⟨⟨hNew.direct, hNew.lt, hNew.set⟩, hRest⟩
          same := fun k hk hNe _ =>
            (hOld k hk.direct (h.owns hk)
              (Nat.ne_of_lt hk.lt)).trans
                (h.wroteHead_fileBlock_of_ne hHas _
                  (h.owns hk) hNe) }

end

------------------------------------------------------------
-- Representing a Store
------------------------------------------------------------

/- Files by the numbers of their inodes. -/
abbrev Files : Type :=
  Store UInt32 UInt8

/- All known bytes are stored. -/
def Fs.Holds
    (s : Fs)
    (inodes : UInt32 → Prop)
    (known : Contents UInt32 UInt8) : Prop :=
  ∀ n x b, known n x = some b → s.Stores inodes n x b

/-
  The file that is open and exists, its position, and what
  its buffer holds of what the cursor sees there.
-/
structure Placed
    (s : Fs)
    (known : Contents UInt32 UInt8)
    (n : UInt32)
    (pos : Nat)
    (blank : Bool) : Prop where
  isOpen : s.file.isOpen
  exist : s.file.exist
  num : s.file.inodeNum = n
  used : s.InodeUsed n
  atPos : s.file.pos.toNat = pos
  buff :
    ∀ x b, shown 4096 0 known n pos blank n x = some b →
      x / 4096 = pos / 4096 → s.file.buff.get (x % 4096) = b

/- The descriptor is where the cursor is. -/
def CursorOk
    (s : Fs)
    (known : Contents UInt32 UInt8) : Cursor UInt32 → Prop
  | .shut => s.file.isOpen = false
  | .pending =>
      s.file.isOpen ∧ s.file.exist = false ∧
        s.file.buff = .fill buffSize 0
  | .fresh n => Placed s known n 0 true
  | .loaded n pos => Placed s known n pos false

/- All known bytes are stored, in files among `inodes`. -/
structure Mirrors
    (inodes : UInt32 → Prop)
    (s : Fs)
    (σ : Files) : Prop where
  holds : s.Holds inodes σ.known
  cursor : CursorOk s σ.known σ.cursor

/- An access to an existing file finds it so. -/
structure Reached
    (inodes : UInt32 → Prop)
    (s : Fs)
    (σ : Files)
    (n : UInt32)
    (pos : Nat)
    (blank : Bool) : Prop where
  reaches : Reaches σ n pos blank
  holds : s.Holds inodes σ.known
  placed : Placed s σ.known n pos blank

section

variable {inodes inodes' : UInt32 → Prop}
variable {owners : Owners} {s t : Fs} {σ : Files}
variable {n : UInt32} {pos : Nat} {blank : Bool}

theorem Mirrors.mono
    (hMirrors : Mirrors inodes s σ)
    (hMore : ∀ n, inodes n → inodes' n) :
    Mirrors inodes' s σ :=
  ⟨fun n x b hKnown =>
    (hMirrors.holds n x b hKnown).mono (hMore n),
    hMirrors.cursor⟩

/- The cursor of an existing open file. -/
theorem Mirrors.reached
    (hMirrors : Mirrors inodes s σ)
    (hOpen : s.file.isOpen)
    (hExist : s.file.exist) :
    ∃ pos blank,
      Reached inodes s σ s.file.inodeNum pos blank := by
  have hCursor := hMirrors.cursor
  cases hAt : σ.cursor with
  | shut =>
      rw [hAt] at hCursor
      exact absurd (hOpen.symm.trans hCursor) (by simp)
  | pending =>
      rw [hAt] at hCursor
      exact absurd (hExist.symm.trans hCursor.2.1) (by simp)
  | fresh n =>
      rw [hAt] at hCursor
      rw [hCursor.num]
      exact ⟨0, true, .fresh n hAt, hMirrors.holds, hCursor⟩
  | loaded n pos =>
      rw [hAt] at hCursor
      rw [hCursor.num]
      exact ⟨pos, false, .loaded n pos hAt, hMirrors.holds,
        hCursor⟩

/- The cursor of an open file that does not exist yet. -/
theorem Mirrors.pending
    (hMirrors : Mirrors inodes s σ)
    (hOpen : s.file.isOpen)
    (hAbsent : s.file.exist = false) :
    σ.cursor = .pending ∧
      s.file.buff = .fill buffSize 0 := by
  have hCursor := hMirrors.cursor
  cases hAt : σ.cursor with
  | pending =>
      rw [hAt] at hCursor
      exact ⟨rfl, hCursor.2.2⟩
  | shut =>
      rw [hAt] at hCursor
      exact absurd (hOpen.symm.trans hCursor) (by simp)
  | fresh n =>
      rw [hAt] at hCursor
      exact absurd (hAbsent.symm.trans hCursor.exist) (by simp)
  | loaded n pos =>
      rw [hAt] at hCursor
      exact absurd (hAbsent.symm.trans hCursor.exist) (by simp)

/- A failing access may leave it at that. -/
theorem Reached.stay
    (hReached : Reached inodes s σ n pos blank)
    (op : Op UInt8) :
    ∃ τ, Step 4096 0 σ op false τ ∧ Mirrors inodes s τ := by
  rcases hReached with ⟨hReaches, hHolds, hPlaced⟩
  cases hReaches with
  | fresh hCursor =>
      exact ⟨σ, .refused op, hHolds, hCursor ▸ hPlaced⟩
  | loaded _ hCursor =>
      exact ⟨σ, .refused op, hHolds, hCursor ▸ hPlaced⟩
  | created hCursor hNew =>
      exact ⟨_, .created op n hCursor hNew, hHolds, hPlaced⟩

/- The open file stores what its descriptor's blocks hold. -/
theorem Reached.fileBlock
    (hReached : Reached inodes s σ n pos blank)
    (hFile : FileOk inodes s)
    {x : Nat}
    {b : UInt8}
    (hKnown : σ.known n x = some b) :
    ∃ hHas : s.file.inode.HasBlock (x / 4096),
      (s.fileBlock (x / 4096) hHas.direct).get
        (x % 4096) = b := by
  have hPlaced := hReached.placed
  have hStores := hReached.holds n x b hKnown
  rw [← hPlaced.num] at hStores
  exact hStores.fileBlock
    (hFile.stored hPlaced.isOpen hPlaced.exist)

/- Contents that the blocks after a write show. -/
theorem Reached.stored
    {content : Block}
    {rest : Option Block}
    (hReached : Reached inodes s σ n pos blank)
    (h : ImageOkFor inodes owners s)
    (hFile : FileOk inodes s)
    (hFile' : FileOk inodes t)
    (hSpares : SparesFiles owners n s t)
    (hStored : Stored content rest s t)
    {known : Contents UInt32 UInt8}
    (hOther : ∀ m x, m ≠ n → known m x = σ.known m x)
    (hHead : ∀ x b, known n x = some b →
      x / 4096 = pos / 4096 → content.get (x % 4096) = b)
    (hNext : ∀ r, rest = some r → ∀ x b,
      known n x = some b → x / 4096 = pos / 4096 + 1 →
        r.get (x % 4096) = b)
    (hSame : ∀ x b, known n x = some b →
      x / 4096 ≠ pos / 4096 →
        x / 4096 ≠ pos / 4096 + 1 ∨ rest = none →
          σ.known n x = some b) :
    Mirrors inodes t
      { known := known
        cursor := .loaded n pos } := by
  have hPlaced := hReached.placed
  have hOpen := hStored.isOpen.trans hPlaced.isOpen
  have hExist := hStored.exist.trans hPlaced.exist
  have hNum : t.file.inodeNum = n :=
    hStored.num.trans hPlaced.num
  have hUsed := hSpares.used n hPlaced.used
  have hBlock : s.file.block = pos / 4096 := by
    rw [File.block, hPlaced.atPos]
  refine ⟨?_, ?_⟩
  · intro m x b hKnown
    by_cases hNe : m = n
    · subst hNe
      have hOpenStores
          (hHas : t.file.inode.HasBlock (x / 4096))
          (hByte : (t.fileBlock (x / 4096) hHas.direct).get
            (x % 4096) = b) :
          t.Stores inodes m x b := by
        have hStores := Fs.Stores.of_fileBlock hFile' hOpen
          hExist (hNum.symm ▸ hUsed) hHas hByte
        rwa [hNum] at hStores
      by_cases hFirst : x / 4096 = pos / 4096
      · have hContent := hStored.head
        have hHas := hStored.keeps _ hStored.has
        have hIndex : s.file.block = x / 4096 :=
          hBlock.trans hFirst.symm
        simp only [hIndex] at hContent hHas
        refine hOpenStores hHas ?_
        rw [hContent]
        exact hHead x b hKnown hFirst
      · by_cases hLater :
            x / 4096 ≠ pos / 4096 + 1 ∨ rest = none
        · rcases hReached.fileBlock hFile
              (hSame x b hKnown hFirst hLater) with
            ⟨hHas, hByte⟩
          refine hOpenStores (hStored.keeps _ hHas) ?_
          rw [hStored.same _ hHas (by rwa [hBlock])
            (by rwa [hBlock])]
          exact hByte
        · rw [not_or, not_not] at hLater
          rcases Option.ne_none_iff_exists'.mp hLater.2 with
            ⟨r, hRest⟩
          rcases hStored.next r hRest with ⟨hHas, hContent⟩
          have hIndex : s.file.block + 1 = x / 4096 := by
            rw [hBlock, hLater.1]
          simp only [hIndex] at hHas hContent
          refine hOpenStores hHas ?_
          rw [hContent]
          exact hNext r hRest x b hKnown hLater.1
    · have hOld := (hOther m x hNe).symm.trans hKnown
      exact (hReached.holds m x b hOld).of_spares h hSpares hNe
  · exact
      { isOpen := hOpen
        exist := hExist
        num := hNum
        used := hUsed
        atPos := by rw [hStored.pos, hPlaced.atPos]
        buff := fun x b hKnown hFirst => by
          rw [hStored.buff]
          exact hHead x b hKnown hFirst }

------------------------------------------------------------
-- Writing
------------------------------------------------------------

/- Bytes of the first block of a write. -/
theorem Placed.headBuff
    (hPlaced : Placed s σ.known n pos blank)
    {data : Nat → UInt8}
    {base : Contents UInt32 UInt8}
    {len size x : Nat}
    {b : UInt8}
    (hKnown : put base n pos size data n x = some b)
    (hBase : base n x = shown 4096 0 σ.known n pos blank n x)
    (hFirst : x / 4096 = pos / 4096)
    (hSize : size = len ∨
      pos % 4096 + len = 4096 ∧ len ≤ size) :
    (s.headBuff data len).get (x % 4096) = b := by
  have hOff : s.file.off = pos % 4096 := by
    rw [File.off, hPlaced.atPos]
  have hx := Nat.div_add_mod x 4096
  have hPos := Nat.div_add_mod pos 4096
  have hMod : x % 4096 < 4096 := Nat.mod_lt _ (by omega)
  rw [Fs.headBuff, ByteBuffer.get_splice _ _ _ _ hMod, hOff]
  by_cases hIn : pos ≤ x ∧ x < pos + size
  · rw [put_inside _ _ _ hIn.1 hIn.2, Option.some.injEq]
      at hKnown
    have hIndex : x % 4096 - pos % 4096 = x - pos := by omega
    rw [if_pos (by omega), hIndex, hKnown]
  · rw [put_outside _ _ _ (by omega)] at hKnown
    rw [if_neg (by omega)]
    exact hPlaced.buff x b (hBase.symm.trans hKnown) hFirst

/- A write in range is a step of the store. -/
theorem Reached.write
    {data : Nat → UInt8}
    {size : UInt32}
    {err : UInt8}
    (hReached : Reached inodes s σ n pos blank)
    (h : ImageOkFor inodes owners s)
    (hFile : FileOk inodes s)
    (hFile' : FileOk inodes t)
    (hSpares : SparesFiles owners n s t)
    (hWrote : Wrote data size s err t) :
    ∃ τ, Step 4096 0 σ (.writes size.toNat data) (err == 0) τ ∧
      Mirrors inodes t τ := by
  have hPlaced := hReached.placed
  have hOff : s.file.off = pos % 4096 := by
    rw [File.off, hPlaced.atPos]
  have hPos := Nat.div_add_mod pos 4096
  have hMod : pos % 4096 < 4096 := Nat.mod_lt _ (by omega)
  have hBorder : border 4096 pos = 4096 * (pos / 4096 + 1) :=
    rfl
  cases hWrote with
  | refused => exact hReached.stay _
  | inside hFits hStored =>
      rw [hOff] at hFits
      refine ⟨_, .wrote n pos blank _ data hReached.reaches,
        ?_⟩
      have hNoSpill : ¬ border 4096 pos < pos + size.toNat := by
        omega
      refine hReached.stored h hFile hFile' hSpares hStored
        (fun m x hNe => written_other _ _ _ _ _ _ _ hNe x)
        ?_ (fun r hRest => absurd hRest (by simp)) ?_
      · intro x b hKnown hFirst
        rw [written, if_neg hNoSpill] at hKnown
        exact hPlaced.headBuff hKnown rfl hFirst (.inl rfl)
      · intro x b hKnown hFirst _
        rw [written, if_neg hNoSpill,
          put_outside _ _ _ (by omega),
          shown_outside _ _ _ _ _ hFirst] at hKnown
        exact hKnown
  | across hSize hSpill hStored =>
      rw [hOff] at hSpill
      refine ⟨_, .wrote n pos blank _ data hReached.reaches,
        ?_⟩
      have hSpills : border 4096 pos < pos + size.toNat := by
        omega
      refine hReached.stored h hFile hFile' hSpares hStored
        (fun m x hNe => written_other _ _ _ _ _ _ _ hNe x)
        ?_ ?_ ?_
      · intro x b hKnown hFirst
        rw [written, if_pos hSpills] at hKnown
        exact hPlaced.headBuff hKnown
          (wipe_outside _ _ _ _ (by omega)) hFirst
          (.inr (by omega))
      · intro r hRest x b hKnown hNext
        cases hRest
        have hIndex : x % 4096 < 4096 := Nat.mod_lt _ (by omega)
        have hx := Nat.div_add_mod x 4096
        rw [written, if_pos hSpills] at hKnown
        rw [get_restOf (by omega) hIndex, hOff]
        by_cases hIn : x < pos + size.toNat
        · rw [put_inside _ _ _ (by omega) hIn,
            Option.some.injEq] at hKnown
          have hData : 4096 - pos % 4096 + x % 4096 =
              x - pos := by omega
          rw [if_pos (by omega), hData, hKnown]
        · rw [put_outside _ _ _ (by omega),
            wipe_inside _ _ _ _ hNext,
            Option.some.injEq] at hKnown
          rw [if_neg (by omega), hKnown]
      · intro x b hKnown hFirst hLater
        have hNotNext : x / 4096 ≠ pos / 4096 + 1 := by
          simpa using hLater
        have hx := Nat.div_add_mod x 4096
        rw [written, if_pos hSpills,
          put_outside _ _ _ (by omega),
          wipe_outside _ _ _ _ hNotNext,
          shown_outside _ _ _ _ _ hFirst] at hKnown
        exact hKnown
  | torn hSpill hStored =>
      rw [hOff] at hSpill
      have hSpills : border 4096 pos < pos + size.toNat := by
        omega
      refine ⟨_, .tore n pos blank _ data hReached.reaches
        hSpills, ?_⟩
      refine hReached.stored h hFile hFile' hSpares hStored
        (fun m x hNe => torn_other _ _ _ _ _ _ hNe x)
        ?_ (fun r hRest => absurd hRest (by simp)) ?_
      · intro x b hKnown hFirst
        exact hPlaced.headBuff hKnown rfl hFirst
          (.inl (by omega))
      · intro x b hKnown hFirst _
        rw [torn, put_outside _ _ _ (by omega),
          shown_outside _ _ _ _ _ hFirst] at hKnown
        exact hKnown

------------------------------------------------------------
-- Seeking and Reading
------------------------------------------------------------

/- What a seek does to the descriptor. -/
theorem SeekOutcome.descriptor
    {newPos : UInt32}
    {err : UInt8}
    (hOut : SeekOutcome newPos s err t) :
    t.file.isOpen = s.file.isOpen ∧
      t.file.exist = s.file.exist ∧
      t.file.inodeNum = s.file.inodeNum ∧
      t.file.pos = newPos ∧
      ∀ k, s.file.inode.HasBlock k →
        t.file.inode.HasBlock k := by
  cases hOut with
  | loaded => exact ⟨rfl, rfl, rfl, rfl, fun _ hk => hk⟩
  | noBlock => exact ⟨rfl, rfl, rfl, rfl, fun _ hk => hk⟩
  | noPointer => exact ⟨rfl, rfl, rfl, rfl, fun _ hk => hk⟩
  | grown i hLe hDirect hNext =>
      refine ⟨rfl, rfl, rfl, rfl, fun k hk => ?_⟩
      have hMore := hk.grown (s := s.movedTo newPos) hDirect i
      exact ⟨hMore.direct, hMore.lt, hMore.set⟩

/- However a seek ends, the cursor is at the new position. -/
theorem Reached.seek
    {newPos : UInt32}
    {err : UInt8}
    (hReached : Reached inodes s σ n pos blank)
    (h : Editing inodes owners s)
    (hFile : FileOk inodes s)
    (hFile' : FileOk inodes t)
    (hSpares : SparesFiles owners n s t)
    (hOut : SeekOutcome newPos s err t) :
    Mirrors inodes t
      { σ with cursor := .loaded n newPos.toNat } := by
  have hPlaced := hReached.placed
  rcases hOut.descriptor with
    ⟨hOpen, hExist, hNum, hPos, hKeeps⟩
  have hOpen' := hOpen.trans hPlaced.isOpen
  have hExist' := hExist.trans hPlaced.exist
  have hNum' : t.file.inodeNum = n := hNum.trans hPlaced.num
  have hUsed := hSpares.used n hPlaced.used
  constructor
  · intro m x b hKnown
    by_cases hNe : m = n
    · subst hNe
      rcases hReached.fileBlock hFile hKnown with
        ⟨hHas, hByte⟩
      have hByte' : (t.fileBlock (x / 4096) hHas.direct).get
          (x % 4096) = b := by
        rw [hOut.fileBlock_of_ne h (h.owns hHas)
          (Nat.ne_of_lt hHas.lt)]
        exact hByte
      have hStores := Fs.Stores.of_fileBlock hFile' hOpen'
        hExist' (hNum'.symm ▸ hUsed) (hKeeps _ hHas) hByte'
      rwa [hNum'] at hStores
    · exact (hReached.holds m x b hKnown).of_spares h.image
        hSpares hNe
  · exact
      { isOpen := hOpen'
        exist := hExist'
        num := hNum'
        used := hUsed
        atPos := congrArg UInt32.toNat hPos
        buff := fun x b hKnown hFirst => by
          rcases hReached.fileBlock hFile hKnown with
            ⟨hHas, hByte⟩
          simp only [hFirst] at hHas hByte
          rw [(hOut.buff_of_lt hHas.direct hHas.lt).2,
            hOut.fileBlock_of_ne h (h.owns hHas)
              (Nat.ne_of_lt hHas.lt)]
          exact hByte }

/- A blank buffer holds zeros. -/
theorem Placed.buff_zero
    (hPlaced : Placed s σ.known n 0 true)
    {i : Nat}
    (hi : i < 4096) :
    s.file.buff.get i = 0 := by
  have hDiv : i / 4096 = 0 := Nat.div_eq_of_lt hi
  have hZero := hPlaced.buff i 0
    (wipe_inside _ _ _ _ hDiv) hDiv
  rwa [Nat.mod_eq_of_lt hi] at hZero

/- A read delivers what is known of the open file. -/
theorem Reached.read
    {out out' : Nat → UInt8}
    {size : UInt32}
    (hReached : Reached inodes s σ n pos false)
    (hFile : FileOk inodes s)
    (hSteady : s.Steady)
    (hRun : ext2Fread out size s = some (0, out', t)) :
    ∀ i, i < size.toNat → ∀ b,
      σ.known n (pos + i) = some b → out' i = b := by
  intro i hi b hKnown
  have hPlaced := hReached.placed
  have hOpen := hPlaced.isOpen
  have hOff : s.file.off = pos % 4096 := by
    rw [File.off, hPlaced.atPos]
  have hBlock : s.file.block = pos / 4096 := by
    rw [File.block, hPlaced.atPos]
  have hLow : pos % 4096 < 4096 := Nat.mod_lt _ (by omega)
  have hSize : size.toNat ≤ 4096 := by
    by_contra hBig
    rw [ext2Fread_of_big hSteady (by omega) out] at hRun
    cases hRun
  -- bytes before the end of the block are in the buffer
  have hHead (hIn : pos % 4096 + i < 4096) :
      s.file.buff.get (s.file.off + i) = b := by
    have hDiv : (pos + i) / 4096 = pos / 4096 := by omega
    have hMod : (pos + i) % 4096 = pos % 4096 + i := by omega
    have hByte := hPlaced.buff (pos + i) b hKnown hDiv
    rwa [hMod, ← hOff] at hByte
  by_cases hFits : s.file.off + size.toNat ≤ 4096
  · rw [ext2Fread_of_inside hSteady hOpen hFits] at hRun
    cases hRun
    beta_reduce
    rw [if_pos hi, hHead (by omega)]
  · rw [ext2Fread_of_spilling hSteady hOpen hSize (by omega)]
      at hRun
    rcases Option.bind_eq_some_iff.mp hRun with
      ⟨ptr, hPtr, hRun⟩
    cases hRun
    beta_reduce
    by_cases hIn : pos % 4096 + i < 4096
    · rw [if_pos (by omega), hHead hIn]
    · have hDiv : (pos + i) / 4096 = s.file.block + 1 := by
        omega
      have hMod : (pos + i) % 4096 =
          i - (4096 - s.file.off) := by omega
      rcases hReached.fileBlock hFile hKnown with
        ⟨hHas, hByte⟩
      simp only [hDiv, hMod] at hHas hByte
      rw [blockPtr_of_lt _ hHas.direct, Option.some.injEq]
        at hPtr
      rw [if_neg (by omega), if_pos hi, ← hPtr]
      exact hByte

/- A read at a blank buffer delivers zeros. -/
theorem ext2Fread_blank
    {out out' : Nat → UInt8}
    {size : UInt32}
    (hSteady : s.Steady)
    (hOpen : s.file.isOpen)
    (hPos : s.file.pos.toNat = 0)
    (hZeros : ∀ i, i < 4096 → s.file.buff.get i = 0)
    (hRun : ext2Fread out size s = some (0, out', t)) :
    ∀ i, i < size.toNat → out' i = 0 := by
  intro i hi
  have hOff : s.file.off = 0 := by
    rw [File.off, hPos]
  have hSize : size.toNat ≤ 4096 := by
    by_contra hBig
    rw [ext2Fread_of_big hSteady (by omega) out] at hRun
    cases hRun
  rw [ext2Fread_of_inside hSteady hOpen (by omega)] at hRun
  cases hRun
  beta_reduce
  rw [if_pos hi, hOff, Nat.zero_add]
  exact hZeros i (by omega)

------------------------------------------------------------
-- Creating on Demand
------------------------------------------------------------

/- Known bytes survive what spares every file. -/
theorem Fs.Holds.of_spares
    {known : Contents UInt32 UInt8}
    (hHolds : s.Holds inodes known)
    (h : ImageOkFor inodes owners s)
    (hSpares : SparesFiles owners 0 s t) :
    t.Holds inodes known := by
  intro m x b hKnown
  have hStores := hHolds m x b hKnown
  exact hStores.of_spares h hSpares hStores.used.ne_zero

/- The file of an access exists or is created. -/
theorem Mirrors.ensure
    {stack : CreateStack}
    {code : UInt8}
    {owners' : Owners}
    (hMirrors : Mirrors owners.live s σ)
    (h : ImageOk owners s)
    (hFile : FileOk owners.live s)
    (hOpen : s.file.isOpen)
    (hEnsure : ensureExists stack s = some (code, t))
    (hMore : Extends owners owners') :
    (code ≠ 0 → Mirrors owners'.live t σ) ∧
      (code = 0 → ∃ n pos blank,
        Reached owners'.live t σ n pos blank) := by
  have hMirrors' := hMirrors.mono hMore.live
  cases hExist : s.file.exist with
  | true =>
      rw [ensureExists_of_exist hExist] at hEnsure
      cases hEnsure
      exact ⟨fun _ => hMirrors', fun _ =>
        ⟨_, hMirrors'.reached hOpen hExist⟩⟩
  | false =>
      rcases ensureExists_spares h hEnsure with
        ⟨hSpares, hNew⟩
      have hHolds : t.Holds owners'.live σ.known :=
        fun n x b hKnown =>
          (hMirrors.holds.of_spares h (hSpares 0) n x b
            hKnown).mono (hMore.live n)
      rcases hMirrors.pending hOpen hExist with ⟨hAt, hZeros⟩
      rw [ensureExists, if_neg (by simp [hExist])] at hEnsure
      rcases ext2FileCreate_created h hEnsure with
        ⟨owners₁, hCreated⟩
      have hOpen' : t.file.isOpen = true := by
        rw [hCreated.file]
        exact hOpen
      have hBuff : t.file.buff = .fill buffSize 0 := by
        rw [hCreated.file]
        exact hZeros
      constructor
      · intro hCode
        have hAbsent := (hCreated.failed hCode).trans hExist
        exact ⟨hHolds, hAt ▸ ⟨hOpen', hAbsent, hBuff⟩⟩
      · intro hCode
        rcases hNew hCode with ⟨-, hOld⟩ | ⟨hFree, hUsed⟩
        · exact absurd (hOld.symm.trans hExist) (by simp)
        · have hUnknown (x : Nat) :
              σ.known t.file.inodeNum x = none := by
            by_contra hSome
            rcases Option.ne_none_iff_exists'.mp hSome with
              ⟨b, hKnown⟩
            exact hFree (hMirrors.holds _ x b hKnown).used
          have hPos : t.file.pos = 0 := by
            rw [hCreated.file]
            exact hFile.fresh hOpen hExist
          exact ⟨_, 0, true, .created _ hAt hUnknown, hHolds,
            { isOpen := hOpen'
              exist := hCreated.exist hCode
              num := rfl
              used := hUsed
              atPos := congrArg UInt32.toNat hPos
              buff := fun x b hKnown hFirst => by
                have hBlank := wipe_inside 4096 (0 : UInt8)
                  σ.known t.file.inodeNum hFirst
                have hZero : b = 0 := Option.some.inj
                  (hKnown.symm.trans hBlank)
                rw [hBuff, hZero]
                exact ByteBuffer.get_fill_zero _ }⟩

end

end Ext2

end Ester
