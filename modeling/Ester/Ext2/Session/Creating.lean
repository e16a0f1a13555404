import Ester.Ext2.Directory.Adding
import Ester.Ext2.Session.Frame
import Ester.Ext2.Session.Growing

/-
  Creating the open file in a well-formed image.

  Creation resolves the parent, takes an inode and a block
  of the parent's group, stores the new inode and enters it
  in the parent.  It may stop after each of these steps, and
  the image is well formed wherever it stops.

  Key definitions include:
    * `ResolvesParent`
    * `Fs.committed` and `Linked`
    * `Fs.taken`, `Fs.placed`
    * `CreateOutcome`
    * `Created`

  Key theorems include:
    * `ext2FileCreate_cases`
    * `commitNew_cases`
    * `createIn_outcome`
    * `ext2FileCreate_outcome`
    * `ext2FileCreate_created`
-/

------------------------------------------------------------
-- Images and the Descriptor
------------------------------------------------------------

namespace Ester

namespace Ext2

section

variable {owners : Owners} {s t : Fs}
variable {parent : UInt32} {garbage : Inode}
variable {name : List UInt8} {err : UInt8}

@[simp] theorem Fs.setFile_layout
    (file : File) :
    (s.setFile file).layout = s.layout := rfl

@[simp] theorem Fs.setFile_inodeAt
    (file : File)
    (n : UInt32) :
    (s.setFile file).inodeAt n = s.inodeAt n := rfl

/- The descriptor is not part of the image. -/
theorem ImageOkFor.setFile
    {inodes : UInt32 → Prop}
    (h : ImageOkFor inodes owners s)
    (file : File) :
    ImageOkFor inodes owners (s.setFile file) :=
  h.congr rfl rfl rfl rfl

------------------------------------------------------------
-- Resolving the Parent
------------------------------------------------------------

/-
  The path of the open file fits, and the lookup of its
  parent ends at inode `parent`, extracted in state `v`.
-/
def ResolvesParent
    (stack : CreateStack)
    (s : Fs)
    (parent : UInt32)
    (v : Fs) : Prop :=
  ∃ len depth rows path u,
    strlen (s.file.pathname.bytesFrom 0) = some len ∧
      len ≤ maxPathLen ∧
      unpackDirPath (s.file.pathname.bytesFrom 0)
        stack.unpackedPath = some (depth, rows) ∧
      depth.toNat ≤ maxPathDepth ∧
      glueRows rows (depth.toNat - 1) 0
        stack.parentPathname = some path ∧
      ext2InodeFind (path.bytesFrom 0) stack.find s =
        some (parent, u) ∧
      ext2ExtractInode parent u = some v

/- Resolving the parent only looks things up. -/
theorem ResolvesParent.untouched
    {stack : CreateStack}
    {parent : UInt32}
    {v : Fs}
    (h : ResolvesParent stack s parent v) :
    Untouched s v := by
  rcases h with ⟨len, depth, rows, path, u, -, -, -, -, -,
    hFind, hExtract⟩
  exact (ext2InodeFind_untouched hFind).trans
    (ext2ExtractInode_untouched hExtract)

/- In a well-formed image the parent is live. -/
theorem ResolvesParent.live
    {stack : CreateStack}
    {v : Fs}
    (hParent : ResolvesParent stack s parent v)
    (h : ImageOk owners s) :
    LiveInode s.layout owners parent ∧
      v = s.setCurrentInode (s.inodeAt parent) := by
  rcases hParent with ⟨len, depth, rows, path, u, -, -, -, -,
    -, hFind, hExtract⟩
  rcases ext2InodeFind_live h hFind with ⟨hLive, inode, rfl⟩
  have hSet := h.setCurrentInode inode
  rw [ext2ExtractInode_eq hSet.steady hSet.layout hLive.valid]
    at hExtract
  cases hExtract
  exact ⟨hLive, rfl⟩

/- There is one way to resolve the parent. -/
theorem ResolvesParent.unique
    {stack : CreateStack}
    {p p' : UInt32}
    {v v' : Fs}
    (h : ResolvesParent stack s p v)
    (h' : ResolvesParent stack s p' v') :
    p = p' ∧ v = v' := by
  rcases h with ⟨len, depth, rows, path, u, -, -, hUnpack, -,
    hGlue, hFind, hExtract⟩
  rcases h' with ⟨len', depth', rows', path', u', -, -,
    hUnpack', -, hGlue', hFind', hExtract'⟩
  cases hUnpack.symm.trans hUnpack'
  cases hGlue.symm.trans hGlue'
  cases hFind.symm.trans hFind'
  exact ⟨rfl, Option.some.inj (hExtract.symm.trans hExtract')⟩

/-
  A creation stops at the path or creates in the parent it
  resolved.
-/
theorem ext2FileCreate_cases
    {stack : CreateStack}
    {err : UInt8}
    (hCreate : ext2FileCreate stack s = some (err, t)) :
    (err = 1 ∧ t = s ∧
        ∀ parent v, ¬ ResolvesParent stack s parent v) ∨
      ∃ parent v name, ResolvesParent stack s parent v ∧
        createIn parent stack.newInode name v =
          some (err, t) := by
  simp only [ext2FileCreate, Option.bind_eq_bind,
    Option.bind_eq_some_iff] at hCreate
  rcases hCreate with ⟨len, hLen, hCreate⟩
  split at hCreate
  · next hLong =>
      cases hCreate
      refine .inl ⟨rfl, rfl, ?_⟩
      rintro parent v ⟨len', -, -, -, -, hLen', hShort, -⟩
      cases hLen.symm.trans hLen'
      omega
  · next hShort =>
      simp only [Option.bind_eq_some_iff] at hCreate
      rcases hCreate with ⟨⟨depth, rows⟩, hUnpack, hCreate⟩
      split at hCreate
      · next hDeep =>
          cases hCreate
          refine .inl ⟨rfl, rfl, ?_⟩
          rintro parent v
            ⟨-, depth', rows', -, -, -, -, hUnpack', hLe, -⟩
          cases hUnpack.symm.trans hUnpack'
          exact absurd hLe (Nat.not_le.mpr hDeep)
      · next hLe =>
          simp only [Option.bind_eq_some_iff] at hCreate
          rcases hCreate with ⟨path, hGlue, ⟨parent, u⟩,
            hFind, v, hExtract, hCreate⟩
          exact .inr ⟨parent, v, _,
            ⟨len, depth, rows, path, u, hLen,
              Nat.not_lt.mp hShort, hUnpack, Nat.not_lt.mp hLe,
              hGlue, hFind, hExtract⟩, hCreate⟩

------------------------------------------------------------
-- Where Creation Stops
------------------------------------------------------------


/- Claiming from one bitmap leaves the scans of the others. -/
theorem Fs.nextFree_claim_of_ne
    (h : ImageOk owners s)
    {r r' : Resource}
    {g g' : Fin maxGroups}
    (hg : g < s.layout.groups)
    (hg' : g' < s.layout.groups)
    (hNe : (r', g') ≠ (r, g))
    (i : Nat) :
    (s.claim r g i).nextFree r' g' = s.nextFree r' g' := by
  rw [Fs.nextFree, Fs.nextFree, Fs.claim_layout,
    Fs.bitmapBlock_claim h.layout.toBitmapsOk rfl hg hg',
    if_neg hNe]

/-
  The state after a new inode was remembered in the open file
  and stored.
-/
def Fs.committed
    (s : Fs)
    (n : UInt32)
    (inode : Inode) : Fs :=
  (s.setFile { s.file with
    inodeNum := n
    inode := inode }).putInode n inode

@[simp] theorem Fs.committed_layout
    (n : UInt32)
    (inode : Inode) :
    (s.committed n inode).layout = s.layout := rfl

@[simp] theorem Fs.committed_file
    (n : UInt32)
    (inode : Inode) :
    (s.committed n inode).file = { s.file with
      inodeNum := n
      inode := inode } := rfl

/-
  Committing an inode completes an image whose other live
  inodes are well formed.
-/
theorem ImageOkFor.committed
    {inodes : UInt32 → Prop}
    (h : ImageOkFor inodes owners s)
    {n : UInt32}
    (hOthers : ∀ m, owners.live m → m = n ∨ inodes m)
    (hn : s.layout.ValidInode n)
    {inode : Inode}
    (hSlot : SlotOk s.layout owners s.disk n inode) :
    ImageOk owners (s.committed n inode) :=
  ((h.setFile { s.file with
    inodeNum := n
    inode := inode }).putInode hn hSlot).mono hOthers

/- At most one block of a directory was replaced. -/
inductive Linked
    (owners : Owners)
    (parent : UInt32)
    (s : Fs) : Fs → Prop
  | nowhere : Linked owners parent s s
  | entered
      (b : UInt32)
      (content : Block)
      (k : Nat)
      (hb : owners b = some (.data parent k))
      (hOk : DirBlockOk s.layout owners content) :
      Linked owners parent s (s.putBlock b content)

namespace Linked

theorem image
    (hLink : Linked owners parent s t)
    (h : ImageOk owners s) :
    ImageOk owners t := by
  cases hLink with
  | nowhere => exact h
  | entered b content k hb hOk =>
      exact h.putData hb fun _ _ => hOk

theorem layout
    (hLink : Linked owners parent s t) :
    t.layout = s.layout := by
  cases hLink <;> rfl

theorem file
    (hLink : Linked owners parent s t) :
    t.file = s.file := by
  cases hLink <;> rfl

theorem dataWrites
    (hLink : Linked owners parent s t) :
    t.dataWrites = s.dataWrites := by
  cases hLink <;> rfl

theorem inodeAt
    (hLink : Linked owners parent s t)
    (h : ImageOk owners s)
    {n : UInt32}
    (hn : s.layout.ValidInode n) :
    t.inodeAt n = s.inodeAt n := by
  cases hLink with
  | nowhere => rfl
  | entered b content k hb hOk =>
      exact Fs.inodeAt_putBlock _ _ (h.ne_slotBlock hb hn)

theorem bitmapBlock
    (hLink : Linked owners parent s t)
    (h : ImageOk owners s)
    (r : Resource)
    {g : Fin maxGroups}
    (hg : g < s.layout.groups) :
    t.bitmapBlock r g = s.bitmapBlock r g := by
  cases hLink with
  | nowhere => rfl
  | entered b content k hb hOk =>
      exact Fs.bitmapBlock_putBlock h hb content r hg

end Linked

/-
  Committing stores the inode, then enters it in the parent.
-/
theorem commitNew_cases
    {inodes : UInt32 → Prop}
    (h : ImageOkFor inodes owners s)
    {parentInode newInode : Inode}
    (hParent :
      SlotOk s.layout owners s.disk parent parentInode)
    {n : UInt32}
    (hOthers : ∀ m, owners.live m → m = n ∨ inodes m)
    (hn : LiveInode s.layout owners n)
    (hNew : SlotOk s.layout owners s.disk n newInode)
    (hCommit : commitNew parentInode n newInode name s =
      some (err, t)) :
    ∃ code u,
      ext2AddDirEntry parentInode n name
        (s.committed n newInode) = some (code, u) ∧
      Linked owners parent (s.committed n newInode) u ∧
      ((code ≠ 0 ∧ err = 1 ∧ t = u) ∨
        (code = 0 ∧ err = 0 ∧
          t = u.setFile { u.file with exist := true })) := by
  have hSteady := (h.setFile { s.file with
    inodeNum := n
    inode := newInode }).steady
  have hPut := h.committed hOthers hn.valid hNew
  -- the parent's blocks are no inode table
  have hParent' : SlotOk s.layout owners
      (s.committed n newInode).disk parent parentInode :=
    hParent.mono (.refl owners) fun b k _ hb hOk => by
      have hDisk : (s.committed n newInode).disk b =
          s.disk b :=
        Fs.putInode_disk_of_ne _ _ _
          (h.ne_slotBlock hb hn.valid).symm
      exact hDisk.symm ▸ hOk
  rw [commitNew, ext2InodeWrite_eq hSteady h.layout hn.valid]
    at hCommit
  simp only [Option.bind_eq_bind, Option.bind_some,
    Option.bind_eq_some_iff] at hCommit
  rcases hCommit with ⟨⟨code, u⟩, hAdd, hCommit⟩
  refine ⟨code, u, hAdd, ?_, ?_⟩
  · rcases ext2AddDirEntry_cases hPut hParent' hn hAdd with
      rfl | ⟨b, content, k, hb, hOk, rfl⟩
    · exact .nowhere
    · exact .entered b content k hb hOk
  · split at hCommit
    · next hCode =>
        cases hCommit
        exact .inl ⟨hCode, rfl, rfl⟩
    · next hCode =>
        cases hCommit
        exact .inr ⟨not_not.mp hCode, rfl, rfl⟩

/- A file of one block is well formed by its one label. -/
theorem SlotOk.of_one
    {L : Layout}
    {disk : UInt32 → Block}
    {n : UInt32}
    {inode : Inode}
    (hDir : inode.isDir = false)
    (hOne : inode.allocated = 1)
    (hFirst : owners (inode.direct 0 (by decide)) =
      some (.data n 0)) :
    SlotOk L owners disk n inode where
  kind _ := hDir
  file _ k hk hLt _ := by
    have h0 : k = 0 := by omega
    subst h0
    exact hFirst
  pointer _ hMany := by
    rw [hOne] at hMany
    exact absurd hMany (by decide)
  dir hIs := by
    rw [hDir] at hIs
    exact absurd hIs (by simp)

/- A new inode is a file of one block. -/
theorem initInode_spec
    (garbage : Inode)
    (hSteady : s.Steady)
    (block : UInt32) :
    (initInode garbage block s).isFile ∧
      (initInode garbage block s).isDir = false ∧
      (initInode garbage block s).allocated = 1 ∧
      (initInode garbage block s).iLowerSize = 0 ∧
      (initInode garbage block s).direct 0 (by decide) =
        block := by
  have hSectors := ext2BlocksToSectors_one hSteady
  refine ⟨?_, ?_, ?_, rfl, ?_⟩
  · change decide ((0x81A4 : UInt16) &&& 0x8000 ≠ 0) = true
    decide
  · change decide ((0x81A4 : UInt16) &&& 0x4000 ≠ 0) = false
    decide
  · simp only [Inode.allocated, initInode, hSectors]
    decide
  · simp [Inode.direct, initInode, Inode.setBlock]

------------------------------------------------------------
-- Placing a New File
------------------------------------------------------------

/- The number of the inode behind a bit of a group. -/
def Fs.newNumber
    (s : Fs)
    (parent : UInt32)
    (i : Nat) : UInt32 :=
  UInt32.ofNat
    (s.layout.numberOf .inode (s.layout.slotGroup parent) i)

/- The number of the block behind a bit of a group. -/
def Fs.newBlock
    (s : Fs)
    (parent : UInt32)
    (j : Nat) : UInt32 :=
  s.layout.blockNumber (s.layout.slotGroup parent) j

/- An inode and a block of the parent's group are taken. -/
def Fs.taken
    (s : Fs)
    (parent : UInt32)
    (i j : Nat) : Fs :=
  (s.claim .inode (s.layout.slotGroup parent) i).claim .block
    (s.layout.slotGroup parent) j

/- The inode that is stored under the taken number. -/
def Fs.newInode
    (s : Fs)
    (parent : UInt32)
    (garbage : Inode)
    (i j : Nat) : Inode :=
  initInode garbage (s.newBlock parent j) (s.taken parent i j)

/- The state with the new inode stored, not yet entered. -/
def Fs.placed
    (s : Fs)
    (parent : UInt32)
    (garbage : Inode)
    (i j : Nat) : Fs :=
  (s.taken parent i j).committed (s.newNumber parent i)
    (s.newInode parent garbage i j)

/- The new file is live and owns its first block. -/
def Fs.placedOwners
    (s : Fs)
    (parent : UInt32)
    (i j : Nat)
    (owners : Owners) : Owners :=
  (owners.update (s.newBlock parent j)
    (.data (s.newNumber parent i) 0)).enlist
      (s.newNumber parent i)

@[simp] theorem Fs.placedOwners_self
    (i j : Nat)
    (owners : Owners) :
    s.placedOwners parent i j owners (s.newBlock parent j) =
      some (.data (s.newNumber parent i) 0) :=
  owners.update_self _ _

@[simp] theorem Fs.taken_layout
    (i j : Nat) :
    (s.taken parent i j).layout = s.layout := by
  rw [taken, claim_layout, claim_layout]

@[simp] theorem Fs.placed_layout
    (i j : Nat) :
    (s.placed parent garbage i j).layout = s.layout :=
  Fs.taken_layout i j

@[simp] theorem Fs.placed_file
    (i j : Nat) :
    (s.placed parent garbage i j).file = { s.file with
      inodeNum := s.newNumber parent i
      inode := s.newInode parent garbage i j } := rfl

section

variable {i j : Nat}

theorem Fs.newNumber_valid
    (h : ImageOk owners s)
    (hn : s.layout.ValidInode parent)
    (hInode : s.nextFree .inode (s.layout.slotGroup parent) =
      some i) :
    s.layout.ValidInode (s.newNumber parent i) :=
  (FreeBit.of_nextFree (h.layout.slotGroup_lt hn)
    hInode).validInode h.layout

/- The new file is among the live ones. -/
theorem Fs.newNumber_live
    (h : ImageOk owners s)
    (hn : s.layout.ValidInode parent)
    (hInode : s.nextFree .inode (s.layout.slotGroup parent) =
      some i)
    (j : Nat) :
    LiveInode s.layout (s.placedOwners parent i j owners)
      (s.newNumber parent i) :=
  ⟨Fs.newNumber_valid h hn hInode, .inl rfl⟩

/- The bit of the block is still clear after the inode's. -/
theorem Fs.claim_inode_free
    (h : ImageOk owners s)
    (hn : s.layout.ValidInode parent)
    (hBlock : s.nextFree .block (s.layout.slotGroup parent) =
      some j)
    (i : Nat) :
    FreeBit (s.claim .inode (s.layout.slotGroup parent) i)
      .block (s.layout.slotGroup parent) j := by
  have hLt := h.layout.slotGroup_lt hn
  refine .of_nextFree (by rwa [Fs.claim_layout]) ?_
  exact (Fs.nextFree_claim_of_ne h hLt hLt (by simp) i).trans
    hBlock

/-
  Taking an inode and a block for the file, whose inode is
  not stored yet.
-/
theorem ImageOk.taken
    (h : ImageOk owners s)
    (hn : s.layout.ValidInode parent)
    (hInode : s.nextFree .inode (s.layout.slotGroup parent) =
      some i)
    (hBlock : s.nextFree .block (s.layout.slotGroup parent) =
      some j) :
    ImageOkFor owners.live (s.placedOwners parent i j owners)
        (s.taken parent i j) ∧
      Extends owners (s.placedOwners parent i j owners) := by
  have hFree :=
    FreeBit.of_nextFree (h.layout.slotGroup_lt hn) hInode
  have hFree₁ := Fs.claim_inode_free h hn hBlock i
  have hClaim := h.claim hFree
  have hImage := hClaim.claimBlock hFree₁
    (.data (s.newNumber parent i) 0)
  have hLabel := hClaim.unlabelled hFree₁
  rw [Fs.claim_layout] at hImage hLabel
  exact ⟨hImage.enlist _,
    (Extends.update hLabel _).trans (.enlist _ _)⟩

/- The new inode owns its first block. -/
theorem Fs.newInode_slotOk
    (hSteady : (s.taken parent i j).Steady)
    (garbage : Inode)
    (L : Layout)
    (disk : UInt32 → Block) :
    SlotOk L (s.placedOwners parent i j owners) disk
      (s.newNumber parent i)
      (s.newInode parent garbage i j) := by
  rcases initInode_spec garbage hSteady (s.newBlock parent j)
    with ⟨-, hDir, hOne, -, hFirst⟩
  refine .of_one hDir hOne ?_
  rw [newInode, hFirst, placedOwners_self]

/- The image with the new file placed. -/
theorem ImageOk.placed
    (h : ImageOk owners s)
    (hn : s.layout.ValidInode parent)
    (hInode : s.nextFree .inode (s.layout.slotGroup parent) =
      some i)
    (hBlock : s.nextFree .block (s.layout.slotGroup parent) =
      some j)
    (garbage : Inode) :
    ImageOk (s.placedOwners parent i j owners)
        (s.placed parent garbage i j) ∧
      (s.placed parent garbage i j).inodeAt
          (s.newNumber parent i) =
        s.newInode parent garbage i j := by
  have hImage := (h.taken hn hInode hBlock).1
  have hValid : (s.taken parent i j).layout.ValidInode
      (s.newNumber parent i) := by
    rw [Fs.taken_layout]
    exact Fs.newNumber_valid h hn hInode
  refine ⟨hImage.committed (fun _ hLive => hLive) hValid
    (Fs.newInode_slotOk hImage.steady garbage _ _), ?_⟩
  exact (Fs.inodeAt_putInode hImage.layout hValid hValid
    _).trans (if_pos rfl)

/- Taking inode and block leaves the parent's blocks. -/
theorem SlotOk.taken
    (h : ImageOk owners s)
    (hn : s.layout.ValidInode parent)
    (hInode : s.nextFree .inode (s.layout.slotGroup parent) =
      some i)
    (hBlock : s.nextFree .block (s.layout.slotGroup parent) =
      some j)
    {inode : Inode}
    (hParent : SlotOk s.layout owners s.disk parent inode) :
    SlotOk s.layout (s.placedOwners parent i j owners)
      (s.taken parent i j).disk parent inode := by
  have hFree :=
    FreeBit.of_nextFree (h.layout.slotGroup_lt hn) hInode
  have hFree₁ := Fs.claim_inode_free h hn hBlock i
  refine hParent.mono (h.taken hn hInode hBlock).2 ?_
  intro b k _ hb hOk
  have hMeta := h.owned_not_meta b _ hb
  rwa [Fs.taken, Fs.claim_disk_of_not_meta hFree₁
      (by rwa [Fs.claim_layout]),
    Fs.claim_disk_of_not_meta hFree hMeta]

end

------------------------------------------------------------
-- Outcomes
------------------------------------------------------------

/-
  The states a creation in an extracted parent can end in:
  before anything is taken, with an inode taken, or with the
  new file placed and the parent's blocks written or not.
-/
inductive CreateOutcome
    (owners : Owners)
    (parent : UInt32)
    (garbage : Inode)
    (name : List UInt8)
    (s : Fs) : UInt8 → Fs → Prop
  | refused
      (hNone : s.currentInode.isDir = false ∨
        s.nextFree .inode (s.layout.slotGroup parent) =
          none) :
      CreateOutcome owners parent garbage name s 1 s
  | noBlock
      (i : Nat)
      (hDir : s.currentInode.isDir)
      (hInode : s.nextFree .inode
        (s.layout.slotGroup parent) = some i)
      (hBlock : s.nextFree .block
        (s.layout.slotGroup parent) = none) :
      CreateOutcome owners parent garbage name s 1
        (s.claim .inode (s.layout.slotGroup parent) i)
  | unlinked
      (i j : Nat)
      (code : UInt8)
      (u : Fs)
      (hDir : s.currentInode.isDir)
      (hInode : s.nextFree .inode
        (s.layout.slotGroup parent) = some i)
      (hBlock : s.nextFree .block
        (s.layout.slotGroup parent) = some j)
      (hAdd : ext2AddDirEntry s.currentInode
        (s.newNumber parent i) name
          (s.placed parent garbage i j) = some (code, u))
      (hCode : code ≠ 0)
      (hLink : Linked (s.placedOwners parent i j owners)
        parent (s.placed parent garbage i j) u) :
      CreateOutcome owners parent garbage name s 1 u
  | created
      (i j : Nat)
      (u : Fs)
      (hDir : s.currentInode.isDir)
      (hInode : s.nextFree .inode
        (s.layout.slotGroup parent) = some i)
      (hBlock : s.nextFree .block
        (s.layout.slotGroup parent) = some j)
      (hAdd : ext2AddDirEntry s.currentInode
        (s.newNumber parent i) name
          (s.placed parent garbage i j) = some (0, u))
      (hLink : Linked (s.placedOwners parent i j owners)
        parent (s.placed parent garbage i j) u) :
      CreateOutcome owners parent garbage name s 0
        (u.setFile { u.file with exist := true })

section

variable {i j : Nat}
variable (h : ImageOk owners s)
variable (hn : s.layout.ValidInode parent)
variable (hInode :
  s.nextFree .inode (s.layout.slotGroup parent) = some i)
include h hn hInode

theorem Fs.newNumber_ne_zero :
    s.newNumber parent i ≠ 0 := by
  intro h0
  have hValid := Fs.newNumber_valid h hn hInode
  rw [h0] at hValid
  exact absurd hValid.1 (by decide)

/- Asking for a block once the inode has been taken. -/
theorem ext2FreeBlockAlloc_claimed :
    ext2FreeBlockAlloc ((parent - 1) / s.sb.sInodesPerGroup)
        (s.claim .inode (s.layout.slotGroup parent) i) =
      match s.nextFree .block (s.layout.slotGroup parent) with
      | none =>
          some (0, s.claim .inode (s.layout.slotGroup parent) i)
      | some j =>
          some (s.newBlock parent j, s.taken parent i j) := by
  have hLt := h.layout.slotGroup_lt hn
  have hClaim := h.claim (FreeBit.of_nextFree hLt hInode)
  have hLayout : (s.claim .inode
      (s.layout.slotGroup parent) i).layout = s.layout :=
    Fs.claim_layout _ _ _ _
  have hAlloc := ext2FreeAlloc_of_image hClaim
    (hLayout.symm ▸ hn : Layout.ValidInode _ parent) .block
  rw [Fs.claim_sb, Resource.decSb_sInodesPerGroup, hLayout,
    Fs.nextFree_claim_of_ne h hLt hLt (by simp) i] at hAlloc
  exact hAlloc

/- In a directory with room, creation comes to commit. -/
theorem createIn_placing
    (hDir : s.currentInode.isDir)
    (hBlock : s.nextFree .block (s.layout.slotGroup parent) =
      some j)
    (garbage : Inode)
    (name : List UInt8) :
    createIn parent garbage name s =
      commitNew s.currentInode (s.newNumber parent i)
        (s.newInode parent garbage i j) name
        (s.taken parent i j) := by
  have hGroup := group_of_validInode h.layout hn
  have hLt := h.layout.slotGroup_lt hn
  have hClaim := h.claim (FreeBit.of_nextFree hLt hInode)
  have hNum := Fs.newNumber_ne_zero h hn hInode
  have hAlloc := ext2FreeBlockAlloc_claimed h hn hInode
  have hNe :=
    (Fs.claim_inode_free h hn hBlock i).blockNumber_ne_zero
      hClaim
  rw [Fs.claim_layout] at hNe
  change s.newBlock parent j ≠ 0 at hNe
  rw [hBlock] at hAlloc
  rw [Fs.newNumber] at hNum
  simp only [createIn, hDir, not_true_eq_false, if_false,
    ext2GetInodesPerGroup, hGroup.1, ext2FreeInodeAlloc,
    ext2FreeAlloc_of_image h hn, hInode, Option.bind_eq_bind,
    Option.bind_some, hNum, hAlloc, hNe]
  rfl

end

/- Every creation in a parent ends in one of the outcomes. -/
theorem createIn_outcome
    (h : ImageOk owners s)
    (hn : s.layout.ValidInode parent)
    (hParent : SlotOk s.layout owners s.disk parent
      s.currentInode)
    (hCreate : createIn parent garbage name s =
      some (err, t)) :
    CreateOutcome owners parent garbage name s err t := by
  have hGroup := group_of_validInode h.layout hn
  cases hDir : s.currentInode.isDir with
  | false =>
      simp only [createIn, hDir, Bool.false_eq_true,
        not_false_eq_true, if_true] at hCreate
      cases hCreate
      exact .refused (.inl hDir)
  | true =>
      cases hInode :
          s.nextFree .inode (s.layout.slotGroup parent) with
      | none =>
          simp only [createIn, hDir, not_true_eq_false,
            if_false, ext2GetInodesPerGroup, hGroup.1,
            ext2FreeInodeAlloc, ext2FreeAlloc_of_image h hn,
            hInode, Option.bind_eq_bind, Option.bind_some,
            if_true] at hCreate
          cases hCreate
          exact .refused (.inr hInode)
      | some i =>
          cases hBlock :
              s.nextFree .block (s.layout.slotGroup parent) with
          | none =>
              have hNum := Fs.newNumber_ne_zero h hn hInode
              have hAlloc :=
                ext2FreeBlockAlloc_claimed h hn hInode
              rw [hBlock] at hAlloc
              rw [Fs.newNumber] at hNum
              simp only [createIn, hDir, not_true_eq_false,
                if_false, ext2GetInodesPerGroup, hGroup.1,
                ext2FreeInodeAlloc,
                ext2FreeAlloc_of_image h hn, hInode,
                Option.bind_eq_bind, Option.bind_some, hNum,
                hAlloc, if_true] at hCreate
              cases hCreate
              exact .noBlock i hDir hInode hBlock
          | some j =>
              rw [createIn_placing h hn hInode hDir hBlock]
                at hCreate
              have hTaken := (h.taken hn hInode hBlock).1
              have hParent' := hParent.taken h hn hInode hBlock
              have hLive := Fs.newNumber_live h hn hInode j
              have hNew : SlotOk s.layout
                  (s.placedOwners parent i j owners)
                  (s.taken parent i j).disk
                  (s.newNumber parent i)
                  (s.newInode parent garbage i j) :=
                Fs.newInode_slotOk hTaken.steady garbage
                  s.layout (s.taken parent i j).disk
              rw [← Fs.taken_layout i j] at hParent' hLive hNew
              rcases commitNew_cases hTaken hParent'
                  (fun _ hIn => hIn) hLive hNew hCreate with
                ⟨code, u, hAdd, hLink, ⟨hCode, rfl, rfl⟩ |
                  ⟨rfl, rfl, rfl⟩⟩
              · exact .unlinked i j code _ hDir hInode hBlock
                  hAdd hCode hLink
              · exact .created i j u hDir hInode hBlock hAdd
                  hLink

------------------------------------------------------------
-- Images After Creation
------------------------------------------------------------

/- What creation leaves behind, whether it succeeds or not. -/
structure Created
    (owners : Owners)
    (s : Fs)
    (err : UInt8)
    (owners' : Owners)
    (t : Fs) : Prop where
  labels : Extends owners owners'
  image : ImageOk owners' t
  layout : t.layout = s.layout
  dataWrites : t.dataWrites = s.dataWrites
  file :
    t.file = { s.file with
      inodeNum := t.file.inodeNum
      inode := t.file.inode
      exist := t.file.exist }
  failed : err ≠ 0 → t.file.exist = s.file.exist
  live : err = 0 → LiveInode t.layout owners' t.file.inodeNum
  isFile : err = 0 → t.file.inode.isFile
  stored :
    err = 0 → t.inodeAt t.file.inodeNum = t.file.inode
  allocated : err = 0 → t.file.inode.allocated = 1
  first :
    err = 0 → owners' (t.file.inode.direct 0 (by decide)) =
      some (.data t.file.inodeNum 0)
  exist : err = 0 → t.file.exist = true

/- Stopping early leaves the descriptor as it was. -/
theorem Created.of_stopped
    {owners' : Owners}
    (hLabels : Extends owners owners')
    (hImage : ImageOk owners' t)
    (hLayout : t.layout = s.layout)
    (hLog : t.dataWrites = s.dataWrites)
    (hFile : t.file = s.file) :
    Created owners s 1 owners' t where
  labels := hLabels
  image := hImage
  layout := hLayout
  dataWrites := hLog
  file := by rw [hFile]
  failed _ := by rw [hFile]
  live h0 := absurd h0 (by decide)
  isFile h0 := absurd h0 (by decide)
  stored h0 := absurd h0 (by decide)
  allocated h0 := absurd h0 (by decide)
  first h0 := absurd h0 (by decide)
  exist h0 := absurd h0 (by decide)

/- What holds once the new file is placed and entered. -/
theorem Linked.created
    {i j : Nat}
    {u : Fs}
    (h : ImageOk owners s)
    (hn : s.layout.ValidInode parent)
    (hInode : s.nextFree .inode (s.layout.slotGroup parent) =
      some i)
    (hBlock : s.nextFree .block (s.layout.slotGroup parent) =
      some j)
    (hLink : Linked (s.placedOwners parent i j owners) parent
      (s.placed parent garbage i j) u) :
    ImageOk (s.placedOwners parent i j owners) u ∧
      u.layout = s.layout ∧
      u.dataWrites = s.dataWrites ∧
      u.file = { s.file with
        inodeNum := s.newNumber parent i
        inode := s.newInode parent garbage i j } ∧
      u.inodeAt (s.newNumber parent i) =
        s.newInode parent garbage i j := by
  rcases h.placed hn hInode hBlock garbage with
    ⟨hImage, hStored⟩
  have hValid : (s.placed parent garbage i j).layout.ValidInode
      (s.newNumber parent i) := by
    rw [Fs.placed_layout]
    exact Fs.newNumber_valid h hn hInode
  exact ⟨hLink.image hImage,
    hLink.layout.trans (Fs.placed_layout i j),
    hLink.dataWrites, hLink.file,
    (hLink.inodeAt hImage hValid).trans hStored⟩

/- Creation from a state with the same descriptor and log. -/
theorem Created.of_start
    {owners₁ owners' : Owners}
    {s₁ : Fs}
    (h : Created owners₁ s₁ err owners' t)
    (hLabels : Extends owners owners₁)
    (hLayout : s₁.layout = s.layout)
    (hLog : s₁.dataWrites = s.dataWrites)
    (hFile : s₁.file = s.file) :
    Created owners s err owners' t where
  labels := hLabels.trans h.labels
  image := h.image
  layout := h.layout.trans hLayout
  dataWrites := h.dataWrites.trans hLog
  file := hFile ▸ h.file
  failed := hFile ▸ h.failed
  live := h.live
  isFile := h.isFile
  stored := h.stored
  allocated := h.allocated
  first := h.first
  exist := h.exist

theorem CreateOutcome.created_of_image
    (hOut :
      CreateOutcome owners parent garbage name s err t)
    (h : ImageOk owners s)
    (hn : s.layout.ValidInode parent) :
    ∃ owners', Created owners s err owners' t := by
  cases hOut with
  | refused hNone =>
      exact ⟨owners, .of_stopped (.refl owners) h rfl rfl rfl⟩
  | noBlock i hDir hInode hBlock =>
      have hFree :=
        FreeBit.of_nextFree (h.layout.slotGroup_lt hn) hInode
      exact ⟨owners, .of_stopped (.refl owners)
        (h.claim hFree) (by simp) rfl rfl⟩
  | unlinked i j code _ hDir hInode hBlock hAdd hCode hLink =>
      rcases hLink.created h hn hInode hBlock with
        ⟨hImage, hLayout, hLog, hDescriptor, -⟩
      exact ⟨_,
        { labels := (h.taken hn hInode hBlock).2
          image := hImage
          layout := hLayout
          dataWrites := hLog
          file := by rw [hDescriptor]
          failed := fun _ => by rw [hDescriptor]
          live := fun h0 => absurd h0 (by decide)
          isFile := fun h0 => absurd h0 (by decide)
          stored := fun h0 => absurd h0 (by decide)
          allocated := fun h0 => absurd h0 (by decide)
          first := fun h0 => absurd h0 (by decide)
          exist := fun h0 => absurd h0 (by decide) }⟩
  | created i j u hDir hInode hBlock hAdd hLink =>
      rcases hLink.created h hn hInode hBlock with
        ⟨hImage, hLayout, hLog, hDescriptor, hStored⟩
      rcases initInode_spec garbage
          (h.taken hn hInode hBlock).1.steady
          (s.newBlock parent j) with
        ⟨hFile, -, hOne, -, hFirst⟩
      exact ⟨_,
        { labels := (h.taken hn hInode hBlock).2
          image := hImage.setFile _
          layout := hLayout
          dataWrites := hLog
          file := by
            rw [Fs.setFile_file, hDescriptor]
          failed := fun h0 => absurd rfl h0
          live := fun _ => by
            rw [Fs.setFile_layout, Fs.setFile_file, hLayout,
              hDescriptor]
            exact Fs.newNumber_live h hn hInode j
          isFile := fun _ => by
            rw [Fs.setFile_file, hDescriptor]
            exact hFile
          stored := fun _ => by
            rw [Fs.setFile_inodeAt, Fs.setFile_file,
              hDescriptor]
            exact hStored
          allocated := fun _ => by
            rw [Fs.setFile_file, hDescriptor]
            exact hOne
          first := fun _ => by
            rw [Fs.setFile_file, hDescriptor]
            dsimp only
            rw [Fs.newInode, hFirst, Fs.placedOwners_self]
          exist := fun _ => rfl }⟩

/- Creation stops at the path or ends in an outcome. -/
theorem ext2FileCreate_outcome
    {stack : CreateStack}
    (h : ImageOk owners s)
    (hCreate : ext2FileCreate stack s = some (err, t)) :
    (err = 1 ∧ t = s ∧
        ∀ parent v, ¬ ResolvesParent stack s parent v) ∨
      ∃ parent name,
        ResolvesParent stack s parent
          (s.setCurrentInode (s.inodeAt parent)) ∧
        LiveInode s.layout owners parent ∧
        CreateOutcome owners parent stack.newInode name
          (s.setCurrentInode (s.inodeAt parent)) err t := by
  refine (ext2FileCreate_cases hCreate).imp id ?_
  rintro ⟨parent, v, name, hParent, hIn⟩
  rcases hParent.live h with ⟨hLive, rfl⟩
  exact ⟨parent, name, hParent, hLive,
    createIn_outcome (h.setCurrentInode (s.inodeAt parent))
      hLive.valid (h.slot hLive) hIn⟩

/- Creation keeps the image, wherever it stops. -/
theorem ext2FileCreate_created
    {stack : CreateStack}
    (h : ImageOk owners s)
    (hCreate : ext2FileCreate stack s = some (err, t)) :
    ∃ owners', Created owners s err owners' t := by
  rcases ext2FileCreate_outcome h hCreate with
    ⟨rfl, rfl, -⟩ | ⟨parent, name, -, hLive, hOut⟩
  · exact ⟨owners, .of_stopped (.refl owners) h rfl rfl rfl⟩
  · rcases hOut.created_of_image
        (h.setCurrentInode (s.inodeAt parent)) hLive.valid with
      ⟨owners', hCreated⟩
    exact ⟨owners', hCreated.of_start (.refl owners)
      rfl rfl rfl⟩

end

end Ext2

end Ester
