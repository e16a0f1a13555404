import Ester.Ext2.Directory
import Ester.Library.Loop
import Ester.Library.Memory

/-
  The walks over directory records, access by access.

  The two walks of fs/ext2/directory.c follow record lengths
  that come from the disk, wherever they lead.  Here they run
  over memory with addresses counted from the block buffer,
  so that bytes behind the buffer have a value too, and they
  keep a log of their accesses.  What a block read and a
  store to the caller's array do to that memory is left
  open: blocks may hold anything, reads may fail, and the
  array may lie behind the buffer.

  Key definitions include:
    * `WalkEnv`, `WalkEvent`
    * `listRound`, `ext2ListWalk`
    * `addRound`, `ext2AddWalk`

  Key theorems include:
    * `listRound_measure`
    * `addRound_measure`
    * `directoryWalks_end`
-/

------------------------------------------------------------
-- Surroundings and Log
------------------------------------------------------------

namespace Ester

namespace Ext2

open PackedCodec

/-
  What a walk does: read or write bytes of memory by their
  offset in the buffer, or store a header and a name in a
  slot of the caller's array.
-/
inductive WalkEvent where
  | read (off len : Nat)
  | write (off len : Nat)
  | deliver
      (slot : Nat)
      (header : DirEntry)
      (name : List UInt8)

/-
  The inode, the block size, the effect on memory of reading
  the `i`-th block, and that of storing the header (first)
  and the name (second) of a slot.
-/
structure WalkEnv where
  inode : Inode
  blockSize : UInt32
  fill : Nat → Memory → Memory
  deliver : Nat → Bool → Memory → Memory

/- The direct pointers are pointers of the inode. -/
theorem lt_nBlocks
    {i : Nat}
    (h : i < ext2NdirBlocks) :
    i < ext2NBlocks :=
  Nat.lt_trans h (by decide)

/- A direct pointer is there at an index of the block loop. -/
def WalkEnv.hasBlock
    (env : WalkEnv)
    (i : Nat) : Bool :=
  if h : i < ext2NdirBlocks then
    env.inode.iBlock ⟨i, lt_nBlocks h⟩ ≠ 0
  else false

/- A transfer moves a block of the device. -/
abbrev transferEvent : WalkEvent :=
  .write 0 logicalBlockSize

------------------------------------------------------------
-- Listing
------------------------------------------------------------

/-
  The variables of the loops of `ext2_list_directory`.
  Without an offset the block loop is at its test.
-/
structure ListState where
  i : Nat
  j : UInt16
  offset : Option UInt32
  mem : Memory
  log : List WalkEvent

/- The bytes of a name behind a header. -/
def nameIn
    (mem : Memory)
    (off len : Nat) : List UInt8 :=
  (List.range len).map fun k => mem (off + 8 + k)

/-
  One round of either loop of `ext2_list_directory`.  The
  last one leaves the count and the log.
-/
def listRound
    (env : WalkEnv)
    (s : ListState) :
    Option (Round ListState (UInt16 × List WalkEvent)) :=
  match s.offset with
  | none =>
      if env.hasBlock s.i then
        some (.again { s with
          offset := some 0
          mem := env.fill s.i s.mem
          log := s.log ++ [transferEvent] })
      else some (.done (s.j, s.log))
  | some offset =>
      if offset < env.blockSize then
        if 128 ≤ s.j then some (.done (s.j, s.log))
        else
          let o := offset.toNat
          if s.mem.load word32 o = 0 then
            some (.again { s with
              i := s.i + 1
              offset := none
              log := s.log ++ [.read o 4] })
          else
            let header := s.mem.load dirEntryCodec o
            let mem := env.deliver s.j.toNat false s.mem
            let len := (mem (o + 6)).toNat
            let name := nameIn mem o len
            let mem := env.deliver s.j.toNat true mem
            let size := mem.load word16 (o + 4)
            some (.again
              { i := s.i
                j := s.j + 1
                offset := some (offset + size.toUInt32)
                mem := mem
                log := s.log ++
                  [.read o 4, .read o 8, .read (o + 6) 1,
                    .read (o + 8) len,
                    .deliver s.j.toNat header name,
                    .read (o + 4) 2] })
      else
        some (.again { s with i := s.i + 1, offset := none })

/- Ext2 list directory: the count and the accesses. -/
def ext2ListWalk
    (rounds : Nat)
    (env : WalkEnv)
    (mem : Memory) : Option (UInt16 × List WalkEvent) :=
  if env.inode.isDir then
    loop (listRound env) rounds ⟨0, 0, none, mem, []⟩
  else some (0, [])

------------------------------------------------------------
-- Adding an Entry
------------------------------------------------------------

/- The variables of the loops of `ext2_add_dir_entry`. -/
structure AddState where
  i : Nat
  j : UInt32
  offset : Option UInt32
  mem : Memory
  log : List WalkEvent

/- The length that the last record is cut to. -/
def cutSize
    (offset : UInt32)
    (name : List UInt8) : UInt16 :=
  (offset + alignFour (8 + UInt32.ofNat name.length)).toUInt16

/-
  Cut the record at an offset and place the new one behind
  it, then write the block back: the memory and the accesses.
-/
def splitIn
    (mem : Memory)
    (offset : UInt32)
    (inodeNum : UInt32)
    (name : List UInt8) : Memory × List WalkEvent :=
  let o := offset.toNat
  let len := name.length
  let oldRecLen := mem.load word16 (o + 4)
  let mem := mem.store word16 (o + 4) (cutSize offset name)
  let p := o + (mem.load word16 (o + 4)).toNat
  let mem := mem.store word32 p inodeNum
  let size := oldRecLen - mem.load word16 (o + 4)
  let mem := mem.store word16 (p + 4) size
  let mem := mem.store word8 (p + 6) (UInt8.ofNat len)
  let mem := mem.store word8 (p + 7) 0
  let mem : Memory := fun k =>
    if p + 8 ≤ k ∧ k < p + 8 + len then
      name.getD (k - (p + 8)) 0
    else mem k
  (mem, [.read (o + 4) 2, .write (o + 4) 2, .read (o + 4) 2,
    .write p 4, .read (o + 4) 2, .write (p + 4) 2,
    .write (p + 6) 1, .write (p + 7) 1, .write (p + 8) len,
    .read 0 logicalBlockSize])

/-
  One round of either loop of `ext2_add_dir_entry`.  The last
  one leaves the error code, the memory and the log.
-/
def addRound
    (env : WalkEnv)
    (inodeNum : UInt32)
    (name : List UInt8)
    (s : AddState) :
    Option
      (Round AddState (UInt8 × Memory × List WalkEvent)) :=
  match s.offset with
  | none =>
      if env.hasBlock s.i then
        some (.again { s with
          offset := some 0
          mem := env.fill s.i s.mem
          log := s.log ++ [transferEvent] })
      else some (.done (1, s.mem, s.log))
  | some offset =>
      if offset < env.blockSize then
        if 128 ≤ s.j then some (.done (1, s.mem, s.log))
        else
          let o := offset.toNat
          let size := s.mem.load word16 (o + 4)
          let log := s.log ++ [.read (o + 4) 2]
          if env.blockSize ≤ offset + size.toUInt32 then
            let out := splitIn s.mem offset inodeNum name
            some (.done (0, out.1, log ++ out.2))
          else
            some (.again { s with
              j := s.j + 1
              offset := some (offset + size.toUInt32)
              log := log ++ [.read (o + 4) 2] })
      else
        some (.again { s with i := s.i + 1, offset := none })

/- Ext2 add dir entry: the error code and the accesses. -/
def ext2AddWalk
    (rounds : Nat)
    (env : WalkEnv)
    (inodeNum : UInt32)
    (name : List UInt8)
    (mem : Memory) :
    Option (UInt8 × Memory × List WalkEvent) :=
  if env.inode.isDir then
    loop (addRound env inodeNum name) rounds
      ⟨0, 0, none, mem, []⟩
  else some (0, mem, [])

------------------------------------------------------------
-- Progress
------------------------------------------------------------

/-
  What is left of a walk: two rounds for each block, one
  more at the block loop's test, one for each free slot.
  A record of length 0 only uses up a slot.
-/
def walkLeft
    (i : Nat)
    (j : Nat)
    (offset : Option UInt32) : Nat :=
  2 * (ext2NdirBlocks - i) + (maxSubdirs - j) +
    (if offset.isNone then 1 else 0)

/- A budget above every walk. -/
def walkRounds : Nat := 154

theorem lt_of_hasBlock
    {env : WalkEnv}
    {i : Nat}
    (h : env.hasBlock i = true) :
    i < ext2NdirBlocks := by
  unfold WalkEnv.hasBlock at h
  split at h
  · assumption
  · cases h

/- The slots that are stored to, in order. -/
def deliveries
    (log : List WalkEvent) : List (Nat × DirEntry × List UInt8) :=
  log.filterMap fun e =>
    match e with
    | .deliver slot header name => some (slot, header, name)
    | _ => none

theorem deliveries_append
    (log more : List WalkEvent) :
    deliveries (log ++ more) =
      deliveries log ++ deliveries more :=
  List.filterMap_append

/-
  What holds of a listing in progress: its deliveries took
  the slots from 0 on, with names that fit a slot.
-/
structure ListInv
    (s : ListState) : Prop where
  block : s.offset.isSome → s.i < ext2NdirBlocks
  room : s.j.toNat ≤ maxSubdirs
  slots : (deliveries s.log).map Prod.fst =
    List.range s.j.toNat
  names : ∀ d ∈ deliveries s.log,
    d.2.2.length ≤ ext2NameLen

/- What holds of a finished listing. -/
structure ListingDone
    (out : UInt16 × List WalkEvent) : Prop where
  room : out.1.toNat ≤ maxSubdirs
  slots : (deliveries out.2).map Prod.fst =
    List.range out.1.toNat
  names : ∀ d ∈ deliveries out.2,
    d.2.2.length ≤ ext2NameLen

/- A slot that is free leaves room in the counter. -/
theorem toNat_succ16
    {j : UInt16}
    (h : ¬ 128 ≤ j) :
    (j + 1).toNat = j.toNat + 1 ∧ j.toNat < maxSubdirs := by
  rw [UInt16.le_iff_toNat_le] at h
  change ¬ 128 ≤ j.toNat at h
  have hRoom : maxSubdirs = 128 := rfl
  refine ⟨?_, by omega⟩
  rw [UInt16.toNat_add]
  exact Nat.mod_eq_of_lt (by
    change j.toNat + 1 < UInt16.size
    have hSize : UInt16.size = 65536 := rfl
    omega)

theorem toNat_succ32
    {j : UInt32}
    (h : ¬ 128 ≤ j) :
    (j + 1).toNat = j.toNat + 1 ∧ j.toNat < maxSubdirs := by
  rw [UInt32.le_iff_toNat_le] at h
  change ¬ 128 ≤ j.toNat at h
  have hRoom : maxSubdirs = 128 := rfl
  refine ⟨?_, by omega⟩
  rw [UInt32.toNat_add]
  exact Nat.mod_eq_of_lt (by
    change j.toNat + 1 < UInt32.size
    have hSize : UInt32.size = 4294967296 := rfl
    omega)

/- Every round of a listing but the last makes progress. -/
theorem listRound_measure
    {env : WalkEnv}
    {s : ListState}
    (hInv : ListInv s) :
    (∃ t, listRound env s = some (.again t) ∧ ListInv t ∧
      walkLeft t.i t.j.toNat t.offset <
        walkLeft s.i s.j.toNat s.offset) ∨
    ∃ out, listRound env s = some (.done out) ∧
      ListingDone out := by
  rcases hInv with ⟨hBlock, hRoom, hSlots, hNames⟩
  unfold listRound
  cases hOffset : s.offset with
  | none =>
      simp only
      split
      · next hHas =>
          refine .inl ⟨_, rfl, ⟨fun _ => lt_of_hasBlock hHas,
            hRoom, ?_, ?_⟩, ?_⟩
          · rw [deliveries_append]
            simpa [deliveries] using hSlots
          · rw [deliveries_append]
            simpa [deliveries] using hNames
          · simp [walkLeft]
      · exact .inr ⟨_, rfl, hRoom, hSlots, hNames⟩
  | some offset =>
      rw [hOffset] at hBlock
      have hIndex := hBlock rfl
      have hNext : ∀ j, walkLeft (s.i + 1) j none <
          walkLeft s.i j (some offset) := by
        intro j
        simp only [walkLeft, Option.isNone_none,
          Option.isNone_some, if_true, Bool.false_eq_true,
          if_false]
        omega
      simp only
      split
      · split
        · exact .inr ⟨_, rfl, hRoom, hSlots, hNames⟩
        · next hFree =>
            rcases toNat_succ16 hFree with ⟨hSucc, hLt⟩
            split
            · refine .inl ⟨_, rfl, ⟨nofun, hRoom,
                ?_, ?_⟩, hNext _⟩
              · rw [deliveries_append]
                simpa [deliveries] using hSlots
              · rw [deliveries_append]
                simpa [deliveries] using hNames
            · refine .inl ⟨_, rfl, ⟨fun _ => hIndex, ?_, ?_,
                ?_⟩, ?_⟩
              · change (s.j + 1).toNat ≤ maxSubdirs
                omega
              · rw [deliveries_append, List.map_append, hSlots,
                  hSucc, List.range_succ]
                rfl
              · rw [deliveries_append]
                intro d hd
                rcases List.mem_append.mp hd with hOld | hNew
                · exact hNames d hOld
                · rcases List.mem_singleton.mp hNew with rfl
                  simp only [nameIn, List.length_map,
                    List.length_range]
                  exact Nat.lt_succ_iff.mp
                    (UInt8.toNat_lt _)
              · simp only [walkLeft, hSucc, Option.isNone_some]
                omega
      · exact .inl ⟨_, rfl,
          ⟨nofun, hRoom, hSlots, hNames⟩,
          hNext _⟩

/- The same for the walk that adds an entry. -/
theorem addRound_measure
    {env : WalkEnv}
    {inodeNum : UInt32}
    {name : List UInt8}
    {s : AddState}
    (hBlock : s.offset.isSome → s.i < ext2NdirBlocks) :
    (∃ t, addRound env inodeNum name s = some (.again t) ∧
      (t.offset.isSome → t.i < ext2NdirBlocks) ∧
      walkLeft t.i t.j.toNat t.offset <
        walkLeft s.i s.j.toNat s.offset) ∨
    ∃ out, addRound env inodeNum name s =
      some (.done out) ∧ True := by
  unfold addRound
  cases hOffset : s.offset with
  | none =>
      simp only
      split
      · next hHas =>
          exact .inl ⟨_, rfl, fun _ => lt_of_hasBlock hHas,
            by simp [walkLeft]⟩
      · exact .inr ⟨_, rfl, trivial⟩
  | some offset =>
      rw [hOffset] at hBlock
      have hIndex := hBlock rfl
      simp only
      split
      · split
        · exact .inr ⟨_, rfl, trivial⟩
        · next hFree =>
            rcases toNat_succ32 hFree with ⟨hSucc, hLt⟩
            split
            · exact .inr ⟨_, rfl, trivial⟩
            · refine .inl ⟨_, rfl, fun _ => hIndex, ?_⟩
              simp only [walkLeft, hSucc, Option.isNone_some]
              omega
      · refine .inl ⟨_, rfl, nofun, ?_⟩
        simp only [walkLeft, Option.isNone_none,
          Option.isNone_some, if_true, Bool.false_eq_true,
          if_false]
        omega

/-
  Whatever the blocks hold, both walks end.  A listing takes
  the slots from 0 on, `MAX_SUBDIRS` at most over all blocks,
  and a name it stores fits the array of a slot.
-/
theorem directoryWalks_end
    (env : WalkEnv)
    (inodeNum : UInt32)
    (name : List UInt8)
    (mem : Memory)
    {rounds : Nat}
    (hRounds : walkRounds ≤ rounds) :
    (∃ out, ext2ListWalk rounds env mem = some out ∧
      out.1.toNat ≤ maxSubdirs ∧
      (deliveries out.2).map Prod.fst =
        List.range out.1.toNat ∧
      ∀ d ∈ deliveries out.2,
        d.2.2.length ≤ ext2NameLen + 1) ∧
    ∃ out, ext2AddWalk rounds env inodeNum name mem =
      some out := by
  have hStart : walkLeft 0 0 none < rounds :=
    Nat.lt_of_lt_of_le (by decide) hRounds
  constructor
  · unfold ext2ListWalk
    split
    · rcases @loop_total _ _ _ ListInv ListingDone
        (fun s : ListState => walkLeft s.i s.j.toNat s.offset)
        (fun s hInv => listRound_measure hInv) rounds
        ⟨0, 0, none, mem, []⟩
        ⟨nofun, Nat.zero_le _, rfl, by
          simp [deliveries]⟩ hStart with ⟨out, hLoop, hListed⟩
      exact ⟨out, hLoop, hListed.room, hListed.slots,
        fun d hd => Nat.le_succ_of_le (hListed.names d hd)⟩
    · exact ⟨_, rfl, Nat.zero_le _, rfl, by
        simp [deliveries]⟩
  · unfold ext2AddWalk
    split
    · rcases @loop_total _ _ _
        (fun s : AddState => s.offset.isSome →
          s.i < ext2NdirBlocks) (fun _ => True)
        (fun s : AddState => walkLeft s.i s.j.toNat s.offset)
        (fun s hInv => addRound_measure hInv) rounds
        ⟨0, 0, none, mem, []⟩ nofun hStart with
        ⟨out, hLoop, -⟩
      exact ⟨out, hLoop⟩
    · exact ⟨_, rfl⟩

/- A directory whose blocks hold records of length 0. -/
def stuckEnv : WalkEnv where
  inode := { Inode.zero with
    iTypePermission := 0x4000
    iBlock := fun _ => 7 }
  blockSize := 4096
  fill := fun _ _ k => if k = 0 then 1 else 0
  deliver := fun _ _ mem => mem

theorem directoryWalks_end_stuck :
    ∃ out, ext2ListWalk walkRounds stuckEnv (fun _ => 0) =
        some out ∧
      out.1.toNat ≤ maxSubdirs := by
  rcases (directoryWalks_end stuckEnv 5 [] (fun _ => 0)
    (Nat.le_refl _)).1 with ⟨out, hWalk, hRoom, -⟩
  exact ⟨out, hWalk, hRoom⟩

end Ext2

end Ester
