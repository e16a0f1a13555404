import Ester.Ext2.SampleImage
import Ester.Ext2.Session.Content

/-
  Seeking to a block a file has and reading there.

  The bytes of a file with at most twelve blocks are its
  direct blocks one after the other.  A seek to an allocated
  block followed by a read of at most a block delivers a
  range of them, also across the end of a block, and changes
  nothing on the disk.

  Key definitions include:
    * `Fs.storedBytes`

  Key theorems include:
    * `Fs.getElem?_storedBytes`
    * `ext2Fread_range`
    * `fseek_fread_bytes`
-/

------------------------------------------------------------
-- Pieces of One Length
------------------------------------------------------------

namespace Ester

/- Reading in pieces of one length put together. -/
theorem getElem?_flatMap_of_length
    {α β : Type}
    {f : α → List β}
    {m : Nat}
    (hLen : ∀ a, (f a).length = m)
    (l : List α)
    (k : Nat)
    {i : Nat}
    (hi : i < m) :
    (l.flatMap f)[m * k + i]? =
      l[k]?.bind fun a => (f a)[i]? := by
  induction l generalizing k with
  | nil => simp
  | cons a l ih =>
      rw [List.flatMap_cons]
      cases k with
      | zero =>
          rw [Nat.mul_zero, Nat.zero_add,
            List.getElem?_append_left (by rw [hLen]; exact hi)]
          rfl
      | succ k =>
          have hIndex : m * (k + 1) + i - (f a).length =
              m * k + i := by
            rw [hLen, Nat.mul_succ]
            omega
          have hPast : (f a).length ≤ m * (k + 1) + i := by
            rw [hLen, Nat.mul_succ]
            omega
          rw [List.getElem?_append_right hPast, hIndex, ih]
          rfl

namespace Ext2

------------------------------------------------------------
-- Stored Bytes
------------------------------------------------------------

/-
  The contents of the blocks `i_block[0]`, `i_block[1]`, ...
  that the open file has allocated, one after the other.
-/
def Fs.storedBytes
    (s : Fs) : List UInt8 :=
  (s.file.inode.directBlocks.take
    s.file.inode.allocated).flatMap fun b =>
      (s.disk b).bytesFrom 0

theorem Inode.getElem?_directBlocks
    (inode : Inode)
    {k : Nat}
    (hk : k < ext2NdirBlocks) :
    inode.directBlocks[k]? = some (inode.direct k hk) := by
  rw [directBlocks, List.getElem?_map,
    List.getElem?_eq_getElem (by rw [List.length_finRange]
                                 exact hk),
    List.getElem_finRange]
  rfl

/- The stored bytes are the bytes at the positions. -/
theorem Fs.getElem?_storedBytes
    {s : Fs}
    (hFew : s.file.inode.allocated ≤ ext2NdirBlocks)
    {x : Nat}
    (hx : x < s.file.inode.allocated * 4096) :
    s.storedBytes[x]? = some (s.fileByte x) := by
  have hIn : x / 4096 < s.file.inode.allocated := by omega
  have hk : x / 4096 < ext2NdirBlocks :=
    Nat.lt_of_lt_of_le hIn hFew
  have hi : x % 4096 < 4096 := Nat.mod_lt _ (by omega)
  have hLen (b : UInt32) :
      ((s.disk b).bytesFrom 0).length = 4096 :=
    ByteBuffer.length_bytesFrom _ _
  have hBlock : (s.file.inode.directBlocks.take
      s.file.inode.allocated)[x / 4096]? =
        some (s.file.inode.direct (x / 4096) hk) := by
    rw [List.getElem?_take_of_lt hIn]
    exact s.file.inode.getElem?_directBlocks hk
  have hRead := getElem?_flatMap_of_length hLen
    (s.file.inode.directBlocks.take s.file.inode.allocated)
    (x / 4096) hi
  rw [Nat.div_add_mod, hBlock, Option.bind_some,
    ByteBuffer.getElem?_bytesFrom _
      (show 0 + x % 4096 < 4096 by omega),
    Nat.zero_add] at hRead
  rw [storedBytes, hRead, s.fileByte_eq hk hi
    (Nat.div_add_mod _ _).symm]
  rfl

theorem Fs.length_storedBytes
    {s : Fs}
    (hFew : s.file.inode.allocated ≤ ext2NdirBlocks) :
    s.storedBytes.length =
      s.file.inode.allocated * 4096 := by
  have hCount : (s.file.inode.directBlocks.take
      s.file.inode.allocated).length =
        s.file.inode.allocated := by
    rw [List.length_take, Inode.directBlocks, List.length_map,
      List.length_finRange]
    omega
  rw [storedBytes, List.length_flatMap]
  simp only [ByteBuffer.length_bytesFrom, Nat.sub_zero,
    List.map_const', List.sum_replicate_nat, hCount]

/- Memory that holds a range of the stored bytes. -/
theorem Fs.take_drop_storedBytes
    {s : Fs}
    (hFew : s.file.inode.allocated ≤ ext2NdirBlocks)
    {pos size : Nat}
    (hEnd : pos + size ≤ s.file.inode.allocated * 4096)
    {out : Nat → UInt8}
    (hOut : ∀ i, i < size → out i = s.fileByte (pos + i)) :
    (List.range size).map out =
      (s.storedBytes.drop pos).take size := by
  have hLen := Fs.length_storedBytes hFew
  apply List.ext_getElem?
  intro i
  by_cases hi : i < size
  · rw [List.getElem?_take_of_lt hi, List.getElem?_drop,
      Fs.getElem?_storedBytes hFew (by omega),
      List.getElem?_map, List.getElem?_range hi,
      Option.map_some, hOut i hi]
  · rw [List.getElem?_eq_none (by simpa using hi),
      List.getElem?_eq_none]
    rw [List.length_take, List.length_drop]
    omega

------------------------------------------------------------
-- Reading a Range
------------------------------------------------------------

section

variable {s : Fs}

/-
  With the block under the position in the buffer, a read
  delivers the stored bytes from the position on, from one
  block or from two.
-/
theorem ext2Fread_range
    (size : UInt32)
    (hSteady : s.Steady)
    (hOpen : s.file.isOpen)
    (hk : s.file.block < ext2NdirBlocks)
    (hBuff : s.file.buff = s.fileBlock s.file.block hk)
    (hSize : size.toNat ≤ 4096)
    (hSpill : 4096 < s.file.off + size.toNat →
      s.file.block + 1 < ext2NdirBlocks)
    (out : Nat → UInt8) :
    ∃ out', ext2Fread out size s = some (0, out', s) ∧
      (∀ i, i < size.toNat →
        out' i = s.fileByte (s.file.pos.toNat + i)) ∧
      ∀ i, size.toNat ≤ i → out' i = out i := by
  have hOff := s.file.off_lt
  have hPos : s.file.pos.toNat =
      4096 * s.file.block + s.file.off :=
    (Nat.div_add_mod _ _).symm
  have hHead (i : Nat) (hi : s.file.off + i < 4096) :
      s.file.buff.get (s.file.off + i) =
        s.fileByte (s.file.pos.toNat + i) := by
    rw [hBuff, s.fileByte_eq hk hi (by omega)]
  by_cases hFits : s.file.off + size.toNat ≤ 4096
  · refine ⟨_, ext2Fread_of_inside hSteady hOpen hFits,
      ?_, ?_⟩
    · intro i hi
      rw [if_pos hi, hHead i (by omega)]
    · intro i hi
      rw [if_neg (by omega)]
  · have hk' := hSpill (by omega)
    have hRun : ext2Fread out size s = _ :=
      ext2Fread_of_spilling hSteady hOpen hSize (by omega)
    rw [blockPtr_of_lt _ hk', Option.bind_some] at hRun
    refine ⟨_, hRun, ?_, ?_⟩
    · intro i hi
      by_cases hFirst : i < 4096 - s.file.off
      · rw [if_pos hFirst, hHead i (by omega)]
      · rw [if_neg hFirst, if_pos hi,
          s.fileByte_eq hk' (by omega)
            (show _ = 4096 * (s.file.block + 1) +
              (i - (4096 - s.file.off)) by omega)]
        rfl
    · intro i hi
      rw [if_neg (by omega), if_neg (by omega)]

end

------------------------------------------------------------
-- Seeking There First
------------------------------------------------------------

section

variable {s : Fs}

/- Seeking to an allocated block loads it. -/
theorem ext2Fseek_of_lt
    {newPos : UInt32}
    (hSteady : s.Steady)
    (hOpen : s.file.isOpen)
    (hExist : s.file.exist)
    (hClean : s.file.dirty = false)
    (hMoves : s.file.pos ≠ newPos)
    (hk : newPos.toNat / 4096 < ext2NdirBlocks)
    (hLt : newPos.toNat / 4096 < s.file.inode.allocated)
    (stack : CreateStack) :
    ext2Fseek newPos stack s =
      some (0, (s.movedTo newPos).setBuff
        (s.fileBlock (newPos.toNat / 4096) hk)) := by
  have hSeek := seekExisting_of_clean hSteady hClean newPos
  rw [if_neg (Nat.not_le.mpr hLt), blockPtr_of_lt _ hk,
    Option.bind_some] at hSeek
  unfold ext2Fseek
  rw [if_neg (not_not.mpr hOpen), if_neg hMoves,
    ensureExists_of_exist hExist]
  exact hSeek

/-
  A seek inside the blocks of a file and the read after it
  succeed and deliver the stored bytes from the new position
  on; the disk stays as it is.
-/
theorem fseek_fread_bytes
    (newPos size : UInt32)
    (hSteady : s.Steady)
    (hOpen : s.file.isOpen)
    (hExist : s.file.exist)
    (hClean : s.file.dirty = false)
    (hFew : s.file.inode.allocated ≤ ext2NdirBlocks)
    (hMoves : s.file.pos ≠ newPos)
    (hIn : newPos.toNat / 4096 < s.file.inode.allocated)
    (hSize : size ≤ ext2GetBlockSize s)
    (hEnd : newPos.toNat + size.toNat ≤
      s.file.inode.allocated * 4096)
    (stack : CreateStack)
    (out : Nat → UInt8) :
    ∃ t out', ext2Fseek newPos stack s = some (0, t) ∧
      ext2Fread out size t = some (0, out', t) ∧
      t.disk = s.disk ∧
      (List.range size.toNat).map out' =
        (s.storedBytes.drop newPos.toNat).take size.toNat ∧
      ∀ i, size.toNat ≤ i → out' i = out i := by
  have hk : newPos.toNat / 4096 < ext2NdirBlocks :=
    Nat.lt_of_lt_of_le hIn hFew
  have hLe : size.toNat ≤ 4096 := by
    rw [hSteady.blockSize] at hSize
    exact UInt32.le_iff_toNat_le.mp hSize
  have hSeek := ext2Fseek_of_lt hSteady hOpen hExist hClean
    hMoves hk hIn stack
  have hLoaded : ((s.movedTo newPos).setBuff
      (s.fileBlock (newPos.toNat / 4096) hk)).Steady :=
    ⟨hSteady.faults, hSteady.blockSize⟩
  rcases ext2Fread_range size hLoaded hOpen hk rfl
      hLe (fun hSpill => by
        have hOff : newPos.toNat % 4096 < 4096 :=
          Nat.mod_lt _ (by omega)
        change 4096 < newPos.toNat % 4096 + size.toNat
          at hSpill
        change newPos.toNat / 4096 + 1 < ext2NdirBlocks
        omega) out with
    ⟨out', hRead, hBytes, hRest⟩
  exact ⟨_, out', hSeek, hRead, rfl,
    Fs.take_drop_storedBytes hFew hEnd hBytes, hRest⟩

end

/-
  Bytes 4000 to 4299 of `/f`, across the end of its first
  block.
-/
theorem fseek_fread_bytes_sample :
    ∃ s t out', ext2Fopen [47, 102, 0] 114 .zero fileSample =
        some s ∧
      ext2Fseek 4000 .zero s = some (0, t) ∧
      ext2Fread (fun _ => 0) 300 t = some (0, out', t) ∧
      t.disk = s.disk ∧
      (List.range 300).map out' =
        (s.storedBytes.drop 4000).take 300 := by
  have hFacts :
      (ext2Fopen [47, 102, 0] 114 .zero fileSample).map
        (fun s => ((s.file.isOpen, s.file.exist),
          s.file.dirty, s.file.pos,
          s.file.inode.allocated)) =
        some ((true, true), false, 0, 2) := by
    decide +kernel
  rcases Option.map_eq_some_iff.mp hFacts with
    ⟨s, hOpened, hFacts⟩
  simp only [Prod.mk.injEq] at hFacts
  rcases hFacts with ⟨⟨hOpen, hExist⟩, hClean, hPos, hTwo⟩
  have hFirst : exec (.fopen [47, 102, 0] 114 .zero)
      fileSample = some (⟨0, fun _ => 0⟩, s) := by
    rw [exec, hOpened]
    rfl
  have hStart : Call.InRange
      (.fopen [47, 102, 0] 114 .zero) fileSample := trivial
  rcases exec_stepOk fileSample_imageOk (.of_closed rfl)
      hStart hFirst with
    ⟨owners', hStep⟩
  rcases fseek_fread_bytes 4000 300 hStep.image.steady hOpen
      hExist hClean (by rw [hTwo]; decide)
      (by rw [hPos]; decide) (by rw [hTwo]; decide)
      (by rw [hStep.image.steady.blockSize]; decide)
      (by rw [hTwo]; decide) .zero (fun _ => 0) with
    ⟨t, out', hSeek, hRead, hDisk, hBytes, -⟩
  exact ⟨s, t, out', hOpened, hSeek, hRead, hDisk, hBytes⟩

end Ext2

end Ester
