import Ester.Ext2.Directory.Walk
import Ester.Ext2.Directory.Listing

/-
  Where the walks over directory records access memory.

  Both walks test an offset against the block size and then
  access a header of 8 bytes and a name there.  They stay in
  the block buffer exactly when every record they meet lies
  in it as a whole; and splitting the last record stays in it
  exactly when the place computed for the new record does.

  Key definitions include:
    * `Within`
    * `listedInside`, `roomAfter`, `blocksInside`
    * `addedInside`
    * `WalksWithin`, `WalksInside`

  Key theorems include:
    * `listWalk_within_iff`
    * `addWalk_within_iff`
    * `walks_within_iff`
-/

------------------------------------------------------------
-- Accesses Inside the Buffer
------------------------------------------------------------

namespace Ester

namespace Ext2

open PackedCodec

/- An access lies in the buffer. -/
def WalkEvent.Inside
    (size : Nat) : WalkEvent → Prop
  | .read off len => off + len ≤ size
  | .write off len => off + len ≤ size
  | .deliver _ _ _ => True

/- All accesses of a log lie in the buffer. -/
def Within
    (size : Nat)
    (log : List WalkEvent) : Prop :=
  ∀ e ∈ log, e.Inside size

theorem within_append
    {size : Nat}
    {log more : List WalkEvent} :
    Within size (log ++ more) ↔
      Within size log ∧ Within size more :=
  List.forall_mem_append

theorem within_nil
    (size : Nat) :
    Within size [] := by
  simp [Within]

------------------------------------------------------------
-- Records of a Content
------------------------------------------------------------

section Content

variable (size : UInt32) (content : Memory)

/-
  The records a listing meets in a block, with a number of
  slots left, lie in the block: an unused record up to its
  inode number, any other with its header and its name.
-/
def listedInside : (room : Nat) → (offset : UInt32) → Prop
  | 0, _ => True
  | room + 1, offset =>
      offset < size →
        if content.load word32 offset.toNat = 0 then
          offset.toNat + 4 ≤ size.toNat
        else
          offset.toNat + 8 +
              (content (offset.toNat + 6)).toNat ≤
            size.toNat ∧
          listedInside room (offset +
            (content.load word16 (offset.toNat + 4)).toUInt32)

/- The slots that are left behind a block. -/
def roomAfter : (room : Nat) → (offset : UInt32) → Nat
  | 0, _ => 0
  | room + 1, offset =>
      if offset < size ∧
          content.load word32 offset.toNat ≠ 0 then
        roomAfter room (offset +
          (content.load word16 (offset.toNat + 4)).toUInt32)
      else room + 1

/-
  The records met on the way to the last one of a block lie
  in it up to their lengths, and so does the new record that
  is placed behind the last.
-/
def addedInside
    (name : List UInt8) :
    (room : Nat) → (offset : UInt32) → Prop
  | 0, _ => True
  | room + 1, offset =>
      offset.toNat + 6 ≤ size.toNat ∧
        let next := offset +
          (content.load word16 (offset.toNat + 4)).toUInt32
        if size ≤ next then
          offset.toNat + (cutSize offset name).toNat + 8 +
              name.length ≤ size.toNat
        else addedInside name room next

end Content

/-
  The blocks that a listing reads one after the other, by
  what the buffer holds after each read.
-/
def blocksInside
    (env : WalkEnv)
    (content : Nat → Memory) :
    (left i room : Nat) → Prop
  | 0, _, _ => True
  | left + 1, i, room =>
      env.hasBlock i = true →
        listedInside env.blockSize (content i) room 0 ∧
          blocksInside env content left (i + 1)
            (roomAfter env.blockSize (content i) room 0)

/-
  Reading the `i`-th block leaves its content in the buffer,
  and the caller's array does not overlap the buffer.
-/
structure WalkEnv.Holds
    (env : WalkEnv)
    (content : Nat → Memory) : Prop where
  fill : ∀ i mem, ∀ k < env.blockSize.toNat,
    env.fill i mem k = content i k
  deliver : ∀ slot second mem, ∀ k < env.blockSize.toNat,
    env.deliver slot second mem k = mem k

/- Memory agrees with a content in the buffer. -/
def BufferHolds
    (size : UInt32)
    (mem content : Memory) : Prop :=
  ∀ k < size.toNat, mem k = content k

theorem BufferHolds.load
    {α : Type}
    {size : UInt32}
    {mem content : Memory}
    (h : BufferHolds size mem content)
    (c : PackedCodec α)
    {off : Nat}
    (hOff : off + c.size ≤ size.toNat) :
    mem.load c off = content.load c off :=
  Memory.load_congr fun j _ hj => h j (by omega)

theorem blocksInside_zero
    (env : WalkEnv)
    (content : Nat → Memory)
    (left i : Nat) :
    blocksInside env content left i 0 := by
  induction left generalizing i with
  | zero => trivial
  | succ left ih => exact fun _ => ⟨trivial, ih (i + 1)⟩

------------------------------------------------------------
-- Listing
------------------------------------------------------------

section Listing

variable {env : WalkEnv} {content : Nat → Memory}

/- What the rest of a listing has to stay inside of. -/
def listRest
    (env : WalkEnv)
    (content : Nat → Memory)
    (s : ListState) : Prop :=
  match s.offset with
  | none =>
      blocksInside env content (ext2NdirBlocks - s.i) s.i
        (maxSubdirs - s.j.toNat)
  | some offset =>
      listedInside env.blockSize (content s.i)
          (maxSubdirs - s.j.toNat) offset ∧
        blocksInside env content
          (ext2NdirBlocks - (s.i + 1)) (s.i + 1)
          (roomAfter env.blockSize (content s.i)
            (maxSubdirs - s.j.toNat) offset)

/- The buffer holds the content of the current block. -/
def ListState.Holds
    (env : WalkEnv)
    (content : Nat → Memory)
    (s : ListState) : Prop :=
  s.offset.isSome →
    BufferHolds env.blockSize s.mem (content s.i)

theorem listedInside_of_ge
    {size : UInt32}
    {content : Memory}
    {offset : UInt32}
    (h : ¬ offset < size)
    (room : Nat) :
    listedInside size content room offset ∧
      roomAfter size content room offset = room := by
  cases room with
  | zero => exact ⟨trivial, rfl⟩
  | succ room =>
      unfold listedInside roomAfter
      exact ⟨fun hLt => absurd hLt h,
        if_neg fun hBoth => h hBoth.1⟩

/- A finished listing has nothing left to stay inside of. -/
theorem listRest_of_done
    {s : ListState}
    {out : UInt16 × List WalkEvent}
    (hDone : listRound env s = some (.done out)) :
    out = (s.j, s.log) ∧ listRest env content s := by
  unfold listRound at hDone
  unfold listRest
  cases hOffset : s.offset with
  | none =>
      rw [hOffset] at hDone
      dsimp only at hDone
      split at hDone
      · cases hDone
      · next hBlock =>
          cases hDone
          refine ⟨rfl, ?_⟩
          simp only
          cases ext2NdirBlocks - s.i with
          | zero => trivial
          | succ left => exact fun hHas => absurd hHas hBlock
  | some offset =>
      rw [hOffset] at hDone
      dsimp only at hDone
      split at hDone
      · split at hDone
        · next hFull =>
            cases hDone
            have hRoom : maxSubdirs - s.j.toNat = 0 := by
              rw [UInt16.le_iff_toNat_le] at hFull
              change 128 ≤ s.j.toNat at hFull
              exact Nat.sub_eq_zero_of_le hFull
            refine ⟨rfl, ?_⟩
            simp only [hRoom]
            exact ⟨trivial, blocksInside_zero ..⟩
        · split at hDone <;> cases hDone
      · cases hDone

/- Entering a block moves one block into the buffer. -/
theorem listRound_enter
    (hEnv : env.Holds content)
    {s t : ListState}
    (hOffset : s.offset = none)
    (hAgain : listRound env s = some (.again t)) :
    t.log = s.log ++ [transferEvent] ∧
      t.Holds env content ∧
      (listRest env content s ↔ listRest env content t) := by
  unfold listRound at hAgain
  rw [hOffset] at hAgain
  simp only at hAgain
  split at hAgain
  · next hBlock =>
      cases hAgain
      refine ⟨rfl, fun _ => hEnv.fill s.i s.mem, ?_⟩
      have hLt := lt_of_hasBlock hBlock
      unfold listRest
      rw [hOffset]
      simp only
      have hLeft : ext2NdirBlocks - s.i =
          ext2NdirBlocks - (s.i + 1) + 1 := by
        omega
      rw [hLeft, blocksInside]
      exact forall_prop_of_true hBlock
  · cases hAgain

/- At the end of a block the listing turns to the next one. -/
theorem listRound_leave
    {s t : ListState}
    {offset : UInt32}
    (hOffset : s.offset = some offset)
    (hEnd : ¬ offset < env.blockSize)
    (hAgain : listRound env s = some (.again t)) :
    t.log = s.log ∧ t.offset = none ∧
      (listRest env content s ↔ listRest env content t) := by
  unfold listRound at hAgain
  rw [hOffset] at hAgain
  simp only [if_neg hEnd] at hAgain
  cases hAgain
  refine ⟨rfl, rfl, ?_⟩
  rcases @listedInside_of_ge env.blockSize (content s.i) _ hEnd
    (maxSubdirs - s.j.toNat) with ⟨hInside, hRoom⟩
  unfold listRest
  rw [hOffset]
  simp only [hRoom]
  exact and_iff_right hInside

theorem listedInside_succ
    {size : UInt32}
    {content : Memory}
    {room : Nat}
    {offset : UInt32}
    (hMore : offset < size) :
    listedInside size content (room + 1) offset ↔
      if content.load word32 offset.toNat = 0 then
        offset.toNat + 4 ≤ size.toNat
      else
        offset.toNat + 8 +
            (content (offset.toNat + 6)).toNat ≤
          size.toNat ∧
        listedInside size content room (offset +
          (content.load word16
            (offset.toNat + 4)).toUInt32) := by
  rw [listedInside]
  exact forall_prop_of_true hMore

/- A record that starts too far behind does not lie inside. -/
theorem not_listedInside
    {size : UInt32}
    {content : Memory}
    {room : Nat}
    {offset : UInt32}
    (hMore : offset < size)
    (hOut : ¬ offset.toNat + 4 ≤ size.toNat) :
    ¬ listedInside size content (room + 1) offset := by
  rw [listedInside_succ hMore]
  split
  · exact hOut
  · exact fun h => hOut (by omega)

/- An unused record ends the walk of its block. -/
theorem listRest_unused
    {s : ListState}
    {offset : UInt32}
    {room : Nat}
    (hOffset : s.offset = some offset)
    (hRoom : maxSubdirs - s.j.toNat = room + 1)
    (hMore : offset < env.blockSize)
    (hInside : offset.toNat + 4 ≤ env.blockSize.toNat)
    (hUnused :
      (content s.i).load word32 offset.toNat = 0) :
    listRest env content s ↔
      blocksInside env content (ext2NdirBlocks - (s.i + 1))
        (s.i + 1) (room + 1) := by
  unfold listRest
  rw [hOffset]
  simp only [hRoom, listedInside_succ hMore, roomAfter,
    hUnused, if_true, hInside, true_and, ne_eq,
    not_true_eq_false, and_false, if_false]

/- Behind a record in use the walk follows its length. -/
theorem listRest_used
    {s : ListState}
    {offset : UInt32}
    {room : Nat}
    (hOffset : s.offset = some offset)
    (hRoom : maxSubdirs - s.j.toNat = room + 1)
    (hMore : offset < env.blockSize)
    (hUsed :
      (content s.i).load word32 offset.toNat ≠ 0) :
    listRest env content s ↔
      offset.toNat + 8 +
          ((content s.i) (offset.toNat + 6)).toNat ≤
        env.blockSize.toNat ∧
      listedInside env.blockSize (content s.i) room
        (offset + ((content s.i).load word16
          (offset.toNat + 4)).toUInt32) ∧
      blocksInside env content (ext2NdirBlocks - (s.i + 1))
        (s.i + 1)
        (roomAfter env.blockSize (content s.i) room
          (offset + ((content s.i).load word16
            (offset.toNat + 4)).toUInt32)) := by
  unfold listRest
  rw [hOffset]
  simp only [hRoom, listedInside_succ hMore, roomAfter,
    hUsed, if_false, hMore, ne_eq, not_false_eq_true,
    and_self, if_true, and_assoc]

/-
  The accesses to one record lie in the buffer exactly when
  the record does; then the walk goes on as the content has
  it.
-/
theorem listRound_record
    (hEnv : env.Holds content)
    {s t : ListState}
    {offset : UInt32}
    (hOffset : s.offset = some offset)
    (hMore : offset < env.blockSize)
    (hHolds : s.Holds env content)
    (hAgain : listRound env s = some (.again t)) :
    ∃ tail, t.log = s.log ++ tail ∧
      ((Within env.blockSize.toNat tail ∧
        t.Holds env content ∧
        (listRest env content s ↔ listRest env content t)) ∨
      (¬ Within env.blockSize.toNat tail ∧
        ¬ listRest env content s)) := by
  have hAgrees : BufferHolds env.blockSize s.mem (content s.i) :=
    hHolds (by rw [hOffset]; rfl)
  unfold listRound at hAgain
  rw [hOffset] at hAgain
  simp only [if_pos hMore] at hAgain
  split at hAgain
  · cases hAgain
  · next hFree =>
      rcases toNat_succ16 hFree with ⟨hSucc, hLt⟩
      have hRoom : maxSubdirs - s.j.toNat =
          maxSubdirs - (s.j + 1).toNat + 1 := by
        omega
      have hOutside :
          ¬ offset.toNat + 4 ≤ env.blockSize.toNat →
          ¬ listRest env content s := by
        intro hOut hRest
        unfold listRest at hRest
        rw [hOffset] at hRest
        simp only [hRoom] at hRest
        exact not_listedInside hMore hOut hRest.1
      by_cases hFirst :
          offset.toNat + 4 ≤ env.blockSize.toNat
      · have hInode := hAgrees.load word32 hFirst
        split at hAgain
        · next hUnused =>
            cases hAgain
            rw [hInode] at hUnused
            refine ⟨_, rfl, .inl ⟨?_, nofun, ?_⟩⟩
            · simpa [Within, WalkEvent.Inside] using hFirst
            · rw [listRest_unused hOffset hRoom hMore hFirst
                hUnused, ← hRoom]
              rfl
        · next hUsed =>
            cases hAgain
            rw [hInode] at hUsed
            have hRest := @listRest_used env content s offset
              _ hOffset hRoom hMore hUsed
            refine ⟨_, rfl, ?_⟩
            by_cases hHeader :
                offset.toNat + 8 ≤ env.blockSize.toNat
            · have hLen :
                  env.deliver s.j.toNat false s.mem
                      (offset.toNat + 6) =
                    content s.i (offset.toNat + 6) := by
                rw [hEnv.deliver _ _ _ _ (by omega)]
                exact hAgrees _ (by omega)
              have hAfter : BufferHolds env.blockSize
                  (env.deliver s.j.toNat true
                    (env.deliver s.j.toNat false s.mem))
                  (content s.i) := by
                intro k hk
                rw [hEnv.deliver _ _ _ k hk,
                  hEnv.deliver _ _ _ k hk]
                exact hAgrees k hk
              have hSize := hAfter.load word16
                (show offset.toNat + 4 + 2 ≤ _ by omega)
              rw [hRest, hLen]
              by_cases hName : offset.toNat + 8 +
                  (content s.i (offset.toNat + 6)).toNat ≤
                    env.blockSize.toNat
              · refine .inl ⟨?_, fun _ => hAfter, ?_⟩
                · simp only [Within, List.forall_mem_cons,
                    WalkEvent.Inside]
                  refine ⟨by omega, by omega, by omega, hName,
                    trivial, by omega, by simp⟩
                · rw [and_iff_right hName, ← hSize]
                  rfl
              · refine .inr ⟨?_, fun h => hName h.1⟩
                intro hWithin
                have hRead := hWithin (.read (offset.toNat + 8)
                  (content s.i (offset.toNat + 6)).toNat)
                  (by simp)
                exact hName hRead
            · refine .inr ⟨?_, ?_⟩
              · intro hWithin
                have hRead := hWithin (.read offset.toNat 8)
                  (by simp)
                exact hHeader hRead
              · rw [hRest]
                rintro ⟨hName, -⟩
                omega
      · split at hAgain
        · cases hAgain
          refine ⟨_, rfl, .inr ⟨?_, hOutside hFirst⟩⟩
          intro hWithin
          exact hFirst (hWithin (.read offset.toNat 4)
            (by simp))
        · cases hAgain
          refine ⟨_, rfl, .inr ⟨?_, hOutside hFirst⟩⟩
          intro hWithin
          exact hFirst (hWithin (.read offset.toNat 4)
            (by simp))

/- A round keeps the log, and what it means for the rest. -/
theorem listRound_rest
    (hEnv : env.Holds content)
    (hTransfer : logicalBlockSize ≤ env.blockSize.toNat)
    {s t : ListState}
    (hHolds : s.Holds env content)
    (hAgain : listRound env s = some (.again t)) :
    ∃ tail, t.log = s.log ++ tail ∧
      ((Within env.blockSize.toNat tail ∧
        t.Holds env content ∧
        (listRest env content s ↔ listRest env content t)) ∨
      (¬ Within env.blockSize.toNat tail ∧
        ¬ listRest env content s)) := by
  cases hOffset : s.offset with
  | none =>
      rcases listRound_enter hEnv hOffset hAgain with
        ⟨hLog, hNext, hRest⟩
      refine ⟨_, hLog, .inl ⟨?_, hNext, hRest⟩⟩
      simpa [Within, WalkEvent.Inside] using hTransfer
  | some offset =>
      by_cases hMore : offset < env.blockSize
      · exact listRound_record hEnv hOffset hMore hHolds hAgain
      · rcases @listRound_leave env content s t offset hOffset
          hMore hAgain with ⟨hLog, hNone, hRest⟩
        refine ⟨[], by simpa using hLog, .inl
          ⟨within_nil _, fun h => ?_, hRest⟩⟩
        rw [hNone] at h
        cases h

/- Rounds only add to the log. -/
theorem listRound_log
    {s t : ListState}
    (hAgain : listRound env s = some (.again t)) :
    ∃ tail, t.log = s.log ++ tail := by
  unfold listRound at hAgain
  split at hAgain
  · split at hAgain
    · cases hAgain
      exact ⟨_, rfl⟩
    · cases hAgain
  · split at hAgain
    · split at hAgain
      · cases hAgain
      · dsimp only at hAgain
        split at hAgain <;> cases hAgain <;> exact ⟨_, rfl⟩
    · cases hAgain
      exact ⟨[], (List.append_nil _).symm⟩

/-
  The accesses of the rest of a listing lie in the buffer
  exactly when the records that are left do.
-/
theorem loop_list_rest
    (env : WalkEnv)
    (content : Nat → Memory)
    {s : ListState}
    {fuel : Nat}
    (hInv : ListInv s)
    (hFuel : walkLeft s.i s.j.toNat s.offset < fuel) :
    ∃ count tail,
      loop (listRound env) fuel s =
        some (count, s.log ++ tail) ∧
      (env.Holds content →
        logicalBlockSize ≤ env.blockSize.toNat →
        s.Holds env content →
        (Within env.blockSize.toNat tail ↔
          listRest env content s)) := by
  induction fuel generalizing s with
  | zero => omega
  | succ fuel ih =>
      rcases listRound_measure hInv with
        ⟨t, hAgain, hNext, hLess⟩ | ⟨out, hDone, -⟩
      · rcases ih hNext (by omega) with
          ⟨count, tail, hLoop, hTail⟩
        rcases listRound_log hAgain with ⟨events, hLog⟩
        refine ⟨count, events ++ tail, ?_,
          fun hEnv hTransfer hHolds => ?_⟩
        · rw [loop_again fuel hAgain, hLoop, hLog,
            List.append_assoc]
        · rcases listRound_rest hEnv hTransfer hHolds hAgain
            with ⟨events', hLog', hCases⟩
          have hSame : events = events' :=
            List.append_cancel_left (hLog.symm.trans hLog')
          subst hSame
          rw [within_append]
          rcases hCases with ⟨hIn, hHolds', hRest⟩ | ⟨hOut, hNot⟩
          · rw [and_iff_right hIn,
              hTail hEnv hTransfer hHolds', hRest]
          · exact iff_of_false (fun h => hOut h.1) hNot
      · rcases @listRest_of_done env content s out hDone with
          ⟨rfl, hRest⟩
        refine ⟨s.j, [], ?_, fun _ _ _ =>
          iff_of_true (within_nil _) hRest⟩
        rw [loop_done fuel hDone, List.append_nil]

/- A listing with a first block starts with its transfer. -/
theorem loop_list_first
    {mem : Memory}
    {fuel : Nat}
    {out : UInt16 × List WalkEvent}
    (hBlock : env.hasBlock 0 = true)
    (hFuel : walkLeft 0 0 none < fuel)
    (hLoop : loop (listRound env) fuel ⟨0, 0, none, mem, []⟩ =
      some out) :
    transferEvent ∈ out.2 := by
  cases fuel with
  | zero => omega
  | succ fuel =>
      have hEnter : listRound env ⟨0, 0, none, mem, []⟩ =
          some (.again ⟨0, 0, some 0, env.fill 0 mem,
            [transferEvent]⟩) := by
        simp [listRound, hBlock]
      rw [loop_again fuel hEnter] at hLoop
      have hLess : walkLeft 0 0 (some 0) < walkLeft 0 0 none := by
        decide
      rcases @loop_list_rest env (fun _ _ => 0)
        ⟨0, 0, some 0, env.fill 0 mem, [transferEvent]⟩ fuel
        ⟨fun _ => show 0 < ext2NdirBlocks by decide,
          Nat.zero_le _, rfl, by simp [deliveries]⟩
        (by
          change walkLeft 0 0 (some 0) < fuel
          omega) with ⟨count, tail, hRest, -⟩
      rw [hRest] at hLoop
      cases hLoop
      exact List.mem_append_left _ (List.mem_singleton_self _)

/-
  A listing of a directory whose first pointer is set stays
  in its buffer exactly when the transfers and the records
  it meets do.
-/
theorem listWalk_within_iff
    (hEnv : env.Holds content)
    (hDir : env.inode.isDir = true)
    (hBlock : env.hasBlock 0 = true)
    {rounds : Nat}
    (hRounds : walkRounds ≤ rounds)
    (mem : Memory) :
    ∃ count log,
      ext2ListWalk rounds env mem = some (count, log) ∧
      (Within env.blockSize.toNat log ↔
        logicalBlockSize ≤ env.blockSize.toNat ∧
          blocksInside env content ext2NdirBlocks 0
            maxSubdirs) := by
  have hInv : ListInv ⟨0, 0, none, mem, []⟩ :=
    ⟨fun _ => Nat.succ_pos 11, Nat.zero_le _, rfl, by
      simp [deliveries]⟩
  have hFuel : walkLeft 0 0 none < rounds :=
    Nat.lt_of_lt_of_le (by decide) hRounds
  rcases loop_list_rest env content hInv hFuel with
    ⟨count, log, hLoop, hWithin⟩
  refine ⟨count, log, ?_, ?_⟩
  · unfold ext2ListWalk
    rw [if_pos hDir, hLoop, List.nil_append]
  · by_cases hTransfer :
        logicalBlockSize ≤ env.blockSize.toNat
    · rw [hWithin hEnv hTransfer fun hSome =>
          absurd hSome Bool.false_ne_true,
        and_iff_right hTransfer]
      rfl
    · refine iff_of_false (fun h => ?_) fun h => hTransfer h.1
      -- the first event is the transfer of the first block
      have hEvent := h transferEvent
        (loop_list_first hBlock hFuel hLoop)
      simp only [WalkEvent.Inside, Nat.zero_add] at hEvent
      exact hTransfer hEvent

end Listing

------------------------------------------------------------
-- Adding an Entry
------------------------------------------------------------

section Adding

variable {env : WalkEnv} {content : Nat → Memory}
variable {inodeNum : UInt32} {name : List UInt8}

/-
  The walk is inside a block, and the buffer holds the
  content of that block.
-/
def AddState.Holds
    (env : WalkEnv)
    (content : Nat → Memory)
    (s : AddState) : Prop :=
  ∀ offset, s.offset = some offset →
    offset < env.blockSize ∧
      BufferHolds env.blockSize s.mem (content s.i)

/- What the rest of the walk has to stay inside of. -/
def addRest
    (env : WalkEnv)
    (content : Nat → Memory)
    (name : List UInt8)
    (s : AddState) : Prop :=
  match s.offset with
  | none =>
      env.hasBlock s.i = true →
        addedInside env.blockSize (content s.i) name
          (maxSubdirs - s.j.toNat) 0
  | some offset =>
      addedInside env.blockSize (content s.i) name
        (maxSubdirs - s.j.toNat) offset

/-
  Splitting a record reads and writes its length and writes
  the new record where the new length leads.
-/
theorem within_splitIn
    {size : Nat}
    {mem : Memory}
    {offset : UInt32}
    (hLast : offset.toNat + 6 ≤ size)
    (hTransfer : logicalBlockSize ≤ size) :
    Within size (splitIn mem offset inodeNum name).2 ↔
      offset.toNat + (cutSize offset name).toNat + 8 +
        name.length ≤ size := by
  simp only [splitIn, Memory.load_store_self, Within,
    List.forall_mem_cons, WalkEvent.Inside, Nat.zero_add]
  constructor
  · rintro ⟨-, -, -, -, -, -, -, -, hName, -⟩
    exact hName
  · intro hName
    refine ⟨by omega, by omega, by omega, by omega, by omega,
      by omega, by omega, by omega, hName, hTransfer, ?_⟩
    simp

theorem addedInside_succ
    {size : UInt32}
    {content : Memory}
    {room : Nat}
    {offset : UInt32} :
    addedInside size content name (room + 1) offset ↔
      offset.toNat + 6 ≤ size.toNat ∧
        if size ≤ offset + (content.load word16
            (offset.toNat + 4)).toUInt32 then
          offset.toNat + (cutSize offset name).toNat + 8 +
              name.length ≤ size.toNat
        else addedInside size content name room
          (offset + (content.load word16
            (offset.toNat + 4)).toUInt32) :=
  Iff.rfl

/-
  A last round adds accesses that lie in the buffer exactly
  when what is left of the walk does.
-/
theorem addRound_done
    (hTransfer : logicalBlockSize ≤ env.blockSize.toNat)
    {s : AddState}
    {out : UInt8 × Memory × List WalkEvent}
    (hHolds : s.Holds env content)
    (hDone : addRound env inodeNum name s =
      some (.done out)) :
    ∃ tail, out.2.2 = s.log ++ tail ∧
      (Within env.blockSize.toNat tail ↔
        addRest env content name s) := by
  unfold addRound at hDone
  unfold addRest
  cases hOffset : s.offset with
  | none =>
      rw [hOffset] at hDone
      dsimp only at hDone
      split at hDone
      · cases hDone
      · next hBlock =>
          cases hDone
          exact ⟨[], (List.append_nil _).symm,
            iff_of_true (within_nil _)
              fun hHas => absurd hHas hBlock⟩
  | some offset =>
      rw [hOffset] at hDone
      dsimp only at hDone
      rcases hHolds offset hOffset with ⟨hMore, hAgrees⟩
      rw [if_pos hMore] at hDone
      split at hDone
      · next hFull =>
          cases hDone
          have hRoom : maxSubdirs - s.j.toNat = 0 := by
            rw [UInt32.le_iff_toNat_le] at hFull
            change 128 ≤ s.j.toNat at hFull
            exact Nat.sub_eq_zero_of_le hFull
          refine ⟨[], (List.append_nil _).symm,
            iff_of_true (within_nil _) ?_⟩
          simp only [hRoom]
          trivial
      · next hFree =>
          rcases toNat_succ32 hFree with ⟨hSucc, hLt⟩
          have hRoom : maxSubdirs - s.j.toNat =
              maxSubdirs - (s.j + 1).toNat + 1 := by
            omega
          split at hDone
          · next hLast =>
              cases hDone
              refine ⟨_, List.append_assoc .., ?_⟩
              simp only [hRoom, addedInside_succ]
              rw [within_append]
              by_cases hSize :
                  offset.toNat + 6 ≤ env.blockSize.toNat
              · have hLoad := hAgrees.load word16
                  (show offset.toNat + 4 + 2 ≤ _ by omega)
                rw [hLoad] at hLast
                rw [if_pos hLast, and_iff_right hSize,
                  within_splitIn hSize hTransfer,
                  and_iff_right]
                simpa [Within, WalkEvent.Inside] using hSize
              · refine iff_of_false (fun h => hSize ?_)
                  fun h => hSize h.1
                exact h.1 (.read (offset.toNat + 4) 2) (by simp)
          · cases hDone

/- A round before the last only reads a length. -/
theorem addRound_again
    (hTransfer : logicalBlockSize ≤ env.blockSize.toNat)
    (hEnv : env.Holds content)
    {s t : AddState}
    (hHolds : s.Holds env content)
    (hAgain : addRound env inodeNum name s =
      some (.again t)) :
    ∃ tail, t.log = s.log ++ tail ∧
      ((Within env.blockSize.toNat tail ∧
        t.Holds env content ∧
        (addRest env content name s ↔
          addRest env content name t)) ∨
      (¬ Within env.blockSize.toNat tail ∧
        ¬ addRest env content name s)) := by
  unfold addRound at hAgain
  unfold addRest
  cases hOffset : s.offset with
  | none =>
      rw [hOffset] at hAgain
      dsimp only at hAgain
      split at hAgain
      · next hBlock =>
          cases hAgain
          refine ⟨_, rfl, .inl ⟨?_, ?_, ?_⟩⟩
          · simpa [Within, WalkEvent.Inside] using hTransfer
          · intro offset hSome
            cases hSome
            refine ⟨?_, hEnv.fill s.i s.mem⟩
            rw [UInt32.lt_iff_toNat_lt]
            change 0 < _
            exact Nat.lt_of_lt_of_le (by decide) hTransfer
          · exact forall_prop_of_true hBlock
      · cases hAgain
  | some offset =>
      rw [hOffset] at hAgain
      dsimp only at hAgain
      rcases hHolds offset hOffset with ⟨hMore, hAgrees⟩
      rw [if_pos hMore] at hAgain
      split at hAgain
      · cases hAgain
      · next hFree =>
          rcases toNat_succ32 hFree with ⟨hSucc, hLt⟩
          have hRoom : maxSubdirs - s.j.toNat =
              maxSubdirs - (s.j + 1).toNat + 1 := by
            omega
          split at hAgain
          · cases hAgain
          · next hNext =>
              cases hAgain
              refine ⟨_, List.append_assoc .., ?_⟩
              simp only [hRoom, addedInside_succ]
              by_cases hSize :
                  offset.toNat + 6 ≤ env.blockSize.toNat
              · have hLoad := hAgrees.load word16
                  (show offset.toNat + 4 + 2 ≤ _ by omega)
                rw [hLoad] at hNext
                refine .inl ⟨?_, ?_, ?_⟩
                · simpa [Within, WalkEvent.Inside] using hSize
                · intro next hSome
                  cases hSome
                  rw [hLoad]
                  refine ⟨?_, hAgrees⟩
                  rw [UInt32.lt_iff_toNat_lt]
                  rw [UInt32.le_iff_toNat_le] at hNext
                  omega
                · rw [if_neg hNext, and_iff_right hSize, hLoad]
              · refine .inr ⟨fun h => hSize ?_,
                  fun h => hSize h.1⟩
                exact h (.read (offset.toNat + 4) 2) (by simp)

/- Rounds of the walk only add to the log. -/
theorem addRound_log
    {s : AddState} :
    (∀ t, addRound env inodeNum name s = some (.again t) →
      ∃ tail, t.log = s.log ++ tail) ∧
    (∀ out, addRound env inodeNum name s = some (.done out) →
      ∃ tail, out.2.2 = s.log ++ tail) := by
  unfold addRound
  constructor
  · intro t hAgain
    split at hAgain
    · split at hAgain
      · cases hAgain
        exact ⟨_, rfl⟩
      · cases hAgain
    · split at hAgain
      · split at hAgain
        · cases hAgain
        · dsimp only at hAgain
          split at hAgain
          · cases hAgain
          · cases hAgain
            exact ⟨_, List.append_assoc ..⟩
      · cases hAgain
        exact ⟨[], (List.append_nil _).symm⟩
  · intro out hDone
    split at hDone
    · split at hDone
      · cases hDone
      · cases hDone
        exact ⟨[], (List.append_nil _).symm⟩
    · split at hDone
      · split at hDone
        · cases hDone
          exact ⟨[], (List.append_nil _).symm⟩
        · dsimp only at hDone
          split at hDone
          · cases hDone
            exact ⟨_, List.append_assoc ..⟩
          · cases hDone
      · cases hDone

/-
  The accesses of the rest of the walk lie in the buffer
  exactly when the records that are left do.
-/
theorem loop_add_rest
    (env : WalkEnv)
    (content : Nat → Memory)
    (inodeNum : UInt32)
    (name : List UInt8)
    {s : AddState}
    {fuel : Nat}
    (hBlock : s.offset.isSome → s.i < ext2NdirBlocks)
    (hFuel : walkLeft s.i s.j.toNat s.offset < fuel) :
    ∃ out tail,
      loop (addRound env inodeNum name) fuel s = some out ∧
      out.2.2 = s.log ++ tail ∧
      (env.Holds content →
        logicalBlockSize ≤ env.blockSize.toNat →
        s.Holds env content →
        (Within env.blockSize.toNat tail ↔
          addRest env content name s)) := by
  induction fuel generalizing s with
  | zero => omega
  | succ fuel ih =>
      rcases @addRound_measure env inodeNum name s hBlock with
        ⟨t, hAgain, hNext, hLess⟩ | ⟨out, hDone, -⟩
      · rcases ih hNext (by omega) with
          ⟨out, tail, hLoop, hOut, hTail⟩
        rcases addRound_log.1 t hAgain with ⟨events, hLog⟩
        refine ⟨out, events ++ tail, ?_, ?_,
          fun hEnv hTransfer hHolds => ?_⟩
        · rw [loop_again fuel hAgain, hLoop]
        · rw [hOut, hLog, List.append_assoc]
        · rcases addRound_again hTransfer hEnv hHolds hAgain
            with ⟨events', hLog', hCases⟩
          have hSame : events = events' :=
            List.append_cancel_left (hLog.symm.trans hLog')
          subst hSame
          rw [within_append]
          rcases hCases with ⟨hIn, hHolds', hRest⟩ | ⟨hOut, hNot⟩
          · rw [and_iff_right hIn,
              hTail hEnv hTransfer hHolds', hRest]
          · exact iff_of_false (fun h => hOut h.1) hNot
      · rcases addRound_log.2 out hDone with ⟨tail, hLog⟩
        refine ⟨out, tail, loop_done fuel hDone, hLog,
          fun _ hTransfer hHolds => ?_⟩
        rcases addRound_done hTransfer hHolds hDone with
          ⟨tail', hLog', hIff⟩
        have hSame : tail = tail' :=
          List.append_cancel_left (hLog.symm.trans hLog')
        rw [hSame, hIff]

/- A walk with a first block starts with its transfer. -/
theorem loop_add_first
    {mem : Memory}
    {fuel : Nat}
    {out : UInt8 × Memory × List WalkEvent}
    (hBlock : env.hasBlock 0 = true)
    (hFuel : walkLeft 0 0 none < fuel)
    (hLoop : loop (addRound env inodeNum name) fuel
      ⟨0, 0, none, mem, []⟩ = some out) :
    transferEvent ∈ out.2.2 := by
  cases fuel with
  | zero => omega
  | succ fuel =>
      have hEnter :
          addRound env inodeNum name ⟨0, 0, none, mem, []⟩ =
            some (.again ⟨0, 0, some 0, env.fill 0 mem,
              [transferEvent]⟩) := by
        simp [addRound, hBlock]
      rw [loop_again fuel hEnter] at hLoop
      have hLess : walkLeft 0 0 (some 0) < walkLeft 0 0 none := by
        decide
      rcases @loop_add_rest env (fun _ _ => 0) inodeNum name
        ⟨0, 0, some 0, env.fill 0 mem, [transferEvent]⟩ fuel
        (fun _ => show 0 < ext2NdirBlocks by decide)
        (by
          change walkLeft 0 0 (some 0) < fuel
          omega) with ⟨out', tail, hRest, hLog, -⟩
      rw [hRest] at hLoop
      cases hLoop
      rw [hLog]
      exact List.mem_append_left _ (List.mem_singleton_self _)

/-
  Adding to a directory whose first pointer is set stays in
  the buffer exactly when the transfer, the records met and
  the place for the new one do.
-/
theorem addWalk_within_iff
    (hEnv : env.Holds content)
    (hDir : env.inode.isDir = true)
    (hBlock : env.hasBlock 0 = true)
    (inodeNum : UInt32)
    (name : List UInt8)
    {rounds : Nat}
    (hRounds : walkRounds ≤ rounds)
    (mem : Memory) :
    ∃ out,
      ext2AddWalk rounds env inodeNum name mem = some out ∧
      (Within env.blockSize.toNat out.2.2 ↔
        logicalBlockSize ≤ env.blockSize.toNat ∧
          addedInside env.blockSize (content 0) name
            maxSubdirs 0) := by
  have hFuel : walkLeft 0 0 none < rounds :=
    Nat.lt_of_lt_of_le (by decide) hRounds
  rcases @loop_add_rest env content inodeNum name
    ⟨0, 0, none, mem, []⟩ rounds nofun hFuel with
    ⟨out, tail, hLoop, hLog, hWithin⟩
  refine ⟨out, ?_, ?_⟩
  · unfold ext2AddWalk
    rw [if_pos hDir, hLoop]
  · by_cases hTransfer :
        logicalBlockSize ≤ env.blockSize.toNat
    · rw [hLog, List.nil_append,
        hWithin hEnv hTransfer nofun,
        and_iff_right hTransfer]
      exact forall_prop_of_true hBlock
    · refine iff_of_false (fun h => ?_) fun h => hTransfer h.1
      have hEvent := h transferEvent
        (loop_add_first hBlock hFuel hLoop)
      simp only [WalkEvent.Inside, Nat.zero_add] at hEvent
      exact hTransfer hEvent

end Adding

------------------------------------------------------------
-- Both Walks
------------------------------------------------------------

/-
  Both walks end and all their accesses lie in the buffer,
  whatever memory holds before.
-/
def WalksWithin
    (env : WalkEnv)
    (inodeNum : UInt32)
    (name : List UInt8) : Prop :=
  ∀ mem rounds, walkRounds ≤ rounds →
    (∃ out, ext2ListWalk rounds env mem = some out ∧
      Within env.blockSize.toNat out.2) ∧
    ∃ out, ext2AddWalk rounds env inodeNum name mem =
        some out ∧
      Within env.blockSize.toNat out.2.2

/-
  The condition: there is nothing to read, or the buffer
  takes a transfer, every record met lies in its block, and
  so does the new record behind the last one.
-/
def WalksInside
    (env : WalkEnv)
    (content : Nat → Memory)
    (name : List UInt8) : Prop :=
  env.inode.isDir = true → env.hasBlock 0 = true →
    logicalBlockSize ≤ env.blockSize.toNat ∧
      blocksInside env content ext2NdirBlocks 0 maxSubdirs ∧
      addedInside env.blockSize (content 0) name maxSubdirs 0

/- Without a first block a walk accesses nothing. -/
theorem walks_of_no_block
    {env : WalkEnv}
    (hBlock : ¬ env.hasBlock 0 = true)
    {rounds : Nat}
    (hRounds : walkRounds ≤ rounds)
    (inodeNum : UInt32)
    (name : List UInt8)
    (mem : Memory) :
    loop (listRound env) rounds ⟨0, 0, none, mem, []⟩ =
        some (0, []) ∧
      loop (addRound env inodeNum name) rounds
          ⟨0, 0, none, mem, []⟩ =
        some (1, mem, []) := by
  cases rounds with
  | zero => exact absurd hRounds (by decide)
  | succ rounds =>
      exact ⟨loop_done rounds (by simp [listRound, hBlock]),
        loop_done rounds (by simp [addRound, hBlock])⟩

/-
  The walks stay in their buffer exactly when the directory's
  content keeps them there.
-/
theorem walks_within_iff
    {env : WalkEnv}
    {content : Nat → Memory}
    (hEnv : env.Holds content)
    (inodeNum : UInt32)
    (name : List UInt8) :
    WalksWithin env inodeNum name ↔
      WalksInside env content name := by
  unfold WalksWithin WalksInside
  by_cases hDir : env.inode.isDir = true
  · by_cases hBlock : env.hasBlock 0 = true
    · rw [forall_prop_of_true hDir, forall_prop_of_true hBlock]
      constructor
      · intro h
        rcases h (fun _ => 0) walkRounds (Nat.le_refl _) with
          ⟨⟨out, hList, hListed⟩, ⟨out', hAdd, hAdded⟩⟩
        rcases listWalk_within_iff hEnv hDir hBlock
          (Nat.le_refl _) (fun _ => 0) with
          ⟨count, log, hWalk, hIff⟩
        rcases addWalk_within_iff hEnv hDir hBlock inodeNum
          name (Nat.le_refl _) (fun _ => 0) with
          ⟨out'', hWalk', hIff'⟩
        rw [hList] at hWalk
        rw [hAdd] at hWalk'
        cases hWalk
        cases hWalk'
        exact ⟨(hIff.mp hListed).1, (hIff.mp hListed).2,
          (hIff'.mp hAdded).2⟩
      · rintro ⟨hTransfer, hListed, hAdded⟩ mem rounds hRounds
        rcases listWalk_within_iff hEnv hDir hBlock hRounds mem
          with ⟨count, log, hWalk, hIff⟩
        rcases addWalk_within_iff hEnv hDir hBlock inodeNum
          name hRounds mem with ⟨out, hWalk', hIff'⟩
        exact ⟨⟨_, hWalk, hIff.mpr ⟨hTransfer, hListed⟩⟩,
          ⟨_, hWalk', hIff'.mpr ⟨hTransfer, hAdded⟩⟩⟩
    · refine iff_of_true (fun mem rounds hRounds => ?_)
        fun _ h => absurd h hBlock
      rcases walks_of_no_block hBlock hRounds inodeNum name mem
        with ⟨hList, hAdd⟩
      unfold ext2ListWalk ext2AddWalk
      rw [if_pos hDir, if_pos hDir]
      exact ⟨⟨_, hList, within_nil _⟩,
        ⟨_, hAdd, within_nil _⟩⟩
  · refine iff_of_true (fun mem rounds hRounds => ?_)
      fun h => absurd h hDir
    unfold ext2ListWalk ext2AddWalk
    rw [if_neg hDir, if_neg hDir]
    exact ⟨⟨_, rfl, within_nil _⟩, ⟨_, rfl, within_nil _⟩⟩

------------------------------------------------------------
-- The Checked Walks
------------------------------------------------------------

/- The fields of a header by their places in memory. -/
theorem entryAt_fields
    (b : Block)
    (o : Nat) :
    (entryAt b o).dirInode = Memory.load word32 b.get o ∧
      (entryAt b o).dirEntrySize =
        Memory.load word16 b.get (o + 4) ∧
      (entryAt b o).dirNameLen = b.get (o + 6) := by
  refine ⟨rfl, ?_, ?_⟩
  · change word16.decode _ = word16.decode _
    refine word16.decode_congr _ _ fun i _ => ?_
    change b.get (o + (4 + i)) = b.get (o + 4 + i)
    rw [Nat.add_assoc]
  · exact UInt8.ofNat_toNat

/- A record length cannot carry an offset past 2^32. -/
theorem toNat_next
    {offset : UInt32}
    (hMore : offset.toNat < logicalBlockSize)
    (size : UInt16) :
    (offset + size.toUInt32).toNat =
      offset.toNat + size.toNat := by
  have hSize := size.toNat_lt
  have hBlock : logicalBlockSize = 4096 := rfl
  rw [UInt32.toNat_add, UInt16.toNat_toUInt32]
  exact Nat.mod_eq_of_lt (by omega)

/-
  The listing that faults outside its buffer has a result
  exactly when the one that goes on stays inside.
-/
theorem scanBlock_isSome_iff
    (b : Block)
    (room : Nat)
    (offset : UInt32) :
    (scanBlock b room offset.toNat).isSome ↔
      listedInside 4096 b.get room offset := by
  induction room generalizing offset with
  | zero => simp [scanBlock, listedInside]
  | succ room ih =>
      rcases entryAt_fields b offset.toNat with
        ⟨hInode, hSize, hLen⟩
      have hBlock : logicalBlockSize = (4096 : UInt32).toNat :=
        rfl
      rw [scanBlock, hInode, hLen]
      by_cases hMore : offset < 4096
      · have hLt := UInt32.lt_iff_toNat_lt.mp hMore
        rw [if_neg (by omega), listedInside_succ hMore,
          ← hSize, ← ih, toNat_next (by omega)]
        split
        · next hOut =>
            refine iff_of_false (by simp) ?_
            split
            · omega
            · exact fun h => by omega
        · next hFirst =>
            split
            · exact iff_of_true rfl (by omega)
            · split
              · next hOut =>
                  exact iff_of_false (by simp)
                    fun h => by omega
              · next hIn =>
                  rw [Option.isSome_map,
                    and_iff_right (by omega)]
      · have hGe := mt UInt32.lt_iff_toNat_lt.mpr hMore
        rw [if_pos (by omega)]
        exact iff_of_true rfl
          (listedInside_of_ge hMore _).1

------------------------------------------------------------
-- Samples
------------------------------------------------------------

/- A directory of one block that is read from a device. -/
def blockEnv
    (content : Memory) : WalkEnv where
  inode := { Inode.zero with
    iTypePermission := 0x4000
    iBlock := fun k => if k = 0 then 7 else 0 }
  blockSize := 4096
  fill := fun _ _ => content
  deliver := fun _ _ mem => mem

theorem blockEnv_holds
    (content : Memory) :
    (blockEnv content).Holds fun _ => content where
  fill _ _ _ _ := rfl
  deliver _ _ _ _ _ := rfl

/- A record of 4092 bytes and the start of another one. -/
def straddlingContent : Memory
  | 0 => 2
  | 4 => 0xFC
  | 5 => 0x0F
  | 6 => 1
  | 8 => 46
  | 4092 => 5
  | _ => 0

/- The listing reads the header at 4092 across the end. -/
theorem walks_straddling :
    (blockEnv straddlingContent).Holds
        (fun _ => straddlingContent) ∧
      ¬ WalksWithin (blockEnv straddlingContent) 5 [97] := by
  refine ⟨blockEnv_holds _, fun h => ?_⟩
  rcases (h (fun _ => 0) walkRounds (Nat.le_refl _)).1 with
    ⟨out, hList, hWithin⟩
  rcases listWalk_within_iff
    (blockEnv_holds straddlingContent) rfl rfl
    (Nat.le_refl _) (fun _ => 0) with
    ⟨count, log, hWalk, hIff⟩
  rw [hList] at hWalk
  cases hWalk
  have hBlock := ((hIff.mp hWithin).2 rfl).1
  rw [show maxSubdirs = 126 + 1 + 1 from rfl,
    listedInside_succ (by decide), if_neg (by decide)]
    at hBlock
  have hNext := hBlock.2
  rw [listedInside_succ (by decide), if_neg (by decide)]
    at hNext
  exact absurd hNext.1 (by decide)

/- One record that takes up its block. -/
def roomyContent : Memory
  | 0 => 2
  | 5 => 0x10
  | 6 => 1
  | 8 => 46
  | _ => 0

theorem walks_roomy :
    WalksWithin (blockEnv roomyContent) 5 [97] :=
  (walks_within_iff (blockEnv_holds roomyContent) 5 [97]).mpr
    fun _ _ => by
      refine ⟨by decide, ?_, ?_⟩
      · refine fun _ => ⟨?_, fun h => absurd h (by decide)⟩
        rw [show maxSubdirs = 127 + 1 from rfl,
          listedInside_succ (by decide), if_neg (by decide)]
        exact ⟨by decide,
          (listedInside_of_ge (by decide) 127).1⟩
      · rw [show maxSubdirs = 127 + 1 from rfl,
          addedInside_succ, if_pos (by decide)]
        exact ⟨by decide, by decide⟩

end Ext2

end Ester
