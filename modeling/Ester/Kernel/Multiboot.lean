import Ester.Library.Loop
import Ester.Library.Memory

/-
  The boot information from
  kernel/multiboot2_infostruct_parser.c.

  The structure starts with its size and a reserved word;
  tags follow on 8-byte boundaries, and the tag of type 0
  closes them.  The parser does not follow the tags: it
  looks at every word from the base on.  When it finds none
  it returns a pointer that it never set.

  Key definitions include:
    * `multiboot2Parser`
    * `Tags`
    * `WellFormedInfo`

  Key theorems include:
    * `multiboot2Parser_eq`
    * `Tags.mem`
    * `findsModule_iff`
-/

------------------------------------------------------------
-- The Parser
------------------------------------------------------------

namespace Ester

namespace Multiboot

open Memory PackedCodec

/- MODULE_TAG_TYPE -/
def moduleTagType : UInt32 := 3

/- The word at an address. -/
abbrev word
    (m : Memory)
    (addr : Nat) : UInt32 :=
  m.load word32 addr

/- `fixed_tag->total_size` -/
def totalSize
    (m : Memory)
    (base : UInt32) : UInt32 :=
  word m base.toNat

/-
  One round of the loop: the pointer and the count of bytes.
  The last round leaves the tag, if there is one.
-/
def parserRound
    (m : Memory)
    (base : UInt32)
    (s : Nat × UInt32) :
    Option (Round (Nat × UInt32) (Option Nat)) :=
  if s.2 < totalSize m base then
    if word m s.1 = moduleTagType then
      some (.done (some s.1))
    else some (.again (s.1 + 4, s.2 + 4))
  else some (.done none)

/-
  The pointer that is returned.  `garbage` is what the
  variable for it holds before it is set.
-/
def multiboot2Parser
    (rounds garbage : Nat)
    (m : Memory)
    (base : UInt32) : Option Nat :=
  (loop (parserRound m base) rounds (base.toNat, 0)).map
    fun tag => tag.getD garbage

------------------------------------------------------------
-- Tags
------------------------------------------------------------

/- The next multiple of 8. -/
def alignUp
    (addr : Nat) : Nat :=
  (addr + 7) / 8 * 8

/-
  The tags from an address on, each with its address and its
  type, and the address behind the closing tag.
-/
inductive Tags
    (m : Memory) :
    Nat → List (Nat × UInt32) → Nat → Prop where
  | stop
      {addr : Nat}
      (hType : word m addr = 0)
      (hSize : word m (addr + 4) = 8) :
      Tags m addr [] (addr + 8)
  | tag
      {addr stop : Nat}
      {tags : List (Nat × UInt32)}
      (hType : word m addr ≠ 0)
      (hSize : 8 ≤ (word m (addr + 4)).toNat)
      (hRest : Tags m
        (alignUp (addr + (word m (addr + 4)).toNat)) tags
        stop) :
      Tags m addr ((addr, word m addr) :: tags) stop

/- A boot information structure with its tags. -/
structure WellFormedInfo
    (m : Memory)
    (base : UInt32)
    (tags : List (Nat × UInt32)) : Prop where
  aligned : base.toNat % 8 = 0
  tags : Tags m (base.toNat + 8) tags
    (base.toNat + (totalSize m base).toNat)

/- The address of the first module tag. -/
def firstModule
    (tags : List (Nat × UInt32)) : Option Nat :=
  (tags.find? fun t => t.2 = moduleTagType).map Prod.fst

theorem le_alignUp
    (addr : Nat) :
    addr ≤ alignUp addr := by
  unfold alignUp
  omega

theorem alignUp_mod
    (addr : Nat) :
    alignUp addr % 8 = 0 := by
  unfold alignUp
  omega

/- Tags lie on boundaries, one after the other. -/
theorem Tags.bounds
    {m : Memory}
    {addr stop : Nat}
    {tags : List (Nat × UInt32)}
    (h : Tags m addr tags stop)
    (hAddr : addr % 8 = 0) :
    addr + 8 ≤ stop ∧ stop % 8 = 0 := by
  induction h with
  | stop hType hSize => omega
  | @tag addr stop tags hType hSize hRest ih =>
      have hNext := le_alignUp
        (addr + (word m (addr + 4)).toNat)
      have hBounds := ih (alignUp_mod _)
      omega

/- A tag of the list is one in memory. -/
theorem Tags.mem
    {m : Memory}
    {addr stop : Nat}
    {tags : List (Nat × UInt32)}
    (h : Tags m addr tags stop)
    (hAddr : addr % 8 = 0)
    {t : Nat × UInt32}
    (hMem : t ∈ tags) :
    addr ≤ t.1 ∧ t.1 + 8 ≤ stop ∧ t.1 % 8 = 0 ∧
      word m t.1 = t.2 := by
  induction h with
  | stop hType hSize => exact absurd hMem (by simp)
  | @tag addr stop tags hType hSize hRest ih =>
      have hNext := le_alignUp
        (addr + (word m (addr + 4)).toNat)
      rcases List.mem_cons.mp hMem with rfl | hTail
      · have hBounds := hRest.bounds (alignUp_mod _)
        exact ⟨Nat.le_refl _, by omega, hAddr, rfl⟩
      · rcases ih (alignUp_mod _) hTail with
          ⟨hLow, hHigh, hMod, hWord⟩
        exact ⟨by omega, hHigh, hMod, hWord⟩

theorem mem_of_firstModule
    {tags : List (Nat × UInt32)}
    {addr : Nat}
    (h : firstModule tags = some addr) :
    (addr, moduleTagType) ∈ tags := by
  unfold firstModule at h
  rcases Option.map_eq_some_iff.mp h with ⟨t, hFind, rfl⟩
  have hType : t.2 = moduleTagType := by
    simpa using List.find?_some hFind
  rw [← hType]
  exact List.mem_of_find?_eq_some hFind

------------------------------------------------------------
-- The Scan
------------------------------------------------------------

section Scan

variable {m : Memory} {base : UInt32}

/- No word among the first ones is that of a module tag. -/
def NoneBefore
    (m : Memory)
    (base : UInt32)
    (k : Nat) : Prop :=
  ∀ j < k, word m (base.toNat + 4 * j) ≠ moduleTagType

/- What the last round leaves. -/
def ScanResult
    (m : Memory)
    (base : UInt32) : Option Nat → Prop
  | none => NoneBefore m base ((totalSize m base).toNat / 4)
  | some addr => ∃ k < (totalSize m base).toNat / 4,
      addr = base.toNat + 4 * k ∧
        word m addr = moduleTagType ∧ NoneBefore m base k

/- A size of whole words is counted through to its end. -/
theorem loop_scan
    {rounds : Nat}
    (hSize : (totalSize m base).toNat % 4 = 0)
    (hRounds : (totalSize m base).toNat < rounds) :
    ∃ r, loop (parserRound m base) rounds (base.toNat, 0) =
        some r ∧ ScanResult m base r := by
  have hRound : ∀ s : Nat × UInt32,
      (∃ k, s.1 = base.toNat + 4 * k ∧ s.2.toNat = 4 * k ∧
        k ≤ (totalSize m base).toNat / 4 ∧
        NoneBefore m base k) →
      (∃ t, parserRound m base s = some (.again t) ∧
        (∃ k, t.1 = base.toNat + 4 * k ∧ t.2.toNat = 4 * k ∧
          k ≤ (totalSize m base).toNat / 4 ∧
          NoneBefore m base k) ∧
        (totalSize m base).toNat - t.2.toNat <
          (totalSize m base).toNat - s.2.toNat) ∨
      ∃ r, parserRound m base s = some (.done r) ∧
        ScanResult m base r := by
    rintro ⟨ptr, cnt⟩ ⟨k, hPtr, hCnt, hLe, hNone⟩
    change ptr = _ at hPtr
    change cnt.toNat = _ at hCnt
    subst hPtr
    unfold parserRound
    dsimp only
    by_cases hMore : cnt < totalSize m base
    · rw [if_pos hMore]
      rw [UInt32.lt_iff_toNat_lt, hCnt] at hMore
      by_cases hWord :
          word m (base.toNat + 4 * k) = moduleTagType
      · rw [if_pos hWord]
        exact .inr ⟨_, rfl, k, by omega, rfl, hWord, hNone⟩
      · rw [if_neg hWord]
        have hTotal := (totalSize m base).toNat_lt
        have hSucc : (cnt + 4).toNat = 4 * (k + 1) := by
          rw [UInt32.toNat_add]
          change (cnt.toNat + 4) % _ = _
          rw [hCnt]
          omega
        refine .inl ⟨_, rfl,
          ⟨k + 1, by dsimp only; omega, hSucc, by omega, ?_⟩,
          by dsimp only; omega⟩
        intro j hj
        rcases Nat.lt_succ_iff_lt_or_eq.mp hj with hLt | rfl
        · exact hNone j hLt
        · exact hWord
    · rw [if_neg hMore]
      rw [UInt32.lt_iff_toNat_lt, hCnt] at hMore
      refine .inr ⟨none, rfl, ?_⟩
      change NoneBefore m base _
      have hEnd : k = (totalSize m base).toNat / 4 := by omega
      rwa [← hEnd]
  exact @loop_total _ _ _ _ _
    (fun s : Nat × UInt32 =>
      (totalSize m base).toNat - s.2.toNat) hRound rounds _
    ⟨0, rfl, rfl, Nat.zero_le _,
      fun j hj => absurd hj (Nat.not_lt_zero j)⟩
    (Nat.lt_of_le_of_lt (Nat.sub_le _ _) hRounds)

/- The parser returns what the scan leaves. -/
theorem multiboot2Parser_eq
    (garbage : Nat)
    (hSize : (totalSize m base).toNat % 4 = 0) :
    ∃ r, ScanResult m base r ∧
      ∀ rounds, (totalSize m base).toNat < rounds →
        multiboot2Parser rounds garbage m base =
          some (r.getD garbage) := by
  rcases loop_scan hSize (Nat.lt_succ_self _) with
    ⟨r, hLoop, hResult⟩
  refine ⟨r, hResult, fun rounds hRounds => ?_⟩
  unfold multiboot2Parser
  rw [loop_mono hRounds hLoop]
  rfl

end Scan

------------------------------------------------------------
-- When the Module Is Found
------------------------------------------------------------

section Modules

variable {m : Memory} {base : UInt32}
variable {tags : List (Nat × UInt32)}

/-
  The parser ends with the address of the first module tag,
  or with no address when there is none.
-/
def FindsModule
    (garbage : Nat)
    (m : Memory)
    (base : UInt32)
    (tags : List (Nat × UInt32)) : Prop :=
  ∃ bound, ∀ rounds, bound ≤ rounds →
    multiboot2Parser rounds garbage m base =
      some ((firstModule tags).getD 0)

/-
  Nothing in front of the first module tag looks like one.
  Without a module tag nothing in the structure does, and
  the pointer that is not set happens to be null.
-/
def NoDecoy
    (garbage : Nat)
    (m : Memory)
    (base : UInt32)
    (tags : List (Nat × UInt32)) : Prop :=
  match firstModule tags with
  | some addr => NoneBefore m base ((addr - base.toNat) / 4)
  | none =>
      NoneBefore m base ((totalSize m base).toNat / 4) ∧
        garbage = 0

theorem WellFormedInfo.size_mod
    (h : WellFormedInfo m base tags) :
    (totalSize m base).toNat % 8 = 0 := by
  have hBase := h.aligned
  have hBounds := h.tags.bounds (by omega)
  omega

/- The first module tag is a word of the structure. -/
theorem WellFormedInfo.firstModule_word
    (h : WellFormedInfo m base tags)
    {addr : Nat}
    (hFirst : firstModule tags = some addr) :
    ∃ k < (totalSize m base).toNat / 4,
      addr = base.toNat + 4 * k ∧
        word m addr = moduleTagType := by
  have hBase := h.aligned
  rcases h.tags.mem (by omega) (mem_of_firstModule hFirst) with
    ⟨hLow, hHigh, hMod, hWord⟩
  dsimp only at hLow hHigh hMod hWord
  exact ⟨(addr - base.toNat) / 4, by omega, by omega, hWord⟩

/- The scan meets the tag exactly when no decoy is before. -/
theorem scanResult_of_module
    {addr : Nat}
    {r : Option Nat}
    (hFirst : ∃ k < (totalSize m base).toNat / 4,
      addr = base.toNat + 4 * k ∧
        word m addr = moduleTagType)
    (hResult : ScanResult m base r)
    (garbage : Nat) :
    r.getD garbage = addr ↔
      NoneBefore m base ((addr - base.toNat) / 4) := by
  rcases hFirst with ⟨k, hk, rfl, hWord⟩
  have hIndex :
      (base.toNat + 4 * k - base.toNat) / 4 = k := by
    omega
  rw [hIndex]
  cases r with
  | none => exact absurd hWord (hResult k hk)
  | some a =>
      rcases hResult with ⟨j, hj, rfl, hFound, hNone⟩
      change base.toNat + 4 * j = _ ↔ _
      constructor
      · intro hEq
        have hSame : j = k := by omega
        exact hSame ▸ hNone
      · intro hBefore
        have hNotLt : ¬ j < k := fun hLt => hBefore j hLt hFound
        have hNotGt : ¬ k < j := fun hGt => hNone k hGt hWord
        omega

/- Without a module tag any word found is a wrong one. -/
theorem scanResult_of_none
    {r : Option Nat}
    (hSize : (totalSize m base).toNat % 8 = 0)
    (hResult : ScanResult m base r)
    (garbage : Nat) :
    r.getD garbage = 0 ↔
      NoneBefore m base ((totalSize m base).toNat / 4) ∧
        garbage = 0 := by
  cases r with
  | none => exact (and_iff_right hResult).symm
  | some a =>
      rcases hResult with ⟨j, hj, rfl, hFound, hNone⟩
      change base.toNat + 4 * j = 0 ↔ _
      constructor
      · intro hZero
        have hFirst : j = 0 := by omega
        subst hFirst
        -- the first word is the size, a multiple of 8
        change totalSize m base = moduleTagType at hFound
        rw [hFound] at hSize
        exact absurd hSize (by decide)
      · rintro ⟨hBefore, -⟩
        exact absurd hFound (hBefore j hj)

/-
  In a well-formed structure the parser answers rightly
  exactly when there is no decoy.
-/
theorem findsModule_iff
    (h : WellFormedInfo m base tags)
    (garbage : Nat) :
    FindsModule garbage m base tags ↔
      NoDecoy garbage m base tags := by
  have hSize := h.size_mod
  rcases multiboot2Parser_eq garbage
    (show (totalSize m base).toNat % 4 = 0 by omega) with
    ⟨r, hResult, hParser⟩
  have hAnswer : FindsModule garbage m base tags ↔
      r.getD garbage = (firstModule tags).getD 0 := by
    constructor
    · rintro ⟨bound, hBound⟩
      have hFinds := hBound
        (bound + (totalSize m base).toNat + 1) (by omega)
      rw [hParser _ (by omega)] at hFinds
      exact Option.some.inj hFinds
    · intro hEq
      refine ⟨(totalSize m base).toNat + 1,
        fun rounds hRounds => ?_⟩
      rw [hParser rounds hRounds, hEq]
  rw [hAnswer]
  unfold NoDecoy
  cases hFirst : firstModule tags with
  | some addr =>
      exact scanResult_of_module (h.firstModule_word hFirst)
        hResult garbage
  | none => exact scanResult_of_none hSize hResult garbage

end Modules

------------------------------------------------------------
-- Sample Structures
------------------------------------------------------------

/- Words below 256 from address 4096 on. -/
def sampleInfo
    (words : List Nat) : Memory :=
  fun j =>
    if j % 4 = 0 ∧ 4096 ≤ j then
      UInt8.ofNat (words.getD ((j - 4096) / 4) 0)
    else 0

/- A command line whose first characters are the word 3. -/
def decoyWords : List Nat :=
  [48, 0, 1, 12, 3, 0, 3, 16, 7, 9, 0, 8]

/- The same with another command line. -/
def plainWords : List Nat :=
  [48, 0, 1, 12, 65, 0, 3, 16, 7, 9, 0, 8]

theorem decoy_wellFormed :
    WellFormedInfo (sampleInfo decoyWords) 4096
      [(4104, 1), (4120, 3)] where
  aligned := by decide
  tags := by
    refine .tag (by decide) (by decide) ?_
    refine .tag (by decide) (by decide) ?_
    exact .stop (by decide) (by decide)

theorem plain_wellFormed :
    WellFormedInfo (sampleInfo plainWords) 4096
      [(4104, 1), (4120, 3)] where
  aligned := by decide
  tags := by
    refine .tag (by decide) (by decide) ?_
    refine .tag (by decide) (by decide) ?_
    exact .stop (by decide) (by decide)

/- The parser returns the command line's characters. -/
theorem findsModule_decoy :
    WellFormedInfo (sampleInfo decoyWords) 4096
        [(4104, 1), (4120, 3)] ∧
      ¬ FindsModule 0 (sampleInfo decoyWords) 4096
        [(4104, 1), (4120, 3)] := by
  refine ⟨decoy_wellFormed, ?_⟩
  rintro ⟨bound, hBound⟩
  have hLoop :
      loop (parserRound (sampleInfo decoyWords) 4096) 5
        (4096, 0) = some (some 4112) := by decide
  have hFinds := hBound (bound + 5) (Nat.le_add_right _ _)
  unfold multiboot2Parser at hFinds
  rw [show ((4096 : UInt32).toNat, (0 : UInt32)) = (4096, 0)
    from rfl, loop_mono (Nat.le_add_left 5 bound) hLoop]
    at hFinds
  exact absurd hFinds (by decide)

theorem findsModule_plain :
    FindsModule 0 (sampleInfo plainWords) 4096
      [(4104, 1), (4120, 3)] :=
  (findsModule_iff plain_wellFormed 0).mpr (by
    change NoneBefore _ _ 6
    unfold NoneBefore
    decide)

end Multiboot

end Ester
