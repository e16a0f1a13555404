import Ester.Kernel.String
import Ester.Library.Loop

/-
  Reversing a string in place.

  `strlen` and `strrev` of kernel/string.c count with 32-bit
  indices.  Here the two loops are taken as they are, over a
  buffer: an access outside it has no result.

  Key definitions include:
    * `strlenLoop`
    * `strrev`

  Key theorems include:
    * `strlenLoop_eq`
    * `strlenLoop_endless`
    * `strrev_reverses`
    * `strrev_endless`
-/

------------------------------------------------------------
-- Counting
------------------------------------------------------------

namespace Ester

variable {n : Nat}

/- A 32-bit index below its last value counts on. -/
theorem toNat_succ
    {i : UInt32}
    (h : i.toNat + 1 < UInt32.size) :
    (i + 1).toNat = i.toNat + 1 := by
  rw [UInt32.toNat_add]
  exact Nat.mod_eq_of_lt h

/- One round of the loop of `strlen`. -/
def strlenRound
    (str : ByteBuffer n)
    (len : UInt32) : Option (Round UInt32 UInt32) :=
  if len.toNat < n then
    if str.get len.toNat ≠ 0 then some (.again (len + 1))
    else some (.done len)
  else none

/- String length, counted as the code counts it. -/
def strlenLoop
    (rounds : Nat)
    (str : ByteBuffer n) : Option UInt32 :=
  loop (strlenRound str) rounds 0

/- The bytes of a text of a buffer are not zero. -/
theorem get_ne_zero
    {str : ByteBuffer n}
    {text : List UInt8}
    (hShows : str.ShowsText 0 text)
    (hText : ∀ c ∈ text, c ≠ 0)
    {k : Nat}
    (hk : k < text.length) :
    str.get k ≠ 0 := by
  have hByte := hShows.shows k hk
  rw [Nat.zero_add] at hByte
  rw [hByte]
  exact hText _ (List.getElem_mem hk)

theorem get_length_eq_zero
    {str : ByteBuffer n}
    {text : List UInt8}
    (hShows : str.ShowsText 0 text) :
    str.get text.length = 0 := by
  have hStop := hShows.stop
  rwa [Nat.zero_add] at hStop

/- A string below 2^32 bytes is counted exactly. -/
theorem strlenLoop_eq
    {str : ByteBuffer n}
    {text : List UInt8}
    {rounds : Nat}
    (hShows : str.ShowsText 0 text)
    (hText : ∀ c ∈ text, c ≠ 0)
    (hLen : text.length < UInt32.size)
    (hRounds : text.length < rounds) :
    strlenLoop rounds str =
      some (UInt32.ofNat text.length) := by
  have hInside := hShows.inside
  have hRound : ∀ len : UInt32, len.toNat ≤ text.length →
      (∃ t, strlenRound str len = some (.again t) ∧
        t.toNat ≤ text.length ∧
        text.length - t.toNat < text.length - len.toNat) ∨
      ∃ r, strlenRound str len = some (.done r) ∧
        r = UInt32.ofNat text.length := by
    intro len hLe
    unfold strlenRound
    rw [if_pos (by omega)]
    by_cases hEnd : len.toNat = text.length
    · have hStop := get_length_eq_zero hShows
      rw [← hEnd] at hStop ⊢
      rw [if_neg (not_not_intro hStop), UInt32.ofNat_toNat]
      exact .inr ⟨len, rfl, rfl⟩
    · have hNext := get_ne_zero hShows hText
        (show len.toNat < text.length by omega)
      rw [if_pos hNext]
      have hSucc := toNat_succ
        (show len.toNat + 1 < UInt32.size by omega)
      exact .inl ⟨len + 1, rfl, by omega, by omega⟩
  rcases @loop_total _ _ _ _ _
    (fun len : UInt32 => text.length - len.toNat) hRound
    rounds 0 (Nat.zero_le _) hRounds with ⟨len, hLoop, rfl⟩
  exact hLoop

/- A string of 2^32 bytes or more is counted for ever. -/
theorem strlenLoop_endless
    {str : ByteBuffer n}
    {text : List UInt8}
    (hShows : str.ShowsText 0 text)
    (hText : ∀ c ∈ text, c ≠ 0)
    (hLen : UInt32.size ≤ text.length)
    (rounds : Nat) :
    strlenLoop rounds str = none := by
  refine @loop_endless _ _ _ (fun _ => True) ?_ _ trivial
    rounds
  intro len _
  have hByte := get_ne_zero hShows hText
    (Nat.lt_of_lt_of_le len.toNat_lt hLen)
  have hInside := hShows.inside
  have hIndex : len.toNat < n := by
    have hLt : len.toNat < UInt32.size := len.toNat_lt
    omega
  refine .inr ⟨len + 1, ?_, trivial⟩
  unfold strlenRound
  rw [if_pos hIndex, if_pos hByte]

------------------------------------------------------------
-- Swapping
------------------------------------------------------------

/- The variables of the loop of `strrev`. -/
structure Swap (n : Nat) where
  i : UInt32
  j : UInt32
  str : ByteBuffer n

/- One round of the loop of `strrev`. -/
def strrevRound
    (halfLen : UInt32)
    (s : Swap n) : Option (Round (Swap n) (ByteBuffer n)) :=
  if s.i < halfLen then
    if s.i.toNat < n ∧ s.j.toNat < n then
      let tmp := s.str.get s.i.toNat
      let str :=
        s.str.store s.i.toNat (s.str.get s.j.toNat)
      some (.again ⟨s.i + 1, s.j - 1,
        str.store s.j.toNat tmp⟩)
    else none
  else some (.done s.str)

/- String reverse. -/
def strrev
    (rounds : Nat)
    (str : ByteBuffer n) : Option (ByteBuffer n) :=
  match strlenLoop rounds str with
  | none => none
  | some strLen =>
      loop (strrevRound (strLen / 2)) rounds
        ⟨0, strLen - 1, str⟩

/- The byte of a string whose outer `i` pairs are swapped. -/
def swapped
    (str : ByteBuffer n)
    (len i k : Nat) : UInt8 :=
  if k < i ∨ (len - i ≤ k ∧ k < len) then
    str.get (len - 1 - k)
  else str.get k

/- What holds between two rounds of `strrev`. -/
structure SwapInv
    (str : ByteBuffer n)
    (len : Nat)
    (s : Swap n) : Prop where
  below : s.i.toNat ≤ len / 2
  mirror : s.i.toNat < len / 2 →
    s.j.toNat = len - 1 - s.i.toNat
  bytes : ∀ k < n, s.str.get k = swapped str len s.i.toNat k

theorem swapInv_init
    (str : ByteBuffer n)
    {len : Nat}
    (hLen : len < UInt32.size) :
    SwapInv str len ⟨0, UInt32.ofNat len - 1, str⟩ where
  below := Nat.zero_le _
  mirror hPair := by
    have hOne : (1 : UInt32) ≤ UInt32.ofNat len := by
      rw [UInt32.le_iff_toNat_le,
        UInt32.toNat_ofNat_of_lt' hLen]
      change 1 ≤ len
      omega
    rw [UInt32.toNat_sub_of_le _ _ hOne,
      UInt32.toNat_ofNat_of_lt' hLen]
    rfl
  bytes k _ := by
    unfold swapped
    rw [if_neg]
    rintro (hLow | ⟨hHigh, hLt⟩)
    · exact Nat.not_lt_zero _ hLow
    · exact absurd hLt (Nat.not_lt.mpr hHigh)

/- Swapping one more pair. -/
theorem swapInv_step
    {str : ByteBuffer n}
    {len : Nat}
    {s : Swap n}
    {tmp : UInt8}
    (hInside : len < n)
    (h : SwapInv str len s)
    (hPair : s.i.toNat < len / 2)
    (hTmp : tmp = s.str.get s.i.toNat)
    (hLen : len < UInt32.size) :
    SwapInv str len ⟨s.i + 1, s.j - 1,
      (s.str.store s.i.toNat
        (s.str.get s.j.toNat)).store s.j.toNat tmp⟩ := by
  have hMirror := h.mirror hPair
  have hSucc := toNat_succ
    (show s.i.toNat + 1 < UInt32.size by omega)
  constructor
  · simp only [hSucc]
    omega
  · simp only [hSucc]
    intro hNext
    have hOne : (1 : UInt32) ≤ s.j := by
      rw [UInt32.le_iff_toNat_le]
      change 1 ≤ s.j.toNat
      omega
    rw [UInt32.toNat_sub_of_le _ _ hOne, hMirror]
    change len - 1 - s.i.toNat - 1 = _
    omega
  · intro k hk
    simp only [hSucc]
    have hLow := h.bytes s.i.toNat (by omega)
    have hHigh := h.bytes s.j.toNat (by omega)
    unfold swapped at hLow hHigh
    rw [if_neg (by omega)] at hLow hHigh
    unfold swapped
    by_cases hj : k = s.j.toNat
    · rw [hj, ByteBuffer.get_store_self _ _ (by omega),
        if_pos (by omega), hTmp, hLow]
      exact congrArg str.get (by omega)
    · rw [ByteBuffer.get_store_of_ne _ _ hj]
      by_cases hi : k = s.i.toNat
      · rw [hi, ByteBuffer.get_store_self _ _ (by omega),
          if_pos (by omega), hHigh]
        exact congrArg str.get (by omega)
      · rw [ByteBuffer.get_store_of_ne _ _ hi, h.bytes k hk]
        unfold swapped
        by_cases hOuter : k < s.i.toNat ∨
            (len - s.i.toNat ≤ k ∧ k < len)
        · rw [if_pos hOuter, if_pos (by omega)]
        · rw [if_neg hOuter, if_neg (by omega)]

/- With half the pairs swapped the whole text is. -/
theorem swapped_half
    (str : ByteBuffer n)
    {len k : Nat}
    (hk : k < len) :
    swapped str len (len / 2) k = str.get (len - 1 - k) := by
  unfold swapped
  split
  · rfl
  · exact congrArg str.get (by omega)

------------------------------------------------------------
-- Reversal
------------------------------------------------------------

/-
  A string below 2^32 bytes is replaced by its reversal; the
  terminator and the bytes behind it stay.
-/
theorem strrev_reverses
    {str : ByteBuffer n}
    {text : List UInt8}
    {rounds : Nat}
    (hShows : str.ShowsText 0 text)
    (hText : ∀ c ∈ text, c ≠ 0)
    (hLen : text.length < UInt32.size)
    (hRounds : text.length < rounds) :
    ∃ b, strrev rounds str = some b ∧
      b.ShowsText 0 text.reverse ∧
      ∀ k, text.length ≤ k → b.get k = str.get k := by
  have hInside := hShows.inside
  rw [Nat.zero_add] at hInside
  have hHalf : (UInt32.ofNat text.length / 2).toNat =
      text.length / 2 := by
    rw [UInt32.toNat_div, UInt32.toNat_ofNat_of_lt' hLen]
    rfl
  have hRound : ∀ s, SwapInv str text.length s →
      (∃ t, strrevRound (UInt32.ofNat text.length / 2) s =
          some (.again t) ∧ SwapInv str text.length t ∧
          text.length / 2 - t.i.toNat <
            text.length / 2 - s.i.toNat) ∨
      ∃ b, strrevRound (UInt32.ofNat text.length / 2) s =
          some (.done b) ∧
        ∀ k < n, b.get k =
          swapped str text.length (text.length / 2) k := by
    intro s hInv
    unfold strrevRound
    by_cases hPair : s.i.toNat < text.length / 2
    · have hMirror := hInv.mirror hPair
      rw [if_pos (by rwa [UInt32.lt_iff_toNat_lt, hHalf]),
        if_pos ⟨by omega, by omega⟩]
      have hNext := swapInv_step hInside hInv hPair rfl hLen
      refine .inl ⟨_, rfl, hNext, ?_⟩
      have hSucc := toNat_succ
        (show s.i.toNat + 1 < UInt32.size by omega)
      simp only [hSucc]
      omega
    · rw [if_neg (by rwa [UInt32.lt_iff_toNat_lt, hHalf])]
      have hEnd : s.i.toNat = text.length / 2 :=
        Nat.le_antisymm hInv.below (Nat.not_lt.mp hPair)
      exact .inr ⟨s.str, rfl, hEnd ▸ hInv.bytes⟩
  rcases @loop_total _ _ _ _ _
    (fun s => text.length / 2 - s.i.toNat) hRound rounds _
    (swapInv_init str hLen) (by omega) with
    ⟨b, hLoop, hBytes⟩
  refine ⟨b, ?_, ?_, ?_⟩
  · unfold strrev
    rw [strlenLoop_eq hShows hText hLen hRounds]
    exact hLoop
  · constructor
    · intro k hk
      rw [List.length_reverse] at hk
      rw [Nat.zero_add, hBytes k (by omega),
        swapped_half str hk, List.getElem_reverse]
      have hByte := hShows.shows (text.length - 1 - k)
        (by omega)
      rwa [Nat.zero_add] at hByte
    · rw [List.length_reverse, Nat.zero_add,
        hBytes _ hInside]
      unfold swapped
      rw [if_neg (by omega)]
      exact get_length_eq_zero hShows
    · rw [List.length_reverse, Nat.zero_add]
      exact hInside
  · intro k hk
    by_cases hkn : k < n
    · rw [hBytes k hkn]
      unfold swapped
      rw [if_neg (by omega)]
    · rw [ByteBuffer.get_of_le _ (Nat.not_lt.mp hkn),
        ByteBuffer.get_of_le _ (Nat.not_lt.mp hkn)]

/- A string of 2^32 bytes or more is never reversed. -/
theorem strrev_endless
    {str : ByteBuffer n}
    {text : List UInt8}
    (hShows : str.ShowsText 0 text)
    (hText : ∀ c ∈ text, c ≠ 0)
    (hLen : UInt32.size ≤ text.length)
    (rounds : Nat) :
    strrev rounds str = none := by
  unfold strrev
  rw [strlenLoop_endless hShows hText hLen]

/- An array of 2^32 letters and a terminator. -/
def longText : ByteBuffer (UInt32.size + 1) :=
  ByteBuffer.ofFn _ fun k =>
    if k < UInt32.size then 97 else 0

theorem longText_showsText :
    longText.ShowsText 0 (List.replicate UInt32.size 97) where
  shows k hk := by
    rw [List.length_replicate] at hk
    unfold longText
    rw [Nat.zero_add,
      ByteBuffer.get_ofFn_of_lt _ (Nat.lt_succ_of_lt hk),
      if_pos hk, List.getElem_replicate]
  stop := by
    rw [List.length_replicate, Nat.zero_add]
    unfold longText
    rw [ByteBuffer.get_ofFn_of_lt _ (Nat.lt_succ_self _),
      if_neg (Nat.lt_irrefl _)]
  inside := by
    rw [List.length_replicate, Nat.zero_add]
    exact Nat.lt_succ_self _

/- Not every terminated string is reversed. -/
theorem strrev_longText :
    ¬ ∀ (n : Nat) (str : ByteBuffer n) (text : List UInt8),
      str.ShowsText 0 text → (∀ c ∈ text, c ≠ 0) →
      ∃ rounds b, strrev rounds str = some b ∧
        b.ShowsText 0 text.reverse := by
  intro hAll
  have hText : ∀ c ∈ List.replicate UInt32.size (97 : UInt8),
      c ≠ 0 := by
    intro c hMem
    rw [List.eq_of_mem_replicate hMem]
    decide
  rcases hAll _ longText _ longText_showsText hText with
    ⟨rounds, b, hResult, -⟩
  rw [strrev_endless longText_showsText hText
    (Nat.le_of_eq List.length_replicate.symm) rounds]
    at hResult
  cases hResult

end Ester
