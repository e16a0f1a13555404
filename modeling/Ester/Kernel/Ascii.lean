import Ester.Kernel.String.Reverse
import Ester.Library.Decimal

/-
  Numbers as text, from kernel/ascii_utils.c.

  `itoa` writes the digits of an `int` from the units on and
  reverses the string.  Division and remainder of an `int`
  truncate.  The string is a buffer; a byte written outside
  it has no result.

  Key definitions include:
    * `itoa`

  Key theorems include:
    * `itoa_of_nonneg`
    * `itoa_of_negative`
    * `itoa_converts`
-/

------------------------------------------------------------
-- Digits of an `int`
------------------------------------------------------------

namespace Ester

variable {n : Nat}

/- ASCII_NUM_BASE -/
def asciiNumBase : Int32 := 48

/- The character written for the units of a value. -/
def unitsChar
    (residual : Int32) : UInt8 :=
  (residual % 10 + asciiNumBase).toUInt32.toUInt8

/- The variables of the loop of `itoa`. -/
structure ItoaState (n : Nat) where
  residual : Int32
  i : UInt32
  str : ByteBuffer n

/- One round of the loop of `itoa`. -/
def itoaRound
    (s : ItoaState n) :
    Option (Round (ItoaState n) (UInt32 × ByteBuffer n)) :=
  if s.i.toNat < n then
    let str := s.str.store s.i.toNat (unitsChar s.residual)
    let i := s.i + 1
    let residual := s.residual / 10
    if 0 < residual then some (.again ⟨residual, i, str⟩)
    else some (.done (i, str))
  else none

/- Int to ASCII. -/
def itoa
    (rounds : Nat)
    (value : Int32)
    (str : ByteBuffer n) : Option (ByteBuffer n) :=
  match loop itoaRound rounds ⟨value, 0, str⟩ with
  | none => none
  | some (i, str) =>
      if i.toNat < n then
        strrev rounds (str.store i.toNat 0)
      else none

------------------------------------------------------------
-- One Digit
------------------------------------------------------------

theorem tmod_ten_range
    (x : Int) :
    -10 < x.tmod 10 ∧ x.tmod 10 < 10 :=
  ⟨Int.lt_tmod_of_pos x (by omega),
    Int.tmod_lt_of_pos x (by omega)⟩

theorem toInt_div_ten
    (residual : Int32) :
    (residual / 10).toInt = residual.toInt.tdiv 10 :=
  Int32.toInt_div_of_ne_right residual 10 (by decide)

/- The digit and the base add without overflow. -/
theorem toInt_units
    (residual : Int32) :
    (residual % 10 + asciiNumBase).toInt =
      residual.toInt.tmod 10 + 48 := by
  have hDigit : (residual % 10).toInt =
      residual.toInt.tmod 10 := Int32.toInt_mod residual 10
  have hBase : asciiNumBase.toInt = 48 := rfl
  rcases tmod_ten_range residual.toInt with ⟨hLow, hHigh⟩
  rw [Int32.toInt_add, hDigit, hBase]
  exact Int.bmod_eq_of_le (by omega) (by omega)

theorem toNat_unitsChar
    (residual : Int32) :
    ((unitsChar residual).toNat : Int) =
      residual.toInt.tmod 10 + 48 := by
  rcases tmod_ten_range residual.toInt with ⟨hLow, hHigh⟩
  have hInt := toInt_units residual
  have hPos : 0 ≤ residual % 10 + asciiNumBase := by
    rw [Int32.le_iff_toInt_le, hInt]
    change (0 : Int) ≤ _
    omega
  unfold unitsChar
  rw [UInt32.toNat_toUInt8, Int32.toNat_toUInt32_of_le hPos,
    ← Int32.toNat_toInt, hInt]
  omega

theorem unitsChar_of_nat
    {residual : Int32}
    {r : Nat}
    (h : residual.toInt = r) :
    unitsChar residual = Decimal.digitChar (r % 10) := by
  have hChar := toNat_unitsChar residual
  rw [h, Int.tmod_eq_emod_of_nonneg (Int.natCast_nonneg r)]
    at hChar
  have hDigit := Decimal.toNat_digitChar
    (Nat.mod_lt r (show 0 < 10 by omega))
  exact UInt8.toNat_inj.mp (by omega)

/- The one character of a negative value is not zero. -/
theorem unitsChar_ne_zero
    (residual : Int32) :
    unitsChar residual ≠ 0 := by
  rcases tmod_ten_range residual.toInt with ⟨hLow, -⟩
  have hChar := toNat_unitsChar residual
  intro hZero
  rw [hZero] at hChar
  have hByte : (0 : UInt8).toNat = 0 := rfl
  omega

theorem positive_div_iff
    {residual : Int32}
    {r : Nat}
    (h : residual.toInt = r) :
    0 < residual / 10 ↔ 10 ≤ r := by
  rw [Int32.lt_iff_toInt_lt, toInt_div_ten, h,
    Int.tdiv_eq_ediv_of_nonneg (Int.natCast_nonneg r)]
  change (0 : Int) < _ ↔ _
  omega

------------------------------------------------------------
-- The Digit Loop
------------------------------------------------------------

/- A string starts with the characters of some digits. -/
def Written
    (str : ByteBuffer n)
    (digits : List Nat) : Prop :=
  ∀ k (hk : k < digits.length),
    str.get k = Decimal.digitChar digits[k]

theorem Written.snoc
    {str : ByteBuffer n}
    {digits : List Nat}
    (h : Written str digits)
    (d : Nat)
    (hRoom : digits.length < n) :
    Written
      (str.store digits.length (Decimal.digitChar d))
      (digits ++ [d]) := by
  intro k hk
  rw [List.length_append, List.length_singleton] at hk
  by_cases hLast : k = digits.length
  · subst hLast
    rw [ByteBuffer.get_store_self _ _ hRoom,
      List.getElem_concat_length rfl]
  · rw [ByteBuffer.get_store_of_ne _ _ hLast,
      h k (by omega), List.getElem_append_left]

/- A terminated row of digits is a text. -/
theorem Written.showsText
    {str : ByteBuffer n}
    {digits : List Nat}
    (h : Written str digits)
    (hRoom : digits.length < n) :
    (str.store digits.length 0).ShowsText 0
      (digits.map Decimal.digitChar) where
  shows k hk := by
    rw [List.length_map] at hk
    rw [Nat.zero_add,
      ByteBuffer.get_store_of_ne _ _ (by omega), h k hk,
      List.getElem_map]
  stop := by
    rw [List.length_map, Nat.zero_add]
    exact ByteBuffer.get_store_self _ _ hRoom
  inside := by
    rw [List.length_map]
    omega

/-
  Between two rounds the digits written so far and those of
  what is left are the digits of the value.
-/
def DigitInv
    (v : Nat)
    (s : ItoaState n) : Prop :=
  ∃ (digits : List Nat) (r : Nat),
    s.residual.toInt = r ∧
      Decimal.units v = digits ++ Decimal.units r ∧
      s.i.toNat = digits.length ∧ Written s.str digits

/- One round writes one digit, the last one when below 10. -/
theorem itoaRound_digitInv
    {v : Nat}
    {s : ItoaState n}
    (hRoom : (Decimal.units v).length ≤ n)
    (hShort : (Decimal.units v).length < UInt32.size)
    (hInv : DigitInv v s) :
    (∃ t, itoaRound s = some (.again t) ∧ DigitInv v t ∧
      (Decimal.units v).length - t.i.toNat <
        (Decimal.units v).length - s.i.toNat) ∨
    ∃ r, itoaRound s = some (.done r) ∧
      r.1.toNat = (Decimal.units v).length ∧
      Written r.2 (Decimal.units v) := by
  rcases hInv with ⟨digits, r, hRest, hUnits, hIndex, hStr⟩
  have hLen := congrArg List.length hUnits
  rw [List.length_append] at hLen
  have hPos := Decimal.length_units_pos r
  have hSucc := toNat_succ
    (show s.i.toNat + 1 < UInt32.size by omega)
  have hNext := hStr.snoc (r % 10)
    (show digits.length < n by omega)
  rw [← unitsChar_of_nat hRest, ← hIndex] at hNext
  unfold itoaRound
  rw [if_pos (by omega)]
  by_cases hTen : 10 ≤ r
  · rw [if_pos ((positive_div_iff hRest).mpr hTen)]
    rw [Decimal.units_of_ge hTen] at hUnits
    refine .inl ⟨_, rfl, ⟨digits ++ [r % 10], r / 10, ?_, ?_,
      ?_, hNext⟩, ?_⟩
    · rw [toInt_div_ten, hRest]
      rfl
    · rw [hUnits, List.append_assoc, List.singleton_append]
    · rw [hSucc, hIndex, List.length_append,
        List.length_singleton]
    · simp only [hSucc]
      omega
  · rw [if_neg fun h =>
      hTen ((positive_div_iff hRest).mp h)]
    have hBelow : r < 10 := Nat.not_le.mp hTen
    rw [Decimal.units_of_lt hBelow] at hUnits hLen
    rw [List.length_singleton] at hLen
    rw [Nat.mod_eq_of_lt hBelow, ← hUnits] at hNext
    refine .inr ⟨_, rfl, ?_, hNext⟩
    rw [hSucc, hIndex, hLen]

/- The numeral of a 31-bit number has at most 10 digits. -/
theorem length_units_int32
    {value : Int32}
    {v : Nat}
    (hValue : value.toInt = v) :
    (Decimal.units v).length ≤ 10 := by
  refine Decimal.length_units_le (by omega) ?_
  have hLt := value.toInt_lt
  omega

/- A value that is not negative is written as its numeral. -/
theorem itoa_of_nonneg
    {value : Int32}
    {v rounds : Nat}
    (str : ByteBuffer n)
    (hValue : value.toInt = v)
    (hRoom : (Decimal.units v).length < n)
    (hRounds : (Decimal.units v).length < rounds) :
    ∃ b, itoa rounds value str = some b ∧
      b.ShowsText 0 (Decimal.numeral v) := by
  have hTen := length_units_int32 hValue
  have hShort : (Decimal.units v).length < UInt32.size :=
    Nat.lt_of_le_of_lt hTen (by decide)
  have hStart : DigitInv v (⟨value, 0, str⟩ : ItoaState n) :=
    ⟨[], v, hValue, rfl, rfl, fun k hk =>
      absurd hk (Nat.not_lt_zero k)⟩
  rcases loop_total
    (fun s hInv => itoaRound_digitInv (Nat.le_of_lt hRoom)
      hShort hInv)
    hStart (Nat.lt_of_le_of_lt (Nat.sub_le _ _) hRounds) with
    ⟨⟨i, b⟩, hLoop, hIndex, hStr⟩
  change i.toNat = _ at hIndex
  have hText := hStr.showsText hRoom
  rw [← hIndex] at hText
  have hChars : ∀ c ∈ (Decimal.units v).map Decimal.digitChar,
      c ≠ 0 := by
    intro c hMem
    rcases List.mem_map.mp hMem with ⟨d, hDigit, rfl⟩
    exact (Decimal.isDigit_digitChar
      (Decimal.lt_of_mem_units hDigit)).ne_zero
  have hMap :
      ((Decimal.units v).map Decimal.digitChar).length =
        (Decimal.units v).length := List.length_map _
  rcases strrev_reverses hText hChars (hMap ▸ hShort)
    (hMap ▸ hRounds) with ⟨b', hRev, hShows, -⟩
  refine ⟨b', ?_, ?_⟩
  · unfold itoa
    rw [hLoop]
    exact (if_pos (by omega)).trans hRev
  · rwa [← List.map_reverse] at hShows

/- A negative value is written as one character. -/
theorem itoa_of_negative
    {value : Int32}
    {rounds : Nat}
    (str : ByteBuffer n)
    (hValue : value.toInt < 0)
    (hRoom : 1 < n)
    (hRounds : 1 < rounds) :
    ∃ b, itoa rounds value str = some b ∧
      b.ShowsText 0 [unitsChar value] := by
  have hEnd : ¬ 0 < value / 10 := by
    have hNeg := Int.tdiv_nonneg
      (show 0 ≤ -value.toInt by omega)
      (show (0 : Int) ≤ 10 by omega)
    rw [Int.neg_tdiv] at hNeg
    rw [Int32.lt_iff_toInt_lt, toInt_div_ten]
    change ¬ (0 : Int) < _
    omega
  have hRound : itoaRound (⟨value, 0, str⟩ : ItoaState n) =
      some (.done (1, str.store 0 (unitsChar value))) := by
    unfold itoaRound
    rw [if_pos (show (0 : UInt32).toNat < n from
      Nat.zero_lt_of_lt hRoom), if_neg hEnd]
    rfl
  have hText : ((str.store 0 (unitsChar value)).store 1
      0).ShowsText 0 [unitsChar value] := by
    constructor
    · intro k hk
      rw [List.length_singleton] at hk
      have hZero : k = 0 := by omega
      subst hZero
      rw [ByteBuffer.get_store_of_ne _ _ (by omega),
        ByteBuffer.get_store_self _ _ (by omega)]
      rfl
    · exact ByteBuffer.get_store_self _ _ hRoom
    · exact hRoom
  rcases strrev_reverses hText
    (by simpa using unitsChar_ne_zero value)
    (show 1 < UInt32.size by decide) hRounds with
    ⟨b, hRev, hShows, -⟩
  refine ⟨b, ?_, hShows⟩
  unfold itoa
  rw [← Nat.sub_add_cancel (Nat.le_of_lt hRounds),
    loop_done _ hRound, Nat.sub_add_cancel
      (Nat.le_of_lt hRounds)]
  exact (if_pos hRoom).trans hRev

------------------------------------------------------------
-- Numerals of Numbers
------------------------------------------------------------

/- INT_MAX_DIGITS -/
def intMaxDigits : Nat := 32

/- A number from 0 on is shown as its numeral. -/
theorem itoa_numeral
    {value : Int32}
    {rounds : Nat}
    (str : ByteBuffer intMaxDigits)
    (hValue : 0 ≤ value)
    (hRounds : 10 < rounds) :
    ∃ b, itoa rounds value str = some b ∧
      b.ShowsText 0 (Decimal.numeral value.toInt.toNat) := by
  have hPos : 0 ≤ value.toInt :=
    Int32.le_iff_toInt_le.mp hValue
  have hNat : value.toInt = (value.toInt.toNat : Int) :=
    (Int.toNat_of_nonneg hPos).symm
  have hTen := length_units_int32 hNat
  exact itoa_of_nonneg str hNat
    (Nat.lt_of_le_of_lt hTen (by decide))
    (Nat.lt_of_le_of_lt hTen hRounds)

theorem numeral_ne_zero
    (v : Nat) :
    ∀ c ∈ Decimal.numeral v, c ≠ 0 :=
  fun _ hMem =>
    (Decimal.isDigit_of_mem_numeral hMem).ne_zero

/-
  Numbers from 0 on become terminated strings of 1 to 10
  digits without leading zeros that denote them, 0 the one
  digit `0` and different numbers different strings; the
  reversal behind it works for every string below 2^32 bytes.
-/
theorem itoa_converts :
    (∀ (value : Int32) (str : ByteBuffer intMaxDigits)
      (rounds : Nat), 0 ≤ value → 10 < rounds →
      ∃ b text, itoa rounds value str = some b ∧
        b.ShowsText 0 text ∧
        (∀ c ∈ text, Decimal.IsDigit c) ∧
        text ≠ [] ∧ text.length ≤ 10 ∧
        (Decimal.value text : Int) = value.toInt ∧
        (text.head? = some 48 → text = [48]) ∧
        (value = 0 → text = [48])) ∧
    (∀ (value value' : Int32)
      (str str' : ByteBuffer intMaxDigits) (rounds : Nat),
      0 ≤ value → 0 ≤ value' → 10 < rounds →
      value ≠ value' →
      ∃ b b', itoa rounds value str = some b ∧
        itoa rounds value' str' = some b' ∧
        cString (b.bytesFrom 0) ≠ cString (b'.bytesFrom 0)) ∧
    (∀ (n : Nat) (str : ByteBuffer n) (text : List UInt8)
      (rounds : Nat), str.ShowsText 0 text →
      (∀ c ∈ text, c ≠ 0) → text.length < UInt32.size →
      text.length < rounds →
      ∃ b, strrev rounds str = some b ∧
        b.ShowsText 0 text.reverse ∧
        ∀ k, text.length ≤ k → b.get k = str.get k) := by
  refine ⟨?_, ?_, ?_⟩
  · intro value str rounds hValue hRounds
    have hPos : 0 ≤ value.toInt :=
      Int32.le_iff_toInt_le.mp hValue
    rcases itoa_numeral str hValue hRounds with
      ⟨b, hResult, hShows⟩
    refine ⟨b, _, hResult, hShows, ?_, ?_, ?_, ?_, ?_, ?_⟩
    · exact fun c hMem => Decimal.isDigit_of_mem_numeral hMem
    · exact Decimal.numeral_ne_nil _
    · rw [Decimal.length_numeral]
      exact length_units_int32 (Int.toNat_of_nonneg hPos).symm
    · rw [Decimal.value_numeral, Int.toNat_of_nonneg hPos]
    · intro hHead
      by_cases hZero : value.toInt.toNat = 0
      · rw [hZero]
        rfl
      · exact absurd hHead (Decimal.head_numeral_ne hZero)
    · rintro rfl
      rfl
  · intro value value' str str' rounds hValue hValue' hRounds
      hNe
    rcases itoa_numeral str hValue hRounds with
      ⟨b, hResult, hShows⟩
    rcases itoa_numeral str' hValue' hRounds with
      ⟨b', hResult', hShows'⟩
    refine ⟨b, b', hResult, hResult', ?_⟩
    rw [hShows.cString_eq (numeral_ne_zero _),
      hShows'.cString_eq (numeral_ne_zero _)]
    intro hEq
    have hNat := Decimal.numeral_injective hEq
    have hPos := Int32.le_iff_toInt_le.mp hValue
    have hPos' := Int32.le_iff_toInt_le.mp hValue'
    change (0 : Int) ≤ _ at hPos hPos'
    exact hNe (Int32.toInt_inj.mp (by omega))
  · intro n str text rounds hShows hText hLen hRounds
    exact strrev_reverses hShows hText hLen hRounds

end Ester
