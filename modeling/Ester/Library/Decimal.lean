import Mathlib.Data.Nat.Digits.Lemmas

/-
  Decimal numerals as strings of bytes.

  The numeral of a number is the string of its digits, the
  highest one first.  Zero has one digit.

  Key definitions include:
    * `Decimal.units`
    * `Decimal.numeral`
    * `Decimal.value`

  Key theorems include:
    * `Decimal.units_of_ge`
    * `Decimal.value_numeral`
    * `Decimal.head_numeral_ne`
-/

------------------------------------------------------------
-- Numerals
------------------------------------------------------------

namespace Decimal

/- The digits of a number, the units first. -/
def units
    (v : Nat) : List Nat :=
  if v = 0 then [0] else Nat.digits 10 v

/- The character of a digit. -/
def digitChar
    (d : Nat) : UInt8 :=
  UInt8.ofNat (d + 48)

/- A byte is the character of a digit. -/
def IsDigit
    (c : UInt8) : Prop :=
  48 ≤ c.toNat ∧ c.toNat ≤ 57

/- The shortest string of digits that denotes a number. -/
def numeral
    (v : Nat) : List UInt8 :=
  (units v).reverse.map digitChar

/- The number that a string of digits denotes. -/
def value
    (text : List UInt8) : Nat :=
  Nat.ofDigits 10 (text.reverse.map fun c => c.toNat - 48)

------------------------------------------------------------
-- Digits
------------------------------------------------------------

theorem units_of_lt
    {v : Nat}
    (h : v < 10) :
    units v = [v] := by
  unfold units
  split
  · next hZero => rw [hZero]
  · next hPos => exact Nat.digits_of_lt 10 v hPos h

theorem units_of_ge
    {v : Nat}
    (h : 10 ≤ v) :
    units v = v % 10 :: units (v / 10) := by
  unfold units
  rw [if_neg (by omega), if_neg (by omega)]
  exact Nat.digits_def' (by omega) (by omega)

theorem lt_of_mem_units
    {v d : Nat}
    (h : d ∈ units v) :
    d < 10 := by
  unfold units at h
  split at h
  · rw [List.mem_singleton] at h
    omega
  · exact Nat.digits_lt_base (by omega) h

theorem ofDigits_units
    (v : Nat) :
    Nat.ofDigits 10 (units v) = v := by
  unfold units
  split
  · next hZero =>
      rw [hZero]
      rfl
  · exact Nat.ofDigits_digits 10 v

theorem length_units_le
    {v k : Nat}
    (hPos : 0 < k)
    (h : v < 10 ^ k) :
    (units v).length ≤ k := by
  unfold units
  split
  · exact hPos
  · exact (Nat.digits_length_le_iff (by omega) v).mpr h

theorem length_units_pos
    (v : Nat) :
    0 < (units v).length := by
  unfold units
  split
  · exact Nat.one_pos
  · next hPos =>
      exact List.length_pos_iff.mpr
        (Nat.digits_ne_nil_iff_ne_zero.mpr hPos)

------------------------------------------------------------
-- Characters
------------------------------------------------------------

theorem toNat_digitChar
    {d : Nat}
    (h : d < 10) :
    (digitChar d).toNat = d + 48 := by
  have hByte : d + 48 < 256 := by omega
  exact UInt8.toNat_ofNat_of_lt hByte

theorem isDigit_digitChar
    {d : Nat}
    (h : d < 10) :
    IsDigit (digitChar d) := by
  unfold IsDigit
  rw [toNat_digitChar h]
  omega

theorem IsDigit.ne_zero
    {c : UInt8}
    (h : IsDigit c) :
    c ≠ 0 := by
  rintro rfl
  exact absurd h.1 (by decide)

theorem length_numeral
    (v : Nat) :
    (numeral v).length = (units v).length := by
  simp [numeral]

theorem numeral_ne_nil
    (v : Nat) :
    numeral v ≠ [] := by
  rw [← List.length_pos_iff, length_numeral]
  exact length_units_pos v

theorem isDigit_of_mem_numeral
    {v : Nat}
    {c : UInt8}
    (h : c ∈ numeral v) :
    IsDigit c := by
  unfold numeral at h
  rcases List.mem_map.mp h with ⟨d, hMem, rfl⟩
  exact isDigit_digitChar
    (lt_of_mem_units (List.mem_reverse.mp hMem))

------------------------------------------------------------
-- Values
------------------------------------------------------------

/- The numeral of a number denotes it. -/
theorem value_numeral
    (v : Nat) :
    value (numeral v) = v := by
  have hDigits : (units v).map
      (fun d => (digitChar d).toNat - 48) = units v := by
    conv => rhs; rw [← List.map_id (units v)]
    refine List.map_congr_left fun d hMem => ?_
    rw [toNat_digitChar (lt_of_mem_units hMem)]
    exact Nat.add_sub_cancel _ _
  unfold value numeral
  rw [← List.map_reverse, List.reverse_reverse,
    List.map_map]
  exact (congrArg _ hDigits).trans (ofDigits_units v)

/- Different numbers have different numerals. -/
theorem numeral_injective :
    Function.Injective numeral := by
  intro v w h
  rw [← value_numeral v, h, value_numeral]

/- A string of digits denotes less than its power of ten. -/
theorem value_lt
    {text : List UInt8}
    (h : ∀ c ∈ text, IsDigit c) :
    value text < 10 ^ text.length := by
  have hDigits : ∀ d ∈ text.reverse.map
      (fun c : UInt8 => c.toNat - 48), d < 10 := by
    intro d hMem
    rcases List.mem_map.mp hMem with ⟨c, hChar, rfl⟩
    have hDigit := h c (List.mem_reverse.mp hChar)
    unfold IsDigit at hDigit
    omega
  have hLt := Nat.ofDigits_lt_base_pow_length (by omega) hDigits
  rwa [List.length_map, List.length_reverse] at hLt

/- Only the numeral of zero starts with the digit zero. -/
theorem head_numeral_ne
    {v : Nat}
    (h : v ≠ 0) :
    (numeral v).head? ≠ some 48 := by
  have hNe : Nat.digits 10 v ≠ [] :=
    Nat.digits_ne_nil_iff_ne_zero.mpr h
  have hLast := Nat.getLast_digit_ne_zero 10 h
  have hLt : (Nat.digits 10 v).getLast hNe < 10 :=
    Nat.digits_lt_base (by omega) (List.getLast_mem hNe)
  unfold numeral units
  rw [if_neg h, List.head?_map, List.head?_reverse,
    List.getLast?_eq_some_getLast hNe, Option.map_some]
  intro hEq
  have hChar := toNat_digitChar hLt
  rw [Option.some.inj hEq] at hChar
  have hUnits : (48 : UInt8).toNat = 48 := rfl
  omega

end Decimal
