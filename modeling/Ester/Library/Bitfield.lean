import Mathlib.Data.Nat.Bitwise

/-
  Fields of consecutive bits of a number.

  A field is given by its lowest bit and its width.  Setting
  a field and reading it satisfy the laws of a lens: a field
  that was set holds the value cut to its width, and every
  disjoint field keeps what it held.

  Key definitions include:
    * `Bitfield.get`
    * `Bitfield.set`
    * `UInt8.setField`
    * `UInt32.setField`

  Key theorems include:
    * `Bitfield.get_set_self`
    * `Bitfield.get_set_of_disjoint`
    * `Bitfield.set_lt`
-/

namespace Bitfield

------------------------------------------------------------
-- Fields of a Number
------------------------------------------------------------

/- The field of `w` bits from bit `lo` on. -/
def get
    (lo w x : Nat) : Nat :=
  x / 2 ^ lo % 2 ^ w

/- The number with the field of `w` bits from bit `lo` set. -/
def set
    (lo w x v : Nat) : Nat :=
  2 ^ lo * (2 ^ w * (x / 2 ^ (lo + w)) + v % 2 ^ w) +
    x % 2 ^ lo

theorem testBit_get
    (lo w x i : Nat) :
    (get lo w x).testBit i =
      (decide (i < w) && x.testBit (i + lo)) := by
  rw [get, Nat.testBit_mod_two_pow, Nat.testBit_div_two_pow]

theorem testBit_set
    (lo w x v i : Nat) :
    (set lo w x v).testBit i =
      if lo ≤ i ∧ i < lo + w then v.testBit (i - lo)
      else x.testBit i := by
  have hLow : x % 2 ^ lo < 2 ^ lo :=
    Nat.mod_lt _ (Nat.two_pow_pos lo)
  have hMid : v % 2 ^ w < 2 ^ w :=
    Nat.mod_lt _ (Nat.two_pow_pos w)
  rw [set, Nat.testBit_two_pow_mul_add _ hLow,
    Nat.testBit_two_pow_mul_add _ hMid,
    Nat.testBit_mod_two_pow, Nat.testBit_mod_two_pow,
    Nat.testBit_div_two_pow]
  by_cases hBelow : i < lo
  · rw [if_pos hBelow, if_neg (by omega)]
    simp [hBelow]
  · rw [if_neg hBelow]
    by_cases hIn : i - lo < w
    · rw [if_pos hIn, if_pos (by omega)]
      simp [hIn]
    · rw [if_neg hIn, if_neg (by omega)]
      congr 1
      omega

/- A field holds what it was set to, cut to its width. -/
theorem get_set_self
    (lo w x v : Nat) :
    get lo w (set lo w x v) = v % 2 ^ w := by
  apply Nat.eq_of_testBit_eq
  intro i
  rw [testBit_get, testBit_set, Nat.testBit_mod_two_pow]
  by_cases hi : i < w
  · rw [if_pos (by omega), Nat.add_sub_cancel]
  · simp [hi]

/- Setting a field leaves the disjoint ones. -/
theorem get_set_of_disjoint
    {lo w lo' w' : Nat}
    (x v : Nat)
    (h : lo + w ≤ lo' ∨ lo' + w' ≤ lo) :
    get lo' w' (set lo w x v) = get lo' w' x := by
  apply Nat.eq_of_testBit_eq
  intro i
  rw [testBit_get, testBit_get, testBit_set]
  by_cases hi : i < w'
  · rw [if_neg (by omega)]
  · simp [hi]

/- A field within the width of a number leaves it in range. -/
theorem set_lt
    {lo w x v n : Nat}
    (hx : x < 2 ^ n)
    (h : lo + w ≤ n) :
    set lo w x v < 2 ^ n := by
  apply Nat.lt_pow_two_of_testBit
  intro i hi
  rw [testBit_set, if_neg (by omega)]
  exact Nat.testBit_lt_two_pow
    (Nat.lt_of_lt_of_le hx (Nat.pow_le_pow_right (by omega) hi))

end Bitfield

------------------------------------------------------------
-- Fields of Machine Words
------------------------------------------------------------

/- A bit-field of a byte set to a value. -/
def UInt8.setField
    (lo w : Nat)
    (x : UInt8)
    (v : Nat) : UInt8 :=
  UInt8.ofNat (Bitfield.set lo w x.toNat v)

/- A bit-field of a 32-bit word set to a value. -/
def UInt32.setField
    (lo w : Nat)
    (x : UInt32)
    (v : Nat) : UInt32 :=
  UInt32.ofNat (Bitfield.set lo w x.toNat v)

theorem UInt8.toNat_setField
    {lo w : Nat}
    (x : UInt8)
    (v : Nat)
    (h : lo + w ≤ 8) :
    (x.setField lo w v).toNat = Bitfield.set lo w x.toNat v :=
  UInt8.toNat_ofNat_of_lt (Bitfield.set_lt x.toNat_lt h)

theorem UInt32.toNat_setField
    {lo w : Nat}
    (x : UInt32)
    (v : Nat)
    (h : lo + w ≤ 32) :
    (x.setField lo w v).toNat = Bitfield.set lo w x.toNat v :=
  UInt32.toNat_ofNat_of_lt (Bitfield.set_lt x.toNat_lt h)
