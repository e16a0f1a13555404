import Mathlib.Data.Nat.Bitwise
import Mathlib.Data.Finset.Range
import Mathlib.Tactic.IntervalCases
import Ester.Library.Buffer

/-
  Bitmaps packed into byte buffers, lowest bit first.

  Bit `i` lives in byte `i / 8` under the mask `1 << (i % 8)`.
  The scan returns the lowest clear bit below a limit, and
  `clearBits` is the set of all of them, which setting a bit
  makes smaller by exactly that bit.

  Key definitions include:
    * `bitMask`
    * `ByteBuffer.bit`
    * `ByteBuffer.setBit`
    * `ByteBuffer.firstClear`
    * `ByteBuffer.clearBits`

  Key theorems include:
    * `ByteBuffer.and_bitMask_eq_zero_iff`
    * `ByteBuffer.bit_setBit`
    * `ByteBuffer.firstClear_eq_some_iff`
    * `ByteBuffer.clearBits_setBit`
-/

------------------------------------------------------------
-- Masks
------------------------------------------------------------

/- The byte whose only set bit is bit `k`. -/
def bitMask
    (k : Nat) : UInt8 :=
  1 <<< UInt8.ofNat k

theorem toNat_bitMask
    {k : Nat}
    (hk : k < 8) :
    (bitMask k).toNat = 2 ^ k := by
  interval_cases k <;> rfl

/- A mask selects one bit. -/
theorem and_bitMask_eq_zero_iff
    (v : UInt8)
    {k : Nat}
    (hk : k < 8) :
    v &&& bitMask k = 0 ↔ v.toNat.testBit k = false := by
  rw [← UInt8.toNat_inj, UInt8.toNat_and, toNat_bitMask hk,
    Nat.and_two_pow]
  cases v.toNat.testBit k with
  | false => simp
  | true => simp

theorem testBit_or_bitMask
    (v : UInt8)
    {j k : Nat}
    (hk : k < 8) :
    (v ||| bitMask k).toNat.testBit j =
      (v.toNat.testBit j || decide (j = k)) := by
  rw [UInt8.toNat_or, Nat.testBit_or, toNat_bitMask hk,
    Nat.testBit_two_pow]
  simp [eq_comm]

------------------------------------------------------------
-- Bits of a Buffer
------------------------------------------------------------

namespace ByteBuffer

variable {n : Nat}

/- Whether bit `i` is set. -/
def bit
    (b : ByteBuffer n)
    (i : Nat) : Bool :=
  (b.get (i / 8)).toNat.testBit (i % 8)

/- Set bit `i`. -/
def setBit
    (b : ByteBuffer n)
    (i : Nat) : ByteBuffer n :=
  b.store (i / 8) (b.get (i / 8) ||| bitMask (i % 8))

/- The masked test of a bitmap byte reads one bit. -/
theorem get_and_bitMask_eq_zero_iff
    (b : ByteBuffer n)
    (i : Nat) :
    b.get (i / 8) &&& bitMask (i % 8) = 0 ↔
      b.bit i = false :=
  and_bitMask_eq_zero_iff _ (Nat.mod_lt _ (by omega))

/- Setting a bit changes that bit only. -/
theorem bit_setBit
    (b : ByteBuffer n)
    {i : Nat}
    (hi : i / 8 < n)
    (j : Nat) :
    (b.setBit i).bit j = (b.bit j || decide (j = i)) := by
  have hMod : i % 8 < 8 := Nat.mod_lt _ (by omega)
  by_cases hByte : j / 8 = i / 8
  · have hSame : j % 8 = i % 8 ↔ j = i := by omega
    rw [bit, setBit, hByte, get_store_self _ _ hi,
      testBit_or_bitMask _ hMod]
    simp only [bit, hByte, hSame]
  · have hNe : j ≠ i := by
      intro h
      exact hByte (by rw [h])
    rw [bit, setBit, get_store_of_ne _ _ hByte]
    simp [bit, hNe]

@[simp] theorem bit_setBit_self
    (b : ByteBuffer n)
    {i : Nat}
    (hi : i / 8 < n) :
    (b.setBit i).bit i = true := by
  simp [bit_setBit b hi]

------------------------------------------------------------
-- Scanning
------------------------------------------------------------

/- The lowest clear bit below a limit, if there is one. -/
def firstClear
    (b : ByteBuffer n)
    (limit : Nat) : Option Nat :=
  (List.range limit).find? fun i =>
    decide (b.get (i / 8) &&& bitMask (i % 8) = 0)

/- The clear bits below a limit. -/
def clearBits
    (b : ByteBuffer n)
    (limit : Nat) : Finset Nat :=
  (Finset.range limit).filter fun i => b.bit i = false

@[simp] theorem mem_clearBits
    (b : ByteBuffer n)
    (limit i : Nat) :
    i ∈ b.clearBits limit ↔ i < limit ∧ b.bit i = false := by
  simp [clearBits]

theorem firstClear_eq_some_iff
    (b : ByteBuffer n)
    (limit i : Nat) :
    b.firstClear limit = some i ↔
      b.bit i = false ∧ i < limit ∧
        ∀ j, j < i → b.bit j = true := by
  rw [firstClear, List.find?_range_eq_some]
  simp [get_and_bitMask_eq_zero_iff]

theorem firstClear_eq_none_iff
    (b : ByteBuffer n)
    (limit : Nat) :
    b.firstClear limit = none ↔
      ∀ i, i < limit → b.bit i = true := by
  simp [firstClear, get_and_bitMask_eq_zero_iff]

/- Setting a clear bit removes it from the clear bits. -/
theorem clearBits_setBit
    (b : ByteBuffer n)
    {i : Nat}
    (hi : i / 8 < n)
    (limit : Nat) :
    (b.setBit i).clearBits limit =
      (b.clearBits limit).erase i := by
  ext j
  simp only [mem_clearBits, Finset.mem_erase,
    bit_setBit b hi, Bool.or_eq_false_iff,
    decide_eq_false_iff_not]
  tauto

end ByteBuffer
