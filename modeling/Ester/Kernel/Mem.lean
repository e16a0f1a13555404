import Ester.Library.Buffer

/-
  The byte copies of kernel/mem.c.

  `memcpy` and `memset` store one byte after another.  A
  store past the destination array has no meaning, so both
  have no result there; otherwise they replace one range of
  the destination.

  Key definitions include:
    * `memcpy`
    * `memset`

  Key theorems include:
    * `memcpy_of_le`
-/

------------------------------------------------------------
-- Copies Into an Array
------------------------------------------------------------

namespace Ester

variable {n : Nat}

/- Copy `len` bytes to offset `off` of an array. -/
def memcpy
    (dst : ByteBuffer n)
    (off : Nat)
    (src : Nat → UInt8)
    (len : Nat) : Option (ByteBuffer n) :=
  if off + len ≤ n then some (dst.splice off len src)
  else none

/- Set `len` bytes from offset `off` of an array. -/
def memset
    (dst : ByteBuffer n)
    (off : Nat)
    (val : UInt8)
    (len : Nat) : Option (ByteBuffer n) :=
  memcpy dst off (fun _ => val) len

theorem memcpy_of_le
    {dst : ByteBuffer n}
    {off len : Nat}
    {src : Nat → UInt8}
    (h : off + len ≤ n) :
    memcpy dst off src len =
      some (dst.splice off len src) :=
  if_pos h

theorem memcpy_eq_some_iff
    {dst out : ByteBuffer n}
    {off len : Nat}
    {src : Nat → UInt8} :
    memcpy dst off src len = some out ↔
      off + len ≤ n ∧ dst.splice off len src = out := by
  unfold memcpy
  split <;> simp_all

end Ester
