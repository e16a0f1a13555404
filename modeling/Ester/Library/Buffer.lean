import Mathlib.Data.Fintype.Basic

/-
  Byte buffers of a fixed size.

  A buffer is a function on the indices below its size, so
  an access outside it has no value to return: `get` reads
  zero there, and every store keeps the size.  Copies are
  described by `splice`, which replaces one range of bytes.

  Key definitions include:
    * `ByteBuffer`
    * `ByteBuffer.get`
    * `ByteBuffer.ofFn`
    * `ByteBuffer.splice`
    * `ByteBuffer.store`
    * `ByteBuffer.slice`
    * `ByteBuffer.bytesFrom`

  Key theorems include:
    * `ByteBuffer.ext_get`
    * `ByteBuffer.get_splice`
    * `ByteBuffer.bytesFrom_eq_map`
-/

------------------------------------------------------------
-- Buffers
------------------------------------------------------------

/- A buffer of exactly `n` bytes. -/
structure ByteBuffer (n : Nat) where
  byte : Fin n → UInt8

namespace ByteBuffer

variable {n : Nat}

/- The byte at an index, zero outside the buffer. -/
def get
    (b : ByteBuffer n)
    (i : Nat) : UInt8 :=
  if h : i < n then b.byte ⟨i, h⟩ else 0

/- The buffer holding the first `n` values of a function. -/
def ofFn
    (n : Nat)
    (f : Nat → UInt8) : ByteBuffer n :=
  ⟨fun i => f i⟩

/- The buffer holding one value everywhere. -/
def fill
    (n : Nat)
    (v : UInt8) : ByteBuffer n :=
  ofFn n fun _ => v

/- Replace `len` bytes at `off` by the bytes of `src`. -/
def splice
    (b : ByteBuffer n)
    (off len : Nat)
    (src : Nat → UInt8) : ByteBuffer n :=
  ofFn n fun i =>
    if off ≤ i ∧ i < off + len then src (i - off)
    else b.get i

/- Replace one byte. -/
def store
    (b : ByteBuffer n)
    (off : Nat)
    (v : UInt8) : ByteBuffer n :=
  ofFn n fun i => if i = off then v else b.get i

/- The bytes seen through a pointer to offset `off`. -/
def slice
    (b : ByteBuffer n)
    (off : Nat) : Nat → UInt8 :=
  fun i => b.get (off + i)

/- The first `fuel` bytes at and after an offset. -/
def bytesUpTo
    (b : ByteBuffer n) : (fuel off : Nat) → List UInt8
  | 0, _ => []
  | fuel + 1, off =>
      b.get off :: bytesUpTo b fuel (off + 1)

/- All bytes from an offset to the end of the buffer. -/
def bytesFrom
    (b : ByteBuffer n)
    (off : Nat) : List UInt8 :=
  b.bytesUpTo (n - off) off

instance : Inhabited (ByteBuffer n) :=
  ⟨fill n 0⟩

------------------------------------------------------------
-- Reading
------------------------------------------------------------

theorem get_of_lt
    (b : ByteBuffer n)
    {i : Nat}
    (hi : i < n) :
    b.get i = b.byte ⟨i, hi⟩ := by
  simp [get, hi]

theorem get_of_le
    (b : ByteBuffer n)
    {i : Nat}
    (hi : n ≤ i) :
    b.get i = 0 := by
  simp [get, Nat.not_lt.mpr hi]

/- Buffers with the same bytes are equal. -/
theorem ext_get
    {a b : ByteBuffer n}
    (h : ∀ i, i < n → a.get i = b.get i) :
    a = b := by
  cases a with
  | mk f =>
      cases b with
      | mk g =>
          congr 1
          funext i
          have hi := h i i.isLt
          rwa [get_of_lt _ i.isLt, get_of_lt _ i.isLt] at hi

theorem get_ofFn
    (f : Nat → UInt8)
    (i : Nat) :
    (ofFn n f).get i = if i < n then f i else 0 := by
  by_cases hi : i < n
  · simp [get, ofFn, hi]
  · simp [get, hi]

@[simp] theorem get_ofFn_of_lt
    (f : Nat → UInt8)
    {i : Nat}
    (hi : i < n) :
    (ofFn n f).get i = f i := by
  rw [get_ofFn, if_pos hi]

@[simp] theorem get_fill
    (v : UInt8)
    {i : Nat}
    (hi : i < n) :
    (fill n v).get i = v :=
  get_ofFn_of_lt _ hi

@[simp] theorem get_fill_zero
    (i : Nat) :
    (fill n 0).get i = 0 := by
  rw [fill, get_ofFn]
  split <;> rfl

@[simp] theorem slice_apply
    (b : ByteBuffer n)
    (off i : Nat) :
    b.slice off i = b.get (off + i) := rfl

------------------------------------------------------------
-- Writing
------------------------------------------------------------

theorem get_splice
    (b : ByteBuffer n)
    (off len : Nat)
    (src : Nat → UInt8)
    {i : Nat}
    (hi : i < n) :
    (b.splice off len src).get i =
      if off ≤ i ∧ i < off + len then src (i - off)
      else b.get i :=
  get_ofFn_of_lt _ hi

/- Bytes outside the replaced range survive a splice. -/
theorem get_splice_of_outside
    (b : ByteBuffer n)
    {off len : Nat}
    (src : Nat → UInt8)
    {i : Nat}
    (h : i < off ∨ off + len ≤ i) :
    (b.splice off len src).get i = b.get i := by
  by_cases hi : i < n
  · rw [get_splice _ _ _ _ hi, if_neg (by omega)]
  · rw [get_of_le _ (by omega), get_of_le _ (by omega)]

/- Bytes inside the replaced range are the source's. -/
theorem get_splice_of_inside
    (b : ByteBuffer n)
    {off len : Nat}
    (src : Nat → UInt8)
    {i : Nat}
    (hi : i < len)
    (hn : off + len ≤ n) :
    (b.splice off len src).get (off + i) = src i := by
  rw [get_splice _ _ _ _ (by omega), if_pos (by omega),
    Nat.add_sub_cancel_left]

@[simp] theorem splice_zero
    (b : ByteBuffer n)
    (off : Nat)
    (src : Nat → UInt8) :
    b.splice off 0 src = b := by
  apply ext_get
  intro i _
  exact get_splice_of_outside b src (by omega)

/- Replacing every byte forgets the old content. -/
theorem splice_full
    (b : ByteBuffer n)
    (src : Nat → UInt8) :
    b.splice 0 n src = ofFn n src := by
  apply ext_get
  intro i hi
  rw [get_splice _ _ _ _ hi, get_ofFn_of_lt _ hi,
    if_pos (by omega), Nat.sub_zero]

theorem get_store
    (b : ByteBuffer n)
    (off : Nat)
    (v : UInt8)
    {i : Nat}
    (hi : i < n) :
    (b.store off v).get i = if i = off then v else b.get i :=
  get_ofFn_of_lt _ hi

theorem get_store_of_ne
    (b : ByteBuffer n)
    {off i : Nat}
    (v : UInt8)
    (h : i ≠ off) :
    (b.store off v).get i = b.get i := by
  by_cases hi : i < n
  · rw [get_store _ _ _ hi, if_neg h]
  · rw [get_of_le _ (by omega), get_of_le _ (by omega)]

theorem get_store_self
    (b : ByteBuffer n)
    {off : Nat}
    (v : UInt8)
    (h : off < n) :
    (b.store off v).get off = v := by
  rw [get_store _ _ _ h, if_pos rfl]

------------------------------------------------------------
-- Byte Lists
------------------------------------------------------------

theorem bytesUpTo_eq_map
    (b : ByteBuffer n)
    (fuel off : Nat) :
    b.bytesUpTo fuel off =
      (List.range fuel).map fun i => b.get (off + i) := by
  induction fuel generalizing off with
  | zero => rfl
  | succ fuel ih =>
      rw [bytesUpTo, ih, List.range_succ_eq_map,
        List.map_cons, List.map_map]
      congr 1
      apply List.map_congr_left
      intro i _
      simp only [Function.comp_apply, Nat.succ_eq_add_one]
      congr 1
      omega

theorem bytesFrom_eq_map
    (b : ByteBuffer n)
    (off : Nat) :
    b.bytesFrom off =
      (List.range (n - off)).map fun i => b.get (off + i) :=
  bytesUpTo_eq_map b _ _

@[simp] theorem length_bytesFrom
    (b : ByteBuffer n)
    (off : Nat) :
    (b.bytesFrom off).length = n - off := by
  simp [bytesFrom_eq_map]

theorem getElem?_bytesFrom
    (b : ByteBuffer n)
    {off i : Nat}
    (hi : off + i < n) :
    (b.bytesFrom off)[i]? = some (b.get (off + i)) := by
  rw [bytesFrom_eq_map, List.getElem?_map,
    List.getElem?_range (by omega), Option.map_some]

end ByteBuffer
