import Mathlib.Order.Interval.Set.Basic
import Ester.Library.Codec

/-
  Byte-addressed memory.

  A value is stored at an address through its packed layout.
  What a store changes is stated as a set of addresses; a
  load from any other address is not affected by it.

  Key definitions include:
    * `Memory.load`, `Memory.store`, `Memory.fill`
    * `Memory.ChangesWithin`

  Key theorems include:
    * `Memory.load_store_self`
    * `Memory.load_store_of_disjoint`
    * `Memory.ChangesWithin.store`
    * `Memory.ChangesWithin.load`
-/

/- The byte at every address. -/
abbrev Memory :=
  Nat → UInt8

namespace Memory

variable {α : Type}

------------------------------------------------------------
-- Loads and Stores
------------------------------------------------------------

/- The value at an address. -/
def load
    (c : PackedCodec α)
    (m : Memory)
    (addr : Nat) : α :=
  c.decode fun i => m (addr + i)

/- The memory with a value stored at an address. -/
def store
    (c : PackedCodec α)
    (m : Memory)
    (addr : Nat)
    (a : α) : Memory :=
  fun j =>
    if addr ≤ j ∧ j < addr + c.size then c.encode a (j - addr)
    else m j

/- The memory with `len` bytes set from an address on. -/
def fill
    (m : Memory)
    (addr len : Nat)
    (b : UInt8) : Memory :=
  fun j => if addr ≤ j ∧ j < addr + len then b else m j

theorem load_congr
    {c : PackedCodec α}
    {m out : Memory}
    {addr : Nat}
    (h : ∀ j, addr ≤ j → j < addr + c.size → out j = m j) :
    load c out addr = load c m addr :=
  c.decode_congr _ _ fun i hi => h _ (by omega) (by omega)

/- A stored value is loaded back. -/
@[simp] theorem load_store_self
    (c : PackedCodec α)
    (m : Memory)
    (addr : Nat)
    (a : α) :
    load c (store c m addr a) addr = a := by
  rw [← c.decode_encode a]
  apply c.decode_congr
  intro i hi
  rw [store, if_pos (by omega), c.decode_encode,
    Nat.add_sub_cancel_left]

/- The value of bytes that are all the same. -/
theorem load_of_const
    {c : PackedCodec α}
    {m : Memory}
    {addr : Nat}
    {b : UInt8}
    (h : ∀ j, addr ≤ j → j < addr + c.size → m j = b) :
    load c m addr = c.decode fun _ => b :=
  c.decode_congr _ _ fun i hi => h _ (by omega) (by omega)

/- Memories with the same value at an address agree there. -/
theorem eq_of_load_eq
    {c : PackedCodec α}
    {m out : Memory}
    {addr j : Nat}
    (h : load c out addr = load c m addr)
    (hj : addr ≤ j ∧ j < addr + c.size) :
    out j = m j := by
  have hByte : ∀ m' : Memory,
      c.encode (load c m' addr) (j - addr) = m' j := by
    intro m'
    rw [load, c.encode_decode _ _ (by omega)]
    congr 1
    omega
  rw [← hByte out, h, hByte]

------------------------------------------------------------
-- What an Operation Changes
------------------------------------------------------------

/- The bytes outside a set of addresses are kept. -/
def ChangesWithin
    (S : Set Nat)
    (m out : Memory) : Prop :=
  ∀ j, j ∉ S → out j = m j

theorem ChangesWithin.refl
    (S : Set Nat)
    (m : Memory) :
    ChangesWithin S m m :=
  fun _ _ => rfl

theorem ChangesWithin.trans
    {S : Set Nat}
    {m mid out : Memory}
    (hFirst : ChangesWithin S m mid)
    (hNext : ChangesWithin S mid out) :
    ChangesWithin S m out :=
  fun j hj => (hNext j hj).trans (hFirst j hj)

theorem ChangesWithin.mono
    {S T : Set Nat}
    {m out : Memory}
    (h : ChangesWithin S m out)
    (hSub : S ⊆ T) :
    ChangesWithin T m out :=
  fun j hj => h j fun hS => hj (hSub hS)

/- A store within the set, after changes within it. -/
theorem ChangesWithin.store
    {a b : Nat}
    {m out : Memory}
    {c : PackedCodec α}
    {addr : Nat}
    {x : α}
    (h : ChangesWithin (Set.Ico a b) m out)
    (hLow : a ≤ addr)
    (hHigh : addr + c.size ≤ b) :
    ChangesWithin (Set.Ico a b) m (store c out addr x) := by
  intro j hj
  rw [Memory.store, if_neg, h j hj]
  intro hIn
  exact hj ⟨by omega, by omega⟩

/- A store of one byte. -/
theorem store_word8
    (m : Memory)
    (addr : Nat)
    (a : UInt8)
    (j : Nat) :
    store PackedCodec.word8 m addr a j =
      if j = addr then a else m j := by
  rw [store]
  by_cases hj : j = addr
  · subst hj
    rw [if_pos (by simp), if_pos rfl, Nat.sub_self]
    change LittleEndian.toByte a.toNat 0 = a
    simp [LittleEndian.toByte]
  · rw [if_neg (by
      simp only [PackedCodec.word8_size]
      omega), if_neg hj]

/- A value outside the changed set is kept. -/
theorem ChangesWithin.load
    {S : Set Nat}
    {c : PackedCodec α}
    {m out : Memory}
    {addr : Nat}
    (h : ChangesWithin S m out)
    (hDisjoint : ∀ j, addr ≤ j → j < addr + c.size → j ∉ S) :
    Memory.load c out addr = Memory.load c m addr :=
  load_congr fun j hLe hLt => h j (hDisjoint j hLe hLt)

/- A value away from a store is kept. -/
theorem load_store_of_disjoint
    {β : Type}
    (c : PackedCodec α)
    (d : PackedCodec β)
    (m : Memory)
    {addr addr' : Nat}
    (b : β)
    (h : addr + c.size ≤ addr' ∨ addr' + d.size ≤ addr) :
    load c (store d m addr' b) addr = load c m addr :=
  load_congr fun j hLe hLt => if_neg (by omega)

end Memory
