import Mathlib.Logic.Equiv.Defs
import Mathlib.Algebra.Order.Ring.Nat
import Mathlib.Tactic.Ring

/-
  Packed little-endian layouts.

  A `PackedCodec` writes a value as a fixed number of bytes
  and reads it back.  It carries the two round trips and the
  fact that reading looks at those bytes only, so that every
  layout built from the combinators below is correct by
  construction.

  Key definitions include:
    * `PackedCodec`
    * `PackedCodec.word8`, `word16`, `word32`, `word64`
    * `PackedCodec.pair`
    * `PackedCodec.array`
    * `PackedCodec.iso`

  Key theorems include:
    * `LittleEndian.ofBytes_toByte`
    * `LittleEndian.toByte_ofBytes`
-/

------------------------------------------------------------
-- Little-Endian Numbers
------------------------------------------------------------

namespace LittleEndian

/- The number whose `w` low-order bytes are given. -/
def ofBytes : (w : Nat) → (Nat → UInt8) → Nat
  | 0, _ => 0
  | w + 1, f =>
      (f 0).toNat + 256 * ofBytes w fun i => f (i + 1)

/- Byte `i` of a number. -/
def toByte
    (v i : Nat) : UInt8 :=
  UInt8.ofNat (v / 256 ^ i)

theorem ofBytes_lt
    (w : Nat)
    (f : Nat → UInt8) :
    ofBytes w f < 256 ^ w := by
  induction w generalizing f with
  | zero => simp [ofBytes]
  | succ w ih =>
      have hHead := (f 0).toNat_lt
      have hTail := ih fun i => f (i + 1)
      rw [ofBytes, Nat.pow_succ]
      omega

theorem ofBytes_congr
    {w : Nat}
    {f g : Nat → UInt8}
    (h : ∀ i, i < w → f i = g i) :
    ofBytes w f = ofBytes w g := by
  induction w generalizing f g with
  | zero => rfl
  | succ w ih =>
      rw [ofBytes, ofBytes, h 0 (by omega)]
      rw [ih fun i hi => h (i + 1) (by omega)]

/- Reading back the bytes of a number. -/
theorem ofBytes_toByte
    (w v : Nat) :
    ofBytes w (toByte v) = v % 256 ^ w := by
  induction w generalizing v with
  | zero => simp [ofBytes, Nat.mod_one]
  | succ w ih =>
      have hShift :
          (fun i => toByte v (i + 1)) =
            toByte (v / 256) := by
        funext i
        rw [toByte, toByte, Nat.div_div_eq_div_mul,
          Nat.pow_succ, Nat.mul_comm]
      have hHead : (toByte v 0).toNat = v % 256 := by
        simp [toByte]
      rw [ofBytes, hShift, ih, hHead, Nat.pow_succ,
        Nat.mul_comm (256 ^ w), Nat.mod_mul]

/- Writing out the number some bytes denote. -/
theorem toByte_ofBytes
    {w i : Nat}
    (f : Nat → UInt8)
    (hi : i < w) :
    toByte (ofBytes w f) i = f i := by
  induction w generalizing i f with
  | zero => omega
  | succ w ih =>
      have hHead := (f 0).toNat_lt
      cases i with
      | zero =>
          apply UInt8.toNat_inj.mp
          simp [toByte, ofBytes]
      | succ i =>
          have hDiv :
              ofBytes (w + 1) f / 256 =
                ofBytes w fun i => f (i + 1) := by
            rw [ofBytes]
            omega
          rw [toByte, Nat.pow_succ, Nat.mul_comm,
            ← Nat.div_div_eq_div_mul, hDiv]
          exact ih (fun i => f (i + 1)) (by omega)

end LittleEndian

------------------------------------------------------------
-- Codecs
------------------------------------------------------------

/-
  A layout of `size` bytes: what it writes it reads back,
  it reads those bytes only, and rewriting what it read
  changes none of them.
-/
structure PackedCodec (α : Type) where
  size : Nat
  encode : α → Nat → UInt8
  decode : (Nat → UInt8) → α
  decode_congr :
    ∀ f g, (∀ i, i < size → f i = g i) →
      decode f = decode g
  decode_encode : ∀ a, decode (encode a) = a
  encode_decode :
    ∀ f i, i < size → encode (decode f) i = f i

namespace PackedCodec

variable {α β : Type}

open LittleEndian

/- A number kept in `w` bytes through an embedding. -/
def word
    (w : Nat)
    (toNat : α → Nat)
    (ofNat : Nat → α)
    (hOf : ∀ a, ofNat (toNat a % 256 ^ w) = a)
    (hTo : ∀ v, v < 256 ^ w → toNat (ofNat v) = v) :
    PackedCodec α where
  size := w
  encode a := toByte (toNat a)
  decode f := ofNat (ofBytes w f)
  decode_congr f g h := by rw [ofBytes_congr h]
  decode_encode a := by rw [ofBytes_toByte, hOf]
  encode_decode f i hi := by
    rw [hTo _ (ofBytes_lt w f), toByte_ofBytes f hi]

/- One byte. -/
def word8 : PackedCodec UInt8 :=
  word 1 UInt8.toNat UInt8.ofNat
    (fun a => by
      have h : a.toNat % 256 ^ 1 = a.toNat :=
        Nat.mod_eq_of_lt a.toNat_lt
      rw [h, UInt8.ofNat_toNat])
    (fun v hv => UInt8.toNat_ofNat_of_lt hv)

/- Two bytes. -/
def word16 : PackedCodec UInt16 :=
  word 2 UInt16.toNat UInt16.ofNat
    (fun a => by
      have h : a.toNat % 256 ^ 2 = a.toNat :=
        Nat.mod_eq_of_lt a.toNat_lt
      rw [h, UInt16.ofNat_toNat])
    (fun v hv => UInt16.toNat_ofNat_of_lt hv)

/- Four bytes. -/
def word32 : PackedCodec UInt32 :=
  word 4 UInt32.toNat UInt32.ofNat
    (fun a => by
      have h : a.toNat % 256 ^ 4 = a.toNat :=
        Nat.mod_eq_of_lt a.toNat_lt
      rw [h, UInt32.ofNat_toNat])
    (fun v hv => UInt32.toNat_ofNat_of_lt hv)

/- Eight bytes. -/
def word64 : PackedCodec UInt64 :=
  word 8 UInt64.toNat UInt64.ofNat
    (fun a => by
      have h : a.toNat % 256 ^ 8 = a.toNat :=
        Nat.mod_eq_of_lt a.toNat_lt
      rw [h, UInt64.ofNat_toNat])
    (fun v hv => UInt64.toNat_ofNat_of_lt hv)

@[simp] theorem word8_size : word8.size = 1 := rfl

@[simp] theorem word16_size : word16.size = 2 := rfl

@[simp] theorem word32_size : word32.size = 4 := rfl

@[simp] theorem word64_size : word64.size = 8 := rfl

/- One layout followed by another, without a gap. -/
def pair
    (a : PackedCodec α)
    (b : PackedCodec β) :
    PackedCodec (α × β) where
  size := a.size + b.size
  encode p i :=
    if i < a.size then a.encode p.1 i
    else b.encode p.2 (i - a.size)
  decode f := (a.decode f, b.decode fun i => f (a.size + i))
  decode_congr f g h := by
    rw [a.decode_congr f g fun i hi => h i (by omega)]
    rw [b.decode_congr _ _ fun i hi =>
      h (a.size + i) (by omega)]
  decode_encode p := by
    rw [a.decode_congr _ (a.encode p.1)
      fun i hi => if_pos hi]
    rw [b.decode_congr _ (b.encode p.2) fun i _ => by
      simp only [if_neg (show ¬a.size + i < a.size by omega),
        Nat.add_sub_cancel_left]]
    rw [a.decode_encode, b.decode_encode]
  encode_decode f i hi := by
    split
    · next h => exact a.encode_decode f i h
    · next h =>
        rw [b.encode_decode _ _ (by omega)]
        congr 1
        omega

@[simp] theorem pair_size
    (a : PackedCodec α)
    (b : PackedCodec β) :
    (a.pair b).size = a.size + b.size := rfl

theorem pair_encode
    (a : PackedCodec α)
    (b : PackedCodec β)
    (p : α × β)
    (i : Nat) :
    (a.pair b).encode p i =
      if i < a.size then a.encode p.1 i
      else b.encode p.2 (i - a.size) := rfl

/- Pairs agreeing on the parts that meet an offset. -/
theorem pair_encode_congr
    {a : PackedCodec α}
    {b : PackedCodec β}
    {p q : α × β}
    {i : Nat}
    (hFst : i < a.size → a.encode p.1 i = a.encode q.1 i)
    (hSnd : a.size ≤ i →
      b.encode p.2 (i - a.size) = b.encode q.2 (i - a.size)) :
    (a.pair b).encode p i = (a.pair b).encode q i := by
  rw [pair_encode, pair_encode]
  split
  · next h => exact hFst h
  · next h => exact hSnd (by omega)

/- Consecutive elements of one layout. -/
def array
    (n : Nat)
    (a : PackedCodec α)
    (hSize : 0 < a.size) :
    PackedCodec (Fin n → α) where
  size := n * a.size
  encode v i :=
    if h : i / a.size < n then
      a.encode (v ⟨i / a.size, h⟩) (i % a.size)
    else 0
  decode f k := a.decode fun i => f (k * a.size + i)
  decode_congr f g h := by
    funext k
    apply a.decode_congr
    intro i hi
    apply h
    calc
      k * a.size + i < k * a.size + a.size := by omega
      _ = (k + 1) * a.size := by ring
      _ ≤ n * a.size := Nat.mul_le_mul_right _ k.isLt
  decode_encode v := by
    funext k
    rw [← a.decode_encode (v k)]
    apply a.decode_congr
    intro i hi
    have hDiv : (k * a.size + i) / a.size = k := by
      rw [Nat.mul_comm, Nat.mul_add_div hSize,
        Nat.div_eq_of_lt hi, Nat.add_zero]
    have hMod : (k * a.size + i) % a.size = i := by
      rw [Nat.mul_comm, Nat.mul_add_mod,
        Nat.mod_eq_of_lt hi]
    simp only [hDiv, hMod, k.isLt, dif_pos, Fin.eta]
  encode_decode f i hi := by
    have hDiv : i / a.size < n :=
      Nat.div_lt_of_lt_mul (by rwa [Nat.mul_comm] at hi)
    rw [dif_pos hDiv,
      a.encode_decode _ _ (Nat.mod_lt _ hSize)]
    congr 1
    exact Nat.div_add_mod' i a.size

@[simp] theorem array_size
    (n : Nat)
    (a : PackedCodec α)
    (hSize : 0 < a.size) :
    (a.array n hSize).size = n * a.size := rfl

/- Changing one element changes its own bytes only. -/
theorem array_encode_update
    {n : Nat}
    (a : PackedCodec α)
    (hSize : 0 < a.size)
    (v : Fin n → α)
    (k : Fin n)
    (x : α)
    {i : Nat}
    (hi : i < n * a.size) :
    (a.array n hSize).encode (Function.update v k x) i =
      if i / a.size = k then a.encode x (i % a.size)
      else (a.array n hSize).encode v i := by
  have hDiv : i / a.size < n :=
    Nat.div_lt_of_lt_mul (by rwa [Nat.mul_comm] at hi)
  simp only [array, dif_pos hDiv]
  by_cases hk : i / a.size = k
  · have hEq : (⟨i / a.size, hDiv⟩ : Fin n) = k :=
      Fin.ext hk
    rw [if_pos hk, hEq, Function.update_self]
  · have hNe : (⟨i / a.size, hDiv⟩ : Fin n) ≠ k :=
      fun h => hk (congrArg Fin.val h)
    rw [if_neg hk, Function.update_of_ne hNe]

/- The same bytes under another name for the value. -/
def iso
    (a : PackedCodec α)
    (e : α ≃ β) :
    PackedCodec β where
  size := a.size
  encode b := a.encode (e.symm b)
  decode f := e (a.decode f)
  decode_congr f g h := by rw [a.decode_congr f g h]
  decode_encode b := by
    rw [a.decode_encode, e.apply_symm_apply]
  encode_decode f i hi := by
    rw [e.symm_apply_apply, a.encode_decode f i hi]

@[simp] theorem iso_size
    (a : PackedCodec α)
    (e : α ≃ β) :
    (a.iso e).size = a.size := rfl

end PackedCodec
