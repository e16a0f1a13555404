import Ester.Kernel.Printk

/-
  The scan codes of drivers/ps2_keyboard.

  The driver turns a scan code into a character with the help
  of four strings in memory.  The row of the letters from 'q'
  on is read up to scan code 0x1B, two places behind its last
  letter: 0x1A finds the end of the string, and 0x1B what
  happens to lie behind it.  The other scan codes are a fixed
  layout, in which no two keys have the same character.

  Key definitions include:
    * `KeyStrings`
    * `toAscii`
    * `layout`, `keys`

  Key theorems include:
    * `toAscii_eq_layout`
    * `toAscii_beyond`
    * `types_iff`
-/

namespace Ester

namespace Ps2Keyboard

------------------------------------------------------------
-- From Scan Codes to Characters
------------------------------------------------------------

/- The bytes of ASCII characters. -/
def asciiText
    (cs : List Char) : List UInt8 :=
  cs.map fun c => UInt8.ofNat c.toNat

/- The strings of the driver, by their names. -/
def qwertzuiop : List UInt8 :=
  asciiText ['q', 'w', 'e', 'r', 't', 'z', 'u', 'i', 'o', 'p']

def asdfghjkl : List UInt8 :=
  asciiText ['a', 's', 'd', 'f', 'g', 'h', 'j', 'k', 'l']

def yxcvbnm : List UInt8 :=
  asciiText ['y', 'x', 'c', 'v', 'b', 'n', 'm']

def num : List UInt8 :=
  asciiText ['1', '2', '3', '4', '5', '6', '7', '8', '9']

/- Pointers to the strings of the driver. -/
structure KeyStrings where
  qwertzuiop : UInt64
  asdfghjkl : UInt64
  yxcvbnm : UInt64
  num : UInt64

/- The memory holds the strings of the driver. -/
structure KeyStrings.Placed
    (k : KeyStrings)
    (m : Memory) : Prop where
  qwertzuiop :
    Shows m k.qwertzuiop.toNat Ps2Keyboard.qwertzuiop
  asdfghjkl :
    Shows m k.asdfghjkl.toNat Ps2Keyboard.asdfghjkl
  yxcvbnm : Shows m k.yxcvbnm.toNat Ps2Keyboard.yxcvbnm
  num : Shows m k.num.toNat Ps2Keyboard.num

/- Scan codes, pressed but for the last two. -/
abbrev onePressed : UInt8 := 0x2

abbrev ninePressed : UInt8 := 0xA

abbrev zeroPressed : UInt8 := 0x29

abbrev pointReleased : UInt8 := 0xB4

abbrev slashReleased : UInt8 := 0xB5

/- The character of a scan code, zero for none. -/
def toAscii
    (k : KeyStrings)
    (m : Memory)
    (scanCode : UInt8) : UInt8 :=
  if scanCode = 0x1C then 10
  else if scanCode = 0x39 then 32
  else if scanCode = 0xE then 13
  else if scanCode = pointReleased then 46
  else if scanCode = slashReleased then 47
  else if scanCode = zeroPressed then 48
  else if onePressed ≤ scanCode ∧ scanCode ≤ ninePressed then
    m (k.num.toNat + (scanCode - onePressed).toNat)
  else if 0x10 ≤ scanCode ∧ scanCode ≤ 0x1C then
    m (k.qwertzuiop.toNat + (scanCode - 0x10).toNat)
  else if 0x1E ≤ scanCode ∧ scanCode ≤ 0x26 then
    m (k.asdfghjkl.toNat + (scanCode - 0x1E).toNat)
  else if 0x2C ≤ scanCode ∧ scanCode ≤ 0x32 then
    m (k.yxcvbnm.toNat + (scanCode - 0x2C).toNat)
  else 0

------------------------------------------------------------
-- The Layout
------------------------------------------------------------

/- The characters of the scan codes but 0x1B. -/
def layout
    (scanCode : UInt8) : UInt8 :=
  if scanCode = 0x1C then 10
  else if scanCode = 0x39 then 32
  else if scanCode = 0xE then 13
  else if scanCode = pointReleased then 46
  else if scanCode = slashReleased then 47
  else if scanCode = zeroPressed then 48
  else if onePressed ≤ scanCode ∧ scanCode ≤ ninePressed then
    num.getD (scanCode - onePressed).toNat 0
  else if 0x10 ≤ scanCode ∧ scanCode ≤ 0x1C then
    qwertzuiop.getD (scanCode - 0x10).toNat 0
  else if 0x1E ≤ scanCode ∧ scanCode ≤ 0x26 then
    asdfghjkl.getD (scanCode - 0x1E).toNat 0
  else if 0x2C ≤ scanCode ∧ scanCode ≤ 0x32 then
    yxcvbnm.getD (scanCode - 0x2C).toNat 0
  else 0

/- The keys that have a character, row by row. -/
def keys : List (UInt8 × UInt8) :=
  [(0x1C, 10), (0x39, 32), (0xE, 13), (pointReleased, 46),
    (slashReleased, 47), (zeroPressed, 48)] ++
  num.mapIdx
    (fun i c => (onePressed + UInt8.ofNat i, c)) ++
  qwertzuiop.mapIdx
    (fun i c => (0x10 + UInt8.ofNat i, c)) ++
  asdfghjkl.mapIdx
    (fun i c => (0x1E + UInt8.ofNat i, c)) ++
  yxcvbnm.mapIdx
    (fun i c => (0x2C + UInt8.ofNat i, c))

/- A string and the zero behind it. -/
theorem shows_getD
    {str : Nat → UInt8}
    {off i : Nat}
    {text : List UInt8}
    (h : Shows str off text)
    (hi : i ≤ text.length) :
    str (off + i) = text.getD i 0 := by
  rcases Nat.lt_or_eq_of_le hi with hLt | rfl
  · rw [h.shows i hLt, List.getD_eq_getElem _ _ hLt]
  · rw [h.stop, List.getD_eq_default _ _ (Nat.le_refl _)]

/- A scan code within a row, or just behind it. -/
theorem row_getD
    {m : Nat → UInt8}
    {off : Nat}
    {text : List UInt8}
    {scanCode first : UInt8}
    (h : Shows m off text)
    (hFirst : first ≤ scanCode)
    (hLast : scanCode.toNat ≤ first.toNat + text.length) :
    m (off + (scanCode - first).toNat) =
      text.getD (scanCode - first).toNat 0 := by
  refine shows_getD h ?_
  rw [UInt8.toNat_sub_of_le _ _ hFirst]
  omega

section Keys

variable {k : KeyStrings} {m : Memory}

theorem toAscii_eq_layout
    (hPlaced : k.Placed m)
    {scanCode : UInt8}
    (hCode : scanCode ≠ 0x1B) :
    toAscii k m scanCode = layout scanCode := by
  unfold toAscii layout
  refine ite_congr rfl (fun _ => rfl) fun hEnter => ?_
  refine ite_congr rfl (fun _ => rfl) fun _ => ?_
  refine ite_congr rfl (fun _ => rfl) fun _ => ?_
  refine ite_congr rfl (fun _ => rfl) fun _ => ?_
  refine ite_congr rfl (fun _ => rfl) fun _ => ?_
  refine ite_congr rfl (fun _ => rfl) fun _ => ?_
  refine ite_congr rfl (fun hRow => ?_) fun _ => ?_
  · exact row_getD hPlaced.num hRow.1
      (Nat.le_succ_of_le hRow.2)
  refine ite_congr rfl (fun hRow => ?_) fun _ => ?_
  · refine row_getD hPlaced.qwertzuiop hRow.1 ?_
    have hLast : scanCode.toNat ≤ 28 := hRow.2
    have hNotEnter : scanCode.toNat ≠ 28 := fun h =>
      hEnter (UInt8.toNat_inj.mp h)
    have hNotBeyond : scanCode.toNat ≠ 27 := fun h =>
      hCode (UInt8.toNat_inj.mp h)
    exact (show scanCode.toNat ≤ 26 by omega)
  refine ite_congr rfl (fun hRow => ?_) fun _ => ?_
  · exact row_getD hPlaced.asdfghjkl hRow.1
      (Nat.le_succ_of_le hRow.2)
  refine ite_congr rfl (fun hRow => ?_) fun _ => rfl
  exact row_getD hPlaced.yxcvbnm hRow.1
    (Nat.le_succ_of_le hRow.2)

/- Scan code 0x1B reads behind the end of its string. -/
theorem toAscii_beyond :
    toAscii k m 0x1B = m (k.qwertzuiop.toNat + 11) := rfl

/- A scan code within a row of keys. -/
theorem mem_row
    (base code : UInt8)
    {text : List UInt8}
    (h : text.getD (code - base).toNat 0 ≠ 0) :
    (code, text.getD (code - base).toNat 0) ∈
      text.mapIdx fun i c => (base + UInt8.ofNat i, c) := by
  have hLt : (code - base).toNat < text.length := by
    by_contra hBeyond
    exact h (List.getD_eq_default _ _ (Nat.not_lt.mp hBeyond))
  refine List.mem_mapIdx.mpr ⟨(code - base).toNat, hLt, ?_⟩
  rw [UInt8.ofNat_toNat, UInt8.add_comm, UInt8.sub_add_cancel,
    List.getD_eq_getElem _ _ hLt]

/- What a condition chooses is typed when both choices are. -/
theorem mem_keys_ite
    {scanCode a b : UInt8}
    {p : Prop}
    [Decidable p]
    (hThen : p → a ≠ 0 → (scanCode, a) ∈ keys)
    (hElse : b ≠ 0 → (scanCode, b) ∈ keys) :
    (if p then a else b) ≠ 0 →
      (scanCode, if p then a else b) ∈ keys := by
  by_cases hCode : p
  · rw [if_pos hCode]
    exact hThen hCode
  · rw [if_neg hCode]
    exact hElse

theorem mem_keys_layout
    {scanCode : UInt8}
    (h : layout scanCode ≠ 0) :
    (scanCode, layout scanCode) ∈ keys := by
  revert h
  unfold layout
  -- the keys by themselves, then the rows of `keys`
  apply mem_keys_ite
  · rintro rfl -
    exact List.mem_of_getElem? (i := 0) rfl
  apply mem_keys_ite
  · rintro rfl -
    exact List.mem_of_getElem? (i := 1) rfl
  apply mem_keys_ite
  · rintro rfl -
    exact List.mem_of_getElem? (i := 2) rfl
  apply mem_keys_ite
  · rintro rfl -
    exact List.mem_of_getElem? (i := 3) rfl
  apply mem_keys_ite
  · rintro rfl -
    exact List.mem_of_getElem? (i := 4) rfl
  apply mem_keys_ite
  · rintro rfl -
    exact List.mem_of_getElem? (i := 5) rfl
  apply mem_keys_ite
  · intro _ hKey
    exact List.mem_append_left _ (List.mem_append_left _
      (List.mem_append_left _ (List.mem_append_right _
        (mem_row onePressed scanCode hKey))))
  apply mem_keys_ite
  · intro _ hKey
    exact List.mem_append_left _ (List.mem_append_left _
      (List.mem_append_right _ (mem_row 0x10 scanCode hKey)))
  apply mem_keys_ite
  · intro _ hKey
    exact List.mem_append_left _ (List.mem_append_right _
      (mem_row 0x1E scanCode hKey))
  apply mem_keys_ite
  · intro _ hKey
    exact List.mem_append_right _ (mem_row 0x2C scanCode hKey)
  exact fun hZero => absurd rfl hZero

theorem layout_of_mem_keys
    {key : UInt8 × UInt8}
    (h : key ∈ keys) :
    layout key.1 = key.2 ∧ key.1 ≠ 0x1B ∧ key.2 ≠ 0 := by
  have hAll : (keys.all fun key =>
      layout key.1 = key.2 ∧ key.1 ≠ 0x1B ∧ key.2 ≠ 0) =
        true := by
    decide +kernel
  exact of_decide_eq_true (List.all_eq_true.mp hAll key h)

/-
  But for scan code 0x1B, which types the byte behind the
  first row of letters, the driver types exactly the keys of
  the layout, and no two of them have the same character.
-/
theorem types_iff
    (hPlaced : k.Placed m)
    (c : UInt8)
    (hc : c ≠ 0) :
    (∀ scanCode, scanCode ≠ 0x1B →
      (toAscii k m scanCode = c ↔ (scanCode, c) ∈ keys)) ∧
      toAscii k m 0x1B = m (k.qwertzuiop.toNat + 11) ∧
      (keys.map Prod.fst).Nodup ∧
      (keys.map Prod.snd).Nodup := by
  refine ⟨fun scanCode hCode => ?_, toAscii_beyond,
    by decide +kernel, by decide +kernel⟩
  rw [toAscii_eq_layout hPlaced hCode]
  constructor
  · rintro rfl
    exact mem_keys_layout hc
  · intro hKey
    exact (layout_of_mem_keys hKey).1

/- The strings of the driver, one after the other. -/
def keyBytes : List UInt8 :=
  qwertzuiop ++ 0 :: (asdfghjkl ++ 0 :: (yxcvbnm ++ 0 ::
    (num ++ [0])))

def keyOffsets : KeyStrings :=
  ⟨0, 11, 21, 29⟩

/- A text is without zeros when the zero is not in it. -/
theorem ne_zero_of_not_mem
    {text : List UInt8}
    (h : 0 ∉ text) :
    ∀ c ∈ text, c ≠ 0 := by
  rintro c hc rfl
  exact h hc

theorem keyBytes_placed :
    keyOffsets.Placed fun j => keyBytes.getD j 0 where
  qwertzuiop := Shows.of_getD []
    Ps2Keyboard.qwertzuiop _ rfl
      (ne_zero_of_not_mem (by decide))
  asdfghjkl := Shows.of_getD (keyBytes.take 11)
    Ps2Keyboard.asdfghjkl (keyBytes.drop 21) (by decide)
      (ne_zero_of_not_mem (by decide))
  yxcvbnm := Shows.of_getD (keyBytes.take 21)
    Ps2Keyboard.yxcvbnm (keyBytes.drop 29) (by decide)
      (ne_zero_of_not_mem (by decide))
  num := Shows.of_getD (keyBytes.take 29)
    Ps2Keyboard.num [] (by decide)
      (ne_zero_of_not_mem (by decide))

theorem KeyStrings.Placed.congr
    {m' : Memory}
    {bound : Nat}
    (h : k.Placed m)
    (hEq : ∀ j, j < bound → m' j = m j)
    (hQ : k.qwertzuiop.toNat + 10 < bound)
    (hA : k.asdfghjkl.toNat + 9 < bound)
    (hY : k.yxcvbnm.toNat + 7 < bound)
    (hN : k.num.toNat + 9 < bound) :
    k.Placed m' where
  qwertzuiop := h.qwertzuiop.congr hEq hQ
  asdfghjkl := h.asdfghjkl.congr hEq hA
  yxcvbnm := h.yxcvbnm.congr hEq hY
  num := h.num.congr hEq hN

/- The letter 'q' is typed by one key. -/
theorem types_iff_q :
    (113 : UInt8) ≠ 0 ∧
      ∀ scanCode, scanCode ≠ 0x1B →
        (toAscii keyOffsets (fun j => keyBytes.getD j 0)
          scanCode = 113 ↔ (scanCode, 113) ∈ keys) :=
  ⟨by decide,
    (types_iff keyBytes_placed 113 (by decide)).1⟩

end Keys

end Ps2Keyboard

end Ester
