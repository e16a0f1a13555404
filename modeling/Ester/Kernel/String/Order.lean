import Mathlib.Data.List.Lex
import Mathlib.Data.Int.Order.Basic
import Ester.Kernel.String.Reverse

/-
  The order that `strcmp` puts on strings.

  `strcmp` of kernel/string.c runs one 32-bit index over both
  strings.  It compares the strings by their signed bytes,
  the terminator included, in the order of lists: that is
  the order its answers are read off from.

  Key definitions include:
    * `strcmpLoop`
    * `signedKey`

  Key theorems include:
    * `strcmpLoop_eq`
    * `strcmp_eq_key`
    * `strcmp_orders`
-/

------------------------------------------------------------
-- The Indexed Loop
------------------------------------------------------------

namespace Ester

/- The answer on the two characters the loop ends at. -/
def charOrder
    (a b : UInt8) : UInt8 :=
  if a.toInt8 < b.toInt8 then 255
  else if b.toInt8 < a.toInt8 then 1
  else 0

/- One round of the loop of `strcmp`. -/
def strcmpRound
    (str1 str2 : List UInt8)
    (i : UInt32) : Option (Round UInt32 UInt8) :=
  match str1[i.toNat]?, str2[i.toNat]? with
  | some a, some b =>
      if a ≠ 0 ∧ b ≠ 0 ∧ a = b then some (.again (i + 1))
      else some (.done (charOrder a b))
  | _, _ => none

/- Strings compare, by the index of the code. -/
def strcmpLoop
    (rounds : Nat)
    (str1 str2 : List UInt8) : Option UInt8 :=
  loop (strcmpRound str1 str2) rounds 0

theorem strcmp_cons
    (a b : UInt8)
    (str1 str2 : List UInt8) :
    strcmp (a :: str1) (b :: str2) =
      if a ≠ 0 ∧ b ≠ 0 ∧ a = b then strcmp str1 str2
      else some (charOrder a b) := by
  rw [strcmp]
  unfold charOrder
  split
  · rfl
  · split
    · rfl
    · split <;> rfl

/- A list from an element of it on. -/
theorem drop_eq_cons
    {str : List UInt8}
    {i : Nat}
    {a : UInt8}
    (h : str[i]? = some a) :
    str.drop i = a :: str.drop (i + 1) := by
  rcases List.getElem?_eq_some_iff.mp h with ⟨hi, rfl⟩
  exact List.drop_eq_getElem_cons hi

/-
  The loop answers as the comparison from its index on, up
  to the terminator of the first string.
-/
theorem strcmpLoop_eq
    {text1 : List UInt8}
    {str1 str2 : List UInt8}
    {rounds : Nat}
    (hSplit : ∃ rest, str1 = text1 ++ 0 :: rest)
    (h2 : Terminated str2)
    (hLen : text1.length < UInt32.size)
    (hRounds : text1.length < rounds) :
    strcmpLoop rounds str1 str2 = strcmp str1 str2 := by
  have hRound : ∀ i : UInt32,
      i.toNat ≤ text1.length ∧
        Terminated (str2.drop i.toNat) ∧
        strcmp (str1.drop i.toNat) (str2.drop i.toNat) =
          strcmp str1 str2 →
      (∃ j, strcmpRound str1 str2 i = some (.again j) ∧
        (j.toNat ≤ text1.length ∧
          Terminated (str2.drop j.toNat) ∧
          strcmp (str1.drop j.toNat) (str2.drop j.toNat) =
            strcmp str1 str2) ∧
        text1.length - j.toNat < text1.length - i.toNat) ∨
      ∃ r, strcmpRound str1 str2 i = some (.done r) ∧
        some r = strcmp str1 str2 := by
    rintro i ⟨hIndex, hTerm, hSame⟩
    rcases hSplit with ⟨rest, hStr1⟩
    have hLt1 : i.toNat < str1.length := by
      rw [hStr1, List.length_append, List.length_cons]
      omega
    have hLt2 : i.toNat < str2.length := by
      by_contra hOut
      rw [List.drop_of_length_le (Nat.not_lt.mp hOut)] at hTerm
      exact absurd hTerm (List.not_mem_nil)
    have hChar1 := List.getElem?_eq_getElem hLt1
    have hChar2 := List.getElem?_eq_getElem hLt2
    rw [drop_eq_cons hChar1, drop_eq_cons hChar2,
      strcmp_cons] at hSame
    rw [drop_eq_cons hChar2] at hTerm
    unfold strcmpRound
    rw [hChar1, hChar2]
    generalize hA : str1[i.toNat] = a at hSame hChar1
    generalize str2[i.toNat] = b at hSame hTerm
    by_cases hNext : a ≠ 0 ∧ b ≠ 0 ∧ a = b
    · have hInside : i.toNat < text1.length := by
        rcases Nat.lt_or_eq_of_le hIndex with hLt | hEq
        · exact hLt
        · rw [hStr1, List.getElem?_append_right
            (Nat.le_of_eq hEq.symm), hEq, Nat.sub_self]
            at hChar1
          exact absurd (Option.some.inj hChar1).symm hNext.1
      have hSucc := toNat_succ
        (show i.toNat + 1 < UInt32.size by omega)
      simp only [if_pos hNext] at hSame ⊢
      refine .inl ⟨i + 1, rfl, ⟨?_, ?_, ?_⟩, ?_⟩
      · omega
      · rw [hSucc]
        exact (terminated_cons_of_ne hNext.2.1).mp hTerm
      · rw [hSucc]
        exact hSame
      · omega
    · simp only [if_neg hNext] at hSame ⊢
      exact .inr ⟨charOrder a b, rfl, hSame⟩
  rcases @loop_total _ _ _ _ _
    (fun i : UInt32 => text1.length - i.toNat) hRound rounds 0
    ⟨Nat.zero_le _, h2, rfl⟩ hRounds with ⟨r, hLoop, hEq⟩
  exact hLoop.trans hEq

------------------------------------------------------------
-- The Key of a String
------------------------------------------------------------

/- The signed bytes of a text and of its terminator. -/
def signedKey
    (text : List UInt8) : List Int :=
  (text ++ [0]).map fun c : UInt8 => c.toInt8.toInt

theorem signedKey_injective :
    Function.Injective signedKey := by
  intro a b h
  have hByte : Function.Injective
      fun c : UInt8 => c.toInt8.toInt := by
    intro c d hcd
    simpa using congrArg Int8.toUInt8 (Int8.toInt_inj.mp hcd)
  exact List.append_cancel_right
    (List.map_injective_iff.mpr hByte h)

theorem signedKey_cons
    (c : UInt8)
    (text : List UInt8) :
    signedKey (c :: text) =
      c.toInt8.toInt :: signedKey text := rfl

theorem signedKey_nil :
    signedKey [] = [(0 : UInt8).toInt8.toInt] := rfl

/- The answer for two keys. -/
def keyOrder
    (k l : List Int) : UInt8 :=
  if k < l then 255 else if l < k then 1 else 0

theorem keyOrder_eq_255_iff
    (k l : List Int) :
    keyOrder k l = 255 ↔ k < l := by
  unfold keyOrder
  split
  · next h => exact ⟨fun _ => h, fun _ => rfl⟩
  · next h =>
      refine ⟨fun hEq => ?_, fun hLt => absurd hLt h⟩
      split at hEq <;> exact absurd hEq (by decide)

theorem keyOrder_eq_one_iff
    (k l : List Int) :
    keyOrder k l = 1 ↔ l < k := by
  unfold keyOrder
  split
  · next h =>
      exact ⟨fun hEq => absurd hEq (by decide),
        fun hLt => absurd h (lt_asymm hLt)⟩
  · split
    · next h => exact ⟨fun _ => h, fun _ => rfl⟩
    · next h =>
        exact ⟨fun hEq => absurd hEq (by decide),
          fun hLt => absurd hLt h⟩

theorem keyOrder_eq_zero_iff
    (k l : List Int) :
    keyOrder k l = 0 ↔ k = l := by
  unfold keyOrder
  split
  · next h =>
      exact ⟨fun hEq => absurd hEq (by decide),
        fun hSame => absurd hSame h.ne⟩
  · split
    · next h =>
        exact ⟨fun hEq => absurd hEq (by decide),
          fun hSame => absurd hSame h.ne'⟩
    · next hLt hGt =>
        exact ⟨fun _ => le_antisymm (not_lt.mp hGt)
          (not_lt.mp hLt), fun _ => rfl⟩

/- Equal heads leave the comparison to the tails. -/
theorem keyOrder_cons_self
    (x : Int)
    (k l : List Int) :
    keyOrder (x :: k) (x :: l) = keyOrder k l := by
  unfold keyOrder
  simp only [List.cons_lt_cons_iff, lt_irrefl, false_or,
    true_and]

/- Different heads decide the comparison. -/
theorem keyOrder_cons_of_ne
    {a b : UInt8}
    (h : a ≠ b)
    (k l : List Int) :
    keyOrder (a.toInt8.toInt :: k) (b.toInt8.toInt :: l) =
      charOrder a b := by
  have hKey : a.toInt8.toInt ≠ b.toInt8.toInt := by
    intro hEq
    exact h (by
      simpa using congrArg Int8.toUInt8 (Int8.toInt_inj.mp hEq))
  unfold keyOrder charOrder
  simp only [List.cons_lt_cons_iff, hKey, hKey.symm,
    false_and, or_false, Int8.lt_iff_toInt_lt]

/- `strcmp` compares the keys of two strings. -/
theorem strcmp_eq_key
    {a b : List UInt8}
    (ha : ∀ c ∈ a, c ≠ 0)
    (hb : ∀ c ∈ b, c ≠ 0)
    (ra rb : List UInt8) :
    strcmp (a ++ 0 :: ra) (b ++ 0 :: rb) =
      some (keyOrder (signedKey a) (signedKey b)) := by
  induction a generalizing b with
  | nil =>
      cases b with
      | nil =>
          rw [List.nil_append, List.nil_append, strcmp_cons,
            if_neg (by simp), (keyOrder_eq_zero_iff _ _).mpr rfl]
          rfl
      | cons d b =>
          have hd : d ≠ 0 := hb d (by simp)
          rw [List.nil_append, List.cons_append, strcmp_cons,
            if_neg (by simp), signedKey_nil, signedKey_cons,
            keyOrder_cons_of_ne hd.symm]
  | cons c a ih =>
      have hc : c ≠ 0 := ha c (by simp)
      cases b with
      | nil =>
          rw [List.nil_append, List.cons_append, strcmp_cons,
            if_neg (by simp), signedKey_nil, signedKey_cons,
            keyOrder_cons_of_ne hc]
      | cons d b =>
          have hd : d ≠ 0 := hb d (by simp)
          rw [List.cons_append, List.cons_append, strcmp_cons,
            signedKey_cons, signedKey_cons]
          by_cases hcd : c = d
          · subst hcd
            rw [if_pos ⟨hc, hc, rfl⟩, keyOrder_cons_self]
            exact ih (fun x hx => ha x (by simp [hx]))
              (fun x hx => hb x (by simp [hx]))
          · rw [if_neg fun h => hcd h.2.2,
              keyOrder_cons_of_ne hcd]

------------------------------------------------------------
-- Order Laws
------------------------------------------------------------

/- A text that a terminator can close, below 2^32 bytes. -/
structure IsText
    (text : List UInt8) : Prop where
  nonzero : ∀ c ∈ text, c ≠ 0
  short : text.length < UInt32.size

/- The loop compares keys, whatever is behind the strings. -/
theorem strcmpLoop_eq_key
    {a b : List UInt8}
    {rounds : Nat}
    (ha : IsText a)
    (hb : IsText b)
    (hRounds : a.length < rounds)
    (ra rb : List UInt8) :
    strcmpLoop rounds (a ++ 0 :: ra) (b ++ 0 :: rb) =
      some (keyOrder (signedKey a) (signedKey b)) := by
  rw [strcmpLoop_eq ⟨ra, rfl⟩ (by simp [Terminated])
    ha.short hRounds]
  exact strcmp_eq_key ha.nonzero hb.nonzero ra rb

/-
  On arrays that end with the terminators the comparison
  has an answer, so it reads nothing behind them, and bytes
  behind them do not matter.  Answer 0 means equality, 1 and
  255 are mirror images, and 255 is transitive.
-/
theorem strcmp_orders
    {a b c : List UInt8}
    {rounds : Nat}
    (ha : IsText a)
    (hb : IsText b)
    (hc : IsText c)
    (hRounds : ∀ text ∈ [a, b, c], text.length < rounds) :
    (∃ r ∈ [0, 1, 255], ∀ ra rb,
      strcmpLoop rounds (a ++ [0]) (b ++ [0]) = some r ∧
        strcmpLoop rounds (a ++ 0 :: ra) (b ++ 0 :: rb) =
          some r) ∧
    (strcmpLoop rounds (a ++ [0]) (b ++ [0]) = some 0 ↔
      a = b) ∧
    (strcmpLoop rounds (a ++ [0]) (b ++ [0]) = some 1 ↔
      strcmpLoop rounds (b ++ [0]) (a ++ [0]) = some 255) ∧
    (strcmpLoop rounds (a ++ [0]) (b ++ [0]) = some 255 →
      strcmpLoop rounds (b ++ [0]) (c ++ [0]) = some 255 →
      strcmpLoop rounds (a ++ [0]) (c ++ [0]) =
        some 255) := by
  have hRa := hRounds a (by simp)
  have hRb := hRounds b (by simp)
  have hAnswer : keyOrder (signedKey a) (signedKey b) ∈
      ([0, 1, 255] : List UInt8) := by
    unfold keyOrder
    split
    · simp
    · split <;> simp
  refine ⟨⟨_, hAnswer, fun ra rb => ⟨?_, ?_⟩⟩, ?_⟩
  · exact strcmpLoop_eq_key ha hb hRa [] []
  · exact strcmpLoop_eq_key ha hb hRa ra rb
  · rw [strcmpLoop_eq_key ha hb hRa [] [],
      strcmpLoop_eq_key hb ha hRb [] [],
      strcmpLoop_eq_key hb hc hRb [] [],
      strcmpLoop_eq_key ha hc hRa [] []]
    simp only [Option.some.injEq, keyOrder_eq_255_iff,
      keyOrder_eq_one_iff, keyOrder_eq_zero_iff]
    exact ⟨signedKey_injective.eq_iff, trivial, lt_trans⟩

/- Three strings, one of them with a negative byte. -/
theorem strcmp_orders_sample :
    strcmpLoop 3 [97, 200, 0] [97, 0] = some 255 ∧
      strcmpLoop 3 [97, 200, 0] [97, 98, 0] =
        some 255 := by
  have ha : IsText [97, 200] := ⟨by simp, by decide⟩
  have hb : IsText [97] := ⟨by simp, by decide⟩
  have hc : IsText [97, 98] := ⟨by simp, by decide⟩
  have hFirst :
      strcmpLoop 3 [97, 200, 0] [97, 0] = some 255 := by
    decide
  have hLaws := @strcmp_orders [97, 200] [97] [97, 98] 3
    ha hb hc (by decide)
  exact ⟨hFirst, hLaws.2.2.2 hFirst (by decide)⟩

end Ester
