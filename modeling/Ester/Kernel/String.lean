import Mathlib.Data.List.GetD
import Mathlib.Data.List.TakeWhile
import Ester.Kernel.Mem

/-
  The string functions of kernel/string.c that path lookup
  uses.

  A `char *` is the list of bytes from the pointer to the
  end of its array.  The functions stop at the first zero
  byte; running off the list before one is an access outside
  the array and has no result.

  Key definitions include:
    * `strlen`
    * `strcmp`
    * `strncat`
    * `cString`
    * `ByteBuffer.ShowsText`

  Key theorems include:
    * `strlen_eq_some_iff`
    * `strcmp_eq_zero_iff`
    * `ByteBuffer.ShowsText.cString_eq`
    * `ByteBuffer.ShowsText.of_cString`
    * `strncat_showsText`
-/

------------------------------------------------------------
-- C Strings
------------------------------------------------------------

namespace Ester

/- The bytes before the first zero byte. -/
def cString
    (str : List UInt8) : List UInt8 :=
  str.takeWhile fun c => c ≠ 0

/- The array holds a zero byte at or after the pointer. -/
def Terminated
    (str : List UInt8) : Prop :=
  0 ∈ str

instance
    (str : List UInt8) :
    Decidable (Terminated str) := by
  unfold Terminated
  infer_instance

@[simp] theorem cString_nil : cString [] = [] := rfl

@[simp] theorem cString_zero_cons
    (str : List UInt8) :
    cString (0 :: str) = [] := rfl

theorem cString_cons_of_ne
    {c : UInt8}
    (hc : c ≠ 0)
    (str : List UInt8) :
    cString (c :: str) = c :: cString str := by
  simp [cString, hc]

theorem terminated_cons_of_ne
    {c : UInt8}
    (hc : c ≠ 0)
    {str : List UInt8} :
    Terminated (c :: str) ↔ Terminated str := by
  simp [Terminated, hc.symm]

/- A string is its characters, a zero and what follows. -/
theorem terminated_split
    {str : List UInt8}
    (h : Terminated str) :
    ∃ rest, str = cString str ++ 0 :: rest := by
  induction str with
  | nil => exact absurd h (by simp [Terminated])
  | cons c str ih =>
      by_cases hc : c = 0
      · subst hc
        exact ⟨str, rfl⟩
      · rcases ih ((terminated_cons_of_ne hc).mp h) with
          ⟨rest, hRest⟩
        refine ⟨rest, ?_⟩
        rw [cString_cons_of_ne hc, List.cons_append, ← hRest]

/- A character of a string is not zero. -/
theorem ne_zero_of_mem_cString
    {str : List UInt8}
    {c : UInt8}
    (h : c ∈ cString str) :
    c ≠ 0 := by
  have hTrue := List.mem_takeWhile_imp h
  exact of_decide_eq_true hTrue

/- A text without zero bytes reads back before its end. -/
theorem cString_append_zero
    {text : List UInt8}
    (hText : ∀ c ∈ text, c ≠ 0)
    (rest : List UInt8) :
    cString (text ++ 0 :: rest) = text := by
  induction text with
  | nil => rfl
  | cons c text ih =>
      rw [List.cons_append,
        cString_cons_of_ne (hText c (by simp)), ih]
      exact fun d hd => hText d (by simp [hd])

------------------------------------------------------------
-- Length
------------------------------------------------------------

/- String length. -/
def strlen : List UInt8 → Option Nat
  | [] => none
  | c :: str =>
      if c = 0 then some 0 else (strlen str).map (· + 1)

theorem strlen_eq_some_iff
    (str : List UInt8)
    (len : Nat) :
    strlen str = some len ↔
      Terminated str ∧ (cString str).length = len := by
  induction str generalizing len with
  | nil => simp [strlen, Terminated]
  | cons c str ih =>
      by_cases hc : c = 0
      · subst hc
        simp [strlen, Terminated]
      · rw [strlen, if_neg hc, Option.map_eq_some_iff,
          terminated_cons_of_ne hc, cString_cons_of_ne hc,
          List.length_cons]
        simp only [ih, and_assoc]
        constructor
        · rintro ⟨m, hTerm, hLen, hSucc⟩
          exact ⟨hTerm, by omega⟩
        · rintro ⟨hTerm, hLen⟩
          exact ⟨(cString str).length, hTerm, rfl, hLen⟩

theorem strlen_of_terminated
    {str : List UInt8}
    (h : Terminated str) :
    strlen str = some (cString str).length :=
  (strlen_eq_some_iff _ _).mpr ⟨h, rfl⟩

/- The bytes of a string before its terminator. -/
theorem getD_eq_cString
    (str : List UInt8)
    {k : Nat}
    (hk : k < (cString str).length) :
    str.getD k 0 = (cString str)[k] := by
  have hPrefix : cString str <+: str :=
    List.takeWhile_prefix _
  rw [hPrefix.getElem hk,
    List.getD_eq_getElem]

------------------------------------------------------------
-- Comparison
------------------------------------------------------------

/-
  Strings compare: 0 when equal, 1 when the first is the
  larger, 255 (the byte of -1) when it is the smaller.  The
  first differing characters compare as signed bytes.
-/
def strcmp : List UInt8 → List UInt8 → Option UInt8
  | a :: str1, b :: str2 =>
      if a ≠ 0 ∧ b ≠ 0 ∧ a = b then strcmp str1 str2
      else if a.toInt8 < b.toInt8 then some 255
      else if b.toInt8 < a.toInt8 then some 1
      else some 0
  | _, _ => none

/- Signed comparison decides equality of two characters. -/
theorem eq_of_not_signed_lt
    {a b : UInt8}
    (hab : ¬ a.toInt8 < b.toInt8)
    (hba : ¬ b.toInt8 < a.toInt8) :
    a = b := by
  have hEq : a.toInt8 = b.toInt8 :=
    Int8.le_antisymm (Int8.not_lt.mp hba)
      (Int8.not_lt.mp hab)
  simpa using congrArg Int8.toUInt8 hEq

/- Terminated strings always compare. -/
theorem strcmp_isSome
    {str1 str2 : List UInt8}
    (h1 : Terminated str1)
    (h2 : Terminated str2) :
    (strcmp str1 str2).isSome := by
  induction str1 generalizing str2 with
  | nil => simp [Terminated] at h1
  | cons a str1 ih =>
      cases str2 with
      | nil => simp [Terminated] at h2
      | cons b str2 =>
          unfold strcmp
          split
          · next h =>
              exact ih
                ((terminated_cons_of_ne h.1).mp h1)
                ((terminated_cons_of_ne h.2.1).mp h2)
          · split
            · rfl
            · split <;> rfl

/- A comparison that answers 0 saw equal strings. -/
theorem strcmp_eq_zero_iff
    {str1 str2 : List UInt8}
    (h1 : Terminated str1)
    (h2 : Terminated str2) :
    strcmp str1 str2 = some 0 ↔
      cString str1 = cString str2 := by
  induction str1 generalizing str2 with
  | nil => simp [Terminated] at h1
  | cons a str1 ih =>
      cases str2 with
      | nil => simp [Terminated] at h2
      | cons b str2 =>
          unfold strcmp
          split
          · next h =>
              rcases h with ⟨ha, hb, hab⟩
              subst hab
              rw [ih ((terminated_cons_of_ne ha).mp h1)
                ((terminated_cons_of_ne ha).mp h2),
                cString_cons_of_ne ha, cString_cons_of_ne ha,
                List.cons_inj_right]
          · next h =>
              by_cases hab : a = b
              · subst hab
                have ha : a = 0 := by
                  by_contra ha
                  exact h ⟨ha, ha, rfl⟩
                subst ha
                simp
              · have hNe :
                    cString (a :: str1) ≠
                      cString (b :: str2) := by
                  intro hEq
                  by_cases ha : a = 0
                  · by_cases hb : b = 0
                    · exact hab (ha.trans hb.symm)
                    · rw [cString_cons_of_ne hb, ha] at hEq
                      simp at hEq
                  · by_cases hb : b = 0
                    · rw [cString_cons_of_ne ha, hb] at hEq
                      simp at hEq
                    · rw [cString_cons_of_ne ha,
                        cString_cons_of_ne hb] at hEq
                      exact hab (List.cons.inj hEq).1
                split
                · simp [hNe]
                · split
                  · simp [hNe]
                  · next hLt hGt =>
                      exact absurd
                        (eq_of_not_signed_lt hLt hGt) hab

------------------------------------------------------------
-- Concatenation
------------------------------------------------------------

/-
  Append `len` bytes of `src` to the string in `dst` and
  terminate it.
-/
def strncat
    {n : Nat}
    (dst : ByteBuffer n)
    (src : List UInt8)
    (len : Nat) : Option (ByteBuffer n) :=
  match strlen (dst.bytesFrom 0) with
  | none => none
  | some dstI =>
      if len ≤ src.length ∧ dstI + len < n then
        some ((dst.splice dstI len fun i =>
          src.getD i 0).store (dstI + len) 0)
      else none

------------------------------------------------------------
-- Strings in Buffers
------------------------------------------------------------

end Ester

/- A buffer holds a text and a zero byte at an offset. -/
structure ByteBuffer.ShowsText
    {n : Nat}
    (b : ByteBuffer n)
    (off : Nat)
    (text : List UInt8) : Prop where
  shows :
    ∀ k (hk : k < text.length), b.get (off + k) = text[k]
  stop : b.get (off + text.length) = 0
  inside : off + text.length < n

namespace ByteBuffer.ShowsText

variable {n : Nat} {b : ByteBuffer n} {off : Nat}
variable {c : UInt8} {text : List UInt8}

theorem tail
    (h : b.ShowsText off (c :: text)) :
    b.ShowsText (off + 1) text where
  shows k hk := by
    have hNext := h.shows (k + 1) (Nat.succ_lt_succ hk)
    rwa [List.getElem_cons_succ, ← Nat.add_assoc,
      Nat.add_right_comm] at hNext
  stop := by
    have hStop := h.stop
    rwa [List.length_cons, ← Nat.add_assoc,
      Nat.add_right_comm] at hStop
  inside := by
    have hInside := h.inside
    rw [List.length_cons] at hInside
    omega

/- Only the bytes of the text and its end matter. -/
theorem congr
    {b' : ByteBuffer n}
    (h : b.ShowsText off text)
    (hSame : ∀ k, k ≤ text.length →
      b'.get (off + k) = b.get (off + k)) :
    b'.ShowsText off text where
  shows k hk :=
    (hSame k (Nat.le_of_lt hk)).trans (h.shows k hk)
  stop := (hSame _ (Nat.le_refl _)).trans h.stop
  inside := h.inside

/- Reading a text back as a string. -/
theorem bytesFrom_eq
    (h : b.ShowsText off text) :
    ∃ rest, b.bytesFrom off = text ++ 0 :: rest := by
  have hInside := h.inside
  induction text generalizing off with
  | nil =>
      have hFuel : n - off = n - (off + 1) + 1 := by
        have hLt := h.inside
        rw [List.length_nil] at hLt
        omega
      have hStop := h.stop
      rw [List.length_nil, Nat.add_zero] at hStop
      refine ⟨b.bytesUpTo (n - (off + 1)) (off + 1), ?_⟩
      rw [bytesFrom, hFuel, bytesUpTo, hStop, List.nil_append]
  | cons c text ih =>
      rcases ih h.tail h.tail.inside with ⟨rest, hRest⟩
      have hFuel : n - off = n - (off + 1) + 1 := by
        have hLt := h.inside
        rw [List.length_cons] at hLt
        omega
      have hHead := h.shows 0 (by simp)
      rw [Nat.add_zero, List.getElem_cons_zero] at hHead
      refine ⟨rest, ?_⟩
      rw [bytesFrom, hFuel, bytesUpTo, hHead]
      rw [bytesFrom] at hRest
      rw [hRest, List.cons_append]

theorem terminated
    (h : b.ShowsText off text) :
    Ester.Terminated (b.bytesFrom off) := by
  rcases h.bytesFrom_eq with ⟨rest, hEq⟩
  rw [hEq]
  simp [Ester.Terminated]

theorem cString_eq
    (h : b.ShowsText off text)
    (hText : ∀ x ∈ text, x ≠ 0) :
    Ester.cString (b.bytesFrom off) = text := by
  rcases h.bytesFrom_eq with ⟨rest, hEq⟩
  rw [hEq, Ester.cString_append_zero hText]

/- A string that reads as a text ends right behind it. -/
theorem of_cString
    (hTerm : Ester.Terminated (b.bytesFrom off))
    (hString : Ester.cString (b.bytesFrom off) = text) :
    b.ShowsText off text := by
  rcases Ester.terminated_split hTerm with ⟨rest, hSplit⟩
  rw [hString] at hSplit
  have hLength := b.length_bytesFrom off
  rw [hSplit, List.length_append, List.length_cons] at hLength
  constructor
  · intro k hk
    have hByte := b.getElem?_bytesFrom
      (show off + k < n by omega)
    rw [hSplit, List.getElem?_append_left hk,
      List.getElem?_eq_getElem hk] at hByte
    exact (Option.some.inj hByte).symm
  · have hByte := b.getElem?_bytesFrom
      (show off + text.length < n by omega)
    rw [hSplit, List.getElem?_append_right (Nat.le_refl _),
      Nat.sub_self] at hByte
    exact (Option.some.inj hByte).symm
  · omega

end ByteBuffer.ShowsText

namespace Ester

/- Appending a string to a text with enough room. -/
theorem strncat_showsText
    {n : Nat}
    {dst : ByteBuffer n}
    {text src : List UInt8}
    {len : Nat}
    (h : dst.ShowsText 0 text)
    (hText : ∀ x ∈ text, x ≠ 0)
    (hLen : strlen src = some len)
    (hRoom : text.length + len < n) :
    ∃ b, strncat dst src len = some b ∧
      b.ShowsText 0 (text ++ cString src) := by
  have hDst := strlen_of_terminated h.terminated
  rw [h.cString_eq hText] at hDst
  have hSrc := ((strlen_eq_some_iff _ _).mp hLen).2
  have hPrefix : cString src <+: src :=
    List.takeWhile_prefix _
  have hLe := hPrefix.length_le
  refine ⟨(dst.splice text.length len
    fun i => src.getD i 0).store (text.length + len) 0,
    ?_, ?_⟩
  · unfold strncat
    simp only [hDst]
    exact if_pos ⟨by omega, hRoom⟩
  · constructor
    · intro k hk
      rw [List.length_append, hSrc] at hk
      rw [ByteBuffer.get_store_of_ne _ _ (by omega),
        Nat.zero_add]
      by_cases hOld : k < text.length
      · have hShows := h.shows k hOld
        rw [Nat.zero_add] at hShows
        rw [ByteBuffer.get_splice_of_outside _ _
          (.inl hOld), hShows, List.getElem_append_left hOld]
      · have hOld := Nat.not_lt.mp hOld
        rw [ByteBuffer.get_splice _ _ _ _ (by omega),
          if_pos ⟨hOld, hk⟩,
          List.getElem_append_right hOld]
        exact getD_eq_cString src (by omega)
    · rw [List.length_append, hSrc, Nat.zero_add]
      exact ByteBuffer.get_store_self _ _ hRoom
    · rw [List.length_append, hSrc, Nat.zero_add]
      exact hRoom

/- The byte behind a string in a buffer is zero. -/
theorem get_length_cString
    {n : Nat}
    {b : ByteBuffer n}
    (h : Terminated (b.bytesFrom 0)) :
    b.get (cString (b.bytesFrom 0)).length = 0 := by
  rcases terminated_split h with ⟨rest, hRest⟩
  generalize cString (b.bytesFrom 0) = text at hRest ⊢
  have hLen := congrArg List.length hRest
  rw [ByteBuffer.length_bytesFrom, List.length_append,
    List.length_cons] at hLen
  have hByte := b.getElem?_bytesFrom
    (show 0 + text.length < n by omega)
  rw [Nat.zero_add, hRest] at hByte
  simpa using hByte.symm

/- A string in a buffer is shown there. -/
theorem showsText_of_terminated
    {n : Nat}
    {b : ByteBuffer n}
    (h : Terminated (b.bytesFrom 0)) :
    b.ShowsText 0 (cString (b.bytesFrom 0)) where
  shows k hk := by
    have hPrefix : cString (b.bytesFrom 0) <+: b.bytesFrom 0 :=
      List.takeWhile_prefix _
    have hLt : k < (b.bytesFrom 0).length :=
      Nat.lt_of_lt_of_le hk hPrefix.length_le
    rw [ByteBuffer.length_bytesFrom] at hLt
    have hByte := b.getElem?_bytesFrom
      (show 0 + k < n by omega)
    rw [hPrefix.getElem hk, ← Option.some_inj, ← hByte,
      List.getElem?_eq_getElem]
  stop := by
    rw [Nat.zero_add]
    exact get_length_cString h
  inside := by
    rcases terminated_split h with ⟨rest, hRest⟩
    have hLen := congrArg List.length hRest
    rw [ByteBuffer.length_bytesFrom, List.length_append,
      List.length_cons] at hLen
    omega

end Ester
