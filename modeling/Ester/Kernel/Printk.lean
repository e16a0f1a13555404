import Ester.Drivers.Vga
import Ester.Kernel.Ascii
import Ester.Library.Memory

/-
  Formatted printing from kernel/printk.c.

  `printk` reads its format through a pointer, and its
  arguments are the 64-bit slots that `va_arg` takes one by
  one.  Taking one that is not there has no result.  Every
  character goes to the screen and is kept as text beside
  it.  The strings do not lie in the screen's memory.

  Key definitions include:
    * `Console`
    * `printk`
    * `Piece`

  Key theorems include:
    * `printStr_shows`
    * `printkRound_piece`
    * `printk_prints`
    * `printk_meaning_iff`
-/

------------------------------------------------------------
-- Printing
------------------------------------------------------------

namespace Ester

/- The color of the kernel's text. -/
def lblue : UInt8 := 0x9

/- The screen and the characters sent to it so far. -/
structure Console where
  screen : Vga.Device
  text : List UInt8

/- Print char. -/
def printChar
    (c : UInt8)
    (k : Console) : Console :=
  { screen := Vga.vgaPrintChar c Vga.black lblue k.screen
    text := k.text ++ [c] }

/- The console after the characters of a text. -/
def Console.print
    (k : Console)
    (text : List UInt8) : Console :=
  text.foldl (fun k c => printChar c k) k

/- One round of the loop of `print_str`. -/
def printStrRound
    (str : Nat → UInt8)
    (s : UInt32 × Console) :
    Option (Round (UInt32 × Console) Console) :=
  if str s.1.toNat ≠ 0 then
    some (.again (s.1 + 1, printChar (str s.1.toNat) s.2))
  else some (.done s.2)

def printStr
    (rounds : Nat)
    (str : Nat → UInt8)
    (k : Console) : Option Console :=
  loop (printStrRound str) rounds (0, k)

/-
  The array for the digits is not initialised.  The loop that
  prints it is that of `print_str`.
-/
def printInt
    (rounds : Nat)
    (asciiValue : ByteBuffer intMaxDigits)
    (value : Int32)
    (k : Console) : Option Console :=
  match itoa rounds value asciiValue with
  | none => none
  | some asciiValue => printStr rounds asciiValue.get k

/- The variables of the loop of `printk`. -/
structure PrintkState where
  i : UInt32
  args : List UInt64
  console : Console

/-
  One round of the loop of `printk`.  `garbage` is what the
  array of `print_int` holds when it is called at an index.
-/
def printkRound
    (rounds : Nat)
    (garbage : UInt32 → ByteBuffer intMaxDigits)
    (m : Memory)
    (str : UInt64)
    (s : PrintkState) :
    Option (Round PrintkState (List UInt64 × Console)) :=
  let c := m (str.toNat + s.i.toNat)
  if c = 0 then some (.done (s.args, s.console))
  else
    -- 97 is 'a', the token that is not valid
    let token :=
      if c = 37 then m (str.toNat + (s.i + 1).toNat) else 97
    if token = 100 then
      match s.args with
      | [] => none
      | arg :: args =>
          match printInt rounds (garbage s.i)
              arg.toUInt32.toInt32 s.console with
          | none => none
          | some k => some (.again ⟨s.i + 1 + 1, args, k⟩)
    else if token = 115 then
      match s.args with
      | [] => none
      | arg :: args =>
          match printStr rounds (fun j => m (arg.toNat + j))
              s.console with
          | none => none
          | some k => some (.again ⟨s.i + 1 + 1, args, k⟩)
    else if token = 99 then
      match s.args with
      | [] => none
      | arg :: args =>
          some (.again ⟨s.i + 1 + 1, args,
            printChar arg.toUInt8 s.console⟩)
    else
      some (.again ⟨s.i + 1, s.args, printChar c s.console⟩)

/- The arguments that are left and the console afterwards. -/
def printk
    (rounds : Nat)
    (garbage : UInt32 → ByteBuffer intMaxDigits)
    (m : Memory)
    (str : UInt64)
    (args : List UInt64)
    (k : Console) : Option (List UInt64 × Console) :=
  loop (printkRound rounds garbage m str) rounds ⟨0, args, k⟩

------------------------------------------------------------
-- Consoles
------------------------------------------------------------

namespace Console

theorem print_append
    (k : Console)
    (text more : List UInt8) :
    k.print (text ++ more) = (k.print text).print more :=
  List.foldl_append ..

theorem text_print
    (k : Console)
    (text : List UInt8) :
    (k.print text).text = k.text ++ text := by
  induction text generalizing k with
  | nil => exact (List.append_nil _).symm
  | cons c text ih =>
      change ((printChar c k).print text).text = _
      rw [ih]
      exact List.append_assoc k.text [c] text

end Console

------------------------------------------------------------
-- Strings in Memory
------------------------------------------------------------

/- The bytes from an offset on are a text and a zero. -/
structure Shows
    (str : Nat → UInt8)
    (off : Nat)
    (text : List UInt8) : Prop where
  shows :
    ∀ k (hk : k < text.length), str (off + k) = text[k]
  stop : str (off + text.length) = 0
  nonzero : ∀ c ∈ text, c ≠ 0

namespace Shows

variable {str : Nat → UInt8} {off : Nat}
variable {text : List UInt8}

theorem ne_zero
    (h : Shows str off text)
    {k : Nat}
    (hk : k < text.length) :
    str (off + k) ≠ 0 := by
  rw [h.shows k hk]
  exact h.nonzero _ (List.getElem_mem hk)

/- What follows a part of a text. -/
theorem drop
    {part rest : List UInt8}
    (h : Shows str off (part ++ rest)) :
    Shows str (off + part.length) rest where
  shows k hk := by
    have hByte := h.shows (part.length + k) (by
      rw [List.length_append]
      omega)
    rw [← Nat.add_assoc] at hByte
    rw [hByte, List.getElem_append_right (by omega)]
    exact getElem_congr_idx (by omega)
  stop := by
    have hStop := h.stop
    rwa [List.length_append, ← Nat.add_assoc] at hStop
  nonzero c hc := h.nonzero c (List.mem_append_right _ hc)

theorem head
    {c : UInt8}
    (h : Shows str off (c :: text)) :
    str off = c :=
  h.shows 0 (Nat.zero_lt_succ _)

/- A string seen through a pointer to it. -/
theorem through
    (h : Shows str off text) :
    Shows (fun j => str (off + j)) 0 text where
  shows k hk := by
    rw [Nat.zero_add]
    exact h.shows k hk
  stop := by
    rw [Nat.zero_add]
    exact h.stop
  nonzero := h.nonzero

/- The bytes up to the end of a text matter. -/
theorem congr
    {str' : Nat → UInt8}
    {bound : Nat}
    (h : Shows str off text)
    (hEq : ∀ j, j < bound → str' j = str j)
    (hBound : off + text.length < bound) :
    Shows str' off text where
  shows k hk := by
    rw [hEq _ (by omega)]
    exact h.shows k hk
  stop := by
    rw [hEq _ hBound]
    exact h.stop
  nonzero := h.nonzero

/- A text and its end among other bytes. -/
theorem of_getD
    {bytes : List UInt8}
    (before text rest : List UInt8)
    (hBytes : bytes = before ++ text ++ 0 :: rest)
    (hText : ∀ c ∈ text, c ≠ 0) :
    Shows (fun j => bytes.getD j 0) before.length text where
  shows n hn := by
    subst hBytes
    rw [List.getD_append _ _ _ _ (by
        rw [List.length_append]
        omega),
      List.getD_append_right _ _ _ _ (Nat.le_add_right _ _),
      Nat.add_sub_cancel_left, List.getD_eq_getElem _ _ hn]
  stop := by
    subst hBytes
    rw [← List.length_append,
      List.getD_append_right _ _ _ _ (Nat.le_refl _),
      Nat.sub_self]
    rfl
  nonzero := hText

theorem of_showsText
    {n : Nat}
    {b : ByteBuffer n}
    (h : b.ShowsText off text)
    (hText : ∀ c ∈ text, c ≠ 0) :
    Shows b.get off text :=
  ⟨h.shows, h.stop, hText⟩

end Shows

/- A string below 2^32 bytes is printed. -/
theorem printStr_shows
    {str : Nat → UInt8}
    {text : List UInt8}
    {rounds : Nat}
    (h : Shows str 0 text)
    (hLen : text.length < UInt32.size)
    (hRounds : text.length < rounds)
    (k : Console) :
    printStr rounds str k = some (k.print text) := by
  have hRound : ∀ s : UInt32 × Console,
      s.1.toNat ≤ text.length ∧
        s.2 = k.print (text.take s.1.toNat) →
      (∃ t, printStrRound str s = some (.again t) ∧
        (t.1.toNat ≤ text.length ∧
          t.2 = k.print (text.take t.1.toNat)) ∧
        text.length - t.1.toNat < text.length - s.1.toNat) ∨
      ∃ r, printStrRound str s = some (.done r) ∧
        r = k.print text := by
    rintro ⟨i, c⟩ ⟨hIndex, hConsole⟩
    change i.toNat ≤ text.length at hIndex
    change c = k.print (text.take i.toNat) at hConsole
    unfold printStrRound
    rcases Nat.lt_or_eq_of_le hIndex with hLt | hEq
    · have hByte := h.shows i.toNat hLt
      have hNe := h.ne_zero hLt
      rw [Nat.zero_add] at hByte hNe
      have hSucc := toNat_succ
        (show i.toNat + 1 < UInt32.size by omega)
      rw [if_pos hNe]
      refine .inl ⟨_, rfl, ⟨?_, ?_⟩, ?_⟩
      · change (i + 1).toNat ≤ text.length
        omega
      · change printChar (str i.toNat) c =
          k.print (text.take (i + 1).toNat)
        rw [hSucc, List.take_add_one,
          List.getElem?_eq_getElem hLt, Option.toList_some,
          Console.print_append, ← hConsole, hByte]
        rfl
      · change text.length - (i + 1).toNat <
          text.length - i.toNat
        omega
    · have hStop := h.stop
      rw [Nat.zero_add, ← hEq] at hStop
      rw [if_neg (not_not_intro hStop)]
      rw [hEq, List.take_length] at hConsole
      exact .inr ⟨c, rfl, hConsole⟩
  rcases @loop_total _ _ _ _ _
    (fun s : UInt32 × Console => text.length - s.1.toNat)
    hRound rounds (0, k) ⟨Nat.zero_le _, rfl⟩ hRounds with
    ⟨r, hLoop, rfl⟩
  exact hLoop

/- A string of 2^32 bytes or more is printed for ever. -/
theorem printStr_endless
    {str : Nat → UInt8}
    {text : List UInt8}
    (h : Shows str 0 text)
    (hLen : UInt32.size ≤ text.length)
    (rounds : Nat)
    (k : Console) :
    printStr rounds str k = none := by
  refine @loop_endless _ _ _ (fun _ => True) ?_ _ trivial
    rounds
  rintro ⟨i, c⟩ -
  have hNe := h.ne_zero (Nat.lt_of_lt_of_le i.toNat_lt hLen)
  rw [Nat.zero_add] at hNe
  exact .inr ⟨_, if_pos hNe, trivial⟩

------------------------------------------------------------
-- Numbers
------------------------------------------------------------

/- What `print_int` shows for the unsigned value it is given. -/
def intText
    (u : UInt32) : List UInt8 :=
  if u.toNat < Int32.size / 2 then Decimal.numeral u.toNat
  else [unitsChar u.toInt32]

theorem toInt_toInt32_of_lt
    {u : UInt32}
    (h : u.toNat < Int32.size / 2) :
    u.toInt32.toInt = u.toNat := by
  change u.toBitVec.toInt = u.toBitVec.toNat
  exact BitVec.toInt_eq_toNat_of_lt (by
    change 2 * u.toNat < _
    have hHalf : Int32.size / 2 = 2147483648 := rfl
    omega)

theorem toInt_toInt32_of_ge
    {u : UInt32}
    (h : ¬ u.toNat < Int32.size / 2) :
    u.toInt32.toInt < 0 := by
  change u.toBitVec.toInt < 0
  have hHalf : Int32.size / 2 = 2147483648 := rfl
  have hLt := u.toNat_lt
  rw [BitVec.toInt_eq_toNat_cond]
  change (if 2 * u.toNat < _ then _ else (u.toNat : Int) - _) < 0
  rw [if_neg (by omega)]
  omega

theorem length_intText_of_ge
    {u : UInt32}
    (h : ¬ u.toNat < Int32.size / 2) :
    (intText u).length = 1 := by
  unfold intText
  rw [if_neg h]
  rfl

/- `print_int` shows a value whatever the array held. -/
theorem printInt_shows
    {rounds : Nat}
    (asciiValue : ByteBuffer intMaxDigits)
    (u : UInt32)
    (hRounds : 10 < rounds)
    (k : Console) :
    printInt rounds asciiValue u.toInt32 k =
      some (k.print (intText u)) := by
  unfold printInt intText
  by_cases hSmall : u.toNat < Int32.size / 2
  · have hValue := toInt_toInt32_of_lt hSmall
    have hTen := length_units_int32 hValue
    rcases itoa_of_nonneg asciiValue hValue
      (Nat.lt_of_le_of_lt hTen (by decide))
      (Nat.lt_of_le_of_lt hTen hRounds) with
      ⟨b, hResult, hShows⟩
    rw [hResult, if_pos hSmall]
    rw [← Decimal.length_numeral] at hTen
    exact printStr_shows
      (Shows.of_showsText hShows (numeral_ne_zero _))
      (Nat.lt_of_le_of_lt hTen (by decide))
      (Nat.lt_of_le_of_lt hTen hRounds) k
  · rcases itoa_of_negative asciiValue
      (toInt_toInt32_of_ge hSmall) (by decide)
      (show 1 < rounds by omega) with ⟨b, hResult, hShows⟩
    rw [hResult, if_neg hSmall]
    exact printStr_shows
      (Shows.of_showsText hShows
        (by simpa using unitsChar_ne_zero u.toInt32))
      (show 1 < UInt32.size by decide)
      (show 1 < rounds by omega) k

------------------------------------------------------------
-- Formats
------------------------------------------------------------

/-
  A piece of a format with its argument: a character that is
  not '%', or one of the tokens.  A string argument comes
  with the text it points to.
-/
inductive Piece where
  | literal (c : UInt8)
  | int (arg : UInt64)
  | str (arg : UInt64) (text : List UInt8)
  | chr (arg : UInt64)

namespace Piece

/- The characters of a piece in the format. -/
def format : Piece → List UInt8
  | .literal c => [c]
  | .int _ => [37, 100]
  | .str _ _ => [37, 115]
  | .chr _ => [37, 99]

/- The argument slots of a piece. -/
def slots : Piece → List UInt64
  | .literal _ => []
  | .int arg => [arg]
  | .str arg _ => [arg]
  | .chr arg => [arg]

/- What a piece stands for. -/
def meaning : Piece → List UInt8
  | .literal c => [c]
  | .int arg => Decimal.numeral arg.toUInt32.toNat
  | .str _ text => text
  | .chr arg => [arg.toUInt8]

/- What is printed for a piece. -/
def printed : Piece → List UInt8
  | .literal c => [c]
  | .int arg => intText arg.toUInt32
  | .str _ text => text
  | .chr arg => [arg.toUInt8]

/- Literals and string arguments are what they should be. -/
def Valid
    (m : Memory) : Piece → Prop
  | .literal c => c ≠ 0 ∧ c ≠ 37
  | .int _ => True
  | .str arg text => Shows m arg.toNat text
  | .chr _ => True

/- A string argument ends within 2^32 bytes. -/
def Ends : Piece → Prop
  | .str _ text => text.length < UInt32.size
  | _ => True

/- An integer argument is below 2^31. -/
def Nonneg : Piece → Prop
  | .int arg => arg.toUInt32.toNat < Int32.size / 2
  | _ => True

end Piece

/- The format string of a list of pieces. -/
def formatOf
    (pieces : List Piece) : List UInt8 :=
  pieces.flatMap Piece.format

/- The arguments of a list of pieces. -/
def slotsOf
    (pieces : List Piece) : List UInt64 :=
  pieces.flatMap Piece.slots

/- What a list of pieces stands for. -/
def meaningOf
    (pieces : List Piece) : List UInt8 :=
  pieces.flatMap Piece.meaning

/- What is printed for a list of pieces. -/
def printedOf
    (pieces : List Piece) : List UInt8 :=
  pieces.flatMap Piece.printed

------------------------------------------------------------
-- One Piece
------------------------------------------------------------

section Piece

variable {rounds : Nat}
variable {garbage : UInt32 → ByteBuffer intMaxDigits}
variable {m : Memory} {str : UInt64}

/- The index behind a token. -/
theorem toNat_two_on
    {i : UInt32}
    (h : i.toNat + 2 < UInt32.size) :
    (i + 1 + 1).toNat = i.toNat + 2 := by
  have hSucc := toNat_succ
    (show i.toNat + 1 < UInt32.size by omega)
  rw [toNat_succ (by omega), hSucc]

/- The character behind the '%' of a token. -/
theorem token_at
    {i : UInt32}
    {t : UInt8}
    {tail : List UInt8}
    (hFormat : Shows m (str.toNat + i.toNat) (37 :: t :: tail))
    (hIndex : i.toNat + 2 < UInt32.size) :
    m (str.toNat + i.toNat) = 37 ∧
      m (str.toNat + (i + 1).toNat) = t := by
  refine ⟨hFormat.head, ?_⟩
  rw [toNat_succ (by omega), ← Nat.add_assoc]
  exact hFormat.shows 1 (by simp)

/- A round takes a piece and its argument. -/
theorem printkRound_piece
    {s : PrintkState}
    {p : Piece}
    {tail : List UInt8}
    {rest : List UInt64}
    (hFormat :
      Shows m (str.toNat + s.i.toNat) (p.format ++ tail))
    (hIndex : s.i.toNat + p.format.length < UInt32.size)
    (hArgs : s.args = p.slots ++ rest)
    (hValid : p.Valid m)
    (hEnds : p.Ends)
    (hTen : 10 < rounds)
    (hRounds : p.printed.length < rounds) :
    ∃ i, printkRound rounds garbage m str s =
        some (.again ⟨i, rest, s.console.print p.printed⟩) ∧
      i.toNat = s.i.toNat + p.format.length := by
  unfold printkRound
  cases p with
  | literal c =>
      have hByte := hFormat.head
      rcases hValid with ⟨hZero, hPercent⟩
      change s.args = rest at hArgs
      rw [hByte, if_neg hZero, if_neg hPercent, hArgs]
      exact ⟨s.i + 1, rfl, toNat_succ hIndex⟩
  | int arg =>
      rcases token_at hFormat hIndex with ⟨hByte, hToken⟩
      change s.args = arg :: rest at hArgs
      rw [hByte, if_neg (by decide), if_pos rfl, hToken,
        hArgs]
      simp only [printInt_shows (garbage s.i) arg.toUInt32
        hTen s.console]
      exact ⟨s.i + 1 + 1, rfl, toNat_two_on hIndex⟩
  | str arg text =>
      rcases token_at hFormat hIndex with ⟨hByte, hToken⟩
      change s.args = arg :: rest at hArgs
      rw [hByte, if_neg (by decide), if_pos rfl, hToken,
        hArgs]
      simp only [printStr_shows hValid.through hEnds hRounds
        s.console]
      exact ⟨s.i + 1 + 1, rfl, toNat_two_on hIndex⟩
  | chr arg =>
      rcases token_at hFormat hIndex with ⟨hByte, hToken⟩
      change s.args = arg :: rest at hArgs
      rw [hByte, if_neg (by decide), if_pos rfl, hToken,
        hArgs]
      exact ⟨s.i + 1 + 1, rfl, toNat_two_on hIndex⟩

/- A round with a string that does not end has no result. -/
theorem printkRound_endless
    {s : PrintkState}
    {arg : UInt64}
    {text tail : List UInt8}
    {rest : List UInt64}
    (hFormat :
      Shows m (str.toNat + s.i.toNat) (37 :: 115 :: tail))
    (hIndex : s.i.toNat + 2 < UInt32.size)
    (hArgs : s.args = arg :: rest)
    (hText : Shows m arg.toNat text)
    (hLen : UInt32.size ≤ text.length) :
    printkRound rounds garbage m str s = none := by
  rcases token_at hFormat hIndex with ⟨hByte, hToken⟩
  unfold printkRound
  rw [hByte, if_neg (by decide), if_pos rfl, hToken, hArgs]
  simp only [printStr_endless hText.through hLen rounds
    s.console]
  rfl

------------------------------------------------------------
-- Whole Formats
------------------------------------------------------------

/- The loop goes on behind a piece. -/
theorem loop_piece
    {p : Piece}
    {pieces : List Piece}
    {s : PrintkState}
    {rest : List UInt64}
    (hFormat :
      Shows m (str.toNat + s.i.toNat) (formatOf (p :: pieces)))
    (hIndex :
      s.i.toNat + (formatOf (p :: pieces)).length <
        UInt32.size)
    (hArgs : s.args = slotsOf (p :: pieces) ++ rest)
    (hValid : p.Valid m)
    (hEnds : p.Ends)
    (hTen : 10 < rounds)
    (hRounds : p.printed.length < rounds) :
    ∃ t : PrintkState,
      (∀ fuel,
        loop (printkRound rounds garbage m str) (fuel + 1) s =
          loop (printkRound rounds garbage m str) fuel t) ∧
      Shows m (str.toNat + t.i.toNat) (formatOf pieces) ∧
      t.i.toNat + (formatOf pieces).length < UInt32.size ∧
      t.args = slotsOf pieces ++ rest ∧
      t.console = s.console.print p.printed := by
  change Shows m _ (p.format ++ formatOf pieces) at hFormat
  change s.args = (p.slots ++ slotsOf pieces) ++ rest at hArgs
  rw [List.append_assoc] at hArgs
  have hLen : (formatOf (p :: pieces)).length =
      p.format.length + (formatOf pieces).length :=
    List.length_append
  rcases @printkRound_piece rounds garbage m str s p _ _
    hFormat (by omega) hArgs hValid hEnds hTen hRounds with
    ⟨i, hRound, hNext⟩
  have hTail := hFormat.drop
  rw [Nat.add_assoc, ← hNext] at hTail
  refine ⟨_, fun fuel => loop_again fuel hRound, hTail, ?_,
    rfl, rfl⟩
  change i.toNat + _ < _
  omega

/-
  The rounds take the pieces one by one and leave the
  arguments behind them alone.
-/
theorem loop_pieces
    {pieces : List Piece}
    {s : PrintkState}
    {rest : List UInt64}
    {fuel : Nat}
    (hFormat :
      Shows m (str.toNat + s.i.toNat) (formatOf pieces))
    (hIndex :
      s.i.toNat + (formatOf pieces).length < UInt32.size)
    (hArgs : s.args = slotsOf pieces ++ rest)
    (hValid : ∀ p ∈ pieces, p.Valid m)
    (hEnds : ∀ p ∈ pieces, p.Ends)
    (hTen : 10 < rounds)
    (hRounds : ∀ p ∈ pieces, p.printed.length < rounds)
    (hFuel : pieces.length < fuel) :
    loop (printkRound rounds garbage m str) fuel s =
      some (rest, s.console.print (printedOf pieces)) := by
  induction pieces generalizing s fuel with
  | nil =>
      cases fuel with
      | zero => simp at hFuel
      | succ fuel =>
          have hStop := hFormat.stop
          change m (str.toNat + s.i.toNat) = 0 at hStop
          change s.args = rest at hArgs
          refine loop_done fuel ?_
          unfold printkRound
          rw [if_pos hStop, hArgs]
          rfl
  | cons p pieces ih =>
      rw [List.forall_mem_cons] at hValid hEnds hRounds
      cases fuel with
      | zero => simp at hFuel
      | succ fuel =>
          rcases @loop_piece rounds garbage m str p pieces s
            rest hFormat hIndex hArgs hValid.1 hEnds.1 hTen
            hRounds.1 with
            ⟨t, hLoop, hTail, hNext, hRest, hConsole⟩
          rw [hLoop, ih hTail hNext hRest hValid.2 hEnds.2
            hRounds.2 (by simpa using hFuel), hConsole,
            ← Console.print_append]
          rfl

/- A string argument without end leaves no result. -/
theorem loop_endless_piece
    {pieces : List Piece}
    {s : PrintkState}
    {rest : List UInt64}
    (hFormat :
      Shows m (str.toNat + s.i.toNat) (formatOf pieces))
    (hIndex :
      s.i.toNat + (formatOf pieces).length < UInt32.size)
    (hArgs : s.args = slotsOf pieces ++ rest)
    (hValid : ∀ p ∈ pieces, p.Valid m)
    (hTen : 10 < rounds)
    (hRounds : ∀ p ∈ pieces, p.printed.length < rounds)
    (hEnds : ¬ ∀ p ∈ pieces, p.Ends)
    (fuel : Nat) :
    loop (printkRound rounds garbage m str) fuel s = none := by
  induction pieces generalizing s fuel with
  | nil => exact absurd (by simp) hEnds
  | cons p pieces ih =>
      cases fuel with
      | zero => rfl
      | succ fuel =>
          rw [List.forall_mem_cons] at hValid hRounds hEnds
          by_cases hEnd : p.Ends
          · rcases @loop_piece rounds garbage m str p pieces s
              rest hFormat hIndex hArgs hValid.1 hEnd hTen
              hRounds.1 with
              ⟨t, hLoop, hTail, hNext, hRest, -⟩
            rw [hLoop]
            exact ih hTail hNext hRest hValid.2 hRounds.2
              (fun h => hEnds ⟨hEnd, h⟩) fuel
          · cases p with
            | str arg text =>
                change s.i.toNat +
                  ((formatOf pieces).length + 2) < _ at hIndex
                rw [loop, @printkRound_endless rounds garbage m
                  str s arg text _ _ hFormat (by omega) hArgs
                  hValid.1 (Nat.not_lt.mp hEnd)]
            | literal c => exact absurd trivial hEnd
            | int arg => exact absurd trivial hEnd
            | chr arg => exact absurd trivial hEnd

/- A format of 2^32 bytes or more has no last round. -/
theorem loop_endless_format
    {text : List UInt8}
    {s : PrintkState}
    (hFormat : Shows m str.toNat text)
    (hLen : UInt32.size ≤ text.length)
    (fuel : Nat) :
    loop (printkRound rounds garbage m str) fuel s = none := by
  refine @loop_endless _ _ _ (fun _ => True) ?_ _ trivial fuel
  intro s _
  have hNe := hFormat.ne_zero
    (Nat.lt_of_lt_of_le s.i.toNat_lt hLen)
  unfold printkRound
  rw [if_neg hNe]
  dsimp only
  generalize (if m (str.toNat + s.i.toNat) = 37 then
    m (str.toNat + (s.i + 1).toNat) else 97) = token
  split
  · split
    · exact .inl rfl
    · split
      · exact .inl rfl
      · exact .inr ⟨_, rfl, trivial⟩
  · split
    · split
      · exact .inl rfl
      · split
        · exact .inl rfl
        · exact .inr ⟨_, rfl, trivial⟩
    · split
      · split
        · exact .inl rfl
        · exact .inr ⟨_, rfl, trivial⟩
      · exact .inr ⟨_, rfl, trivial⟩

end Piece

------------------------------------------------------------
-- What Is Printed
------------------------------------------------------------

section Printk

variable {m : Memory} {str : UInt64} {pieces : List Piece}

/- A budget above every loop of a call. -/
def roundsFor
    (pieces : List Piece) : Nat :=
  11 + pieces.length + (printedOf pieces).length

theorem printed_lt_roundsFor
    {p : Piece}
    (h : p ∈ pieces) :
    p.printed.length < roundsFor pieces := by
  have hSub := List.sublist_flatten_of_mem
    (List.mem_map_of_mem (f := Piece.printed) h)
  have hLe := hSub.length_le
  unfold roundsFor printedOf
  rw [List.flatMap_def]
  omega

/-
  A format and its strings below 2^32 bytes are printed
  piece by piece; one argument is taken for each token.
-/
theorem printk_prints
    {rounds : Nat}
    (garbage : UInt32 → ByteBuffer intMaxDigits)
    (hFormat : Shows m str.toNat (formatOf pieces))
    (hLen : (formatOf pieces).length < UInt32.size)
    (hValid : ∀ p ∈ pieces, p.Valid m)
    (hEnds : ∀ p ∈ pieces, p.Ends)
    (hRounds : roundsFor pieces ≤ rounds)
    (rest : List UInt64)
    (k : Console) :
    printk rounds garbage m str (slotsOf pieces ++ rest) k =
      some (rest, k.print (printedOf pieces)) := by
  have hBudget : 11 + pieces.length ≤ roundsFor pieces :=
    Nat.le_add_right _ _
  exact loop_pieces hFormat (by
    change 0 + _ < _
    omega) rfl hValid hEnds (by omega)
    (fun p hp =>
      Nat.lt_of_lt_of_le (printed_lt_roundsFor hp) hRounds)
    (by omega)

/- A piece with a small integer is printed as it is meant. -/
theorem Piece.printed_of_nonneg
    {p : Piece}
    (h : p.Nonneg) :
    p.printed = p.meaning := by
  cases p with
  | int arg => exact if_pos h
  | literal c => rfl
  | str arg text => rfl
  | chr arg => rfl

/- No piece is printed longer than it is meant. -/
theorem Piece.length_printed_le
    (p : Piece) :
    p.printed.length ≤ p.meaning.length := by
  by_cases h : p.Nonneg
  · rw [printed_of_nonneg h]
  · cases p with
    | int arg =>
        change (intText _).length ≤ _
        rw [length_intText_of_ge h]
        change 1 ≤ (Decimal.numeral _).length
        rw [Decimal.length_numeral]
        exact Decimal.length_units_pos _
    | literal c => exact absurd trivial h
    | str arg text => exact absurd trivial h
    | chr arg => exact absurd trivial h

/- An integer from 2^31 on loses nine of its ten digits. -/
theorem Piece.length_printed_lt
    {p : Piece}
    (h : ¬ p.Nonneg) :
    p.printed.length < p.meaning.length := by
  cases p with
  | int arg =>
      change (intText _).length < (Decimal.numeral _).length
      rw [length_intText_of_ge h]
      by_contra hShort
      have hOne :
          (Decimal.numeral arg.toUInt32.toNat).length ≤ 1 :=
        Nat.not_lt.mp hShort
      have hLt := Decimal.value_lt fun c hc =>
        @Decimal.isDigit_of_mem_numeral arg.toUInt32.toNat c hc
      rw [Decimal.value_numeral] at hLt
      have hPow := Nat.pow_le_pow_right
        (show 0 < 10 by omega) hOne
      have hBig : ¬ arg.toUInt32.toNat < Int32.size / 2 := h
      have hHalf : Int32.size / 2 = 2147483648 := rfl
      omega
  | literal c => exact absurd trivial h
  | str arg text => exact absurd trivial h
  | chr arg => exact absurd trivial h

theorem length_printedOf_le
    (pieces : List Piece) :
    (printedOf pieces).length ≤
      (meaningOf pieces).length := by
  induction pieces with
  | nil => exact Nat.le_refl _
  | cons p pieces ih =>
      have hPiece := p.length_printed_le
      change (p.printed ++ printedOf pieces).length ≤
        (p.meaning ++ meaningOf pieces).length
      rw [List.length_append, List.length_append]
      omega

/- The whole text is right when every integer is small. -/
theorem printedOf_eq_iff
    (pieces : List Piece) :
    printedOf pieces = meaningOf pieces ↔
      ∀ p ∈ pieces, p.Nonneg := by
  induction pieces with
  | nil =>
      exact ⟨fun _ p hp => absurd hp (by simp), fun _ => rfl⟩
  | cons p pieces ih =>
      rw [List.forall_mem_cons]
      change p.printed ++ printedOf pieces =
        p.meaning ++ meaningOf pieces ↔ _
      constructor
      · intro hEq
        have hPiece : p.Nonneg := by
          by_contra hBad
          have hShort := Piece.length_printed_lt hBad
          have hTail := length_printedOf_le pieces
          have hLen := congrArg List.length hEq
          rw [List.length_append, List.length_append] at hLen
          omega
        rw [Piece.printed_of_nonneg hPiece] at hEq
        exact ⟨hPiece, ih.mp (List.append_cancel_left hEq)⟩
      · rintro ⟨hPiece, hTail⟩
        rw [Piece.printed_of_nonneg hPiece, ih.mpr hTail]

------------------------------------------------------------
-- When the Text Is Right
------------------------------------------------------------

/-
  The call ends, takes one argument for each token and
  prints what the pieces stand for.
-/
def PrintkMeans
    (garbage : UInt32 → ByteBuffer intMaxDigits)
    (m : Memory)
    (str : UInt64)
    (pieces : List Piece)
    (rest : List UInt64)
    (k : Console) : Prop :=
  ∃ bound, ∀ rounds, bound ≤ rounds →
    printk rounds garbage m str (slotsOf pieces ++ rest) k =
      some (rest, k.print (meaningOf pieces))

/- What a call prints is what it shows on the console. -/
theorem printedOf_of_means
    {garbage : UInt32 → ByteBuffer intMaxDigits}
    {rest : List UInt64}
    {k : Console}
    (hFormat : Shows m str.toNat (formatOf pieces))
    (hLen : (formatOf pieces).length < UInt32.size)
    (hValid : ∀ p ∈ pieces, p.Valid m)
    (hEnds : ∀ p ∈ pieces, p.Ends)
    (h : PrintkMeans garbage m str pieces rest k) :
    printedOf pieces = meaningOf pieces := by
  rcases h with ⟨bound, hBound⟩
  have hMeans := hBound (bound + roundsFor pieces)
    (Nat.le_add_right _ _)
  rw [printk_prints garbage hFormat hLen hValid hEnds
    (Nat.le_add_left _ _)] at hMeans
  have hConsole := congrArg Prod.snd (Option.some.inj hMeans)
  have hText := congrArg Console.text hConsole
  rw [Console.text_print, Console.text_print] at hText
  exact List.append_cancel_left hText

/-
  The printed text is the one meant when every `%d` argument
  is below 2^31, and the format and the strings end within
  2^32 bytes; otherwise it is not.
-/
theorem printk_meaning_iff
    (garbage : UInt32 → ByteBuffer intMaxDigits)
    (hFormat : Shows m str.toNat (formatOf pieces))
    (hValid : ∀ p ∈ pieces, p.Valid m)
    (rest : List UInt64)
    (k : Console) :
    PrintkMeans garbage m str pieces rest k ↔
      (∀ p ∈ pieces, p.Nonneg) ∧
        (formatOf pieces).length < UInt32.size ∧
        ∀ p ∈ pieces, p.Ends := by
  constructor
  · intro h
    have hLen : (formatOf pieces).length < UInt32.size := by
      by_contra hLong
      rcases h with ⟨bound, hBound⟩
      have hMeans := hBound bound (Nat.le_refl _)
      unfold printk at hMeans
      rw [loop_endless_format hFormat (Nat.not_lt.mp hLong)]
        at hMeans
      cases hMeans
    have hEnds : ∀ p ∈ pieces, p.Ends := by
      by_contra hEndless
      rcases h with ⟨bound, hBound⟩
      have hMeans := hBound (bound + roundsFor pieces)
        (Nat.le_add_right _ _)
      have hTen : 11 ≤ roundsFor pieces := by
        unfold roundsFor
        omega
      unfold printk at hMeans
      rw [loop_endless_piece hFormat
        (by change 0 + _ < _; omega) rfl hValid (by omega)
        (fun p hp => Nat.lt_of_lt_of_le
          (printed_lt_roundsFor hp) (Nat.le_add_left _ _))
        hEndless] at hMeans
      cases hMeans
    refine ⟨?_, hLen, hEnds⟩
    exact (printedOf_eq_iff pieces).mp
      (printedOf_of_means hFormat hLen hValid hEnds h)
  · rintro ⟨hNonneg, hLen, hEnds⟩
    refine ⟨roundsFor pieces, fun rounds hRounds => ?_⟩
    rw [printk_prints garbage hFormat hLen hValid hEnds
      hRounds, (printedOf_eq_iff pieces).mpr hNonneg]

end Printk

/- The format of one number. -/
def numberFormat : Memory :=
  fun j => [37, 100].getD j 0

theorem numberFormat_shows
    (arg : UInt64) :
    Shows numberFormat (0 : UInt64).toNat
      (formatOf [.int arg]) where
  shows k hk := by
    change k < 2 at hk
    rcases (show k = 0 ∨ k = 1 by omega) with rfl | rfl
    · rfl
    · rfl
  stop := rfl
  nonzero := show ∀ c ∈ ([37, 100] : List UInt8), c ≠ 0 by
    simp

/- A console on which nothing was printed. -/
def freshConsole : Console :=
  ⟨⟨fun _ => Vga.blank, 0, []⟩, []⟩

/- One character is printed for the ten of 2^31. -/
theorem printk_negative_sample :
    printedOf [.int 0x80000000] = [40] ∧
      ¬ PrintkMeans (fun _ => ByteBuffer.fill _ 0)
        numberFormat 0 [.int 0x80000000] [] freshConsole := by
  refine ⟨by decide, fun h => ?_⟩
  have hNonneg := (printedOf_eq_iff _).mp
    (printedOf_of_means (numberFormat_shows _) (by decide)
      (by simp [Piece.Valid]) (by simp [Piece.Ends]) h)
  exact absurd (hNonneg (.int 0x80000000) (by simp)) (by
    unfold Piece.Nonneg
    decide)

/- The format n=%d %s%c and the string ok behind it. -/
def mixedBytes : List UInt8 :=
  [110, 61, 37, 100, 32, 37, 115, 37, 99] ++ 0 :: [111, 107, 0]

def mixedMemory : Memory :=
  fun j => mixedBytes.getD j 0

/- The largest number, the string and an exclamation mark. -/
def mixedPieces : List Piece :=
  [.literal 110, .literal 61, .int 0x7FFFFFFF, .literal 32,
    .str 10 [111, 107], .chr 33]

theorem mixedMemory_shows :
    Shows mixedMemory (0 : UInt64).toNat
      (formatOf mixedPieces) :=
  .of_getD [] _ [111, 107, 0] rfl fun _ hMem hZero =>
    absurd (hZero ▸ hMem) (by decide)

theorem mixedMemory_string :
    Shows mixedMemory 10 [111, 107] :=
  .of_getD (mixedBytes.take 10) _ [] rfl
    fun _ hMem hZero => absurd (hZero ▸ hMem) (by decide)

/- It is printed as n=2147483647 ok!, one of each token. -/
theorem printk_meaning_sample :
    meaningOf mixedPieces =
        [110, 61, 50, 49, 52, 55, 52, 56, 51, 54, 52, 55, 32,
          111, 107, 33] ∧
      PrintkMeans (fun _ => ByteBuffer.fill _ 0)
        mixedMemory 0 mixedPieces [] freshConsole := by
  refine ⟨by decide, (printk_meaning_iff _ mixedMemory_shows
    ?_ [] freshConsole).mpr ⟨?_, by decide, ?_⟩⟩
  · simpa [mixedPieces, Piece.Valid] using mixedMemory_string
  · simp [mixedPieces, Piece.Nonneg, Int32.size]
  · simp [mixedPieces, Piece.Ends, UInt32.size]

end Ester
