import Mathlib.Data.List.GetD
import Mathlib.Logic.Function.Basic

/-
  Listings into slots that are never cleared.

  A listing writes the names of a node's entries into slots,
  one after the other, without a terminator.  A name covers
  the beginning of a longer one that was there before, so the
  slot shows the name followed by the end of the longer one.
  A walk lists every node it comes to into the same slots and
  goes where the first slot that shows the next name of its
  path leads; it stops when that is nowhere, or the node it
  stands at.

  Key definitions include:
    * `overlay`, `after`, `shown`
    * `slotWalk`
    * `Arrives`

  Key theorems include:
    * `shown_empty`
    * `slotWalk_eq_iff`
    * `Arrives.map`
-/

------------------------------------------------------------
-- Slots
------------------------------------------------------------

namespace StaleSlots

section

variable {α ν : Type}

/- A name over the end of a longer one. -/
def overlay
    (name old : List α) : List α :=
  name ++ old.drop name.length

/- What each slot shows. -/
abbrev Slots (α : Type) : Type :=
  Nat → List α

/- Slots that show nothing. -/
def empty : Slots α :=
  fun _ => []

/- What the slots show after the entries were listed. -/
def after
    (old : Slots α)
    (es : List (List α × ν)) : Slots α :=
  fun j => overlay ((es[j]?.map Prod.fst).getD []) (old j)

/- The entries under the names that their slots show. -/
def shown
    (old : Slots α)
    (es : List (List α × ν)) : List (List α × ν) :=
  es.mapIdx fun j e => (overlay e.1 (old j), e.2)

@[simp] theorem overlay_nil_left
    (old : List α) :
    overlay [] old = old := by
  simp [overlay]

@[simp] theorem overlay_nil_right
    (name : List α) :
    overlay name [] = name := by
  simp [overlay]

/- An overlay is as long as the longer name. -/
theorem length_overlay
    (name old : List α) :
    (overlay name old).length =
      max name.length old.length := by
  unfold overlay
  rw [List.length_append, List.length_drop]
  omega

theorem mem_overlay
    {name old : List α}
    {x : α}
    (hMem : x ∈ overlay name old) :
    x ∈ name ∨ x ∈ old := by
  unfold overlay at hMem
  rcases List.mem_append.mp hMem with hName | hOld
  · exact .inl hName
  · exact .inr (List.mem_of_mem_drop hOld)

/- The letters of an overlay, with a default behind it. -/
theorem getD_overlay
    (name old : List α)
    (k : Nat)
    (d : α) :
    (overlay name old).getD k d =
      if k < name.length then name.getD k d
      else old.getD k d := by
  unfold overlay
  split
  · next hLt => rw [List.getD_append _ _ _ _ hLt]
  · next hLe =>
      have hLe := Nat.not_lt.mp hLe
      rw [List.getD_append_right _ _ _ _ hLe]
      simp only [List.getD_eq_getElem?_getD,
        List.getElem?_drop, Nat.add_sub_cancel' hLe]

@[simp] theorem after_nil
    (old : Slots α) :
    after old ([] : List (List α × ν)) = old := by
  funext j
  simp [after]

@[simp] theorem shown_nil
    (old : Slots α) :
    shown old ([] : List (List α × ν)) = [] := rfl

@[simp] theorem length_shown
    (old : Slots α)
    (es : List (List α × ν)) :
    (shown old es).length = es.length := by
  simp [shown]

theorem getElem_shown
    (old : Slots α)
    (es : List (List α × ν))
    {j : Nat}
    (hj : j < es.length)
    (hShown : j < (shown old es).length) :
    (shown old es)[j] = (after old es j, es[j].2) := by
  simp [shown, after, List.getElem?_eq_getElem hj]

/- In empty slots every entry shows its own name. -/
theorem shown_empty
    (es : List (List α × ν)) :
    shown empty es = es := by
  apply List.ext_getElem
  · simp
  · intro j hj hj'
    simp [shown, empty]

------------------------------------------------------------
-- Walks
------------------------------------------------------------

variable [DecidableEq α]

/- Where the first entry of a name leads. -/
def find
    (es : List (List α × ν))
    (name : List α) : Option ν :=
  (es.find? fun e => e.1 = name).map Prod.snd

/- What is found is the goal of an entry. -/
theorem mem_of_find
    {es : List (List α × ν)}
    {name : List α}
    {n : ν}
    (hFind : find es name = some n) :
    ∃ e ∈ es, e.1 = name ∧ e.2 = n := by
  rcases Option.map_eq_some_iff.mp hFind with ⟨e, hSome, hEq⟩
  exact ⟨e, List.mem_of_find?_eq_some hSome,
    by simpa using List.find?_some hSome, hEq⟩

/- A name that no entry has is not found. -/
theorem find_eq_none
    {es : List (List α × ν)}
    {name : List α}
    (hNone : ∀ e ∈ es, e.1 ≠ name) :
    find es name = none := by
  unfold find
  rw [Option.map_eq_none_iff, List.find?_eq_none]
  simpa using hNone

/- Listings under stale names lead to the same goals. -/
theorem mem_of_find_shown
    {old : Slots α}
    {es : List (List α × ν)}
    {name : List α}
    {n : ν}
    (hFind : find (shown old es) name = some n) :
    ∃ e ∈ es, e.2 = n := by
  rcases mem_of_find hFind with ⟨e, hMem, -, rfl⟩
  rcases List.getElem_of_mem hMem with ⟨j, hj, rfl⟩
  have hj' : j < es.length := by simpa using hj
  refine ⟨es[j], List.getElem_mem hj', ?_⟩
  rw [getElem_shown old es hj' hj]

variable [DecidableEq ν]
variable (entries : ν → List (List α × ν))

/- Follow a path, listing each node into the same slots. -/
def slotWalk : Slots α → ν → List (List α) → ν
  | _, n, [] => n
  | old, n, c :: cs =>
      let next := (find (shown old (entries n)) c).getD n
      if next = n then n
      else slotWalk (after old (entries n)) next cs

/-
  The walk comes to `m`: from each node before, the next name
  of the path is first shown by a slot that leads on.
-/
inductive Arrives
    (m : ν) : Slots α → ν → List (List α) → Prop
  | here
      {old : Slots α}
      {cs : List (List α)} :
      Arrives m old m cs
  | step
      {old : Slots α}
      {n k : ν}
      {c : List α}
      {cs : List (List α)}
      (hFind : find (shown old (entries n)) c = some k)
      (hMoves : k ≠ n)
      (hRest : Arrives m (after old (entries n)) k cs) :
      Arrives m old n (c :: cs)

variable {entries}

theorem slotWalk_of_find
    {old : Slots α}
    {n k : ν}
    {c : List α}
    (cs : List (List α))
    (hFind : find (shown old (entries n)) c = some k)
    (hMoves : k ≠ n) :
    slotWalk entries old n (c :: cs) =
      slotWalk entries (after old (entries n)) k cs := by
  simp [slotWalk, hFind, hMoves]

/- A node without entries is the end of a walk. -/
theorem slotWalk_of_nil
    {m : ν}
    (hLeaf : entries m = [])
    (old : Slots α)
    (cs : List (List α)) :
    slotWalk entries old m cs = m := by
  cases cs with
  | nil => rfl
  | cons c cs => simp [slotWalk, hLeaf, find]

/- A walk ends at a node without entries if it arrives. -/
theorem slotWalk_eq_iff
    {m : ν}
    (hLeaf : entries m = [])
    {old : Slots α}
    {n : ν}
    (hStart : n ≠ m)
    (cs : List (List α)) :
    slotWalk entries old n cs = m ↔
      Arrives entries m old n cs := by
  constructor
  · intro hWalk
    induction cs generalizing old n with
    | nil => exact absurd hWalk hStart
    | cons c cs ih =>
        cases hFind : find (shown old (entries n)) c with
        | none =>
            simp only [slotWalk, hFind, Option.getD_none,
              if_true] at hWalk
            exact absurd hWalk hStart
        | some k =>
            by_cases hMoves : k = n
            · simp only [slotWalk, hFind, Option.getD_some,
                if_pos hMoves] at hWalk
              exact absurd hWalk hStart
            · rw [slotWalk_of_find cs hFind hMoves] at hWalk
              by_cases hEnd : k = m
              · subst hEnd
                exact .step hFind hMoves .here
              · exact .step hFind hMoves (ih hEnd hWalk)
  · intro hArrives
    clear hStart
    induction hArrives with
    | here => exact slotWalk_of_nil hLeaf _ _
    | step hFind hMoves _ ih =>
        rw [slotWalk_of_find _ hFind hMoves, ih]

------------------------------------------------------------
-- Renaming Nodes
------------------------------------------------------------

section

variable {μ : Type} (f : ν → μ)

omit [DecidableEq α] [DecidableEq ν] in
theorem after_map
    (old : Slots α)
    (es : List (List α × ν)) :
    after old (es.map (Prod.map id f)) = after old es := by
  funext j
  simp [after, List.getElem?_map, Option.map_map,
    Function.comp_def]

omit [DecidableEq ν] in
theorem find_shown_map
    (old : Slots α)
    (es : List (List α × ν))
    (c : List α) :
    find (shown old (es.map (Prod.map id f))) c =
      (find (shown old es) c).map f := by
  have hShown : shown old (es.map (Prod.map id f)) =
      (shown old es).map (Prod.map id f) := by
    apply List.ext_getElem
    · simp
    · intro j hj hj'
      simp [shown]
  rw [hShown, find, find, List.find?_map, Option.map_map,
    Option.map_map]
  rfl

omit [DecidableEq ν] in
/- Arriving does not depend on what the nodes are called. -/
theorem Arrives.map
    (hInj : Function.Injective f)
    {entries' : μ → List (List α × μ)}
    (hMap : ∀ n, entries' (f n) =
      (entries n).map (Prod.map id f))
    {m : ν}
    {old : Slots α}
    {n : ν}
    {cs : List (List α)}
    (h : Arrives entries m old n cs) :
    Arrives entries' (f m) old (f n) cs := by
  induction h with
  | here => exact .here
  | @step old n k c cs hFind hMoves _ ih =>
      rw [← after_map f, ← hMap] at ih
      refine .step ?_ (fun hEq => hMoves (hInj hEq)) ih
      rw [hMap, find_shown_map, hFind, Option.map_some]

end

end

end StaleSlots
