import Mathlib.Data.List.Nodup

/-
  Depth-first listings of a forest that is given by its
  nodes.

  A node has a list of members, and a member may lead down
  to a further node.  The depth-first order of a node lists
  its members in turn, each right after the order of the
  node it leads down to.  When the rank grows on every way
  down, the order exists; when no two members lead to the
  same node, it lists no member twice.  The orders of
  several roots, one after the other, repeat a member as
  soon as a later root lies below an earlier one.

  Key definitions include:
    * `DepthFirst`
    * `Below`
    * `rootOrders`

  Key theorems include:
    * `exists_depthFirst`
    * `DepthFirst.mem_iff`
    * `DepthFirst.nodup`
    * `DepthFirst.nodup_take_roots`
-/

section DepthFirst

variable {α β : Type}
variable (members : β → List α)
variable (down : α → Option β)

------------------------------------------------------------
-- The Order
------------------------------------------------------------

/- What the order lists for one member. -/
def withBehind
    (order : β → List α)
    (f : α) : List α :=
  (match down f with
    | none => []
    | some c => order c) ++ [f]

/- Members in turn, each after what lies behind it. -/
def DepthFirst
    (order : β → List α) : Prop :=
  ∀ b, order b = (members b).flatMap (withBehind down order)

/- The order down to a depth. -/
def listing : Nat → β → List α
  | 0, _ => []
  | n + 1, b => (members b).flatMap (withBehind down (listing n))

/- The nodes that can be reached from a node. -/
inductive Below (b : β) : β → Prop
  | refl : Below b b
  | snoc
      {c d : β}
      {f : α}
      (hBelow : Below b c)
      (hMember : f ∈ members c)
      (hDown : down f = some d) :
      Below b d

/- The orders of the first roots, one after the other. -/
def rootOrders
    (order : β → List α)
    (root : Nat → β)
    (k : Nat) : List α :=
  (List.range k).flatMap fun i => order (root i)

variable {members : β → List α}
variable {down : α → Option β}
variable {rank : β → Nat}

/- What is listed for a member: itself, and what is behind. -/
theorem mem_withBehind
    {order : β → List α}
    {f h : α} :
    h ∈ withBehind down order f ↔
      (∃ c, down f = some c ∧ h ∈ order c) ∨ h = f := by
  rw [withBehind, List.mem_append, List.mem_singleton]
  cases hDown : down f with
  | none => simp
  | some c => simp

/- Two orders that agree on the nodes below a list agree. -/
theorem flatMap_withBehind_congr
    {order order' : β → List α}
    {fs : List α}
    (hSame : ∀ f ∈ fs, ∀ c, down f = some c →
      order c = order' c) :
    fs.flatMap (withBehind down order) =
      fs.flatMap (withBehind down order') := by
  apply List.flatMap_congr
  intro f hf
  simp only [withBehind]
  cases hDown : down f with
  | none => rfl
  | some c => simp only [hSame f hf c hDown]

section Ranked

variable (hRank : ∀ b, ∀ f ∈ members b, ∀ c,
  down f = some c → rank b < rank c)

include hRank

/- A deep enough listing does not change any more. -/
theorem listing_succ
    {bound : Nat}
    (n : Nat) :
    ∀ b, (∀ c, rank c < bound) → bound ≤ n + rank b →
      listing members down (n + 1) b =
        listing members down n b := by
  induction n with
  | zero =>
      intro b hBound hDeep
      have hb := hBound b
      omega
  | succ n ih =>
      intro b hBound hDeep
      apply flatMap_withBehind_congr
      intro f hf c hDown
      have hc := hRank b f hf c hDown
      exact ih c hBound (by omega)

/- With ranks below a bound the order exists. -/
theorem exists_depthFirst
    (bound : Nat)
    (hBound : ∀ b, rank b < bound) :
    ∃ order, DepthFirst members down order := by
  refine ⟨listing members down bound, ?_⟩
  intro b
  rw [← listing_succ hRank bound b hBound (by omega)]
  rfl

/- The rank does not fall on the way down. -/
theorem Below.rank_le
    {b c : β}
    (hBelow : Below members down b c) :
    rank b ≤ rank c := by
  induction hBelow with
  | refl => exact Nat.le_refl _
  | snoc _ hMember hDown ih =>
      exact Nat.le_of_lt
        (Nat.lt_of_le_of_lt ih (hRank _ _ hMember _ hDown))

omit hRank in
/- A way down after a first step. -/
theorem Below.cons
    {b c d : β}
    {f : α}
    (hMember : f ∈ members b)
    (hDown : down f = some c)
    (hBelow : Below members down c d) :
    Below members down b d := by
  induction hBelow with
  | refl => exact .snoc .refl hMember hDown
  | snoc _ hLast hLastDown ih => exact .snoc ih hLast hLastDown

omit hRank in
/- A way down stops at once or takes a first step. -/
theorem Below.cases_head
    {b d : β}
    (hBelow : Below members down b d) :
    b = d ∨ ∃ f ∈ members b, ∃ c, down f = some c ∧
      Below members down c d := by
  induction hBelow with
  | refl => exact .inl rfl
  | snoc _ hMember hDown ih =>
      right
      rcases ih with rfl | ⟨g, hg, e, hFirst, hRest⟩
      · exact ⟨_, hMember, _, hDown, .refl⟩
      · exact ⟨g, hg, e, hFirst, .snoc hRest hMember hDown⟩

omit hRank in
theorem Below.trans
    {b c d : β}
    (hUpper : Below members down b c)
    (hLower : Below members down c d) :
    Below members down b d := by
  induction hLower with
  | refl => exact hUpper
  | snoc _ hMember hDown ih => exact .snoc ih hMember hDown

/- The order lists exactly the members that can be reached. -/
theorem DepthFirst.mem_iff
    {order : β → List α}
    (hOrder : DepthFirst members down order)
    {bound : Nat}
    (hBound : ∀ b, rank b < bound)
    {b : β}
    {f : α} :
    f ∈ order b ↔
      ∃ c, Below members down b c ∧ f ∈ members c := by
  obtain ⟨k, hk⟩ : ∃ k, k = bound - rank b := ⟨_, rfl⟩
  induction k using Nat.strongRecOn generalizing b with
  | ind k ih =>
      rw [hOrder b, List.mem_flatMap]
      constructor
      · rintro ⟨g, hg, hf⟩
        rcases mem_withBehind.mp hf with ⟨c, hDown, hBehind⟩ | rfl
        · have hc := hRank b g hg c hDown
          have hb := hBound c
          rcases (ih (bound - rank c) (by omega) rfl).mp
              hBehind with ⟨d, hBelow, hMember⟩
          exact ⟨d, .cons hg hDown hBelow, hMember⟩
        · exact ⟨b, .refl, hg⟩
      · rintro ⟨d, hBelow, hMember⟩
        rcases hBelow.cases_head with rfl | ⟨g, hg, c, hDown, hRest⟩
        · exact ⟨f, hMember, mem_withBehind.mpr (.inr rfl)⟩
        · have hc := hRank b g hg c hDown
          have hb := hBound c
          exact ⟨g, hg, mem_withBehind.mpr (.inl ⟨c, hDown,
            (ih (bound - rank c) (by omega) rfl).mpr
              ⟨d, hRest, hMember⟩⟩)⟩

/- What is listed behind a member lies deeper than it. -/
theorem DepthFirst.behind_deeper
    {order : β → List α}
    (hOrder : DepthFirst members down order)
    {bound : Nat}
    (hBound : ∀ b, rank b < bound)
    {b c : β}
    {f h : α}
    (hf : f ∈ members b)
    (hDown : down f = some c)
    (hBehind : h ∈ order c) :
    ∃ d, Below members down c d ∧ h ∈ members d ∧
      rank b < rank d := by
  rcases (hOrder.mem_iff hRank hBound).mp hBehind with
    ⟨d, hBelow, hMember⟩
  have hLe := Below.rank_le hRank hBelow
  have hLt := hRank b f hf c hDown
  exact ⟨d, hBelow, hMember, by omega⟩

section Unique

variable (hNode : ∀ b c, ∀ f ∈ members b, f ∈ members c → b = c)
variable (hParent : ∀ b c, ∀ f ∈ members b, ∀ g ∈ members c,
  ∀ d, down f = some d → down g = some d → f = g)

include hNode hParent

omit hRank in
/- Nodes above the same node lie above one another. -/
theorem Below.total
    {a b d : β}
    (hA : Below members down a d)
    (hB : Below members down b d) :
    Below members down a b ∨ Below members down b a := by
  induction hA with
  | refl => exact .inr hB
  | @snoc c d f hAbove hMember hDown ih =>
      cases hB with
      | refl => exact .inl (.snoc hAbove hMember hDown)
      | @snoc c' _ f' hAbove' hMember' hDown' =>
          have hSame := hParent c c' f hMember f' hMember' d
            hDown hDown'
          subst hSame
          have hNodes := hNode c c' f hMember hMember'
          subst hNodes
          exact ih hAbove'

/- Members of one node lead to separate trees. -/
theorem eq_of_below
    {b d e x : β}
    {f g : α}
    (hf : f ∈ members b)
    (hg : g ∈ members b)
    (hFirst : down f = some d)
    (hSecond : down g = some e)
    (hD : Below members down d x)
    (hE : Below members down e x) :
    f = g := by
  -- a way from `d` to `e` would end with a step from `b`
  have hStep : ∀ {d e : β} {f g : α}, f ∈ members b →
      g ∈ members b → down f = some d → down g = some e →
      Below members down d e → f = g := by
    intro d e f g hf hg hFirst hSecond hBelow
    cases hBelow with
    | refl => exact hParent b b f hf g hg _ hFirst hSecond
    | @snoc c _ h hAbove hMember hDown =>
        have hSame := hParent c b h hMember g hg e hDown hSecond
        subst hSame
        have hNodes := hNode c b h hMember hg
        subst hNodes
        have hLt := hRank c f hf d hFirst
        have hLe := Below.rank_le hRank hAbove
        omega
  rcases Below.total hNode hParent hD hE with hDE | hED
  · exact hStep hf hg hFirst hSecond hDE
  · exact (hStep hg hf hSecond hFirst hED).symm

section Order

variable {order : β → List α}
variable (hOrder : DepthFirst members down order)
variable {bound : Nat}
variable (hBound : ∀ b, rank b < bound)

include hOrder hBound

omit hParent in
/- A member of a node is not listed behind another. -/
theorem DepthFirst.not_mem_behind
    {b c : β}
    {f h : α}
    (hf : f ∈ members b)
    (hDown : down f = some c)
    (hh : h ∈ members b) :
    h ∉ order c := by
  intro hBehind
  rcases hOrder.behind_deeper hRank hBound hf hDown hBehind with
    ⟨d, -, hMember, hLt⟩
  have hSame := hNode b d h hh hMember
  subst hSame
  omega

/- Two members of a node have nothing behind them in common. -/
theorem DepthFirst.disjoint_withBehind
    {b : β}
    {f g : α}
    (hf : f ∈ members b)
    (hg : g ∈ members b)
    (hNe : f ≠ g) :
    (withBehind down order f).Disjoint
      (withBehind down order g) := by
  intro h hhf hhg
  apply hNe
  rcases mem_withBehind.mp hhf with ⟨c, hDown, hBehind⟩ | rfl
  · rcases mem_withBehind.mp hhg with ⟨c', hDown', hBehind'⟩ | rfl
    · rcases hOrder.behind_deeper hRank hBound hf hDown hBehind
        with ⟨d, hBelow, hMember, -⟩
      rcases hOrder.behind_deeper hRank hBound hg hDown' hBehind'
        with ⟨d', hBelow', hMember', -⟩
      have hSame := hNode d d' h hMember hMember'
      subst hSame
      exact eq_of_below hRank hNode hParent hf hg hDown hDown'
        hBelow hBelow'
    · exact (hOrder.not_mem_behind hRank hNode hBound hf hDown hg
        hBehind).elim
  · rcases mem_withBehind.mp hhg with ⟨c, hDown, hBehind⟩ | rfl
    · exact (hOrder.not_mem_behind hRank hNode hBound hg hDown hf
        hBehind).elim
    · rfl

/- The order lists no member twice. -/
theorem DepthFirst.nodup
    (hNodup : ∀ b, (members b).Nodup)
    (b : β) :
    (order b).Nodup := by
  obtain ⟨k, hk⟩ : ∃ k, k = bound - rank b := ⟨_, rfl⟩
  induction k using Nat.strongRecOn generalizing b with
  | ind k ih =>
      rw [hOrder b, List.nodup_flatMap]
      constructor
      · intro f hf
        rw [withBehind]
        cases hDown : down f with
        | none => simp
        | some c =>
            have hc := hRank b f hf c hDown
            have hb := hBound c
            exact (ih (bound - rank c) (by omega) c rfl).append
              (List.nodup_singleton f)
              (List.disjoint_singleton.mpr
                (hOrder.not_mem_behind hRank hNode hBound hf
                  hDown hf))
      · apply (hNodup b).imp_of_mem
        intro f g hf hg hNe
        exact hOrder.disjoint_withBehind hRank hNode hParent
          hBound hf hg hNe

------------------------------------------------------------
-- Several Roots
------------------------------------------------------------

omit hRank hNode hParent hOrder hBound in
theorem rootOrders_succ
    (order : β → List α)
    (root : Nat → β)
    (k : Nat) :
    rootOrders order root (k + 1) =
      rootOrders order root k ++ order (root k) := by
  rw [rootOrders, List.range_succ, List.flatMap_append,
    List.flatMap_singleton]
  rfl

omit hNode hParent in
/- What lies below a root also lies below the roots above. -/
theorem DepthFirst.order_subset
    {b c : β}
    (hBelow : Below members down b c) :
    order c ⊆ order b := by
  intro f hf
  rw [hOrder.mem_iff hRank hBound] at hf ⊢
  rcases hf with ⟨d, hDeeper, hMember⟩
  exact ⟨d, hBelow.trans hDeeper, hMember⟩

/- Roots whose orders share a member lie below one another. -/
theorem DepthFirst.below_of_shared
    {b c : β}
    {f : α}
    (hB : f ∈ order b)
    (hC : f ∈ order c)
    (hLt : rank b < rank c) :
    Below members down b c := by
  rw [hOrder.mem_iff hRank hBound] at hB hC
  rcases hB with ⟨d, hAboveD, hMember⟩
  rcases hC with ⟨e, hAboveE, hMember'⟩
  have hSame := hNode d e f hMember hMember'
  subst hSame
  rcases Below.total hNode hParent hAboveD hAboveE with hBC | hCB
  · exact hBC
  · have hLe := Below.rank_le hRank hCB
    omega

variable {root : Nat → β}
variable {k : Nat}

omit hNode hParent in
/- With room left, the order of a root below repeats members. -/
theorem DepthFirst.shared_of_below
    {n i : Nat}
    (hi : i < k)
    (hBelow : Below members down (root i) (root k))
    (hSome : order (root k) ≠ [])
    (hRoom : (rootOrders order root k).length < n) :
    ¬ (List.take n (rootOrders order root k)).Disjoint
      ((order (root k)).take
        (n - (rootOrders order root k).length)) := by
  intro hDisjoint
  rcases List.exists_cons_of_ne_nil hSome with ⟨f, rest, hCons⟩
  have hAbove : f ∈ order (root i) := by
    apply hOrder.order_subset hRank hBound hBelow
    rw [hCons]
    exact List.mem_cons_self
  apply @hDisjoint f
  · rw [List.take_of_length_le (by omega), rootOrders,
      List.mem_flatMap]
    exact ⟨i, List.mem_range.mpr hi, hAbove⟩
  · obtain ⟨m, hm⟩ : ∃ m,
        n - (rootOrders order root k).length = m + 1 :=
      ⟨_, (Nat.succ_pred_eq_of_pos (by omega)).symm⟩
    rw [hCons, hm, List.take_succ_cons]
    exact List.mem_cons_self

/- The new order meets the earlier ones from above only. -/
theorem DepthFirst.disjoint_last_iff
    (hAscending : ∀ i < k, rank (root i) < rank (root k))
    (n : Nat) :
    (List.take n (rootOrders order root k)).Disjoint
        ((order (root k)).take
          (n - (rootOrders order root k).length)) ↔
      ∀ i < k, Below members down (root i) (root k) →
        order (root k) = [] ∨
          n ≤ (rootOrders order root k).length := by
  constructor
  · intro hDisjoint i hi hBelow
    by_contra hBoth
    rw [not_or, Nat.not_le] at hBoth
    exact hOrder.shared_of_below hRank hBound hi hBelow hBoth.1
      hBoth.2 hDisjoint
  · intro hApart f hf hLastOrder
    have hShort : (rootOrders order root k).length < n := by
      by_contra hFull
      rw [Nat.sub_eq_zero_of_le (by omega),
        List.take_zero] at hLastOrder
      cases hLastOrder
    have hf := List.mem_of_mem_take hf
    have hLastOrder := List.mem_of_mem_take hLastOrder
    rw [rootOrders, List.mem_flatMap] at hf
    rcases hf with ⟨i, hi, hf⟩
    rw [List.mem_range] at hi
    have hBelow := hOrder.below_of_shared hRank hNode hParent
      hBound hf hLastOrder (hAscending i hi)
    rcases hApart i hi hBelow with hNil | hFull
    · rw [hNil] at hLastOrder
      cases hLastOrder
    · omega

/-
  The start of the orders of ascending roots lists a member
  twice just when it reaches into the order of a root below
  an earlier one.
-/
theorem DepthFirst.nodup_take_roots
    (hNodup : ∀ b, (members b).Nodup)
    (hAscending : ∀ j < k, ∀ i < j,
      rank (root i) < rank (root j))
    (n : Nat) :
    ((rootOrders order root k).take n).Nodup ↔
      ∀ j < k, ∀ i < j, Below members down (root i) (root j) →
        order (root j) = [] ∨
          n ≤ (rootOrders order root j).length := by
  induction k with
  | zero => simp [rootOrders]
  | succ k ih =>
      have hFirst := ih fun j hj => hAscending j (by omega)
      have hOne := hOrder.nodup hRank hNode hParent hBound hNodup
        (root k)
      have hLast := hOrder.disjoint_last_iff hRank hNode hParent
        hBound (hAscending k (Nat.lt_succ_self k)) n
      rw [rootOrders_succ, List.take_append, List.nodup_append',
        hFirst, hLast]
      constructor
      · rintro ⟨hEarlier, -, hNew⟩ j hj
        rcases Nat.lt_succ_iff_lt_or_eq.mp hj with hj | rfl
        · exact hEarlier j hj
        · exact hNew
      · intro hAll
        exact ⟨fun j hj => hAll j (by omega),
          hOne.sublist (List.take_sublist _ _),
          hAll k (by omega)⟩

end Order

end Unique

end Ranked

end DepthFirst
