/-
  ExchangePipeline/Proofs/Tree/Definitions.lean
  =============================================
  **What a definition reaches.**

  The listed way from a node to the root is compared with the parents themselves:
  `tree.LeadsTo d i` follows parents from `d` up to `i`, any number of them, and
  the list holds exactly what is met on the way (`WellFormed.mem_ancestry_iff`),
  with what comes before a node in the list strictly below it
  (`WellFormed.mem_before_iff`).

  A definition on a node counts at the nodes it is exposed to
  (`Tree.ExposedTo`): those whose way to the root leads over it, with no nearer
  definition of the name.  Exactly there the look-up changes when the definition is
  made, and nowhere else does anything change (`WellFormed.redefinedAt`).
-/
import ExchangePipeline.Proofs.Tree.Locks

namespace ExchangePipeline

theorem findSome?_congr {α β : Type} {f g : α → Option β} {l : List α}
    (h : ∀ a ∈ l, f a = g a) : l.findSome? f = l.findSome? g := by
  rw [← List.head?_filterMap, ← List.head?_filterMap, List.filterMap_congr h]

namespace Tree

variable {tree t : Tree} {d i n : NodeId} {m name : String} {q : Parameter}

/-! ### Following parents -/

/-- A node hangs right under another. -/
def HangsUnder (tree : Tree) (child parent : NodeId) : Prop :=
  ∃ node, tree.node? child = some node ∧ node.parent = some parent

/-- The parents lead from `d` to `i`: `i` is `d` itself or an ancestor of it. -/
def LeadsTo (tree : Tree) : NodeId → NodeId → Prop :=
  Relation.ReflTransGen tree.HangsUnder

theorem LeadsTo.le (h : tree.LeadsTo d i) (hw : tree.WellFormed) : i ≤ d := by
  induction h with
  | refl => exact Nat.le_refl d
  | tail _ hunder ih =>
    obtain ⟨node, hn, hp⟩ := hunder
    exact Nat.le_trans (Nat.le_of_lt (hw.parent_lt hn hp)) ih

/-- Where parents lead both ways there is one node only. -/
theorem LeadsTo.antisymm (h : tree.LeadsTo d i) (h' : tree.LeadsTo i d) (hw : tree.WellFormed) :
    d = i :=
  Nat.le_antisymm (h'.le hw) (h.le hw)

theorem WellFormed.exists_parent (hw : tree.WellFormed) {p : NodeId}
    (h : tree.HangsUnder d p) : ∃ above, tree.node? p = some above := by
  obtain ⟨node, hn, hp⟩ := h
  rcases hw.parent d node hn with ⟨-, -, hnone⟩ | ⟨p', above, hp', -, habove, -⟩
  · rw [hnone] at hp
    cases hp
  · rw [hp', Option.some.injEq] at hp
    exact ⟨above, hp ▸ habove⟩

theorem leadsTo_of_mem_upward {fuel : Nat} (h : i ∈ tree.upward fuel d) : tree.LeadsTo d i := by
  induction fuel generalizing d with
  | zero => cases h
  | succ fuel ih =>
    rw [upward] at h
    cases hn : tree.node? d with
    | none =>
      rw [hn] at h
      cases h
    | some node =>
      simp only [hn] at h
      cases hp : node.parent with
      | none =>
        simp only [hp, List.mem_singleton] at h
        exact h ▸ .refl
      | some p =>
        simp only [hp, List.mem_cons] at h
        rcases h with rfl | h
        · exact .refl
        · exact .head ⟨node, hn, hp⟩ (ih h)

theorem WellFormed.mem_ancestry_of_leadsTo (hw : tree.WellFormed) {node : Node}
    (hn : tree.node? d = some node) (h : tree.LeadsTo d i) : i ∈ tree.ancestry d := by
  induction h using Relation.ReflTransGen.head_induction_on generalizing node with
  | refl => exact self_mem_ancestry hn
  | head hunder _ ih =>
    obtain ⟨above, habove⟩ := hw.exists_parent hunder
    obtain ⟨node', hn', hp⟩ := hunder
    rw [hw.ancestry_of_parent hn' hp]
    exact List.mem_cons_of_mem _ (ih habove)

/-- **The listed way** from a node holds exactly what its parents lead to. -/
theorem WellFormed.mem_ancestry_iff (hw : tree.WellFormed) {node : Node}
    (hn : tree.node? d = some node) : i ∈ tree.ancestry d ↔ tree.LeadsTo d i :=
  ⟨leadsTo_of_mem_upward, hw.mem_ancestry_of_leadsTo hn⟩

/-- On the listed way, what comes before a node is what lies strictly below it. -/
theorem WellFormed.mem_before_iff (hw : tree.WellFormed) {below above : List NodeId}
    (hway : tree.ancestry d = below ++ n :: above) :
    i ∈ below ↔ tree.LeadsTo d i ∧ tree.LeadsTo i n ∧ i ≠ n := by
  obtain ⟨node, hn⟩ := @exists_node_of_mem_ancestry tree d n (by simp [hway])
  constructor
  · intro hi
    obtain ⟨before, between, rfl⟩ := List.append_of_mem hi
    have hwayi : tree.ancestry i = i :: (between ++ n :: above) :=
      hw.ancestry_of_split (by simpa using hway)
    refine ⟨leadsTo_of_mem_upward (show i ∈ tree.ancestry d by simp [hway]),
      leadsTo_of_mem_upward (show n ∈ tree.ancestry i by simp [hwayi]), ?_⟩
    -- a node that came twice would be its own proper ancestor
    rintro rfl
    have hself : tree.ancestry i = i :: above :=
      hw.ancestry_of_split (show tree.ancestry i = (i :: between) ++ i :: above from hwayi)
    have hlength := congrArg List.length (hself.symm.trans hwayi)
    simp only [List.length_cons, List.length_append] at hlength
    omega
  · rintro ⟨hdi, hin, hne⟩
    have hmem := hw.mem_ancestry_of_leadsTo hn hdi
    rw [hway, List.mem_append, List.mem_cons] at hmem
    rcases hmem with hbelow | rfl | habove
    · exact hbelow
    · exact absurd rfl hne
    · have hni : i ∈ tree.ancestry n := by
        rw [hw.ancestry_of_split hway]
        exact List.mem_cons_of_mem n habove
      exact absurd (hin.antisymm (leadsTo_of_mem_upward hni) hw) hne

/-! ### Where a name may be defined -/

/-- Among what the parents of `n` lead to, `owner` is the nearest that defines the name as
    locked. -/
structure NearestLock (tree : Tree) (n : NodeId) (name : String) (owner : NodeId) : Prop where
  way : tree.LeadsTo n owner
  locked : ∃ p, tree.ownParameter? owner name = some p ∧ p.locked = true
  nearest : ∀ i, tree.LeadsTo n i → tree.LeadsTo i owner → i ≠ owner →
    ∀ p, tree.ownParameter? i name = some p → p.locked = false

theorem locksAt_eq_false_iff :
    tree.locksAt name i = false ↔
      ∀ p, tree.ownParameter? i name = some p → p.locked = false := by
  rw [← Bool.not_eq_true, locksAt_iff]
  push Not
  simp only [Bool.not_eq_true]

theorem WellFormed.lockingNode?_eq_none_iff (hw : tree.WellFormed) {node : Node}
    (hn : tree.node? n = some node) :
    tree.lockingNode? n name = none ↔
      ∀ i, tree.LeadsTo n i → ∀ p, tree.ownParameter? i name = some p → p.locked = false := by
  rw [lockingNode?, List.find?_eq_none]
  simp only [hw.mem_ancestry_iff hn, Bool.not_eq_true, locksAt_eq_false_iff]

theorem LockedBy.nearestLock {below : List NodeId} {owner : NodeId} (hw : tree.WellFormed)
    (h : tree.LockedBy n name below owner) : tree.NearestLock n name owner := by
  obtain ⟨above, hway⟩ := h.way
  refine ⟨leadsTo_of_mem_upward (show owner ∈ tree.ancestry n by simp [hway]),
    locksAt_iff.1 h.locks, ?_⟩
  intro i hni hio hne
  exact locksAt_eq_false_iff.1 (h.nearest i ((hw.mem_before_iff hway).2 ⟨hni, hio, hne⟩))

/-- **A definition is accepted** on a node that is there, if nothing on the way from it to the root
    locks the name. -/
theorem WellFormed.addParameter_ok_iff (hw : tree.WellFormed) :
    (∃ t, tree.addParameter n q = .ok t) ↔
      (∃ node, tree.node? n = some node) ∧
        ∀ i, tree.LeadsTo n i → ∀ p, tree.ownParameter? i q.name = some p → p.locked = false := by
  constructor
  · rintro ⟨t, ht⟩
    obtain ⟨⟨node, hn⟩, hfree, -⟩ := addParameter_defines ht
    exact ⟨⟨node, hn⟩, (hw.lockingNode?_eq_none_iff hn).1 hfree⟩
  · rintro ⟨⟨node, hn⟩, hfree⟩
    rw [addParameter, hn]
    simp only [(hw.lockingNode?_eq_none_iff hn).2 hfree]
    exact ⟨_, rfl⟩

/-- **A definition is refused** because its node is not there, or because of the nearest lock. -/
theorem WellFormed.addParameter_error (hw : tree.WellFormed) {error : ConfigError}
    (h : tree.addParameter n q = .error error) :
    (tree.node? n = none ∧ error = .unknownNode n) ∨
      ∃ owner, tree.NearestLock n q.name owner ∧
        error = .lockedParameter q.name (tree.path n) (tree.path owner) := by
  rw [addParameter] at h
  cases hn : tree.node? n with
  | none =>
    rw [hn] at h
    cases h
    exact Or.inl ⟨rfl, rfl⟩
  | some node =>
    simp only [hn] at h
    cases howner : tree.lockingNode? n q.name with
    | none =>
      rw [howner] at h
      cases h
    | some owner =>
      rw [howner] at h
      cases h
      obtain ⟨below, hby⟩ := lockingNode?_eq_some_iff.1 howner
      exact Or.inr ⟨owner, hby.nearestLock hw, rfl⟩

/-! ### Where a definition counts -/

/-- What `n` defines under a name counts at `d`: the parents lead from `d` to `n`, and no node that
    is met before `n` defines the name. -/
structure ExposedTo (tree : Tree) (n : NodeId) (name : String) (d : NodeId) : Prop where
  way : tree.LeadsTo d n
  unhidden : ∀ i, tree.LeadsTo d i → tree.LeadsTo i n → i ≠ n → tree.ownParameter? i name = none

/-- A tree after `q` was defined on `n`, compared with the tree before. -/
structure RedefinedAt (tree : Tree) (n : NodeId) (q : Parameter) (t : Tree) : Prop where
  /-- Where it counts, the look-up gives the new definition. -/
  visible : ∀ d, tree.ExposedTo n q.name d → t.parameter? d q.name = some q
  /-- All other look-ups, of this name and of others, give what they gave. -/
  unaffected : ∀ d m, ¬ (m = q.name ∧ tree.ExposedTo n m d) → t.parameter? d m = tree.parameter? d m
  own : ∀ i m, t.ownParameter? i m =
    if i = n ∧ m = q.name then some q else tree.ownParameter? i m
  node : ∀ node, tree.node? n = some node →
    t.node? n = some { node with parameters := Dict.insert q.name q node.parameters }
  others : ∀ i, i ≠ n → t.node? i = tree.node? i
  children : t.children = tree.children

theorem WellFormed.parameter?_of_exposedTo (hw : tree.WellFormed)
    (ht : tree.addParameter n q = .ok t) (h : tree.ExposedTo n q.name d) :
    t.parameter? d q.name = some q := by
  obtain ⟨⟨node, hn⟩, -, hown⟩ := addParameter_defines ht
  have hd : ∃ node, tree.node? d = some node := by
    rcases Relation.ReflTransGen.cases_head h.way with rfl | ⟨p, ⟨node', hn', -⟩, -⟩
    · exact ⟨node, hn⟩
    · exact ⟨node', hn'⟩
  obtain ⟨node', hn'⟩ := hd
  obtain ⟨below, above, hway⟩ := List.append_of_mem ((hw.mem_ancestry_iff hn').2 h.way)
  have hbelow : (below.findSome? fun i => t.ownParameter? i q.name) = none := by
    rw [List.findSome?_eq_none_iff]
    intro i hi
    obtain ⟨hdi, hin, hne⟩ := (hw.mem_before_iff hway).1 hi
    rw [hown, if_neg fun heq => hne heq.1]
    exact h.unhidden i hdi hin hne
  rw [parameter?, (addParameter_ok ht).1.ancestry_eq d, hway, List.findSome?_append, hbelow,
    List.findSome?_cons, hown, if_pos ⟨rfl, rfl⟩]
  rfl

theorem WellFormed.parameter?_of_not_exposedTo (hw : tree.WellFormed)
    (ht : tree.addParameter n q = .ok t) (h : ¬ (m = q.name ∧ tree.ExposedTo n m d)) :
    t.parameter? d m = tree.parameter? d m := by
  obtain ⟨-, -, hown⟩ := addParameter_defines ht
  rw [parameter?, parameter?, (addParameter_ok ht).1.ancestry_eq d]
  by_cases hm : m = q.name ∧ n ∈ tree.ancestry d
  · obtain ⟨rfl, hmem⟩ := hm
    obtain ⟨below, above, hway⟩ := List.append_of_mem hmem
    have hsame : (below.findSome? fun i => t.ownParameter? i q.name) =
        below.findSome? fun i => tree.ownParameter? i q.name := by
      apply findSome?_congr
      intro i hi
      obtain ⟨-, -, hne⟩ := (hw.mem_before_iff hway).1 hi
      rw [hown, if_neg fun heq => hne heq.1]
    -- something nearer defines the name, or else the definition would count here
    have hhidden : ∃ i ∈ below, tree.ownParameter? i q.name ≠ none := by
      by_contra hno
      push Not at hno
      refine h ⟨rfl, leadsTo_of_mem_upward hmem, fun i hdi hin hne => ?_⟩
      exact hno i ((hw.mem_before_iff hway).2 ⟨hdi, hin, hne⟩)
    rw [hway, List.findSome?_append, List.findSome?_append, hsame]
    cases hbelow : below.findSome? fun i => tree.ownParameter? i q.name with
    | some nearer => rfl
    | none =>
      obtain ⟨i, hi, hdefined⟩ := hhidden
      exact absurd (List.findSome?_eq_none_iff.1 hbelow i hi) hdefined
  · apply findSome?_congr
    intro i hi
    rw [hown, if_neg]
    rintro ⟨rfl, rfl⟩
    exact hm ⟨rfl, hi⟩

/-- **What a definition does** to a tree, and to all look-ups in it. -/
theorem WellFormed.redefinedAt (hw : tree.WellFormed) (ht : tree.addParameter n q = .ok t) :
    tree.RedefinedAt n q t := by
  obtain ⟨⟨node, hn⟩, hfree, hown⟩ := addParameter_defines ht
  have hupdate : t = tree.updateNode n fun node =>
      { node with parameters := Dict.insert q.name q node.parameters } := by
    rw [addParameter, hn] at ht
    simp only [hfree, Except.ok.injEq] at ht
    exact ht.symm
  refine
    { visible := fun d => hw.parameter?_of_exposedTo ht
      unaffected := fun d m => hw.parameter?_of_not_exposedTo ht
      own := hown
      node := fun node' hn' => ?_
      others := fun i hi => ?_
      children := (addParameter_ok ht).1.children_eq }
  · rw [hupdate, node?_updateNode, if_pos rfl, hn']
    rfl
  · rw [hupdate, node?_updateNode, if_neg hi]

end Tree

end ExchangePipeline
