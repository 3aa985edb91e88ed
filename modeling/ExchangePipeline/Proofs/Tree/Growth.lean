/-
  ExchangePipeline/Proofs/Tree/Growth.lean
  ========================================
  **How trees grow.**

  A tree changes in steps: a node is added, a parameter is defined, an engagement
  begins or ends.  No step moves a node, so the way from a node to the root stays
  what it was (`Step.ancestry_eq`), and the only definitions that a step can touch
  are those of one name on one node, where nothing locks it (`Step.definitions`).
-/
import ExchangePipeline.Proofs.Tree.Changes
import Mathlib.Logic.Relation

namespace ExchangePipeline

namespace Tree

variable {tree a b : Tree}

/-! ### What a definition touches -/

/-- A node locks a name exactly if it defines it as locked. -/
theorem locksAt_iff {name : String} {id : NodeId} :
    tree.locksAt name id = true ↔
      ∃ parameter, tree.ownParameter? id name = some parameter ∧ parameter.locked = true := by
  rw [locksAt, ownParameter?]
  cases hn : tree.node? id with
  | none => simp
  | some node =>
    rw [Option.bind_some]
    dsimp only
    rw [Node.locks]
    cases Dict.find? name node.parameters with
    | none => simp
    | some parameter => simp

theorem locksAt_congr {name : String} {id : NodeId}
    (h : b.ownParameter? id name = a.ownParameter? id name) :
    b.locksAt name id = a.locksAt name id := by
  rw [Bool.eq_iff_iff, locksAt_iff, locksAt_iff, h]

theorem exists_node_of_ownParameter? {name : String} {id : NodeId} {parameter : Parameter}
    (h : tree.ownParameter? id name = some parameter) : ∃ node, tree.node? id = some node := by
  obtain ⟨node, hn, -⟩ := Option.bind_eq_some_iff.1 h
  exact ⟨node, hn⟩

/-- A definition is accepted where no lock stands in the way, and is then what the node defines
    under that name. -/
theorem addParameter_defines {id : NodeId} {parameter : Parameter}
    (h : a.addParameter id parameter = .ok b) :
    (∃ node, a.node? id = some node) ∧ a.lockingNode? id parameter.name = none ∧
      ∀ i name, b.ownParameter? i name =
        if i = id ∧ name = parameter.name then some parameter else a.ownParameter? i name := by
  unfold addParameter at h
  cases hn : a.node? id with
  | none =>
    rw [hn] at h
    cases h
  | some node =>
    simp only [hn] at h
    cases hl : a.lockingNode? id parameter.name with
    | some owner =>
      rw [hl] at h
      cases h
    | none =>
      simp only [hl, Except.ok.injEq] at h
      subst h
      refine ⟨⟨node, rfl⟩, rfl, ?_⟩
      intro i name
      rw [ownParameter?, ownParameter?, node?_updateNode]
      by_cases hi : i = id
      · subst hi
        simp [hn, Dict.find?_insert]
      · simp [hi]

/-- A new node defines nothing, and the others keep what they define. -/
theorem ownParameter?_attach {parent id : NodeId} {kind : NodeKind} {name : String}
    (h : a.attach parent kind name = .ok (id, b)) (i : NodeId) (other : String) :
    b.ownParameter? i other = a.ownParameter? i other := by
  obtain ⟨hid, -, hnode, -⟩ := attach_ok h
  rw [ownParameter?, ownParameter?, hnode]
  by_cases hi : i = id
  · have hfree : a.node? id = none := hid ▸ List.getElem?_eq_none (Nat.le_refl _)
    rw [if_pos hi, hi, hfree]
    rfl
  · rw [if_neg hi]

theorem ownParameter?_setEngaged (id : NodeId) (g : List String → List String) (i : NodeId)
    (name : String) : (tree.setEngaged id g).ownParameter? i name = tree.ownParameter? i name := by
  rw [ownParameter?, ownParameter?, setEngaged, node?_updateNode]
  by_cases hi : i = id
  · subst hi
    cases tree.node? i <;> simp
  · rw [if_neg hi]

/-! ### Steps -/

/-- One change of a tree. -/
inductive Step : Tree → Tree → Prop
  | addModule {a b : Tree} {name : String} {id : NodeId}
      (accepted : a.addModule name = .ok (id, b)) : Step a b
  | addService {a b : Tree} {name : String} {id : NodeId}
      (accepted : a.addService name = .ok (id, b)) : Step a b
  | addTransport {a b : Tree} {name : String} {id : NodeId}
      (accepted : a.addTransport name = .ok (id, b)) : Step a b
  | addOperation {a b : Tree} {service name : String} {id : NodeId}
      (accepted : a.addOperation service name = .ok (id, b)) : Step a b
  | addParameter {a b : Tree} {id : NodeId} {parameter : Parameter}
      (accepted : a.addParameter id parameter = .ok b) : Step a b
  | engage {a b : Tree} {id : NodeId} {module : String} {added : Bool}
      (accepted : a.engage id module = .ok (added, b)) : Step a b
  | disengage {a b : Tree} {id : NodeId} {module : String} {removed : Bool}
      (accepted : a.disengage id module = .ok (removed, b)) : Step a b

/-- The moments in the life of a tree. -/
def Later : Tree → Tree → Prop :=
  Relation.ReflTransGen Step

/-- The trees that come from the root alone.  Operations that fail leave a tree as it is. -/
def Reachable (tree : Tree) : Prop :=
  Later .empty tree

/-- **What a step is**: a new node under one of the right kind, a definition, or other
    engagements at a node, each module once. -/
theorem Step.forms (hw : a.WellFormed) (hs : Step a b) :
    (∃ parent kind name id above, a.attach parent kind name = .ok (id, b) ∧
      a.node? parent = some above ∧ kind.parentKind? = some above.kind) ∨
    (∃ id parameter, a.addParameter id parameter = .ok b) ∨
    b = a ∨
    ∃ id node g, a.node? id = some node ∧ (g node.engaged).Nodup ∧ b = a.setEngaged id g := by
  obtain ⟨root, hroot, hkind⟩ := hw.root_kind
  cases hs with
  | addModule h => exact Or.inl ⟨_, _, _, _, root, h, hroot, by rw [hkind]; rfl⟩
  | addService h => exact Or.inl ⟨_, _, _, _, root, h, hroot, by rw [hkind]; rfl⟩
  | addTransport h => exact Or.inl ⟨_, _, _, _, root, h, hroot, by rw [hkind]; rfl⟩
  | addOperation h =>
    obtain ⟨parent, hp, ha⟩ := addOperation_ok h
    obtain ⟨above, habove, hservice, -⟩ := hw.service?_eq_some_iff.1 hp
    exact Or.inl ⟨_, _, _, _, above, ha, habove, by rw [hservice]; rfl⟩
  | addParameter h => exact Or.inr (Or.inl ⟨_, _, h⟩)
  | engage h =>
    obtain ⟨node, hn, ⟨-, -, rfl⟩ | ⟨-, hnew, rfl⟩⟩ := engage_ok h
    · exact Or.inr (Or.inr (Or.inl rfl))
    · refine Or.inr (Or.inr (Or.inr ⟨_, node, _, hn, ?_, rfl⟩))
      exact (hw.engaged_nodup _ node hn).append (List.nodup_singleton _)
        (List.disjoint_singleton.2 hnew)
  | disengage h =>
    obtain ⟨node, hn, ⟨-, -, rfl⟩ | ⟨-, -, rfl⟩⟩ := disengage_ok h
    · exact Or.inr (Or.inr (Or.inl rfl))
    · refine Or.inr (Or.inr (Or.inr ⟨_, node, _, hn, ?_, rfl⟩))
      exact (hw.engaged_nodup _ node hn).filter _

/-- Steps keep a tree well-formed. -/
theorem WellFormed.step (hw : a.WellFormed) (hs : Step a b) : b.WellFormed := by
  rcases hs.forms hw with ⟨_, _, _, _, above, ha, hp, hk⟩ | ⟨id, parameter, h⟩ | rfl |
    ⟨id, node, g, hn, hnodup, rfl⟩
  · exact hw.attach ha hp hk
  · obtain ⟨hshape, hengaged⟩ := addParameter_ok h
    apply hw.of_sameShape hshape
    intro i node hn
    have hsame := hengaged i
    rw [hn, Option.map_some] at hsame
    obtain ⟨old, hold, heq⟩ := Option.map_eq_some_iff.1 hsame.symm
    exact heq ▸ hw.engaged_nodup i old hold
  · exact hw
  · apply hw.setEngaged
    intro node' hn'
    rw [hn, Option.some.injEq] at hn'
    exact hn' ▸ hnodup

theorem WellFormed.later (hw : a.WellFormed) (h : Later a b) : b.WellFormed := by
  induction h with
  | refl => exact hw
  | tail _ hs ih => exact ih.step hs

theorem Reachable.wellFormed (h : Reachable tree) : tree.WellFormed :=
  wellFormed_empty.later h

/-- **A step touches the definitions** of one name on one node at most, and that only where no
    lock on the name is in sight. -/
theorem Step.definitions (hw : a.WellFormed) (hs : Step a b) :
    (∀ i name, b.ownParameter? i name = a.ownParameter? i name) ∨
    ∃ id parameter, (∃ node, a.node? id = some node) ∧
      a.lockingNode? id parameter.name = none ∧
      ∀ i name, b.ownParameter? i name =
        if i = id ∧ name = parameter.name then some parameter else a.ownParameter? i name := by
  rcases hs.forms hw with ⟨_, _, _, _, above, ha, -⟩ | ⟨id, parameter, h⟩ | rfl |
    ⟨id, node, g, -, -, rfl⟩
  · exact Or.inl (ownParameter?_attach ha)
  · exact Or.inr ⟨id, parameter, addParameter_defines h⟩
  · exact Or.inl fun _ _ => rfl
  · exact Or.inl (ownParameter?_setEngaged id g)

/-- **A step moves no node**: the way to the root stays what it was. -/
theorem Step.ancestry_eq (hw : a.WellFormed) (hs : Step a b) {id : NodeId} {node : Node}
    (hn : a.node? id = some node) : b.ancestry id = a.ancestry id := by
  rcases hs.forms hw with ⟨_, _, _, new, above, ha, -⟩ | ⟨_, _, h⟩ | rfl | ⟨i, _, g, -, -, rfl⟩
  · obtain ⟨hnew, -, hnode, -⟩ := attach_ok ha
    apply hw.ancestry_congr
    intro j hj
    rw [hnode, if_neg]
    exact Nat.ne_of_lt (hnew ▸ Nat.lt_of_le_of_lt hj (node?_lt hn))
  · exact (addParameter_ok h).1.ancestry_eq id
  · rfl
  · exact (sameShape_setEngaged a i g).ancestry_eq id

/-! ### Along the way to the root -/

/-- A number with a way to the root is that of a node. -/
theorem exists_node_of_mem_ancestry {id i : NodeId} (h : i ∈ tree.ancestry id) :
    ∃ node, tree.node? id = some node := by
  rw [ancestry, upward] at h
  cases hn : tree.node? id with
  | none =>
    rw [hn] at h
    cases h
  | some node => exact ⟨node, rfl⟩

/-- The way from a node begins with it. -/
theorem self_mem_ancestry {id : NodeId} {node : Node} (hn : tree.node? id = some node) :
    id ∈ tree.ancestry id := by
  rw [ancestry, upward, hn]
  cases hp : node.parent with
  | none => simp [hp]
  | some p => simp [hp]

/-- The way from a node that is on the way from another is the rest of that way. -/
theorem WellFormed.ancestry_of_split (hw : tree.WellFormed) {below rest : List NodeId}
    {id i : NodeId} (h : tree.ancestry id = below ++ i :: rest) :
    tree.ancestry i = i :: rest := by
  have hmem : i ∈ tree.ancestry id := by simp [h]
  obtain ⟨node, hn⟩ := exists_node_of_mem_ancestry hmem
  induction below generalizing id node with
  | nil =>
    have hhead : id = i := by
      cases hp : node.parent with
      | none =>
        rw [ancestry, upward, hn] at h
        simp only [hp] at h
        exact (List.cons.inj h).1
      | some p =>
        rw [hw.ancestry_of_parent hn hp] at h
        exact (List.cons.inj h).1
    subst hhead
    exact h
  | cons first below ih =>
    cases hp : node.parent with
    | none =>
      rw [ancestry, upward, hn] at h
      simp only [hp] at h
      simp at h
    | some p =>
      rw [hw.ancestry_of_parent hn hp] at h
      have htail : tree.ancestry p = below ++ i :: rest := (List.cons.inj h).2
      have hmem' : i ∈ tree.ancestry p := by simp [htail]
      obtain ⟨above, habove⟩ := exists_node_of_mem_ancestry hmem'
      exact ih htail hmem' above habove

end Tree

end ExchangePipeline
