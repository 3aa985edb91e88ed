/-
  ExchangePipeline/Proofs/Tree/Shape.lean
  =======================================
  **The shape of configuration trees.**

  In a well-formed tree the root is the only node without a parent, every other
  node hangs under an earlier node of the kind that its own kind asks for, and the
  index of children finds exactly the nodes that are there.  Every way to add or
  change nodes keeps a tree well-formed.

  From this the ways from a node to the root are known (`WellFormed.ancestry_cases`),
  and the three readings of "at or below a scope" agree: the nodes listed below it
  (`mem_nodesBelow_iff`), the operations it covers (`covers_iff`), and the nodes
  that have its node among their ancestors.
-/
import ExchangePipeline.Scope
import Mathlib.Data.List.Nodup
import Mathlib.Data.Nat.Init

namespace ExchangePipeline

/-- What a table finds is one of its entries. -/
theorem mem_of_lookup {α β : Type} [BEq α] [LawfulBEq α] {l : List (α × β)} {key : α} {value : β}
    (h : l.lookup key = some value) : (key, value) ∈ l := by
  obtain ⟨before, after, rfl, -⟩ := List.lookup_eq_some_iff.1 h
  simp

/-- The kind of node under which nodes of a kind hang. -/
def NodeKind.parentKind? : NodeKind → Option NodeKind
  | .root => none
  | .module | .service | .transport => some .root
  | .operation => some .service

/-- Whether nodes of a kind take engagements and handlers, and so contribute to chains. -/
def NodeKind.contributes : NodeKind → Bool
  | .root | .service | .operation => true
  | .module | .transport => false

/-- What nodes hang under contributes to chains. -/
theorem NodeKind.contributes_of_parentKind? {kind above : NodeKind}
    (h : kind.parentKind? = some above) : above.contributes = true := by
  cases kind with
  | root => cases h
  | module => cases h; rfl
  | service => cases h; rfl
  | operation => cases h; rfl
  | transport => cases h; rfl

namespace Tree

/-- A tree as it is built from the root by adding nodes. -/
structure WellFormed (tree : Tree) : Prop where
  root : ∃ node, tree.node? rootId = some node
  /-- A node is the root, or hangs under an earlier node of the right kind. -/
  parent : ∀ id node, tree.node? id = some node →
    (id = rootId ∧ node.kind = .root ∧ node.parent = none) ∨
      ∃ p above, node.parent = some p ∧ p < id ∧ tree.node? p = some above ∧
        node.kind.parentKind? = some above.kind
  /-- The index finds a child exactly if there is one. -/
  child : ∀ parent kind name id, tree.child? parent kind name = some id ↔
    ∃ node, tree.node? id = some node ∧ node.parent = some parent ∧ node.kind = kind ∧
      node.name = name
  engaged_nodup : ∀ id node, tree.node? id = some node → node.engaged.Nodup

/-- A number is that of a node that contributes to chains. -/
def Contributes (tree : Tree) (id : NodeId) : Prop :=
  ∃ node, tree.node? id = some node ∧ node.kind.contributes = true

theorem wellFormed_empty : WellFormed .empty := by
  have hnode : ∀ id node, Tree.empty.node? id = some node →
      id = rootId ∧ node = .fresh .root "global" none := by
    intro id node h
    cases id with
    | zero =>
      cases h
      exact ⟨rfl, rfl⟩
    | succ id => cases h
  refine ⟨⟨_, rfl⟩, ?_, ?_, ?_⟩
  · intro id node h
    obtain ⟨rfl, rfl⟩ := hnode id node h
    exact Or.inl ⟨rfl, rfl, rfl⟩
  · intro parent kind name id
    constructor
    · intro h
      cases h
    · rintro ⟨node, hn, hp, -⟩
      obtain ⟨-, rfl⟩ := hnode id node hn
      cases hp
  · intro id node h
    obtain ⟨-, rfl⟩ := hnode id node h
    exact List.nodup_nil

/-! ### The way to the root -/

variable {tree : Tree}

theorem WellFormed.parent_lt (h : tree.WellFormed) {id p : NodeId} {node : Node}
    (hn : tree.node? id = some node) (hp : node.parent = some p) : p < id := by
  rcases h.parent id node hn with ⟨-, -, hnone⟩ | ⟨q, -, hq, hlt, -⟩
  · rw [hnone] at hp
    cases hp
  · rw [hq, Option.some.injEq] at hp
    exact hp ▸ hlt

/-- More fuel than the number of a node changes nothing. -/
theorem WellFormed.upward_succ (h : tree.WellFormed) {fuel : Nat} {id : NodeId}
    (hlt : id < fuel) : tree.upward (fuel + 1) id = tree.upward fuel id := by
  induction fuel generalizing id with
  | zero => cases hlt
  | succ fuel ih =>
    rw [upward, upward]
    cases hn : tree.node? id with
    | none => rfl
    | some node =>
      cases hp : node.parent with
      | none => simp only [hp]
      | some p =>
        have hplt := h.parent_lt hn hp
        simp only [hp, ih (Nat.lt_of_lt_of_le hplt (Nat.le_of_lt_succ hlt))]

theorem WellFormed.upward_eq_ancestry (h : tree.WellFormed) {fuel : Nat} {id : NodeId}
    (hlt : id < fuel) : tree.upward fuel id = tree.ancestry id := by
  induction fuel, (show id + 1 ≤ fuel from hlt) using Nat.le_induction with
  | base => rfl
  | succ fuel hle ih => rw [h.upward_succ hle, ih hle]

/-- The way from a node goes over its parent. -/
theorem WellFormed.ancestry_of_parent (h : tree.WellFormed) {id p : NodeId} {node : Node}
    (hn : tree.node? id = some node) (hp : node.parent = some p) :
    tree.ancestry id = id :: tree.ancestry p := by
  rw [ancestry, upward, hn]
  simp only [hp]
  rw [h.upward_eq_ancestry (h.parent_lt hn hp)]

theorem WellFormed.ancestry_root (h : tree.WellFormed) : tree.ancestry rootId = [rootId] := by
  obtain ⟨node, hn⟩ := h.root
  rcases h.parent rootId node hn with ⟨-, -, hnone⟩ | ⟨p, -, -, hlt, -⟩
  · rw [ancestry, upward, hn]
    simp only [hnone]
  · cases hlt

/-- **The ways to the root**: from the root itself, from a node right under it, and from an
    operation by way of its service. -/
theorem WellFormed.ancestry_cases (h : tree.WellFormed) {id : NodeId} {node : Node}
    (hn : tree.node? id = some node) :
    (id = rootId ∧ node.kind = .root ∧ tree.ancestry id = [rootId]) ∨
    (id ≠ rootId ∧ node.kind ≠ .root ∧ node.kind ≠ .operation ∧ node.parent = some rootId ∧
      tree.ancestry id = [id, rootId]) ∨
    (id ≠ rootId ∧ node.kind = .operation ∧ ∃ p above, node.parent = some p ∧ p ≠ rootId ∧
      tree.node? p = some above ∧ above.kind = .service ∧ above.parent = some rootId ∧
      tree.ancestry id = [id, p, rootId]) := by
  have hunder : ∀ id node, tree.node? id = some node → node.kind.parentKind? = some .root →
      id ≠ rootId ∧ node.parent = some rootId ∧ tree.ancestry id = [id, rootId] := by
    intro id node hn hkind
    rcases h.parent id node hn with ⟨-, hroot, -⟩ | ⟨p, above, hp, hlt, hpn, hk⟩
    · rw [hroot] at hkind
      cases hkind
    · rw [hkind, Option.some.injEq] at hk
      have hroot : p = rootId := by
        rcases h.parent p above hpn with ⟨hp0, -⟩ | ⟨-, above', -, -, -, hk'⟩
        · exact hp0
        · rw [← hk] at hk'
          cases hk'
      subst hroot
      refine ⟨Nat.ne_of_gt hlt, hp, ?_⟩
      rw [h.ancestry_of_parent hn hp, h.ancestry_root]
  rcases h.parent id node hn with ⟨rfl, hroot, -⟩ | ⟨p, above, hp, hlt, hpn, hk⟩
  · exact Or.inl ⟨rfl, hroot, h.ancestry_root⟩
  · by_cases hop : node.kind = .operation
    · right
      right
      have hservice : above.kind = .service := by
        rw [hop] at hk
        exact (Option.some.inj hk).symm
      obtain ⟨hp0, hpp, hpath⟩ := hunder p above hpn (by rw [hservice]; rfl)
      refine ⟨?_, hop, p, above, hp, hp0, hpn, hservice, hpp, ?_⟩
      · rintro rfl
        cases hlt
      · rw [h.ancestry_of_parent hn hp, hpath]
    · right
      left
      have hkind : node.kind.parentKind? = some .root := by
        cases hnk : node.kind with
        | root => rw [hnk] at hk; cases hk
        | operation => exact absurd hnk hop
        | module => rfl
        | service => rfl
        | transport => rfl
      obtain ⟨hid, hpp, hpath⟩ := hunder id node hn hkind
      refine ⟨hid, ?_, hop, hpp, hpath⟩
      intro hroot
      rw [hroot] at hkind
      cases hkind

theorem WellFormed.root_kind (h : tree.WellFormed) :
    ∃ node, tree.node? rootId = some node ∧ node.kind = .root := by
  obtain ⟨node, hn⟩ := h.root
  rcases h.ancestry_cases hn with ⟨-, hk, -⟩ | ⟨hne, -⟩ | ⟨hne, -⟩
  · exact ⟨node, hn, hk⟩
  · exact absurd rfl hne
  · exact absurd rfl hne

/-! ### Services and operations -/

theorem WellFormed.service?_eq_some_iff (h : tree.WellFormed) {name : String} {id : NodeId} :
    tree.service? name = some id ↔
      ∃ node, tree.node? id = some node ∧ node.kind = .service ∧ node.name = name := by
  rw [service?, h.child]
  constructor
  · rintro ⟨node, hn, -, hkind, hname⟩
    exact ⟨node, hn, hkind, hname⟩
  · rintro ⟨node, hn, hkind, hname⟩
    refine ⟨node, hn, ?_, hkind, hname⟩
    rcases h.ancestry_cases hn with ⟨-, hk, -⟩ | ⟨-, -, -, hp, -⟩ | ⟨-, hk, -⟩
    · rw [hkind] at hk
      cases hk
    · exact hp
    · rw [hkind] at hk
      cases hk

theorem WellFormed.operation?_eq_some_iff (h : tree.WellFormed) {service name : String}
    {id : NodeId} :
    tree.operation? service name = some id ↔
      ∃ p node, tree.service? service = some p ∧ tree.node? id = some node ∧
        node.parent = some p ∧ node.kind = .operation ∧ node.name = name := by
  rw [operation?, Option.bind_eq_some_iff]
  constructor
  · rintro ⟨p, hp, hid⟩
    obtain ⟨node, hn, hparent, hkind, hname⟩ := (h.child _ _ _ _).1 hid
    exact ⟨p, node, hp, hn, hparent, hkind, hname⟩
  · rintro ⟨p, node, hp, hn, hparent, hkind, hname⟩
    exact ⟨p, hp, (h.child _ _ _ _).2 ⟨node, hn, hparent, hkind, hname⟩⟩

theorem mem_childNames {parent : NodeId} {kind : NodeKind} {name : String} :
    name ∈ tree.childNames parent kind ↔
      ∃ id node, tree.node? id = some node ∧ node.parent = some parent ∧ node.kind = kind ∧
        node.name = name := by
  simp only [childNames, List.mem_map, List.mem_filter, Bool.and_eq_true, decide_eq_true_eq]
  constructor
  · rintro ⟨node, ⟨hmem, hparent, hkind⟩, hname⟩
    obtain ⟨id, hid⟩ := List.mem_iff_getElem?.1 hmem
    exact ⟨id, node, hid, hparent, hkind, hname⟩
  · rintro ⟨id, node, hid, hparent, hkind, hname⟩
    exact ⟨node, ⟨List.mem_of_getElem? hid, hparent, hkind⟩, hname⟩

/-- The services that are listed are those that are found. -/
theorem WellFormed.mem_services (h : tree.WellFormed) {name : String} :
    name ∈ tree.services ↔ ∃ id, tree.service? name = some id := by
  rw [services, mem_childNames]
  exact exists_congr fun id => ((h.child _ _ _ _).symm)

/-- The operations that are listed are those that are found. -/
theorem WellFormed.mem_operations (h : tree.WellFormed) {service name : String} :
    name ∈ tree.operations service ↔ ∃ id, tree.operation? service name = some id := by
  unfold operations operation?
  cases hs : tree.service? service with
  | none => simp
  | some p =>
    rw [Option.bind_some, mem_childNames]
    exact exists_congr fun id => ((h.child _ _ _ _).symm)

theorem scopeNode_service_iff {name : String} {id : NodeId} :
    tree.scopeNode (.service name) = .ok id ↔ tree.service? name = some id := by
  rw [scopeNode]
  cases hs : tree.service? name with
  | none => simp
  | some p => simp

theorem scopeNode_operation_iff {service operation : String} {id : NodeId} :
    tree.scopeNode (.operation service operation) = .ok id ↔
      tree.operation? service operation = some id := by
  rw [scopeNode, operation?]
  cases hs : tree.service? service with
  | none => simp
  | some p =>
    cases hc : tree.child? p .operation operation with
    | none => simp [hc]
    | some q => simp [hc]

/-! ### At or below a scope -/

theorem WellFormed.contributes_of_scopeNode (h : tree.WellFormed) {scope : Scope} {id : NodeId}
    (hs : tree.scopeNode scope = .ok id) : tree.Contributes id := by
  cases scope with
  | everywhere =>
    cases hs
    obtain ⟨node, hn, hk⟩ := h.root_kind
    exact ⟨node, hn, by rw [hk]; rfl⟩
  | service name =>
    obtain ⟨node, hn, hk, -⟩ := h.service?_eq_some_iff.1 (scopeNode_service_iff.1 hs)
    exact ⟨node, hn, by rw [hk]; rfl⟩
  | operation service name =>
    obtain ⟨p, node, -, hn, -, hk, -⟩ :=
      h.operation?_eq_some_iff.1 (scopeNode_operation_iff.1 hs)
    exact ⟨node, hn, by rw [hk]; rfl⟩

/-- A contributing node is the root, a service, or an operation of a service. -/
theorem WellFormed.contributes_cases (h : tree.WellFormed) {id : NodeId}
    (hc : tree.Contributes id) :
    (id = rootId ∧ tree.ancestry id = [rootId]) ∨
    (id ≠ rootId ∧ (∃ s, tree.service? s = some id) ∧ tree.ancestry id = [id, rootId]) ∨
    (id ≠ rootId ∧ ∃ s o p, tree.service? s = some p ∧ tree.operation? s o = some id ∧
      p ≠ rootId ∧ p ≠ id ∧ tree.ancestry id = [id, p, rootId]) := by
  obtain ⟨node, hn, hk⟩ := hc
  rcases h.ancestry_cases hn with ⟨hid, -, hpath⟩ | ⟨hid, hroot, hop, -, hpath⟩ |
    ⟨hid, hop, p, above, hp, hp0, hpn, hservice, -, hpath⟩
  · exact Or.inl ⟨hid, hpath⟩
  · have hservice : node.kind = .service := by
      cases hnk : node.kind with
      | root => exact absurd hnk hroot
      | operation => exact absurd hnk hop
      | service => rfl
      | module => rw [hnk] at hk; cases hk
      | transport => rw [hnk] at hk; cases hk
    exact Or.inr (Or.inl ⟨hid, ⟨_, h.service?_eq_some_iff.2 ⟨node, hn, hservice, rfl⟩⟩, hpath⟩)
  · have hs : tree.service? above.name = some p :=
      h.service?_eq_some_iff.2 ⟨above, hpn, hservice, rfl⟩
    exact Or.inr (Or.inr ⟨hid, _, _, p, hs,
      h.operation?_eq_some_iff.2 ⟨p, node, hs, hn, hp, hop, rfl⟩, hp0,
      Nat.ne_of_lt (h.parent_lt hn hp), hpath⟩)

theorem WellFormed.mem_ancestry_self (h : tree.WellFormed) {id : NodeId}
    (hc : tree.Contributes id) : id ∈ tree.ancestry id := by
  rcases h.contributes_cases hc with ⟨rfl, hpath⟩ | ⟨-, -, hpath⟩ |
    ⟨-, s, o, p, -, -, -, -, hpath⟩ <;> simp [hpath]

theorem WellFormed.root_mem_ancestry (h : tree.WellFormed) {id : NodeId}
    (hc : tree.Contributes id) : rootId ∈ tree.ancestry id := by
  rcases h.contributes_cases hc with ⟨rfl, hpath⟩ | ⟨-, -, hpath⟩ |
    ⟨-, s, o, p, -, -, -, -, hpath⟩ <;> simp [hpath]

/-- The way from an operation goes over its service. -/
theorem WellFormed.ancestry_operation (h : tree.WellFormed) {service name : String} {id : NodeId}
    (ho : tree.operation? service name = some id) :
    ∃ p, tree.service? service = some p ∧ id ≠ rootId ∧ p ≠ rootId ∧ p ≠ id ∧
      tree.ancestry id = [id, p, rootId] := by
  obtain ⟨p, node, hp, hn, hparent, hkind, -⟩ := h.operation?_eq_some_iff.1 ho
  rcases h.ancestry_cases hn with ⟨-, hk, -⟩ | ⟨-, -, hk, -⟩ |
    ⟨hid, -, q, above, hq, hq0, -, -, -, hpath⟩
  · rw [hkind] at hk
    cases hk
  · exact absurd hkind hk
  · rw [hq, Option.some.injEq] at hparent
    subst hparent
    exact ⟨q, hp, hid, hq0, Nat.ne_of_lt (h.parent_lt hn hq), hpath⟩

/-- A service has one name. -/
theorem WellFormed.service?_inj (h : tree.WellFormed) {s t : String} {id : NodeId}
    (hs : tree.service? s = some id) (ht : tree.service? t = some id) : s = t := by
  obtain ⟨node, hn, -, hname⟩ := h.service?_eq_some_iff.1 hs
  obtain ⟨node', hn', -, hname'⟩ := h.service?_eq_some_iff.1 ht
  rw [hn, Option.some.injEq] at hn'
  rw [← hname, ← hname', hn']

/-- An operation has one name, and belongs to one service. -/
theorem WellFormed.operation?_inj (h : tree.WellFormed) {s t o q : String} {id : NodeId}
    (hs : tree.operation? s o = some id) (ht : tree.operation? t q = some id) :
    s = t ∧ o = q := by
  obtain ⟨p, node, hp, hn, hparent, -, hname⟩ := h.operation?_eq_some_iff.1 hs
  obtain ⟨p', node', hp', hn', hparent', -, hname'⟩ := h.operation?_eq_some_iff.1 ht
  rw [hn, Option.some.injEq] at hn'
  subst hn'
  rw [hparent, Option.some.injEq] at hparent'
  subst hparent'
  exact ⟨h.service?_inj hp hp', hname.symm.trans hname'⟩

/-- No node is both a service and an operation. -/
theorem WellFormed.service?_ne_operation? (h : tree.WellFormed) {s t o : String} {id : NodeId}
    (hs : tree.service? s = some id) : tree.operation? t o ≠ some id := by
  intro ho
  obtain ⟨node, hn, hkind, -⟩ := h.service?_eq_some_iff.1 hs
  obtain ⟨p, node', -, hn', -, hkind', -⟩ := h.operation?_eq_some_iff.1 ho
  rw [hn, Option.some.injEq] at hn'
  rw [hn', hkind'] at hkind
  cases hkind

theorem WellFormed.service?_ne_root (h : tree.WellFormed) {s : String} :
    tree.service? s ≠ some rootId := by
  intro hs
  obtain ⟨node, hn, hkind, -⟩ := h.service?_eq_some_iff.1 hs
  rcases h.ancestry_cases hn with ⟨-, hk, -⟩ | ⟨hne, -⟩ | ⟨hne, -⟩
  · rw [hkind] at hk
    cases hk
  · exact hne rfl
  · exact hne rfl

/-- **Covered operations** are those that have the node of the scope among their ancestors. -/
theorem WellFormed.covers_iff (h : tree.WellFormed) {scope : Scope} {id j : NodeId}
    {service operation : String} (hs : tree.scopeNode scope = .ok id)
    (ho : tree.operation? service operation = some j) :
    scope.covers service operation = true ↔ id ∈ tree.ancestry j := by
  obtain ⟨p, hp, hj0, hp0, hpj, hpath⟩ := h.ancestry_operation ho
  rw [hpath]
  cases scope with
  | everywhere =>
    cases hs
    simp [Scope.covers]
  | service name =>
    have hname := scopeNode_service_iff.1 hs
    have hidj : id ≠ j := fun e => h.service?_ne_operation? hname (e ▸ ho)
    have hid0 : id ≠ rootId := fun e => h.service?_ne_root (e ▸ hname)
    simp only [Scope.covers, decide_eq_true_eq, List.mem_cons, hidj, hid0, List.not_mem_nil,
      or_false, false_or]
    constructor
    · rintro rfl
      rw [hname, Option.some.injEq] at hp
      exact hp
    · rintro rfl
      exact h.service?_inj hp hname
  | operation s o =>
    have hop := scopeNode_operation_iff.1 hs
    have hidp : id ≠ p := fun e => h.service?_ne_operation? hp (e ▸ hop)
    have hid0 : id ≠ rootId := (h.ancestry_operation hop).choose_spec.2.1
    simp only [Scope.covers, Bool.and_eq_true, decide_eq_true_eq, List.mem_cons, hidp, hid0,
      List.not_mem_nil, or_false]
    constructor
    · rintro ⟨rfl, rfl⟩
      rw [hop, Option.some.injEq] at ho
      exact ho
    · rintro rfl
      exact h.operation?_inj ho hop

theorem WellFormed.mem_serviceNodes (h : tree.WellFormed) {node j : NodeId} {service : String} :
    j ∈ tree.serviceNodes node service ↔
      (tree.service? service = some j ∧ j ≠ node) ∨
        ∃ o, tree.operation? service o = some j := by
  have hops : j ∈ (tree.operations service).filterMap (tree.operation? service) ↔
      ∃ o, tree.operation? service o = some j := by
    rw [List.mem_filterMap]
    constructor
    · rintro ⟨o, -, ho⟩
      exact ⟨o, ho⟩
    · rintro ⟨o, ho⟩
      exact ⟨o, h.mem_operations.2 ⟨j, ho⟩, ho⟩
  simp only [serviceNodes, List.mem_append, hops]
  apply or_congr_left
  cases hs : tree.service? service with
  | none => simp
  | some id =>
    by_cases heq : id = node
    · subst heq
      simp only [if_true, List.not_mem_nil, Option.some.injEq, false_iff, not_and, not_not]
      exact fun e => e.symm
    · simp only [heq, if_false, List.mem_singleton, Option.some.injEq]
      constructor
      · rintro rfl
        exact ⟨rfl, heq⟩
      · rintro ⟨rfl, -⟩
        rfl

/-- **The nodes listed below a scope** are the contributing nodes that have its node among their
    ancestors. -/
theorem WellFormed.mem_nodesBelow_iff (h : tree.WellFormed) {scope : Scope} {id j : NodeId}
    (hs : tree.scopeNode scope = .ok id) :
    j ∈ tree.nodesBelow scope id ↔ tree.Contributes j ∧ id ∈ tree.ancestry j := by
  have hcontrib := h.contributes_of_scopeNode hs
  have hservice : ∀ s, tree.service? s = some j → tree.Contributes j := fun s hj =>
    h.contributes_of_scopeNode (scopeNode_service_iff.2 hj)
  have hoperation : ∀ s o, tree.operation? s o = some j → tree.Contributes j := fun s o hj =>
    h.contributes_of_scopeNode (scopeNode_operation_iff.2 hj)
  cases scope with
  | everywhere =>
    cases hs
    simp only [nodesBelow, List.mem_cons, List.mem_flatMap, h.mem_serviceNodes]
    constructor
    · rintro (rfl | ⟨s, -, ⟨hj, -⟩ | ⟨o, ho⟩⟩)
      · exact ⟨hcontrib, h.mem_ancestry_self hcontrib⟩
      · exact ⟨hservice s hj, h.root_mem_ancestry (hservice s hj)⟩
      · exact ⟨hoperation s o ho, h.root_mem_ancestry (hoperation s o ho)⟩
    · rintro ⟨hj, -⟩
      rcases h.contributes_cases hj with ⟨rfl, -⟩ | ⟨hne, ⟨s, hjs⟩, -⟩ |
        ⟨-, s, o, p, hp, ho, -, -, -⟩
      · exact Or.inl rfl
      · exact Or.inr ⟨s, h.mem_services.2 ⟨j, hjs⟩, Or.inl ⟨hjs, hne⟩⟩
      · exact Or.inr ⟨s, h.mem_services.2 ⟨p, hp⟩, Or.inr ⟨o, ho⟩⟩
  | service name =>
    have hid := scopeNode_service_iff.1 hs
    simp only [nodesBelow, List.mem_cons, h.mem_serviceNodes]
    constructor
    · rintro (rfl | ⟨hj, hne⟩ | ⟨o, ho⟩)
      · exact ⟨hcontrib, h.mem_ancestry_self hcontrib⟩
      · rw [hid, Option.some.injEq] at hj
        exact absurd hj.symm hne
      · obtain ⟨p, hp, -, -, -, hpath⟩ := h.ancestry_operation ho
        rw [hid, Option.some.injEq] at hp
        exact ⟨hoperation name o ho, by simp [hpath, hp]⟩
    · rintro ⟨hj, hmem⟩
      have hid0 : id ≠ rootId := fun e => h.service?_ne_root (e ▸ hid)
      rcases h.contributes_cases hj with ⟨-, hpath⟩ | ⟨-, -, hpath⟩ |
        ⟨-, s, o, p, hp, ho, -, -, hpath⟩
      · rw [hpath, List.mem_singleton] at hmem
        exact absurd hmem hid0
      · simp only [hpath, List.mem_cons, hid0, List.not_mem_nil, or_false] at hmem
        exact Or.inl hmem.symm
      · have hidj : id ≠ j := fun e => h.service?_ne_operation? hid (e ▸ ho)
        simp only [hpath, List.mem_cons, hidj, hid0, List.not_mem_nil, or_false, false_or] at hmem
        subst hmem
        rw [h.service?_inj hp hid] at ho
        exact Or.inr (Or.inr ⟨o, ho⟩)
  | operation s o =>
    have hid := scopeNode_operation_iff.1 hs
    simp only [nodesBelow, List.mem_singleton]
    constructor
    · rintro rfl
      exact ⟨hcontrib, h.mem_ancestry_self hcontrib⟩
    · rintro ⟨hj, hmem⟩
      have hid0 : id ≠ rootId := (h.ancestry_operation hid).choose_spec.2.1
      rcases h.contributes_cases hj with ⟨-, hpath⟩ | ⟨-, -, hpath⟩ |
        ⟨-, s, o, p, hp, ho, -, -, hpath⟩
      · rw [hpath, List.mem_singleton] at hmem
        exact absurd hmem hid0
      · simp only [hpath, List.mem_cons, hid0, List.not_mem_nil, or_false] at hmem
        exact hmem.symm
      · have hidp : id ≠ p := fun e => h.service?_ne_operation? hp (e ▸ hid)
        simp only [hpath, List.mem_cons, hidp, hid0, List.not_mem_nil, or_false] at hmem
        exact hmem.symm

end Tree

end ExchangePipeline
