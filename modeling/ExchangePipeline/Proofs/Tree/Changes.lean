/-
  ExchangePipeline/Proofs/Tree/Changes.lean
  =========================================
  **What changes of a tree keep.**

  Two kinds of change are told apart.  A change of what a node holds, its
  parameters or its engagements, leaves the shape alone: ways to the root, scopes
  and look-ups are read off the bare shape (`Tree.shell`), and trees of one shape
  agree on them.  A node that is added leaves everything about the older nodes
  alone (`attach_ok`, `ancestry_attach`).  Both keep trees well-formed.
-/
import ExchangePipeline.Proofs.Tree.Shape

namespace ExchangePipeline

/-- A node without what it holds. -/
def Node.shell (node : Node) : Node :=
  .fresh node.kind node.name node.parent

namespace Tree

variable {tree : Tree}

/-! ### The shape alone -/

/-- A tree without what its nodes hold. -/
def shell (tree : Tree) : Tree :=
  { tree with nodes := tree.nodes.map Node.shell }

theorem node?_shell (tree : Tree) (id : NodeId) :
    tree.shell.node? id = (tree.node? id).map Node.shell := by
  simp [shell, node?]

theorem upward_shell (tree : Tree) (fuel : Nat) (id : NodeId) :
    tree.shell.upward fuel id = tree.upward fuel id := by
  induction fuel generalizing id with
  | zero => rfl
  | succ fuel ih =>
    rw [upward, upward, node?_shell]
    cases hn : tree.node? id with
    | none => rfl
    | some node =>
      have hp : node.shell.parent = node.parent := rfl
      cases hparent : node.parent with
      | none => simp only [Option.map_some, hp, hparent]
      | some p => simp only [Option.map_some, hp, hparent, ih]

theorem ancestry_shell (tree : Tree) (id : NodeId) : tree.shell.ancestry id = tree.ancestry id :=
  upward_shell tree (id + 1) id

theorem scopeNode_shell (tree : Tree) (scope : Scope) :
    tree.shell.scopeNode scope = tree.scopeNode scope := by
  cases scope <;> rfl

/-- Trees of one shape. -/
def SameShape (a b : Tree) : Prop :=
  a.shell = b.shell

theorem SameShape.ancestry_eq {a b : Tree} (h : SameShape a b) (id : NodeId) :
    a.ancestry id = b.ancestry id := by
  rw [← ancestry_shell a, ← ancestry_shell b, show a.shell = b.shell from h]

theorem SameShape.scopeNode_eq {a b : Tree} (h : SameShape a b) (scope : Scope) :
    a.scopeNode scope = b.scopeNode scope := by
  rw [← scopeNode_shell a, ← scopeNode_shell b, show a.shell = b.shell from h]

theorem SameShape.children_eq {a b : Tree} (h : SameShape a b) : a.children = b.children := by
  have hshell : a.shell.children = b.shell.children := congrArg Tree.children h
  exact hshell

theorem SameShape.child?_eq {a b : Tree} (h : SameShape a b) (parent : NodeId) (kind : NodeKind)
    (name : String) : a.child? parent kind name = b.child? parent kind name := by
  rw [child?, child?, h.children_eq]

theorem SameShape.operation?_eq {a b : Tree} (h : SameShape a b) (service name : String) :
    a.operation? service name = b.operation? service name := by
  simp only [operation?, service?, child?, h.children_eq]

theorem SameShape.node?_shell_eq {a b : Tree} (h : SameShape a b) (id : NodeId) :
    (a.node? id).map Node.shell = (b.node? id).map Node.shell := by
  rw [← node?_shell a, ← node?_shell b, show a.shell = b.shell from h]

/-- To a node of one tree belongs one of the other, with the same kind, name and parent. -/
theorem SameShape.exists_node {a b : Tree} (h : SameShape a b) {id : NodeId} {node : Node}
    (hn : a.node? id = some node) :
    ∃ other, b.node? id = some other ∧ other.kind = node.kind ∧ other.name = node.name ∧
      other.parent = node.parent := by
  have heq := h.node?_shell_eq id
  rw [hn, Option.map_some] at heq
  obtain ⟨other, hother, hshell⟩ := Option.map_eq_some_iff.1 heq.symm
  have hkind : other.shell.kind = node.shell.kind := congrArg Node.kind hshell
  have hname : other.shell.name = node.shell.name := congrArg Node.name hshell
  have hparent : other.shell.parent = node.shell.parent := congrArg Node.parent hshell
  exact ⟨other, hother, hkind, hname, hparent⟩

theorem SameShape.symm {a b : Tree} (h : SameShape a b) : SameShape b a :=
  Eq.symm h

theorem SameShape.contributes_iff {a b : Tree} (h : SameShape a b) (id : NodeId) :
    a.Contributes id ↔ b.Contributes id := by
  constructor
  · rintro ⟨node, hn, hk⟩
    obtain ⟨other, hother, hkind, -⟩ := h.exists_node hn
    exact ⟨other, hother, hkind ▸ hk⟩
  · rintro ⟨node, hn, hk⟩
    obtain ⟨other, hother, hkind, -⟩ := h.symm.exists_node hn
    exact ⟨other, hother, hkind ▸ hk⟩

/-- A tree of the shape of a well-formed one is well-formed if its engagements are. -/
theorem WellFormed.of_sameShape {a b : Tree} (ha : a.WellFormed) (h : SameShape b a)
    (he : ∀ id node, b.node? id = some node → node.engaged.Nodup) : b.WellFormed := by
  refine ⟨?_, ?_, ?_, he⟩
  · obtain ⟨node, hn⟩ := ha.root
    obtain ⟨other, hother, -⟩ := h.symm.exists_node hn
    exact ⟨other, hother⟩
  · intro id node hn
    obtain ⟨other, hother, hkind, -, hparent⟩ := h.exists_node hn
    rw [← hkind, ← hparent]
    rcases ha.parent id other hother with hroot | ⟨p, above, hp, hlt, hpn, hk⟩
    · exact Or.inl hroot
    · obtain ⟨above', habove, hkind', -⟩ := h.symm.exists_node hpn
      exact Or.inr ⟨p, above', hp, hlt, habove, hkind' ▸ hk⟩
  · intro parent kind name id
    rw [h.child?_eq, ha.child]
    constructor
    · rintro ⟨node, hn, hp, hk, hname⟩
      obtain ⟨other, hother, hkind, hname', hparent⟩ := h.symm.exists_node hn
      exact ⟨other, hother, hparent.trans hp, hkind.trans hk, hname'.trans hname⟩
    · rintro ⟨node, hn, hp, hk, hname⟩
      obtain ⟨other, hother, hkind, hname', hparent⟩ := h.exists_node hn
      exact ⟨other, hother, hparent.trans hp, hkind.trans hk, hname'.trans hname⟩

theorem sameShape_updateNode (tree : Tree) (id : NodeId) {f : Node → Node}
    (hf : ∀ node, (f node).shell = node.shell) : SameShape (tree.updateNode id f) tree := by
  have hnodes : (tree.nodes.modify id f).map Node.shell = tree.nodes.map Node.shell := by
    apply List.ext_getElem?
    intro i
    rw [List.getElem?_map, List.getElem?_map, List.getElem?_modify]
    cases tree.nodes[i]? with
    | none => rfl
    | some node =>
      by_cases hi : id = i
      · simp [hi, hf]
      · simp [hi]
  simp only [SameShape, shell, updateNode, hnodes]

/-! ### Parameters and engagements -/

/-- Defining a parameter changes the shape and the engagements of no node. -/
theorem addParameter_ok {id : NodeId} {parameter : Parameter} {t : Tree}
    (h : tree.addParameter id parameter = .ok t) :
    SameShape t tree ∧ ∀ i, (t.node? i).map Node.engaged = (tree.node? i).map Node.engaged := by
  unfold addParameter at h
  split at h
  · cases h
  · split at h
    · cases h
    · cases h
      refine ⟨sameShape_updateNode _ _ fun _ => rfl, ?_⟩
      intro i
      rw [node?_updateNode]
      by_cases hi : i = id
      · subst hi
        cases hn : tree.node? i <;> simp
      · rw [if_neg hi]

/-- Changes the engagements of one node. -/
def setEngaged (tree : Tree) (id : NodeId) (g : List String → List String) : Tree :=
  tree.updateNode id fun node => { node with engaged := g node.engaged }

theorem sameShape_setEngaged (tree : Tree) (id : NodeId) (g : List String → List String) :
    SameShape (tree.setEngaged id g) tree :=
  sameShape_updateNode tree id fun _ => rfl

/-- An engagement that is new comes after those that are there. -/
theorem engage_ok {id : NodeId} {module : String} {added : Bool} {t : Tree}
    (h : tree.engage id module = .ok (added, t)) :
    ∃ node, tree.node? id = some node ∧
      ((added = false ∧ module ∈ node.engaged ∧ t = tree) ∨
        (added = true ∧ module ∉ node.engaged ∧
          t = tree.setEngaged id fun engaged => engaged ++ [module])) := by
  unfold engage at h
  cases hn : tree.node? id with
  | none =>
    rw [hn] at h
    cases h
  | some node =>
    simp only [hn] at h
    refine ⟨node, rfl, ?_⟩
    split at h
    · rename_i hmem
      cases h
      exact Or.inl ⟨rfl, hmem, rfl⟩
    · rename_i hmem
      cases h
      exact Or.inr ⟨rfl, hmem, rfl⟩

/-- A change of a node that leaves it as it is leaves the tree as it is. -/
theorem updateNode_eq_self {id : NodeId} {f : Node → Node}
    (hf : ∀ node, tree.node? id = some node → f node = node) : tree.updateNode id f = tree := by
  have hnodes : tree.nodes.modify id f = tree.nodes := by
    apply List.ext_getElem?
    intro i
    rw [List.getElem?_modify]
    by_cases hi : id = i
    · subst hi
      cases hn : tree.nodes[id]? with
      | none => rfl
      | some node => simp [hf node hn]
    · simp [hi]
  rw [updateNode, hnodes]

theorem setEngaged_setEngaged (tree : Tree) (id : NodeId) (g g' : List String → List String) :
    (tree.setEngaged id g).setEngaged id g' = tree.setEngaged id fun engaged => g' (g engaged) := by
  simp only [setEngaged, updateNode, List.modify_modify_eq]
  rfl

theorem setEngaged_eq_self {id : NodeId} {g : List String → List String}
    (hg : ∀ node, tree.node? id = some node → g node.engaged = node.engaged) :
    tree.setEngaged id g = tree :=
  updateNode_eq_self fun node hn => by rw [hg node hn]

/-- Nothing is taken out of a list that the name is not in. -/
theorem filter_ne_eq_self {names : List String} {name : String} (h : name ∉ names) :
    (names.filter fun other => other ≠ name) = names := by
  rw [List.filter_eq_self]
  intro other hother
  rw [decide_eq_true_eq]
  rintro rfl
  exact h hother

/-- An engagement that ends is taken out from among the others. -/
theorem disengage_ok {id : NodeId} {module : String} {removed : Bool} {t : Tree}
    (h : tree.disengage id module = .ok (removed, t)) :
    ∃ node, tree.node? id = some node ∧
      ((removed = false ∧ module ∉ node.engaged ∧ t = tree) ∨
        (removed = true ∧ module ∈ node.engaged ∧
          t = tree.setEngaged id fun engaged => engaged.filter fun other => other ≠ module)) := by
  unfold disengage at h
  cases hn : tree.node? id with
  | none =>
    rw [hn] at h
    cases h
  | some node =>
    simp only [hn, Except.ok.injEq, Prod.mk.injEq] at h
    obtain ⟨hlength, rfl⟩ := h
    refine ⟨node, rfl, ?_⟩
    by_cases hmem : module ∈ node.engaged
    · refine Or.inr ⟨?_, hmem, rfl⟩
      rw [← hlength, decide_eq_true_eq]
      have hlt : (node.engaged.filter fun other => other ≠ module).length < node.engaged.length :=
        List.length_filter_lt_length_iff_exists.2 ⟨module, hmem, by simp⟩
      exact Nat.ne_of_lt hlt
    · refine Or.inl ⟨?_, hmem, ?_⟩
      · rw [← hlength, filter_ne_eq_self hmem]
        simp
      · apply setEngaged_eq_self
        intro other hother
        rw [hn, Option.some.injEq] at hother
        rw [← hother, filter_ne_eq_self hmem]

/-- **An engagement that is taken back** leaves no trace: it was the last one, and is the only one of
    its module. -/
theorem disengage_of_engage {id : NodeId} {module : String} {t : Tree}
    (h : tree.engage id module = .ok (true, t)) :
    t.disengage id module = .ok (true, tree) := by
  obtain ⟨node, hn, ⟨hno, -⟩ | ⟨-, hnew, rfl⟩⟩ := engage_ok h
  · cases hno
  have hn' : (tree.setEngaged id fun engaged => engaged ++ [module]).node? id =
      some { node with engaged := node.engaged ++ [module] } := by
    rw [setEngaged, node?_updateNode, if_pos rfl, hn]
    rfl
  have hkept : ((node.engaged ++ [module]).filter fun other => other ≠ module) = node.engaged := by
    rw [List.filter_append, filter_ne_eq_self hnew]
    simp
  have hback : ((tree.setEngaged id fun engaged => engaged ++ [module]).setEngaged id
      fun engaged => engaged.filter fun other => other ≠ module) = tree := by
    rw [setEngaged_setEngaged]
    apply setEngaged_eq_self
    intro other hother
    rw [hn, Option.some.injEq] at hother
    exact hother ▸ hkept
  rw [disengage, hn']
  simp only [hkept]
  rw [← setEngaged, hback]
  simp

/-- Changing the engagements of a node keeps a tree well-formed if each module stays there once. -/
theorem WellFormed.setEngaged (h : tree.WellFormed) {id : NodeId} {g : List String → List String}
    (hg : ∀ node, tree.node? id = some node → (g node.engaged).Nodup) :
    (tree.setEngaged id g).WellFormed := by
  apply h.of_sameShape (sameShape_setEngaged tree id g)
  intro i node hn
  rw [Tree.setEngaged, node?_updateNode] at hn
  by_cases hi : i = id
  · rw [if_pos hi] at hn
    obtain ⟨old, hold, rfl⟩ := Option.map_eq_some_iff.1 hn
    exact hg old hold
  · rw [if_neg hi] at hn
    exact h.engaged_nodup i node hn

/-! ### New nodes -/

theorem node?_lt {id : NodeId} {node : Node} (h : tree.node? id = some node) :
    id < tree.nodes.length :=
  (List.getElem?_eq_some_iff.1 h).1

/-- A new node comes last, and so does its entry in the index, where it was not found. -/
theorem eq_of_attach {parent id : NodeId} {kind : NodeKind} {name : String} {t : Tree}
    (h : tree.attach parent kind name = .ok (id, t)) :
    tree.child? parent kind name = none ∧ id = tree.nodes.length ∧
      t = {
        nodes := tree.nodes ++ [.fresh kind name (some parent)]
        children := tree.children ++ [(⟨parent, kind, name⟩, id)] } := by
  unfold attach at h
  cases hc : tree.child? parent kind name with
  | some other =>
    rw [hc] at h
    cases h
  | none =>
    simp only [hc, Except.ok.injEq, Prod.mk.injEq] at h
    obtain ⟨rfl, rfl⟩ := h
    exact ⟨rfl, rfl, rfl⟩

/-- A new node has the next number, and no child of that kind and name was there. -/
theorem attach_ok {parent id : NodeId} {kind : NodeKind} {name : String} {t : Tree}
    (h : tree.attach parent kind name = .ok (id, t)) :
    id = tree.nodes.length ∧ tree.child? parent kind name = none ∧
      (∀ i, t.node? i =
        if i = id then some (.fresh kind name (some parent)) else tree.node? i) ∧
      ∀ p k n, t.child? p k n =
        if p = parent ∧ k = kind ∧ n = name then some id else tree.child? p k n := by
  obtain ⟨hnone, rfl, rfl⟩ := eq_of_attach h
  refine ⟨rfl, hnone, ?_, ?_⟩
  · intro i
    simp only [node?]
    by_cases hi : i = tree.nodes.length
    · simp [hi]
    · rw [if_neg hi]
      rcases Nat.lt_or_gt_of_ne hi with hlt | hgt
      · exact List.getElem?_append_left hlt
      · rw [List.getElem?_eq_none (by simp; omega), List.getElem?_eq_none (by omega)]
  · intro p k n
    have hlookup : tree.children.lookup { parent, kind, name } = none := hnone
    simp only [child?, List.lookup_append, List.lookup_cons, List.lookup_nil]
    by_cases hkey : p = parent ∧ k = kind ∧ n = name
    · obtain ⟨rfl, rfl, rfl⟩ := hkey
      simp [hlookup]
    · have hne : (({ parent := p, kind := k, name := n } : ChildKey) ==
          { parent, kind, name }) = false := by
        rw [beq_eq_false_iff_ne]
        intro heq
        cases heq
        exact hkey ⟨rfl, rfl, rfl⟩
      simp [hne, hkey]

/-- A new operation hangs under its service. -/
theorem addOperation_ok {service name : String} {id : NodeId} {t : Tree}
    (h : tree.addOperation service name = .ok (id, t)) :
    ∃ parent, tree.service? service = some parent ∧
      tree.attach parent .operation name = .ok (id, t) := by
  unfold addOperation at h
  cases hp : tree.service? service with
  | none =>
    rw [hp] at h
    cases h
  | some parent =>
    rw [hp] at h
    exact ⟨parent, rfl, h⟩

/-- A new node changes no other one. -/
theorem node?_of_attach {parent id : NodeId} {kind : NodeKind} {name : String} {t : Tree}
    (ha : tree.attach parent kind name = .ok (id, t)) {i : NodeId} {node : Node}
    (hn : tree.node? i = some node) : t.node? i = some node := by
  obtain ⟨hid, -, hnode, -⟩ := attach_ok ha
  rw [hnode, if_neg (hid ▸ Nat.ne_of_lt (node?_lt hn)), hn]

/-- The index finds the new node too. -/
theorem WellFormed.child_attach (h : tree.WellFormed) {parent id : NodeId} {kind : NodeKind}
    {name : String} {t : Tree} (ha : tree.attach parent kind name = .ok (id, t)) (p : NodeId)
    (k : NodeKind) (n : String) (i : NodeId) :
    t.child? p k n = some i ↔
      ∃ node, t.node? i = some node ∧ node.parent = some p ∧ node.kind = k ∧ node.name = n := by
  obtain ⟨hid, hnone, hnode, hchild⟩ := attach_ok ha
  rw [hchild]
  by_cases hkey : p = parent ∧ k = kind ∧ n = name
  · rw [if_pos hkey]
    obtain ⟨rfl, rfl, rfl⟩ := hkey
    constructor
    · intro hi
      cases hi
      exact ⟨_, by rw [hnode, if_pos rfl], rfl, rfl, rfl⟩
    · rintro ⟨node, hn, hrest⟩
      rw [hnode] at hn
      by_cases hi : i = id
      · rw [hi]
      · -- an older child of that kind and name would have stood in the way
        rw [if_neg hi] at hn
        have hsome := (h.child p k n i).2 ⟨node, hn, hrest⟩
        rw [hnone] at hsome
        cases hsome
  · rw [if_neg hkey, h.child]
    constructor
    · rintro ⟨node, hn, hrest⟩
      exact ⟨node, node?_of_attach ha hn, hrest⟩
    · rintro ⟨node, hn, hpp, hkk, hnn⟩
      rw [hnode] at hn
      by_cases hi : i = id
      · rw [if_pos hi] at hn
        cases hn
        cases hpp
        exact absurd ⟨rfl, hkk.symm, hnn.symm⟩ hkey
      · rw [if_neg hi] at hn
        exact ⟨node, hn, hpp, hkk, hnn⟩

/-- A new node keeps a tree well-formed if it hangs under a node of the right kind. -/
theorem WellFormed.attach (h : tree.WellFormed) {parent id : NodeId} {kind : NodeKind}
    {name : String} {t : Tree} (ha : tree.attach parent kind name = .ok (id, t)) {above : Node}
    (hp : tree.node? parent = some above) (hk : kind.parentKind? = some above.kind) :
    t.WellFormed := by
  obtain ⟨hid, -, hnode, -⟩ := attach_ok ha
  refine ⟨?_, ?_, h.child_attach ha, ?_⟩
  · obtain ⟨node, hn⟩ := h.root
    exact ⟨node, node?_of_attach ha hn⟩
  · intro i node hn
    rw [hnode] at hn
    by_cases hi : i = id
    · rw [if_pos hi] at hn
      cases hn
      right
      exact ⟨parent, above, rfl, by rw [hi, hid]; exact node?_lt hp, node?_of_attach ha hp, hk⟩
    · rw [if_neg hi] at hn
      rcases h.parent i node hn with hroot | ⟨p, above', hp', hlt, hpn, hk'⟩
      · exact Or.inl hroot
      · exact Or.inr ⟨p, above', hp', hlt, node?_of_attach ha hpn, hk'⟩
  · intro i node hn
    rw [hnode] at hn
    by_cases hi : i = id
    · rw [if_pos hi] at hn
      cases hn
      exact List.nodup_nil
    · rw [if_neg hi] at hn
      exact h.engaged_nodup i node hn

/-- Where all nodes stay, operations are found as before. -/
theorem WellFormed.operation?_mono (h : tree.WellFormed) {t : Tree} (ht : t.WellFormed)
    (hold : ∀ i node, tree.node? i = some node → t.node? i = some node) {service name : String}
    {id : NodeId} (ho : tree.operation? service name = some id) :
    t.operation? service name = some id := by
  obtain ⟨p, node, hp, hn, hrest⟩ := h.operation?_eq_some_iff.1 ho
  obtain ⟨above, habove, hkind⟩ := h.service?_eq_some_iff.1 hp
  have hp' := ht.service?_eq_some_iff.2 ⟨above, hold _ _ habove, hkind⟩
  exact ht.operation?_eq_some_iff.2 ⟨p, node, hp', hold _ _ hn, hrest⟩

/-- Trees that agree on a node and all earlier ones agree on the way from it. -/
theorem WellFormed.ancestry_congr (h : tree.WellFormed) {t : Tree} {id : NodeId}
    (heq : ∀ i ≤ id, t.node? i = tree.node? i) : t.ancestry id = tree.ancestry id := by
  have key : ∀ fuel i, i ≤ id → t.upward fuel i = tree.upward fuel i := by
    intro fuel
    induction fuel with
    | zero => exact fun _ _ => rfl
    | succ fuel ih =>
      intro i hi
      rw [upward, upward, heq i hi]
      cases hn : tree.node? i with
      | none => rfl
      | some node =>
        cases hp : node.parent with
        | none => simp only [hp]
        | some p => simp only [hp, ih p (Nat.le_trans (Nat.le_of_lt (h.parent_lt hn hp)) hi)]
  exact key _ id (Nat.le_refl _)

end Tree

end ExchangePipeline
