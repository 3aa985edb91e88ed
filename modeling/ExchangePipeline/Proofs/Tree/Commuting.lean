/-
  ExchangePipeline/Proofs/Tree/Commuting.lean
  ===========================================
  **Definitions that do not see each other.**

  Defining a parameter is a look upwards and a write.  The look finds a reason to
  refuse, if there is one (`Tree.refusal?`); the write is `Tree.define`, and
  `Tree.addParameter_eq` puts the two together.

  A write is seen by a later look only under its own name, and only from nodes at
  or below its own (`refusal?_define`).  Two writes can be exchanged unless they are
  of one name on one node (`define_comm`).  So two definitions that see nothing of
  each other can be made in either order (`attempt_comm`), and a definition, locked
  or not, means nothing for those that are made outside its subtree
  (`attempt_outside`).
-/
import ExchangePipeline.Proofs.Tree.Definitions

namespace ExchangePipeline

namespace Tree

variable {tree : Tree} {n m : NodeId} {name : String} {q r : Parameter}

/-! ### A look and a write -/

/-- Why a name cannot be defined on a node, if it cannot. -/
def refusal? (tree : Tree) (n : NodeId) (name : String) : Option ConfigError :=
  match tree.node? n with
  | none => some (.unknownNode n)
  | some _ =>
    (tree.lockingNode? n name).map fun owner =>
      .lockedParameter name (tree.path n) (tree.path owner)

/-- Writes a parameter on a node, without asking for locks. -/
def define (tree : Tree) (n : NodeId) (q : Parameter) : Tree :=
  tree.updateNode n fun node => { node with parameters := Dict.insert q.name q node.parameters }

theorem addParameter_eq (tree : Tree) (n : NodeId) (q : Parameter) :
    tree.addParameter n q =
      match tree.refusal? n q.name with
      | some error => .error error
      | none => .ok (tree.define n q) := by
  rw [addParameter, refusal?]
  cases tree.node? n with
  | none => rfl
  | some node =>
    dsimp only
    cases tree.lockingNode? n q.name with
    | none => rfl
    | some owner => rfl

/-- An attempt to define a parameter: its result, and the tree that it leaves. -/
def attempt (tree : Tree) (n : NodeId) (q : Parameter) : Except ConfigError Unit × Tree :=
  match tree.addParameter n q with
  | .ok t => (.ok (), t)
  | .error error => (.error error, tree)

theorem attempt_of_refusal {error : ConfigError} (h : tree.refusal? n q.name = some error) :
    tree.attempt n q = (.error error, tree) := by
  simp only [attempt, addParameter_eq, h]

theorem attempt_of_free (h : tree.refusal? n q.name = none) :
    tree.attempt n q = (.ok (), tree.define n q) := by
  simp only [attempt, addParameter_eq, h]

/-! ### What a write leaves alone -/

theorem sameShape_define (tree : Tree) (n : NodeId) (q : Parameter) :
    SameShape (tree.define n q) tree := by
  apply sameShape_updateNode
  intro node
  rfl

theorem SameShape.path_eq {a b : Tree} (h : SameShape a b) (id : NodeId) :
    a.path id = b.path id := by
  have hsegment : ∀ i, (a.node? i).map Node.segment = (b.node? i).map Node.segment := by
    intro i
    have hshell := h.node?_shell_eq i
    have hread : ∀ node : Option Node,
        (node.map Node.shell).map Node.segment = node.map Node.segment := by
      intro node
      rw [Option.map_map]
      rfl
    rw [← hread, hshell, hread]
  rw [path, path, h.ancestry_eq id]
  simp only [hsegment]

theorem node?_define_of_ne (h : m ≠ n) : (tree.define n q).node? m = tree.node? m := by
  rw [define, node?_updateNode, if_neg h]

theorem node?_define_congr {a b : Tree} {i : NodeId} (h : a.node? i = b.node? i) :
    (a.define m r).node? i = (b.define m r).node? i := by
  rw [define, define, node?_updateNode, node?_updateNode]
  by_cases hi : i = m
  · subst hi
    rw [if_pos rfl, if_pos rfl, h]
  · rw [if_neg hi, if_neg hi, h]

theorem ownParameter?_define_of_ne (h : ¬ (m = n ∧ name = q.name)) :
    (tree.define n q).ownParameter? m name = tree.ownParameter? m name := by
  rw [ownParameter?, ownParameter?, define, node?_updateNode]
  by_cases hm : m = n
  · subst hm
    have hname : name ≠ q.name := fun heq => h ⟨rfl, heq⟩
    cases tree.node? m <;> simp [Dict.find?_insert_of_ne hname]
  · rw [if_neg hm]

/-- A look from a node sees a write under its own name at or above the node only. -/
theorem lockingNode?_define (h : ¬ (name = q.name ∧ tree.LeadsTo m n)) :
    (tree.define n q).lockingNode? m name = tree.lockingNode? m name := by
  have hlocks : ∀ i ∈ tree.ancestry m,
      (tree.define n q).locksAt name i = tree.locksAt name i := by
    intro i hi
    apply locksAt_congr
    apply ownParameter?_define_of_ne
    rintro ⟨rfl, hname⟩
    exact h ⟨hname, leadsTo_of_mem_upward hi⟩
  rw [lockingNode?, lockingNode?, (sameShape_define tree n q).ancestry_eq m, ← List.head?_filter,
    ← List.head?_filter, List.filter_congr hlocks]

/-- **What a write means for later looks**: nothing, unless they are for its name and from its node
    or from below. -/
theorem refusal?_define (h : ¬ (name = q.name ∧ tree.LeadsTo m n)) :
    (tree.define n q).refusal? m name = tree.refusal? m name := by
  have hpath := (sameShape_define tree n q).path_eq
  have hnode := (sameShape_define tree n q).node?_shell_eq m
  rw [refusal?, refusal?]
  cases hm : tree.node? m with
  | none =>
    rw [hm, Option.map_none, Option.map_eq_none_iff] at hnode
    rw [hnode]
  | some node =>
    rw [hm, Option.map_some] at hnode
    obtain ⟨node', hm', -⟩ := Option.map_eq_some_iff.1 hnode
    rw [hm']
    simp only [lockingNode?_define h, hpath]

/-- Two writes can be exchanged, unless they are of one name on one node. -/
theorem define_comm (h : n ≠ m ∨ q.name ≠ r.name) :
    (tree.define n q).define m r = (tree.define m r).define n q := by
  by_cases hnm : n = m
  · subst hnm
    have hname : r.name ≠ q.name := (h.resolve_left fun hne => hne rfl).symm
    simp only [define, updateNode, List.modify_modify_eq, Function.comp_def,
      Dict.insert_comm hname]
  · simp only [define, updateNode, List.modify_modify_ne _ _ _ hnm]

/-! ### Attempts in either order -/

/-- **Whatever is defined on a node means nothing outside its subtree.**  There a definition has the
    same result as without it, and leaves every other node as without it. -/
theorem attempt_outside (h : ¬ (r.name = q.name ∧ tree.LeadsTo m n)) :
    ((tree.attempt n q).2.attempt m r).1 = (tree.attempt m r).1 ∧
      ∀ i, i ≠ n → ((tree.attempt n q).2.attempt m r).2.node? i = (tree.attempt m r).2.node? i := by
  cases hq : tree.refusal? n q.name with
  | some error =>
    rw [attempt_of_refusal hq]
    exact ⟨rfl, fun _ _ => rfl⟩
  | none =>
    rw [attempt_of_free hq]
    have hsame := refusal?_define h
    cases hr : tree.refusal? m r.name with
    | some error =>
      rw [attempt_of_refusal hr, attempt_of_refusal (hsame.trans hr)]
      exact ⟨rfl, fun i hi => node?_define_of_ne hi⟩
    | none =>
      rw [attempt_of_free hr, attempt_of_free (hsame.trans hr)]
      exact ⟨rfl, fun i hi => node?_define_congr (node?_define_of_ne hi)⟩

/-- **Definitions that see nothing of each other** leave the same tree in either order. -/
theorem attempt_comm (hqr : ¬ (r.name = q.name ∧ tree.LeadsTo m n))
    (hrq : ¬ (q.name = r.name ∧ tree.LeadsTo n m)) :
    ((tree.attempt n q).2.attempt m r).2 = ((tree.attempt m r).2.attempt n q).2 := by
  have hr := refusal?_define hqr
  have hq := refusal?_define hrq
  cases hfreeq : tree.refusal? n q.name with
  | some error =>
    rw [hfreeq] at hq
    cases hfreer : tree.refusal? m r.name with
    | some error' =>
      rw [attempt_of_refusal hfreeq, attempt_of_refusal hfreer, attempt_of_refusal hfreeq]
    | none => rw [attempt_of_refusal hfreeq, attempt_of_free hfreer, attempt_of_refusal hq]
  | none =>
    rw [hfreeq] at hq
    cases hfreer : tree.refusal? m r.name with
    | some error =>
      rw [hfreer] at hr
      rw [attempt_of_free hfreeq, attempt_of_refusal hr, attempt_of_refusal hfreer,
        attempt_of_free hfreeq]
    | none =>
      rw [hfreer] at hr
      rw [attempt_of_free hfreeq, attempt_of_free hr, attempt_of_free hfreer, attempt_of_free hq]
      apply define_comm
      by_cases hnm : n = m
      · subst hnm
        exact Or.inr fun hname => hrq ⟨hname, .refl⟩
      · exact Or.inl hnm

end Tree

end ExchangePipeline
