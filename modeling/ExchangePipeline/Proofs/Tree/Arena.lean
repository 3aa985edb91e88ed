/-
  ExchangePipeline/Proofs/Tree/Arena.lean
  =======================================
  **Nodes and index agree.**

  A tree keeps its children twice: every node knows its parent, and the index finds
  a node by parent, kind and name.  `Tree.Consistent` collects what holds between
  the two, whatever operations have been tried on a tree and whether or not they
  were accepted (`consistent_of_edits`).

  Most of it is read off `WellFormed`, which steps are known to keep.  What is new
  here is that the keys of the index stay apart (`keys_nodup_step`), so that its
  entries are just what is found there, and that the listed names stand in the
  order in which their nodes were made (`WellFormed.lists_childNames`).
-/
import ExchangePipeline.Proofs.Tree.Definitions

namespace ExchangePipeline

/-- With keys that stand once, an entry of a table is what is found under its key. -/
theorem mem_iff_lookup {α β : Type} [BEq α] [LawfulBEq α] {l : List (α × β)}
    (hl : (l.map Prod.fst).Nodup) {key : α} {value : β} :
    (key, value) ∈ l ↔ l.lookup key = some value := by
  refine ⟨fun hmem => ?_, mem_of_lookup⟩
  obtain ⟨before, after, rfl⟩ := List.append_of_mem hmem
  rw [List.map_append, List.map_cons, List.nodup_middle, List.nodup_cons] at hl
  rw [List.lookup_eq_some_iff]
  refine ⟨before, after, rfl, fun entry hentry => ?_⟩
  have hbefore : entry.1 ∈ before.map Prod.fst := List.mem_map_of_mem hentry
  rw [bne_iff_ne]
  rintro rfl
  exact hl.1 (List.mem_append_left _ hbefore)

/-- A key that is not found can be added. -/
theorem nodup_keys_concat {α β : Type} [BEq α] [LawfulBEq α] {l : List (α × β)}
    (hl : (l.map Prod.fst).Nodup) {key : α} {value : β} (hnew : l.lookup key = none) :
    ((l ++ [(key, value)]).map Prod.fst).Nodup := by
  have hkey : key ∉ l.map Prod.fst := by
    intro hmem
    obtain ⟨entry, hentry, rfl⟩ := List.mem_map.1 hmem
    have hne := List.lookup_eq_none_iff.1 hnew entry hentry
    simp at hne
  rw [List.map_append]
  exact hl.append (List.nodup_singleton key) (List.disjoint_singleton.2 hkey)

namespace Tree

variable {tree a b : Tree} {id p : NodeId} {node : Node}

/-! ### Operations, accepted or not -/

/-- An operation on a tree. -/
inductive Edit where
  | addModule (name : String)
  | addService (name : String)
  | addTransport (name : String)
  | addOperation (service name : String)
  | addParameter (id : NodeId) (parameter : Parameter)
  | engage (id : NodeId) (module : String)
  | disengage (id : NodeId) (module : String)

/-- The tree that an operation gives, or the tree as it was if the operation fails. -/
def orKept (tree : Tree) : Except ConfigError Tree → Tree
  | .ok t => t
  | .error _ => tree

/-- The tree after an operation. -/
def edit (tree : Tree) : Edit → Tree
  | .addModule name => tree.orKept ((tree.addModule name).map Prod.snd)
  | .addService name => tree.orKept ((tree.addService name).map Prod.snd)
  | .addTransport name => tree.orKept ((tree.addTransport name).map Prod.snd)
  | .addOperation service name => tree.orKept ((tree.addOperation service name).map Prod.snd)
  | .addParameter id parameter => tree.orKept (tree.addParameter id parameter)
  | .engage id module => tree.orKept ((tree.engage id module).map Prod.snd)
  | .disengage id module => tree.orKept ((tree.disengage id module).map Prod.snd)

theorem later_orKept {result : Except ConfigError Tree}
    (h : ∀ t, result = .ok t → Step tree t) : Later tree (tree.orKept result) := by
  cases result with
  | ok t => exact .single (h t rfl)
  | error error => exact .refl

theorem later_orKept_snd {α : Type} {result : Except ConfigError (α × Tree)}
    (h : ∀ x t, result = .ok (x, t) → Step tree t) :
    Later tree (tree.orKept (result.map Prod.snd)) := by
  apply later_orKept
  intro t ht
  cases result with
  | ok accepted =>
    cases ht
    exact h _ _ rfl
  | error error => cases ht

theorem later_edit (tree : Tree) (change : Edit) : Later tree (tree.edit change) := by
  cases change with
  | addModule name => exact later_orKept_snd fun _ _ => .addModule
  | addService name => exact later_orKept_snd fun _ _ => .addService
  | addTransport name => exact later_orKept_snd fun _ _ => .addTransport
  | addOperation service name => exact later_orKept_snd fun _ _ => .addOperation
  | addParameter id parameter => exact later_orKept fun _ => .addParameter
  | engage id module => exact later_orKept_snd fun _ _ => .engage
  | disengage id module => exact later_orKept_snd fun _ _ => .disengage

theorem later_edits (tree : Tree) (edits : List Edit) : Later tree (edits.foldl edit tree) := by
  induction edits generalizing tree with
  | nil => exact .refl
  | cons change rest ih => exact (later_edit tree change).trans (ih (tree.edit change))

/-! ### The keys of the index -/

/-- **A step** enters no key twice. -/
theorem keys_nodup_step (hw : a.WellFormed) (ha : (a.children.map Prod.fst).Nodup)
    (hs : Step a b) : (b.children.map Prod.fst).Nodup := by
  rcases hs.forms hw with ⟨parent, kind, name, id, -, hattach, -⟩ | ⟨id, parameter, h⟩ | rfl |
    ⟨id, -, g, -, -, rfl⟩
  · obtain ⟨hfree, -, rfl⟩ := eq_of_attach hattach
    exact nodup_keys_concat ha hfree
  · rwa [(addParameter_ok h).1.children_eq]
  · exact ha
  · exact ha

theorem Reachable.keys_nodup (h : Reachable tree) : (tree.children.map Prod.fst).Nodup := by
  induction h with
  | refl => exact List.nodup_nil
  | tail hbefore hs ih => exact keys_nodup_step (Reachable.wellFormed hbefore) ih hs

/-! ### What nodes and index say -/

/-- `id` is the number of a node with this parent, kind and name. -/
def IsChild (tree : Tree) (parent : NodeId) (kind : NodeKind) (name : String) (id : NodeId) :
    Prop :=
  ∃ node, tree.node? id = some node ∧ node.parent = some parent ∧ node.kind = kind ∧
    node.name = name

/-- `way` leads from a node over parents to the root, all within the tree. -/
structure WayUp (tree : Tree) (id : NodeId) (way : List NodeId) : Prop where
  first : way.head? = some id
  linked : way.IsChain tree.HangsUnder
  last : way.getLast? = some rootId
  within : ∀ i ∈ way, i < tree.nodes.length

/-- `names` lists the names under which a node is found, each once and the older node first. -/
structure Lists (names : List String) (found : String → Option NodeId) : Prop where
  mem_iff : ∀ name, name ∈ names ↔ ∃ id, found name = some id
  nodup : names.Nodup
  ordered : names.Pairwise fun x y => ∀ i j, found x = some i → found y = some j → i < j

/-- A node hangs where its kind belongs. -/
def InPlace (tree : Tree) (node : Node) : Prop :=
  match node.kind with
  | .root => node.parent = none
  | .module | .service | .transport => node.parent = some rootId
  | .operation =>
    ∃ p above, node.parent = some p ∧ tree.node? p = some above ∧ above.kind = .service

/-- A tree whose nodes and index say the same. -/
structure Consistent (tree : Tree) : Prop where
  root : ∃ node, tree.node? rootId = some node ∧ node.kind = .root
  parentless : ∀ id node, tree.node? id = some node → (node.parent = none ↔ id = rootId)
  descending : ∀ id p, tree.HangsUnder id p → p < id
  way : ∀ id < tree.nodes.length, tree.WayUp id (tree.ancestry id)
  inPlace : ∀ id node, tree.node? id = some node → tree.InPlace node
  /-- An entry of the index is a node, and a node other than the root an entry. -/
  entry : ∀ key id, (key, id) ∈ tree.children ↔ tree.IsChild key.parent key.kind key.name id
  keys_nodup : (tree.children.map Prod.fst).Nodup
  apart : ∀ parent kind name i j,
    tree.IsChild parent kind name i → tree.IsChild parent kind name j → i = j
  module : ∀ name id, tree.module? name = some id ↔ tree.IsChild rootId .module name id
  service : ∀ name id, tree.service? name = some id ↔ tree.IsChild rootId .service name id
  transport : ∀ name id, tree.transport? name = some id ↔ tree.IsChild rootId .transport name id
  operation : ∀ service name id, tree.operation? service name = some id ↔
    ∃ p, tree.IsChild rootId .service service p ∧ tree.IsChild p .operation name id
  services : Lists tree.services tree.service?
  operations : ∀ service, Lists (tree.operations service) (tree.operation? service)
  engaged_nodup : ∀ id node, tree.node? id = some node → node.engaged.Nodup

/-! ### Ways -/

theorem WayUp.cons {way : List NodeId} (h : tree.WayUp p way) (hunder : tree.HangsUnder id p) :
    tree.WayUp id (id :: way) := by
  obtain ⟨node, hn, hp⟩ := hunder
  obtain ⟨rest, rfl⟩ := List.head?_eq_some_iff.1 h.first
  refine ⟨rfl, List.isChain_cons_cons.2 ⟨⟨node, hn, hp⟩, h.linked⟩, ?_, ?_⟩
  · rw [List.getLast?_cons_cons]
    exact h.last
  · exact List.forall_mem_cons.2 ⟨node?_lt hn, h.within⟩

/-- **The listed way** from a node follows parents all the way to the root. -/
theorem WellFormed.wayUp (hw : tree.WellFormed) (hn : tree.node? id = some node) :
    tree.WayUp id (tree.ancestry id) := by
  induction id using Nat.strong_induction_on generalizing node with
  | _ id ih =>
    rcases hw.parent id node hn with ⟨rfl, -, -⟩ | ⟨p, above, hp, hlt, habove, -⟩
    · rw [hw.ancestry_root]
      exact ⟨rfl, .singleton _, rfl, by simpa using node?_lt hn⟩
    · rw [hw.ancestry_of_parent hn hp]
      exact (ih p hlt habove).cons ⟨node, hn, hp⟩

theorem WellFormed.parent_eq_none_iff (hw : tree.WellFormed) (hn : tree.node? id = some node) :
    node.parent = none ↔ id = rootId := by
  rcases hw.parent id node hn with ⟨hid, -, hp⟩ | ⟨p, above, hp, hlt, -, -⟩
  · simp [hid, hp]
  · have hne : id ≠ rootId := Nat.ne_of_gt (Nat.zero_lt_of_lt hlt)
    simp [hp, hne]

theorem WellFormed.inPlace (hw : tree.WellFormed) (hn : tree.node? id = some node) :
    tree.InPlace node := by
  rw [InPlace]
  rcases hw.ancestry_cases hn with ⟨hid, hk, -⟩ | ⟨-, hroot, hop, hp, -⟩ |
    ⟨-, hk, p, above, hp, -, habove, hservice, -⟩
  · rw [hk]
    exact (hw.parent_eq_none_iff hn).2 hid
  · cases hk : node.kind with
    | root => exact absurd hk hroot
    | operation => exact absurd hk hop
    | module => exact hp
    | service => exact hp
    | transport => exact hp
  · rw [hk]
    exact ⟨p, above, hp, habove, hservice⟩

/-! ### Listed names -/

theorem Lists.of_ordered {names : List String} {found : String → Option NodeId}
    (hmem : ∀ name, name ∈ names ↔ ∃ id, found name = some id)
    (hordered : names.Pairwise fun x y => ∀ i j, found x = some i → found y = some j → i < j) :
    Lists names found := by
  refine ⟨hmem, hordered.imp_of_mem ?_, hordered⟩
  rintro x y hx - hxy rfl
  obtain ⟨i, hi⟩ := (hmem x).1 hx
  exact Nat.lt_irrefl i (hxy i i hi hi)

/-- **Names of children** stand in the order in which their nodes were made. -/
theorem WellFormed.lists_childNames (hw : tree.WellFormed) (parent : NodeId) (kind : NodeKind) :
    Lists (tree.childNames parent kind) (tree.child? parent kind) := by
  apply Lists.of_ordered
  · intro name
    rw [mem_childNames]
    exact exists_congr fun id => (hw.child parent kind name id).symm
  · rw [childNames, List.pairwise_map, List.pairwise_filter, List.pairwise_iff_getElem]
    have hfound : ∀ (n : NodeId) (hn : n < tree.nodes.length) (i : NodeId),
        (decide (tree.nodes[n].parent = some parent) && decide (tree.nodes[n].kind = kind)) = true →
        tree.child? parent kind tree.nodes[n].name = some i → i = n := by
      intro n hn i hchild hi
      rw [Bool.and_eq_true, decide_eq_true_eq, decide_eq_true_eq] at hchild
      have hnode : tree.node? n = some tree.nodes[n] := List.getElem?_eq_getElem hn
      have hself := (hw.child _ _ _ _).2 ⟨_, hnode, hchild.1, hchild.2, rfl⟩
      exact Option.some.inj (hi.symm.trans hself)
    intro m n hm hn hlt hchildm hchildn i j hi hj
    rw [hfound m hm i hchildm hi, hfound n hn j hchildn hj]
    exact hlt

theorem WellFormed.lists_operations (hw : tree.WellFormed) (service : String) :
    Lists (tree.operations service) (tree.operation? service) := by
  unfold operations operation?
  cases tree.service? service with
  | none => exact .of_ordered (by simp) .nil
  | some p => exact hw.lists_childNames p .operation

/-! ### All together -/

/-- **Whatever is tried on a tree**, nodes and index say the same. -/
theorem consistent_of_edits (edits : List Edit) : (edits.foldl edit .empty).Consistent := by
  have hreachable : Reachable (edits.foldl edit .empty) := later_edits .empty edits
  have hw := hreachable.wellFormed
  refine
    { root := hw.root_kind
      parentless := fun id node hn => hw.parent_eq_none_iff hn
      descending := ?_
      way := ?_
      inPlace := fun id node hn => hw.inPlace hn
      entry := ?_
      keys_nodup := hreachable.keys_nodup
      apart := ?_
      module := hw.child rootId .module
      service := hw.child rootId .service
      transport := hw.child rootId .transport
      operation := ?_
      services := hw.lists_childNames rootId .service
      operations := hw.lists_operations
      engaged_nodup := hw.engaged_nodup }
  · rintro id p ⟨node, hn, hp⟩
    exact hw.parent_lt hn hp
  · intro id hid
    exact hw.wayUp (List.getElem?_eq_getElem hid)
  · intro key id
    rw [mem_iff_lookup hreachable.keys_nodup]
    exact hw.child key.parent key.kind key.name id
  · intro parent kind name i j hi hj
    have hfound := (hw.child parent kind name i).2 hi
    rw [(hw.child parent kind name j).2 hj] at hfound
    exact (Option.some.inj hfound).symm
  · intro service name id
    rw [operation?, Option.bind_eq_some_iff]
    exact exists_congr fun p =>
      and_congr (hw.child rootId .service service p) (hw.child p .operation name id)

end Tree

end ExchangePipeline
