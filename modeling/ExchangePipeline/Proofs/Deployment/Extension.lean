/-
  ExchangePipeline/Proofs/Deployment/Extension.lean
  =================================================
  **What is added to a deployment leaves its chains alone.**

  A deployment extends another one if all that chains are made of is still there,
  and nothing has come to it but bare nodes, parameters, modules and cached chains
  (`Extends`).  Additions are extensions, and so are changes that are refused or
  come to nothing; extensions follow on each other (`Extends.trans`).

  In an extension every operation has the chains that it had, and an operation that
  has come since has those of its service (`Extends.keepsChains`).
-/
import ExchangePipeline.Proofs.Session.Reachable
import ExchangePipeline.Proofs.Tree.Growth

namespace ExchangePipeline

namespace Deployment

variable {d e f : Deployment}

/-! ### Extensions -/

/-- Nothing that chains are made of is changed, and no change is counted. -/
structure Extends (d e : Deployment) : Prop where
  order_eq : e.order = d.order
  declared_eq : e.declared = d.declared
  node : ∀ id node, d.tree.node? id = some node →
    ∃ node', e.tree.node? id = some node' ∧ node'.kind = node.kind ∧ node'.name = node.name ∧
      node'.parent = node.parent
  /-- Also at nodes that are new: nothing is engaged there, as where there is no node. -/
  engagedAt_eq : ∀ id, e.engagedAt id = d.engagedAt id
  module : ∀ name m, d.module? name = some m →
    ∃ m', e.module? name = some m' ∧ m'.module = m.module
  cached : ∀ key cached, d.cached? key = some cached → e.cached? key = some cached
  generation_eq : e.generation = d.generation

theorem Extends.refl (d : Deployment) : d.Extends d where
  order_eq := rfl
  declared_eq := rfl
  node _ node hn := ⟨node, hn, rfl, rfl, rfl⟩
  engagedAt_eq _ := rfl
  module _ m hm := ⟨m, hm, rfl⟩
  cached _ _ hcached := hcached
  generation_eq := rfl

theorem Extends.trans (h : d.Extends e) (h' : e.Extends f) : d.Extends f where
  order_eq := h'.order_eq.trans h.order_eq
  declared_eq := h'.declared_eq.trans h.declared_eq
  node id node hn := by
    obtain ⟨node', hn', hkind, hname, hparent⟩ := h.node id node hn
    obtain ⟨node'', hn'', hkind', hname', hparent'⟩ := h'.node id node' hn'
    exact ⟨node'', hn'', hkind'.trans hkind, hname'.trans hname, hparent'.trans hparent⟩
  engagedAt_eq id := (h'.engagedAt_eq id).trans (h.engagedAt_eq id)
  module name m hm := by
    obtain ⟨m', hm', hsame⟩ := h.module name m hm
    obtain ⟨m'', hm'', hsame'⟩ := h'.module name m' hm'
    exact ⟨m'', hm'', hsame'.trans hsame⟩
  cached key cached hcached := h'.cached key cached (h.cached key cached hcached)
  generation_eq := h'.generation_eq.trans h.generation_eq

/-! ### What extends a deployment -/

/-- A new node. -/
theorem Extends.attach {parent id : NodeId} {kind : NodeKind} {name : String}
    (ha : d.tree.attach parent kind name = .ok (id, e.tree)) (horder : e.order = d.order)
    (hdeclared : e.declared = d.declared)
    (hmodule : ∀ name m, d.module? name = some m → e.module? name = some m)
    (hcache : e.cache = d.cache) (hgeneration : e.generation = d.generation) : d.Extends e where
  order_eq := horder
  declared_eq := hdeclared
  node _ node hn := ⟨node, Tree.node?_of_attach ha hn, rfl, rfl, rfl⟩
  engagedAt_eq := engagedAt_attach ha
  module name m hm := ⟨m, hmodule name m hm, rfl⟩
  cached key cached hcached := by rwa [cached?, hcache]
  generation_eq := hgeneration

theorem Extends.addOperation {service name : String} {id : NodeId} {tree : Tree}
    (ha : d.tree.addOperation service name = .ok (id, tree)) : d.Extends { d with tree } := by
  obtain ⟨parent, -, ha⟩ := Tree.addOperation_ok ha
  exact .attach ha rfl rfl (fun _ _ hm => hm) rfl rfl

theorem Extends.registerModule {module : Module} {result : Except ConfigError NodeId}
    (h : d.registerModule module = (result, e)) : d.Extends e := by
  cases result with
  | error error =>
    rw [registerModule_error h]
    exact .refl d
  | ok id =>
    obtain ⟨-, tree, ha, rfl⟩ := registerModule_ok h
    refine .attach ha rfl rfl ?_ rfl rfl
    intro name m hm
    have happend := module?_append (d := d) { module, attempts := 0, status := .pending } name
    rw [hm, Option.some_or] at happend
    exact happend

/-- A parameter. -/
theorem Extends.addParameter {node : NodeId} {parameter : Parameter} {tree : Tree}
    (ha : d.tree.addParameter node parameter = .ok tree) : d.Extends { d with tree } := by
  obtain ⟨hshape, hengaged⟩ := Tree.addParameter_ok ha
  refine ⟨rfl, rfl, fun _ _ hn => hshape.symm.exists_node hn, ?_, fun _ m hm => ⟨m, hm, rfl⟩,
    fun _ _ hcached => hcached, rfl⟩
  intro id
  rw [Deployment.engagedAt_eq, Deployment.engagedAt_eq, hengaged id]

/-- What becomes of the setup of a module. -/
theorem Extends.updateModule (d : Deployment) (name : String)
    {f : RegisteredModule → RegisteredModule} (hf : ∀ m, (f m).module = m.module) :
    d.Extends (d.updateModule name f) := by
  refine ⟨rfl, rfl, fun _ node hn => ⟨node, hn, rfl, rfl, rfl⟩, fun _ => rfl, ?_,
    fun _ _ hcached => hcached, rfl⟩
  intro other m hm
  refine ⟨if m.module.name = name then f m else m, ?_, ?_⟩
  · rw [module?_updateModule hf, hm]
    rfl
  · split
    · exact hf m
    · rfl

theorem Extends.registerTransport (d : Deployment) (role : TransportRole)
    (t : RegisteredTransport) : d.Extends (d.registerTransport role t) := by
  cases role with
  | listener => exact ⟨rfl, rfl, fun _ node hn => ⟨node, hn, rfl, rfl, rfl⟩, fun _ => rfl,
      fun _ m hm => ⟨m, hm, rfl⟩, fun _ _ hcached => hcached, rfl⟩
  | sender => exact ⟨rfl, rfl, fun _ node hn => ⟨node, hn, rfl, rfl, rfl⟩, fun _ => rfl,
      fun _ m hm => ⟨m, hm, rfl⟩, fun _ _ hcached => hcached, rfl⟩

/-- A chain that is put into the cache, behind those that are there. -/
theorem Extends.chain {key : ChainKey} {chain : Chain Handler}
    (h : d.chain key = .ok (chain, e)) : d.Extends e := by
  obtain ⟨cached, -, -, rfl⟩ | ⟨-, id, -, -, rfl⟩ := chain_ok h
  · exact .refl _
  · refine ⟨rfl, rfl, fun _ node hn => ⟨node, hn, rfl, rfl, rfl⟩, fun _ => rfl,
      fun _ m hm => ⟨m, hm, rfl⟩, ?_, rfl⟩
    intro other cached hcached
    rw [cached?] at hcached ⊢
    rw [List.lookup_append, hcached, Option.some_or]

theorem Extends.cacheAll (keys : List ChainKey) (d : Deployment) :
    d.Extends (Deployment.cacheAll keys d).2 := by
  induction keys generalizing d with
  | nil => exact .refl d
  | cons key rest ih =>
    rw [Deployment.cacheAll]
    cases hc : d.chain key with
    | error error => exact .refl d
    | ok result => exact (Extends.chain hc).trans (ih result.2)

/-! ### Chains in an extension -/

/-- The way from a node to the root is the way that it was. -/
theorem Extends.ancestry_eq (h : d.Extends e) (hd : d.tree.WellFormed) (he : e.tree.WellFormed)
    {id : NodeId} {node : Node} (hn : d.tree.node? id = some node) :
    e.tree.ancestry id = d.tree.ancestry id := by
  induction id using Nat.strong_induction_on generalizing node with
  | _ id ih =>
    obtain ⟨node', hn', -, -, hparent⟩ := h.node id node hn
    rcases hd.parent id node hn with ⟨rfl, -, -⟩ | ⟨p, above, hp, hlt, hpn, -⟩
    · rw [he.ancestry_root, hd.ancestry_root]
    · rw [he.ancestry_of_parent hn' (hparent.trans hp),
        hd.ancestry_of_parent hn hp, ih p hlt hpn]

/-- What a node gets is what it got. -/
theorem Extends.contributions_eq (h : d.Extends e) (hd : d.Coherent) (he : e.Coherent)
    {id : NodeId} {node : Node} (hn : d.tree.node? id = some node) (flow : Flow) :
    e.contributions id flow = d.contributions id flow := by
  refine contributions_congr (h.ancestry_eq hd.tree he.tree hn) (fun i _ => h.engagedAt_eq i)
    (fun i _ => by rw [declaredAt, declaredAt, h.declared_eq]) ?_
  intro i _ name hname
  obtain ⟨m, hm⟩ := hd.engaged i name hname
  obtain ⟨m', hm', hsame⟩ := h.module name m hm
  simp only [moduleHandlers, hm, hm', hsame]

/-- A node that is new gets what its parent gets. -/
theorem Extends.contributions_of_new (h : d.Extends e) (hd : d.Coherent) (he : e.Coherent)
    {id parent : NodeId} {node : Node} (hnew : d.tree.node? id = none)
    (hn : e.tree.node? id = some node) (hp : node.parent = some parent) (flow : Flow) :
    e.contributions id flow = e.contributions parent flow := by
  refine contributions_of_bare_node (he.tree.ancestry_of_parent hn hp) ?_ ?_
  · rw [h.engagedAt_eq, engagedAt, hnew]
  · rw [declaredAt, h.declared_eq]
    exact hd.declaredAt_eq_nil hnew flow

/-- A child hangs under a node. -/
theorem exists_node_of_child? {tree : Tree} (h : tree.WellFormed) {parent id : NodeId}
    {kind : NodeKind} {name : String} (hc : tree.child? parent kind name = some id) :
    ∃ node, tree.node? parent = some node := by
  obtain ⟨node, hn, hp, -⟩ := (h.child _ _ _ _).1 hc
  rcases h.parent id node hn with ⟨-, -, hnone⟩ | ⟨p, above, hp', -, habove, -⟩
  · rw [hnone] at hp
    cases hp
  · rw [hp', Option.some.injEq] at hp
    exact ⟨above, hp ▸ habove⟩

/-- A child that is found is found again. -/
theorem Extends.child?_mono (h : d.Extends e) (hd : d.tree.WellFormed) (he : e.tree.WellFormed)
    {parent id : NodeId} {kind : NodeKind} {name : String}
    (hc : d.tree.child? parent kind name = some id) : e.tree.child? parent kind name = some id := by
  obtain ⟨node, hn, hp, hk, hname⟩ := (hd.child _ _ _ _).1 hc
  obtain ⟨node', hn', hk', hname', hp'⟩ := h.node id node hn
  exact (he.child _ _ _ _).2 ⟨node', hn', hp'.trans hp, hk'.trans hk, hname'.trans hname⟩

/-- A node that is found as a child, and was there, was found as the same child. -/
theorem Extends.child?_of_node (h : d.Extends e) (hd : d.tree.WellFormed) (he : e.tree.WellFormed)
    {parent id : NodeId} {kind : NodeKind} {name : String} {node : Node}
    (hn : d.tree.node? id = some node) (hc : e.tree.child? parent kind name = some id) :
    d.tree.child? parent kind name = some id := by
  obtain ⟨node', hn', hp', hk', hname'⟩ := (he.child _ _ _ _).1 hc
  obtain ⟨other, hother, hk, hname, hp⟩ := h.node id node hn
  rw [hn', Option.some.injEq] at hother
  subst hother
  exact (hd.child _ _ _ _).2
    ⟨node, hn, hp.symm.trans hp', hk.symm.trans hk', hname.symm.trans hname'⟩

theorem Extends.operation?_mono (h : d.Extends e) (hd : d.tree.WellFormed) (he : e.tree.WellFormed)
    {service name : String} {id : NodeId} (ho : d.tree.operation? service name = some id) :
    e.tree.operation? service name = some id := by
  obtain ⟨p, hp, hid⟩ := Option.bind_eq_some_iff.1 ho
  exact Option.bind_eq_some_iff.2 ⟨p, h.child?_mono hd he hp, h.child?_mono hd he hid⟩

/-- The chains of a deployment at a later moment, where nothing that they are made of has
    changed. -/
structure KeepsChains (d e : Deployment) : Prop where
  /-- An operation that was deployed has the chain that it had, for every flow. -/
  deployed : ∀ key id, d.tree.operation? key.service key.operation = some id →
    ∃ chain d' e', d.chain key = .ok (chain, d') ∧ e.chain key = .ok (chain, e')
  /-- An operation that has come since resolves to the contributions of its service. -/
  added : ∀ key id, e.tree.operation? key.service key.operation = some id →
    d.tree.operation? key.service key.operation = none →
      ∃ service chain e', e.tree.service? key.service = some service ∧
        resolve e.order key.flow (e.contributions service key.flow) = .ok chain ∧
        e.chain key = .ok (chain, e')
  /-- The contributions of a service are those that it had. -/
  ofService : ∀ name service, d.tree.service? name = some service →
    e.tree.service? name = some service ∧
      ∀ flow, e.contributions service flow = d.contributions service flow
  /-- A service that has come since gets what the root got. -/
  ofNewService : ∀ name service, e.tree.service? name = some service →
    d.tree.service? name = none → ∀ flow, e.contributions service flow = d.contributions rootId flow

/-- The chain of a deployed operation is what its node resolves to. -/
theorem Coherent.exists_resolved (h : d.Coherent) {key : ChainKey} {id : NodeId}
    (ho : d.tree.operation? key.service key.operation = some id) :
    ∃ chain d', d.resolveAt id key.flow = .ok chain ∧ d.chain key = .ok (chain, d') := by
  obtain ⟨chain, d', hchain⟩ := h.exists_chain ho
  obtain ⟨id', ho', hresolve⟩ := h.resolveAt_of_chain hchain
  rw [ho, Option.some.injEq] at ho'
  exact ⟨chain, d', ho' ▸ hresolve, hchain⟩

/-- **An extension keeps the chains**, and new operations have those of their service. -/
theorem Extends.keepsChains (h : d.Extends e) (hd : d.Coherent) (he : e.Coherent) :
    d.KeepsChains e := by
  have hroot : ∀ flow, e.contributions rootId flow = d.contributions rootId flow := by
    obtain ⟨root, hn⟩ := hd.tree.root
    exact h.contributions_eq hd he hn
  refine ⟨?_, ?_, ?_, ?_⟩
  · intro key id ho
    obtain ⟨node, hn, -⟩ := hd.tree.contributes_of_scopeNode (Tree.scopeNode_operation_iff.2 ho)
    obtain ⟨chain, d', hresolve, hchain⟩ := hd.exists_resolved ho
    obtain ⟨chain', e', hresolve', hchain'⟩ :=
      he.exists_resolved (h.operation?_mono hd.tree he.tree ho)
    rw [resolveAt_congr h.order_eq (h.contributions_eq hd he hn key.flow), hresolve] at hresolve'
    cases hresolve'
    exact ⟨chain, d', e', hchain, hchain'⟩
  · intro key id ho hnew
    obtain ⟨service, hs, hid⟩ := Option.bind_eq_some_iff.1 ho
    obtain ⟨node, hn, hp, -⟩ := (he.tree.child _ _ _ _).1 hid
    obtain ⟨chain, e', hresolve, hchain⟩ := he.exists_resolved ho
    have hfree : d.tree.node? id = none := by
      by_contra hsome
      obtain ⟨old, hold⟩ := Option.ne_none_iff_exists'.1 hsome
      have hid' := h.child?_of_node hd.tree he.tree hold hid
      -- a node that was an operation hung under a node of the same tree, which was its service
      obtain ⟨above, habove⟩ := exists_node_of_child? hd.tree hid'
      have hs' := h.child?_of_node hd.tree he.tree habove hs
      rw [Tree.operation?, Tree.service?, hs', Option.bind_some, hid'] at hnew
      cases hnew
    rw [resolveAt, h.contributions_of_new hd he hfree hn hp] at hresolve
    exact ⟨service, chain, e', hs, hresolve, hchain⟩
  · intro name service hs
    obtain ⟨node, hn, -⟩ := (hd.tree.child _ _ _ _).1 hs
    exact ⟨h.child?_mono hd.tree he.tree hs, h.contributions_eq hd he hn⟩
  · intro name service hs hnew flow
    obtain ⟨node, hn, hp, -⟩ := (he.tree.child _ _ _ _).1 hs
    have hfree : d.tree.node? service = none := by
      by_contra hsome
      obtain ⟨old, hold⟩ := Option.ne_none_iff_exists'.1 hsome
      rw [Tree.service?, h.child?_of_node hd.tree he.tree hold hs] at hnew
      cases hnew
    rw [h.contributions_of_new hd he hfree hn hp, hroot flow]

end Deployment

end ExchangePipeline
