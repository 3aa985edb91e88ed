/-
  ExchangePipeline/Proofs/Deployment/Coherence.lean
  =================================================
  **Deployments stay coherent.**

  In a coherent deployment everything resolves: the chains of operations, and also
  what comes together at the root and at services that have no operation yet.  And
  the cache holds what resolving anew would give.

  Each kind of step keeps this in a way of its own.  New nodes get what their
  parents get (`Coherent.attach`).  A change confined to a scope is validated
  below it, drops the cached chains below it, and touches nothing elsewhere
  (`Coherent.confined`); ending an engagement needs no validation, for it leaves
  fewer contributions, and those fit as well.  Whatever else happens touches
  nothing that chains are made of (`Coherent.untouched`).
-/
import ExchangePipeline.Proofs.Chain.Resolution
import ExchangePipeline.Proofs.Deployment.Contributions
import ExchangePipeline.Proofs.Deployment.Steps

namespace ExchangePipeline

namespace Deployment

/-- What resolving for a node and a flow gives. -/
def resolveAt (d : Deployment) (id : NodeId) (flow : Flow) : Except ConfigError (Chain Handler) :=
  resolve d.order flow (d.contributions id flow)

/-- A deployment in which everything resolves and the cache is right. -/
structure Coherent (d : Deployment) : Prop where
  tree : d.tree.WellFormed
  /-- Handlers are declared at nodes that are there, and no empty list of them is kept. -/
  declared : ∀ entry ∈ d.declared,
    (∃ node, d.tree.node? entry.1.1 = some node) ∧ entry.2 ≠ []
  /-- Modules that are engaged are registered. -/
  engaged : ∀ id, ∀ name ∈ d.engagedAt id, ∃ m, d.module? name = some m
  resolves : ∀ id, d.tree.Contributes id → ∀ flow, ∃ chain, d.resolveAt id flow = .ok chain
  cached : ∀ entry ∈ d.cache, ∃ id,
    d.tree.operation? entry.1.service entry.1.operation = some id ∧
      d.resolveAt id entry.1.flow = .ok entry.2.chain

theorem coherent_empty (settings : EngineSettings) : (Deployment.empty settings).Coherent := by
  have hengaged : ∀ id, (Deployment.empty settings).engagedAt id = [] := by
    intro id
    cases id with
    | zero => rfl
    | succ id => rfl
  refine ⟨Tree.wellFormed_empty, by simp [empty], ?_, ?_, by simp [empty]⟩
  · intro id name hname
    rw [hengaged id] at hname
    cases hname
  · intro id hid flow
    have hnone : (Deployment.empty settings).contributions id flow = [] := by
      apply List.eq_nil_iff_forall_not_mem.2
      intro link hlink
      rcases List.mem_append.1 ((contributions_perm _ id flow).mem_iff.1 hlink) with h | h
      · obtain ⟨name, hname, -⟩ := List.mem_flatMap.1 h
        obtain ⟨i, -, hi⟩ := mem_engagedOnWay.1 hname
        rw [hengaged i] at hi
        cases hi
      · obtain ⟨i, -, hi⟩ := List.mem_flatMap.1 h
        cases hi
    rw [resolveAt, hnone, exists_resolve_iff]
    exact ⟨Acceptable.nil _, fun _ _ => Orderable.nil⟩

variable {d e : Deployment}

/-! ### What resolving depends on -/

theorem resolveAt_congr {id : NodeId} {flow : Flow} (horder : e.order = d.order)
    (hcontrib : e.contributions id flow = d.contributions id flow) :
    e.resolveAt id flow = d.resolveAt id flow := by
  rw [resolveAt, resolveAt, horder, hcontrib]

/-- Nothing but the tree, the declarations, the modules and the phases matters. -/
theorem resolveAt_of_eq (horder : e.order = d.order) (htree : e.tree = d.tree)
    (hdeclared : e.declared = d.declared) (hmodules : e.modules = d.modules) (id : NodeId)
    (flow : Flow) : e.resolveAt id flow = d.resolveAt id flow := by
  refine resolveAt_congr horder (contributions_congr (by rw [htree]) ?_ ?_ ?_)
  · intro i _
    rw [engagedAt, engagedAt, htree]
  · intro i _
    rw [declaredAt, declaredAt, hdeclared]
  · intro i _ name _
    rw [moduleHandlers, moduleHandlers, module?, module?, hmodules]

theorem engagedAt_eq (d : Deployment) (id : NodeId) :
    d.engagedAt id = ((d.tree.node? id).map Node.engaged).getD [] := by
  rw [engagedAt]
  cases d.tree.node? id with
  | none => rfl
  | some node => rfl

theorem nodup_engagedAt (h : d.tree.WellFormed) (id : NodeId) : (d.engagedAt id).Nodup := by
  rw [engagedAt]
  cases hn : d.tree.node? id with
  | none => exact List.nodup_nil
  | some node => exact h.engaged_nodup id node hn

/-! ### Steps that touch nothing -/

/-- **A step that touches nothing** that chains are made of keeps a deployment coherent. -/
theorem Coherent.untouched (h : d.Coherent) (htree : e.tree.WellFormed)
    (hshape : Tree.SameShape e.tree d.tree) (hengaged : ∀ id, e.engagedAt id = d.engagedAt id)
    (hdeclared : e.declared = d.declared)
    (hmodule : ∀ name m, d.module? name = some m →
      ∃ m', e.module? name = some m' ∧ m'.module = m.module)
    (horder : e.order = d.order) (hcache : e.cache = d.cache) : e.Coherent := by
  have hresolve : ∀ id flow, e.resolveAt id flow = d.resolveAt id flow := by
    intro id flow
    refine resolveAt_congr horder (contributions_congr (hshape.ancestry_eq id)
      (fun i _ => hengaged i) (fun i _ => by rw [declaredAt, declaredAt, hdeclared]) ?_)
    intro i _ name hname
    obtain ⟨m, hm⟩ := h.engaged i name hname
    obtain ⟨m', hm', hsame⟩ := hmodule name m hm
    simp only [moduleHandlers, hm, hm', hsame]
  refine ⟨htree, ?_, ?_, ?_, ?_⟩
  · intro entry hentry
    obtain ⟨⟨node, hn⟩, hlinks⟩ := h.declared entry (hdeclared ▸ hentry)
    obtain ⟨other, hother, -⟩ := hshape.symm.exists_node hn
    exact ⟨⟨other, hother⟩, hlinks⟩
  · intro id name hname
    obtain ⟨m, hm⟩ := h.engaged id name (hengaged id ▸ hname)
    obtain ⟨m', hm', -⟩ := hmodule name m hm
    exact ⟨m', hm'⟩
  · intro id hid flow
    rw [hresolve]
    exact h.resolves id ((hshape.contributes_iff id).1 hid) flow
  · intro entry hentry
    obtain ⟨id, ho, hr⟩ := h.cached entry (hcache ▸ hentry)
    exact ⟨id, (hshape.operation?_eq _ _).trans ho, (hresolve id _).trans hr⟩

/-! ### New nodes -/

/-- Nothing is declared where there is no node. -/
theorem Coherent.declaredAt_eq_nil (h : d.Coherent) {id : NodeId} (hn : d.tree.node? id = none)
    (flow : Flow) : d.declaredAt id flow = [] := by
  have hnone : d.declared.lookup (id, flow) = none := by
    rw [List.lookup_eq_none_iff]
    intro entry hentry
    obtain ⟨⟨node, hnode⟩, -⟩ := h.declared entry hentry
    rw [bne_iff_ne]
    intro heq
    rw [← heq, hn] at hnode
    cases hnode
  rw [declaredAt, hnone]
  rfl

/-- No module is engaged at a node that has just been added. -/
theorem engagedAt_attach {parent id : NodeId} {kind : NodeKind} {name : String}
    (ha : d.tree.attach parent kind name = .ok (id, e.tree)) (i : NodeId) :
    e.engagedAt i = d.engagedAt i := by
  obtain ⟨hid, -, hnode, -⟩ := Tree.attach_ok ha
  rw [engagedAt, engagedAt, hnode]
  by_cases hi : i = id
  · have hfree : d.tree.node? id = none := hid ▸ List.getElem?_eq_none (Nat.le_refl _)
    rw [if_pos hi, hi, hfree]
    rfl
  · rw [if_neg hi]

/-- A new node changes nothing for the older ones. -/
theorem Coherent.resolveAt_attach (h : d.Coherent) {parent id : NodeId} {kind : NodeKind}
    {name : String} (ha : d.tree.attach parent kind name = .ok (id, e.tree))
    (hdeclared : e.declared = d.declared)
    (hmodule : ∀ name m, d.module? name = some m → e.module? name = some m)
    (horder : e.order = d.order) {i : NodeId} {node : Node} (hn : d.tree.node? i = some node)
    (flow : Flow) : e.resolveAt i flow = d.resolveAt i flow := by
  obtain ⟨hid, -, hnode, -⟩ := Tree.attach_ok ha
  have hpath : e.tree.ancestry i = d.tree.ancestry i := by
    apply h.tree.ancestry_congr
    intro j hj
    have hlt : j < id := hid ▸ Nat.lt_of_le_of_lt hj (Tree.node?_lt hn)
    rw [hnode, if_neg (Nat.ne_of_lt hlt)]
  refine resolveAt_congr horder (contributions_congr hpath ?_ ?_ ?_)
  · intro j _
    exact engagedAt_attach ha j
  · intro j _
    rw [declaredAt, declaredAt, hdeclared]
  · intro j _ name hname
    obtain ⟨m, hm⟩ := h.engaged j name hname
    simp only [moduleHandlers, hm, hmodule name m hm]

/-- **A new node** keeps a deployment coherent: it gets what its parent gets. -/
theorem Coherent.attach (h : d.Coherent) {parent id : NodeId} {kind : NodeKind} {name : String}
    (ha : d.tree.attach parent kind name = .ok (id, e.tree)) {above : Node}
    (hp : d.tree.node? parent = some above) (hk : kind.parentKind? = some above.kind)
    (hdeclared : e.declared = d.declared)
    (hmodule : ∀ name m, d.module? name = some m → e.module? name = some m)
    (horder : e.order = d.order) (hcache : e.cache = d.cache) : e.Coherent := by
  obtain ⟨hid, -, hnode, -⟩ := Tree.attach_ok ha
  have htree := h.tree.attach ha hp hk
  have hresolve : ∀ i node, d.tree.node? i = some node → ∀ flow,
      e.resolveAt i flow = d.resolveAt i flow :=
    fun i node hn => h.resolveAt_attach ha hdeclared hmodule horder hn
  refine ⟨htree, ?_, ?_, ?_, ?_⟩
  · intro entry hentry
    obtain ⟨⟨node, hn⟩, hlinks⟩ := h.declared entry (hdeclared ▸ hentry)
    exact ⟨⟨node, Tree.node?_of_attach ha hn⟩, hlinks⟩
  · intro i name hname
    obtain ⟨m, hm⟩ := h.engaged i name (engagedAt_attach ha i ▸ hname)
    exact ⟨m, hmodule name m hm⟩
  · rintro i ⟨node, hn, hkind⟩ flow
    rw [hnode] at hn
    by_cases hi : i = id
    · subst hi
      have hfree : d.tree.node? i = none := hid ▸ List.getElem?_eq_none (Nat.le_refl _)
      have hnew : e.tree.node? i = some (.fresh kind name (some parent)) := by
        rw [hnode, if_pos rfl]
      have hbare : e.contributions i flow = e.contributions parent flow :=
        contributions_of_bare_node (htree.ancestry_of_parent hnew rfl)
          (by rw [engagedAt, hnew]; rfl)
          (by rw [declaredAt, hdeclared]; exact h.declaredAt_eq_nil hfree flow)
      rw [resolveAt, hbare, ← resolveAt, hresolve parent above hp]
      exact h.resolves parent ⟨above, hp, NodeKind.contributes_of_parentKind? hk⟩ flow
    · rw [if_neg hi] at hn
      rw [hresolve i node hn]
      exact h.resolves i ⟨node, hn, hkind⟩ flow
  · intro entry hentry
    obtain ⟨i, ho, hr⟩ := h.cached entry (hcache ▸ hentry)
    obtain ⟨p, node, -, hn, -⟩ := h.tree.operation?_eq_some_iff.1 ho
    have hold := h.tree.operation?_mono htree (fun _ _ => Tree.node?_of_attach ha) ho
    exact ⟨i, hold, (hresolve i node hn _).trans hr⟩

/-! ### Changes confined to a scope -/

/-- **A change confined to a scope** keeps a deployment coherent if everything below the scope
    resolves afterwards, and elsewhere resolves to what it did. -/
theorem Coherent.confined (h : d.Coherent) {scope : Scope} {id : NodeId}
    (hs : d.tree.scopeNode scope = .ok id) (htree : e.tree.WellFormed)
    (hshape : Tree.SameShape e.tree d.tree)
    (hdeclared : ∀ entry ∈ e.declared,
      (∃ node, e.tree.node? entry.1.1 = some node) ∧ entry.2 ≠ [])
    (hengaged : ∀ i, ∀ name ∈ e.engagedAt i, ∃ m, e.module? name = some m)
    (hcache : e.cache = d.cache)
    (hbelow : ∀ j, d.tree.Contributes j → id ∈ d.tree.ancestry j → ∀ flow, ∃ chain,
      e.resolveAt j flow = .ok chain)
    (helsewhere : ∀ j, d.tree.Contributes j → id ∉ d.tree.ancestry j → ∀ flow,
      e.resolveAt j flow = d.resolveAt j flow) : (e.invalidate scope).Coherent := by
  have hinvalidate := @resolveAt_of_eq e (e.invalidate scope) rfl rfl rfl rfl
  refine ⟨htree, hdeclared, hengaged, ?_, ?_⟩
  · intro j hj flow
    have hj' := (hshape.contributes_iff j).1 hj
    rw [hinvalidate]
    by_cases hmem : id ∈ d.tree.ancestry j
    · exact hbelow j hj' hmem flow
    · rw [helsewhere j hj' hmem]
      exact h.resolves j hj' flow
  · intro entry hentry
    obtain ⟨hold, hkept⟩ := List.mem_filter.1 hentry
    obtain ⟨j, ho, hr⟩ := h.cached entry (hcache ▸ hold)
    -- what is still cached is not covered, so the change does not reach it
    have hmem : id ∉ d.tree.ancestry j := by
      rw [← h.tree.covers_iff hs ho]
      simpa using hkept
    have hj := h.tree.contributes_of_scopeNode (Tree.scopeNode_operation_iff.2 ho)
    refine ⟨j, (hshape.operation?_eq _ _).trans ho, ?_⟩
    rw [hinvalidate, helsewhere j hj hmem]
    exact hr

/-- Engagements change at one node only. -/
theorem engagedAt_setEngaged {id : NodeId} {node : Node} (hn : d.tree.node? id = some node)
    (g : List String → List String) (i : NodeId) :
    { d with tree := d.tree.setEngaged id g }.engagedAt i =
      if i = id then g node.engaged else d.engagedAt i := by
  simp only [engagedAt, Tree.setEngaged, Tree.node?_updateNode, hn]
  by_cases hi : i = id
  · simp [hi]
  · simp [hi]

/-- A change of engagements does not reach the nodes that are not below it. -/
theorem resolveAt_setEngaged_elsewhere {id j : NodeId} {node : Node}
    (hn : d.tree.node? id = some node) (g : List String → List String)
    (hj : id ∉ d.tree.ancestry j) (flow : Flow) :
    { d with tree := d.tree.setEngaged id g }.resolveAt j flow = d.resolveAt j flow := by
  refine resolveAt_congr rfl (contributions_congr ((d.tree.sameShape_setEngaged id g).ancestry_eq j)
    ?_ (fun _ _ => rfl) (fun _ _ _ _ => rfl))
  intro i hi
  rw [engagedAt_setEngaged hn, if_neg]
  rintro rfl
  exact hj hi

/-- A declaration does not reach the nodes that are not below it. -/
theorem resolveAt_declareHandler_elsewhere {id j : NodeId} (hj : id ∉ d.tree.ancestry j)
    (flow : Flow) (link : Link Handler) (other : Flow) :
    { d with declared := declareHandler (id, flow) link d.declared }.resolveAt j other =
      d.resolveAt j other := by
  refine resolveAt_congr rfl (contributions_congr rfl (fun _ _ => rfl) ?_ (fun _ _ _ _ => rfl))
  intro i hi
  have hne : (i, other) ≠ (id, flow) := by
    rintro heq
    cases heq
    exact hj hi
  rw [declaredAt, lookup_declareHandler, if_neg hne, List.append_nil]
  rfl

/-- A change of engagements keeps a deployment coherent if below it everything resolves. -/
theorem Coherent.setEngaged (h : d.Coherent) {scope : Scope} {id : NodeId} {node : Node}
    (hs : d.tree.scopeNode scope = .ok id) (hn : d.tree.node? id = some node)
    {g : List String → List String} (hnodup : (g node.engaged).Nodup)
    (hmodule : ∀ name ∈ g node.engaged, ∃ m, d.module? name = some m)
    (hbelow : ∀ j, d.tree.Contributes j → id ∈ d.tree.ancestry j → ∀ flow, ∃ chain,
      { d with tree := d.tree.setEngaged id g }.resolveAt j flow = .ok chain) :
    ({ d with tree := d.tree.setEngaged id g }.invalidate scope).Coherent := by
  have hshape := d.tree.sameShape_setEngaged id g
  have htree : (d.tree.setEngaged id g).WellFormed := by
    apply h.tree.setEngaged
    intro node' hn'
    rw [hn, Option.some.injEq] at hn'
    exact hn' ▸ hnodup
  refine h.confined hs htree hshape ?_ ?_ rfl hbelow ?_
  · intro entry hentry
    obtain ⟨⟨node', hn'⟩, hlinks⟩ := h.declared entry hentry
    obtain ⟨other, hother, -⟩ := hshape.symm.exists_node hn'
    exact ⟨⟨other, hother⟩, hlinks⟩
  · intro i name hname
    rw [engagedAt_setEngaged hn] at hname
    by_cases hi : i = id
    · rw [if_pos hi] at hname
      exact hmodule name hname
    · rw [if_neg hi] at hname
      exact h.engaged i name hname
  · intro j _ hj flow
    exact resolveAt_setEngaged_elsewhere hn g hj flow

/-- Engaging a module that is ready keeps a deployment coherent. -/
theorem Coherent.engage (h : d.Coherent) {module : String} {scope : Scope} {added : Bool}
    (hready : d.isReady module = true) (he : d.engage module scope = (.ok added, e)) :
    e.Coherent := by
  obtain ⟨id, hs, ⟨-, rfl, -⟩ | ⟨-, tree, ht, hv, rfl⟩⟩ := engage_ok he
  · exact h
  obtain ⟨node, hn, ⟨hno, -⟩ | ⟨-, hnew, rfl⟩⟩ := Tree.engage_ok ht
  · cases hno
  have hnodup : (node.engaged ++ [module]).Nodup :=
    (h.tree.engaged_nodup id node hn).append (List.nodup_singleton _)
      (List.disjoint_singleton.2 hnew)
  have hshape := d.tree.sameShape_setEngaged id fun engaged => engaged ++ [module]
  have htree : (d.tree.setEngaged id fun engaged => engaged ++ [module]).WellFormed := by
    apply h.tree.setEngaged
    intro node' hn'
    rw [hn, Option.some.injEq] at hn'
    exact hn' ▸ hnodup
  apply h.setEngaged hs hn hnodup
  · intro name hname
    rcases List.mem_append.1 hname with hold | hnew
    · exact h.engaged id name (by rw [engagedAt, hn]; exact hold)
    · rw [List.mem_singleton.1 hnew]
      obtain ⟨m, hm, -⟩ := isReady_iff.1 hready
      exact ⟨m, hm⟩
  · intro j hj hmem
    rw [← hshape.contributes_iff] at hj
    rw [← hshape.ancestry_eq] at hmem
    exact (validate_ok_iff (d := { d with tree := d.tree.setEngaged id _ }) htree
      ((hshape.scopeNode_eq scope).trans hs)).1 hv j hj hmem

/-- Ending an engagement keeps a deployment coherent, though nothing is validated: what is left
    are fewer contributions. -/
theorem Coherent.disengage (h : d.Coherent) {module : String} {scope : Scope} {removed : Bool}
    (he : d.disengage module scope = .ok (removed, e)) : e.Coherent := by
  obtain ⟨id, hs, ⟨-, rfl, -⟩ | ⟨-, tree, ht, rfl⟩⟩ := disengage_ok he
  · exact h
  obtain ⟨node, hn, ⟨hno, -⟩ | ⟨-, -, rfl⟩⟩ := Tree.disengage_ok ht
  · cases hno
  have hengaged : d.engagedAt id = node.engaged := by rw [engagedAt, hn]
  have hnodup : (node.engaged.filter fun other => other ≠ module).Nodup :=
    (h.tree.engaged_nodup id node hn).filter _
  apply h.setEngaged hs hn hnodup
  · intro name hname
    exact h.engaged id name (hengaged ▸ List.mem_of_mem_filter hname)
  · intro j hj _ flow
    rw [resolveAt, exists_resolve_iff]
    apply (exists_resolve_iff.1 (h.resolves j hj flow)).of_subperm
    refine contributions_subperm
      ((d.tree.sameShape_setEngaged id _).ancestry_eq j) ?_ ?_ (fun _ => rfl) (fun _ => rfl)
    · intro i
      rw [engagedAt_setEngaged hn]
      by_cases hi : i = id
      · rw [if_pos hi]
        exact hnodup
      · rw [if_neg hi]
        exact nodup_engagedAt h.tree i
    · intro i name hname
      rw [engagedAt_setEngaged hn] at hname
      by_cases hi : i = id
      · rw [if_pos hi] at hname
        rw [hi, hengaged]
        exact List.mem_of_mem_filter hname
      · rwa [if_neg hi] at hname

/-- No empty list of handlers is kept. -/
theorem Coherent.declared_nonempty (h : d.Coherent) : ∀ entry ∈ d.declared, entry.2 ≠ [] :=
  fun entry hentry => (h.declared entry hentry).2

/-- Declaring a handler keeps a deployment coherent, whether or not the handler is accepted. -/
theorem Coherent.addHandler (h : d.Coherent) {scope : Scope} {flow : Flow} {link : Link Handler}
    {result : Except ConfigError Unit} (he : d.addHandler scope flow link = (result, e)) :
    e.Coherent := by
  cases result with
  | error error =>
    rw [addHandler_error h.declared_nonempty he]
    exact h
  | ok done =>
  obtain ⟨id, hs, hv, rfl⟩ := addHandler_ok he
  refine h.confined hs h.tree rfl ?_ h.engaged rfl ?_ ?_
  · intro entry hentry
    refine ⟨?_, nonempty_declareHandler h.declared_nonempty entry hentry⟩
    rcases mem_declareHandler hentry with heq | ⟨other, hother, heq⟩
    · obtain ⟨node, hn, -⟩ := h.tree.contributes_of_scopeNode hs
      exact ⟨node, by rw [heq]; exact hn⟩
    · rw [← heq]
      exact (h.declared other hother).1
  · intro j hj hmem
    exact (validate_ok_iff (d := { d with declared := declareHandler (id, flow) link d.declared })
      h.tree hs).1 hv j hj hmem
  · intro j _ hmem other
    exact resolveAt_declareHandler_elsewhere hmem flow link other

/-- Declaring the phases anew keeps a deployment coherent. -/
theorem Coherent.declarePhases (h : d.Coherent) {order : PhaseOrder}
    (he : d.declarePhases order = .ok e) : e.Coherent := by
  obtain ⟨hv, rfl⟩ := declarePhases_ok he
  have hs : d.tree.scopeNode .everywhere = .ok rootId := rfl
  have hall := (validate_ok_iff h.tree hs).1 hv
  refine h.confined hs h.tree rfl h.declared h.engaged rfl ?_ ?_
  · intro j hj hmem flow
    have hsame : { d with order }.contributions j flow = d.contributions j flow :=
      contributions_congr rfl (fun _ _ => rfl) (fun _ _ => rfl) fun _ _ _ _ => rfl
    rw [resolveAt, hsame]
    exact hall j hj hmem flow
  · intro j hj hmem
    exact absurd (h.tree.root_mem_ancestry hj) hmem

/-! ### Chains -/

/-- Resolving a chain keeps a deployment coherent. -/
theorem Coherent.chain (h : d.Coherent) {key : ChainKey} {chain : Chain Handler}
    (hc : d.chain key = .ok (chain, e)) : e.Coherent := by
  obtain ⟨cached, -, -, rfl⟩ | ⟨-, id, hs, hr, rfl⟩ := chain_ok hc
  · exact h
  have hresolve := @resolveAt_of_eq d { d with
    cache := d.cache ++ [(key, { chain, serial := d.serials })]
    serials := d.serials + 1 } rfl rfl rfl rfl
  refine ⟨h.tree, h.declared, h.engaged, ?_, ?_⟩
  · intro i hi flow
    rw [hresolve]
    exact h.resolves i hi flow
  · intro entry hentry
    simp only [hresolve]
    rcases List.mem_append.1 hentry with hold | hnew
    · exact h.cached entry hold
    · rw [List.mem_singleton.1 hnew]
      exact ⟨id, Tree.scopeNode_operation_iff.1 hs, hr⟩

/-! ### All steps -/

/-- Registering a module keeps a deployment coherent. -/
theorem Coherent.registerModule (h : d.Coherent) {module : Module} {id : NodeId}
    (he : d.registerModule module = (.ok id, e)) : e.Coherent := by
  obtain ⟨hfree, tree, ha, rfl⟩ := registerModule_ok he
  obtain ⟨root, hroot, hkind⟩ := h.tree.root_kind
  refine h.attach ha hroot (by rw [hkind]; rfl) rfl ?_ rfl rfl
  intro name m hm
  have happend := module?_append (d := d) { module, attempts := 0, status := .pending } name
  rw [hm, Option.some_or] at happend
  exact happend

theorem Coherent.addOperation (h : d.Coherent) {service name : String} {id : NodeId} {tree : Tree}
    (ha : d.tree.addOperation service name = .ok (id, tree)) : { d with tree }.Coherent := by
  obtain ⟨parent, hp, ha⟩ := Tree.addOperation_ok ha
  obtain ⟨above, habove, hservice, -⟩ := h.tree.service?_eq_some_iff.1 hp
  exact h.attach ha habove (by rw [hservice]; rfl) rfl (fun _ _ hm => hm) rfl rfl

theorem Coherent.addParameter (h : d.Coherent) {node : NodeId} {parameter : Parameter}
    {tree : Tree} (ha : d.tree.addParameter node parameter = .ok tree) :
    { d with tree }.Coherent := by
  obtain ⟨hshape, hsame⟩ := Tree.addParameter_ok ha
  have hengaged : ∀ id, { d with tree }.engagedAt id = d.engagedAt id := by
    intro id
    rw [engagedAt_eq, engagedAt_eq, hsame id]
  refine h.untouched ?_ hshape hengaged rfl (fun name m hm => ⟨m, hm, rfl⟩) rfl rfl
  apply h.tree.of_sameShape hshape
  intro id node hn
  have hnodup := nodup_engagedAt h.tree id
  rw [← hengaged id, engagedAt_eq, hn] at hnodup
  exact hnodup

/-- What becomes of the setup of a module does not matter to chains. -/
theorem Coherent.updateModule (h : d.Coherent) (name : String)
    {f : RegisteredModule → RegisteredModule} (hf : ∀ m, (f m).module = m.module) :
    (d.updateModule name f).Coherent := by
  refine h.untouched h.tree rfl (fun _ => rfl) rfl ?_ rfl rfl
  intro other m hm
  refine ⟨if m.module.name = name then f m else m, ?_, ?_⟩
  · rw [module?_updateModule hf, hm]
    rfl
  · split
    · exact hf m
    · rfl

theorem Coherent.registerTransport (h : d.Coherent) (role : TransportRole)
    (t : RegisteredTransport) : (d.registerTransport role t).Coherent := by
  cases role with
  | listener =>
    exact h.untouched h.tree rfl (fun _ => rfl) rfl (fun _ m hm => ⟨m, hm, rfl⟩) rfl rfl
  | sender =>
    exact h.untouched h.tree rfl (fun _ => rfl) rfl (fun _ m hm => ⟨m, hm, rfl⟩) rfl rfl

/-- **Every step keeps a deployment coherent.** -/
theorem Coherent.step (h : d.Coherent) (hs : Step d e) : e.Coherent := by
  obtain ⟨root, hroot, hkind⟩ := h.tree.root_kind
  cases hs with
  | registerModule accepted => exact h.registerModule accepted
  | addService accepted =>
    exact h.attach accepted hroot (by rw [hkind]; rfl) rfl (fun _ _ hm => hm) rfl rfl
  | addOperation accepted => exact h.addOperation accepted
  | addTransport accepted =>
    exact h.attach accepted hroot (by rw [hkind]; rfl) rfl (fun _ _ hm => hm) rfl rfl
  | addParameter accepted => exact h.addParameter accepted
  | initBegins => exact h.updateModule _ fun _ => rfl
  | initEnds => exact h.updateModule _ fun _ => rfl
  | engage ready accepted => exact h.engage ready accepted
  | disengage accepted => exact h.disengage accepted
  | addHandler taken => exact h.addHandler taken
  | declarePhases accepted => exact h.declarePhases accepted
  | chain resolved => exact h.chain resolved
  | registerTransport role t => exact h.registerTransport role t

/-- Any number of steps keeps a deployment coherent. -/
theorem Coherent.steps (h : d.Coherent) (hs : Relation.ReflTransGen Step d e) : e.Coherent := by
  induction hs with
  | refl => exact h
  | tail _ hstep ih => exact ih.step hstep

end Deployment

end ExchangePipeline
