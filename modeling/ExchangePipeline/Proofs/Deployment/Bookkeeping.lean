/-
  ExchangePipeline/Proofs/Deployment/Bookkeeping.lean
  ===================================================
  **The records of a deployment agree.**

  A deployment keeps its modules twice, in the registry and as nodes of the tree;
  what is engaged stands in the tree, what is declared and what is cached in tables
  of their own that refer to the tree by numbers and names.  Different operations
  change these records, one at a time, and some take their change back again.

  `Deployment.Consistent` adds to `Coherent` what the records say of each other.  A
  step adds a node (`Consistent.attach`), leaves the shape of the tree alone
  (`Consistent.sameShape`), or touches declarations or the cache only; so it stays
  consistent (`Consistent.step`), and with it every later moment.
-/
import ExchangePipeline.Proofs.Deployment.Readiness
import ExchangePipeline.Proofs.Tree.Arena

namespace ExchangePipeline

namespace Tree

/-! ### Nodes of a kind -/

/-- The names of all nodes of a kind, in order of creation. -/
def namesOf (tree : Tree) (kind : NodeKind) : List String :=
  (tree.nodes.filter fun node => node.kind = kind).map Node.name

variable {tree t : Tree}

theorem namesOf_attach {parent id : NodeId} {kind : NodeKind} {name : String}
    (ha : tree.attach parent kind name = .ok (id, t)) (k : NodeKind) :
    t.namesOf k = tree.namesOf k ++ if kind = k then [name] else [] := by
  obtain ⟨-, -, rfl⟩ := eq_of_attach ha
  by_cases hk : kind = k
  · simp [namesOf, Node.fresh, hk]
  · simp [namesOf, Node.fresh, hk]

theorem namesOf_shell (tree : Tree) (kind : NodeKind) :
    tree.shell.namesOf kind = tree.namesOf kind := by
  simp only [namesOf, shell, List.filter_map, List.map_map]
  rfl

theorem SameShape.namesOf_eq (h : SameShape t tree) (kind : NodeKind) :
    t.namesOf kind = tree.namesOf kind := by
  rw [← namesOf_shell t, ← namesOf_shell tree, show t.shell = tree.shell from h]

theorem Contributes.attach {parent id i : NodeId} {kind : NodeKind} {name : String}
    (h : tree.Contributes i) (ha : tree.attach parent kind name = .ok (id, t)) :
    t.Contributes i := by
  obtain ⟨node, hn, hk⟩ := h
  exact ⟨node, node?_of_attach ha hn, hk⟩

end Tree

namespace Deployment

/-- A deployment whose records say the same of each other. -/
structure Consistent (d : Deployment) : Prop where
  /-- Registry and tree have the same modules, in the same order. -/
  modules : d.moduleNames = d.tree.namesOf .module
  /-- Modules are engaged, and handlers declared, where they contribute. -/
  engaged : ∀ id, d.engagedAt id ≠ [] → d.tree.Contributes id
  declared : ∀ entry ∈ d.declared, d.tree.Contributes entry.1.1
  declared_nodup : (d.declared.map Prod.fst).Nodup
  cache_nodup : (d.cache.map Prod.fst).Nodup

theorem consistent_empty (settings : EngineSettings) : (Deployment.empty settings).Consistent where
  modules := rfl
  engaged id hid := by
    cases id with
    | zero => exact absurd rfl hid
    | succ id => exact absurd rfl hid
  declared _ hentry := by cases hentry
  declared_nodup := List.nodup_nil
  cache_nodup := List.nodup_nil

variable {d e : Deployment}

/-! ### Steps that change the tree or the modules -/

/-- **A new node** keeps a deployment consistent, if a module node comes with its module. -/
theorem Consistent.attach (h : d.Consistent) {parent id : NodeId} {kind : NodeKind} {label : String}
    (ha : d.tree.attach parent kind label = .ok (id, e.tree))
    (hmodules : e.moduleNames = d.moduleNames ++ if kind = .module then [label] else [])
    (hdeclared : e.declared = d.declared) (hcache : e.cache = d.cache) : e.Consistent := by
  refine ⟨?_, ?_, ?_, hdeclared ▸ h.declared_nodup, hcache ▸ h.cache_nodup⟩
  · rw [hmodules, h.modules, Tree.namesOf_attach ha]
  · intro i hi
    rw [engagedAt_attach ha] at hi
    exact (h.engaged i hi).attach ha
  · intro entry hentry
    exact (h.declared entry (hdeclared ▸ hentry)).attach ha

/-- **A step that leaves the shape of the tree alone** keeps a deployment consistent, if it engages
    modules where they contribute. -/
theorem Consistent.sameShape (h : d.Consistent) (hshape : Tree.SameShape e.tree d.tree)
    (hmodules : e.moduleNames = d.moduleNames)
    (hengaged : ∀ id, e.engagedAt id ≠ [] → d.engagedAt id ≠ [] ∨ d.tree.Contributes id)
    (hdeclared : e.declared = d.declared) (hcache : e.cache = d.cache) : e.Consistent := by
  refine ⟨?_, ?_, ?_, hdeclared ▸ h.declared_nodup, hcache ▸ h.cache_nodup⟩
  · rw [hmodules, h.modules, hshape.namesOf_eq]
  · intro id hid
    rw [hshape.contributes_iff]
    rcases hengaged id hid with hold | hnew
    · exact h.engaged id hold
    · exact hnew
  · intro entry hentry
    exact (hshape.contributes_iff _).2 (h.declared entry (hdeclared ▸ hentry))

/-- Dropping chains keeps a deployment consistent. -/
theorem Consistent.invalidate (h : d.Consistent) (scope : Scope) :
    (d.invalidate scope).Consistent where
  modules := h.modules
  engaged := h.engaged
  declared := h.declared
  declared_nodup := h.declared_nodup
  cache_nodup := h.cache_nodup.sublist (List.filter_sublist.map Prod.fst)

theorem Consistent.registerModule (h : d.Consistent) {module : Module} {id : NodeId}
    (he : d.registerModule module = (.ok id, e)) : e.Consistent := by
  obtain ⟨-, tree, ha, rfl⟩ := registerModule_ok he
  exact h.attach ha (by simp [moduleNames]) rfl rfl

theorem Consistent.addParameter (h : d.Consistent) {node : NodeId} {parameter : Parameter}
    {tree : Tree} (ha : d.tree.addParameter node parameter = .ok tree) :
    { d with tree }.Consistent := by
  obtain ⟨hshape, hsame⟩ := Tree.addParameter_ok ha
  refine h.sameShape hshape rfl (fun id hid => Or.inl ?_) rfl rfl
  rwa [engagedAt_eq, hsame id, ← engagedAt_eq] at hid

theorem Consistent.updateModule (h : d.Consistent) (name : String)
    {f : RegisteredModule → RegisteredModule} (hf : ∀ m, (f m).module = m.module) :
    (d.updateModule name f).Consistent :=
  h.sameShape rfl (moduleNames_updateModule hf name) (fun _ => Or.inl) rfl rfl

/-- Changing the engagements at the node of a scope keeps a deployment consistent. -/
theorem Consistent.setEngaged (h : d.Consistent) (hw : d.tree.WellFormed) {scope : Scope}
    {id : NodeId} {node : Node} (hs : d.tree.scopeNode scope = .ok id)
    (hn : d.tree.node? id = some node) (g : List String → List String) :
    ({ d with tree := d.tree.setEngaged id g }.invalidate scope).Consistent := by
  apply Consistent.invalidate
  refine h.sameShape (d.tree.sameShape_setEngaged id g) rfl ?_ rfl rfl
  intro i hi
  by_cases hid : i = id
  · exact Or.inr (hid ▸ hw.contributes_of_scopeNode hs)
  · rw [engagedAt_setEngaged hn, if_neg hid] at hi
    exact Or.inl hi

theorem Consistent.engage (h : d.Consistent) (hw : d.tree.WellFormed) {module : String}
    {scope : Scope} {added : Bool} (he : d.engage module scope = (.ok added, e)) :
    e.Consistent := by
  obtain ⟨id, hs, ⟨-, rfl, -⟩ | ⟨-, tree, ht, -, rfl⟩⟩ := engage_ok he
  · exact h
  obtain ⟨node, hn, ⟨hno, -⟩ | ⟨-, -, rfl⟩⟩ := Tree.engage_ok ht
  · cases hno
  exact h.setEngaged hw hs hn _

theorem Consistent.disengage (h : d.Consistent) (hw : d.tree.WellFormed) {module : String}
    {scope : Scope} {removed : Bool} (he : d.disengage module scope = .ok (removed, e)) :
    e.Consistent := by
  obtain ⟨id, hs, ⟨-, rfl, -⟩ | ⟨-, tree, ht, rfl⟩⟩ := disengage_ok he
  · exact h
  obtain ⟨node, hn, ⟨hno, -⟩ | ⟨-, -, rfl⟩⟩ := Tree.disengage_ok ht
  · cases hno
  exact h.setEngaged hw hs hn _

/-! ### Steps that change declarations or the cache -/

theorem keys_declareHandler (key : NodeId × Flow) (link : Link Handler)
    (declared : List ((NodeId × Flow) × List (Link Handler))) :
    (declareHandler key link declared).map Prod.fst =
      if key ∈ declared.map Prod.fst then declared.map Prod.fst
      else declared.map Prod.fst ++ [key] := by
  induction declared with
  | nil => rfl
  | cons entry rest ih =>
    obtain ⟨k, links⟩ := entry
    by_cases hk : k = key
    · simp [declareHandler, hk]
    · have hne : key ≠ k := Ne.symm hk
      rw [declareHandler, if_neg hk, List.map_cons, ih]
      by_cases hmem : key ∈ rest.map Prod.fst
      · simp [hmem]
      · simp [hmem, hne]

theorem nodup_keys_declareHandler {key : NodeId × Flow} {link : Link Handler}
    {declared : List ((NodeId × Flow) × List (Link Handler))}
    (h : (declared.map Prod.fst).Nodup) :
    ((declareHandler key link declared).map Prod.fst).Nodup := by
  rw [keys_declareHandler]
  split
  · exact h
  · rename_i hnew
    exact h.append (List.nodup_singleton key) (List.disjoint_singleton.2 hnew)

/-- A handler, accepted or not, keeps a deployment consistent. -/
theorem Consistent.addHandler (h : d.Consistent) (hc : d.Coherent) {scope : Scope} {flow : Flow}
    {link : Link Handler} {result : Except ConfigError Unit}
    (he : d.addHandler scope flow link = (result, e)) : e.Consistent := by
  cases result with
  | error error =>
    rw [addHandler_error hc.declared_nonempty he]
    exact h
  | ok done =>
    obtain ⟨id, hs, -, rfl⟩ := addHandler_ok he
    apply Consistent.invalidate
    refine ⟨h.modules, h.engaged, ?_, nodup_keys_declareHandler h.declared_nodup, h.cache_nodup⟩
    intro entry hentry
    rcases mem_declareHandler hentry with hkey | ⟨other, hother, hkey⟩
    · rw [hkey]
      exact hc.tree.contributes_of_scopeNode hs
    · exact hkey ▸ h.declared other hother

theorem Consistent.chain (h : d.Consistent) {key : ChainKey} {chain : Chain Handler}
    (hchain : d.chain key = .ok (chain, e)) : e.Consistent := by
  obtain ⟨-, -, -, rfl⟩ | ⟨hnew, -, -, -, rfl⟩ := chain_ok hchain
  · exact h
  · exact ⟨h.modules, h.engaged, h.declared, h.declared_nodup,
      nodup_keys_concat h.cache_nodup hnew⟩

/-! ### All steps -/

/-- **Every step** keeps a deployment consistent. -/
theorem Consistent.step (h : d.Consistent) (hc : d.Coherent) (hs : Step d e) : e.Consistent := by
  cases hs with
  | registerModule accepted => exact h.registerModule accepted
  | addService accepted => exact h.attach accepted (by simp [moduleNames]) rfl rfl
  | addTransport accepted => exact h.attach accepted (by simp [moduleNames]) rfl rfl
  | addOperation accepted =>
    obtain ⟨parent, -, ha⟩ := Tree.addOperation_ok accepted
    exact h.attach ha (by simp [moduleNames]) rfl rfl
  | addParameter accepted => exact h.addParameter accepted
  | initBegins => exact h.updateModule _ fun _ => rfl
  | initEnds => exact h.updateModule _ fun _ => rfl
  | engage _ accepted => exact h.engage hc.tree accepted
  | disengage accepted => exact h.disengage hc.tree accepted
  | addHandler taken => exact h.addHandler hc taken
  | declarePhases accepted =>
    obtain ⟨-, rfl⟩ := declarePhases_ok accepted
    apply Consistent.invalidate
    exact ⟨h.modules, h.engaged, h.declared, h.declared_nodup, h.cache_nodup⟩
  | chain resolved => exact h.chain resolved
  | registerTransport role t =>
    cases role with
    | listener => exact ⟨h.modules, h.engaged, h.declared, h.declared_nodup, h.cache_nodup⟩
    | sender => exact ⟨h.modules, h.engaged, h.declared, h.declared_nodup, h.cache_nodup⟩

/-- **Any number of steps** does. -/
theorem Consistent.steps (h : d.Consistent) (hc : d.Coherent)
    (hs : Relation.ReflTransGen Step d e) : e.Consistent := by
  induction hs with
  | refl => exact h
  | tail hbefore hstep ih => exact ih.step (hc.steps hbefore) hstep

end Deployment

end ExchangePipeline
