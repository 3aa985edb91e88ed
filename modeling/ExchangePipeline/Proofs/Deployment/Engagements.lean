/-
  ExchangePipeline/Proofs/Deployment/Engagements.lean
  ===================================================
  **What engagements come to.**

  An engagement adds the handlers of a module to every chain below its scope, and
  adds them once, wherever else on the way the module is engaged: what an operation
  gets are the handlers of the modules on its way, each module once, and the
  handlers declared there (`Coherent.chain_perm`).  What a module gives is what it
  gave when it was registered (`registered_iff`).

  So one more engagement below another one changes no chain (`Coherent.engage_below`),
  an engagement that ends can be made again, and then brings back the handlers of
  every phase (`Coherent.engage_of_disengage`), and one that is made and ended leaves
  the tree as it was (`disengage_of_engage`).
-/
import Mathlib.Data.List.Dedup
import ExchangePipeline.Proofs.Chain.Comparison
import ExchangePipeline.Proofs.Deployment.Readiness
import ExchangePipeline.Proofs.Session.Reachable

namespace ExchangePipeline

namespace Deployment

variable {d e : Deployment} {settings : EngineSettings}

/-! ### Modules keep what they were registered with -/

/-- The module was registered on the way from the empty deployment to `d`. -/
def Registered (settings : EngineSettings) (module : Module) (d : Deployment) : Prop :=
  ∃ before id after, Relation.ReflTransGen Step (.empty settings) before ∧
    before.registerModule module = (.ok id, after) ∧ Relation.ReflTransGen Step after d

/-- A registered module stays what it is, whatever becomes of its setup. -/
theorem Step.module?_of_earlier (hs : Step d e) {name : String} {m : RegisteredModule}
    (hm : d.module? name = some m) : ∃ m', e.module? name = some m' ∧ m'.module = m.module := by
  obtain hsame | ⟨module, id, -, -, hsame⟩ | ⟨other, -, f, -, -, hf, rfl⟩ := hs.modules_forms
  · exact ⟨m, by rw [module?, hsame, ← module?, hm], rfl⟩
  · exact ⟨m, by rw [module?_of_append hsame, hm, Option.some_or], rfl⟩
  · refine ⟨_, by rw [module?_updateModule hf, hm, Option.map_some], ?_⟩
    split
    · exact hf m
    · rfl

/-- A module that is found after a step was there before, or is registered by it. -/
theorem Step.module?_of_later (hs : Step d e) {name : String} {m : RegisteredModule}
    (hm : e.module? name = some m) :
    (∃ m', d.module? name = some m' ∧ m'.module = m.module) ∨
      ∃ id, d.registerModule m.module = (.ok id, e) := by
  obtain hsame | ⟨module, id, haccepted, -, hsame⟩ | ⟨other, -, f, -, -, hf, rfl⟩ :=
    hs.modules_forms
  · exact Or.inl ⟨m, by rw [module?, ← hsame, ← module?, hm], rfl⟩
  · rw [module?_of_append hsame] at hm
    cases hold : d.module? name with
    | some m' =>
      rw [hold, Option.some_or, Option.some.injEq] at hm
      exact Or.inl ⟨m', rfl, by rw [hm]⟩
    | none =>
      rw [hold, Option.none_or] at hm
      split at hm
      · cases hm
        exact Or.inr ⟨id, haccepted⟩
      · cases hm
  · rw [module?_updateModule hf] at hm
    obtain ⟨m', hm', rfl⟩ := Option.map_eq_some_iff.1 hm
    refine Or.inl ⟨m', hm', ?_⟩
    split
    · exact (hf m').symm
    · rfl

theorem module?_of_steps (h : Relation.ReflTransGen Step d e) {name : String}
    {m : RegisteredModule} (hm : d.module? name = some m) :
    ∃ m', e.module? name = some m' ∧ m'.module = m.module := by
  induction h with
  | refl => exact ⟨m, hm, rfl⟩
  | tail _ hstep ih =>
    obtain ⟨m', hm', hsame⟩ := ih
    obtain ⟨m'', hm'', hsame'⟩ := hstep.module?_of_earlier hm'
    exact ⟨m'', hm'', hsame'.trans hsame⟩

/-- **The module of a name is the one that was registered under it**, at any later moment. -/
theorem registered_iff (h : Relation.ReflTransGen Step (.empty settings) d) {module : Module} :
    Registered settings module d ↔ ∃ m, d.module? module.name = some m ∧ m.module = module := by
  constructor
  · rintro ⟨before, id, after, -, haccepted, hlater⟩
    obtain ⟨hnew, tree, -, rfl⟩ := registerModule_ok haccepted
    refine module?_of_steps hlater (m := { module, attempts := 0, status := .pending }) ?_
    rw [module?_of_append (d := before) rfl, hnew, Option.none_or, if_pos rfl]
  · rintro ⟨m, hm, rfl⟩
    generalize hname : m.module.name = name at hm
    clear hname
    induction h generalizing m with
    | refl => cases hm
    | @tail before after hearlier hstep ih =>
      obtain ⟨m', hm', hsame⟩ | ⟨id, haccepted⟩ := hstep.module?_of_later hm
      · obtain ⟨first, id, second, hfirst, haccepted, hsecond⟩ := ih m' hm'
        exact ⟨first, id, second, hfirst, hsame ▸ haccepted, hsecond.tail hstep⟩
      · exact ⟨before, id, after, hearlier, haccepted, .refl⟩

/-- Modules that are found by their names, with the handlers that they give. -/
theorem exists_modules {names : List String}
    (h : ∀ name ∈ names, ∃ m, d.module? name = some m) :
    ∃ modules : List Module, modules.map ModuleOf.name = names ∧
      (∀ module ∈ modules, ∃ m, d.module? module.name = some m ∧ m.module = module) ∧
      ∀ flow, names.flatMap (d.moduleHandlers flow) =
        modules.flatMap fun module => module.handlers flow := by
  induction names with
  | nil => exact ⟨[], rfl, by simp, fun _ => rfl⟩
  | cons name rest ih =>
    obtain ⟨m, hm⟩ := h name List.mem_cons_self
    obtain ⟨modules, hnames, hfound, hhandlers⟩ :=
      ih fun other hother => h other (List.mem_cons_of_mem _ hother)
    have hname : m.module.name = name := module?_name hm
    refine ⟨m.module :: modules, by rw [List.map_cons, hname, hnames], ?_, ?_⟩
    · exact List.forall_mem_cons.2 ⟨⟨m, by rw [hname, hm], rfl⟩, hfound⟩
    · intro flow
      rw [List.flatMap_cons, List.flatMap_cons, hhandlers, moduleHandlers, hm]

/-! ### The handlers of a chain -/

/-- The modules on the way to an operation are those of its three levels, each once. -/
theorem Coherent.engagedOnWay_perm (h : d.Coherent) {service operation : String} {p id : NodeId}
    (hp : d.tree.service? service = some p) (ho : d.tree.operation? service operation = some id) :
    (d.engagedOnWay id).Perm (d.engagedAt rootId ++ d.engagedAt p ++ d.engagedAt id).dedup := by
  obtain ⟨p', hp', -, -, -, hpath⟩ := h.tree.ancestry_operation ho
  rw [hp, Option.some.injEq] at hp'
  subst hp'
  have hnodup : (d.engagedOnWay id).Nodup :=
    nodup_engagedAlong fun i _ => nodup_engagedAt h.tree i
  rw [List.perm_ext_iff_of_nodup hnodup (List.nodup_dedup _)]
  intro name
  simp only [mem_engagedOnWay, hpath, List.mem_dedup, List.mem_append, List.mem_cons,
    List.not_mem_nil, or_false, exists_eq_or_imp, exists_eq_left]
  constructor
  · rintro (hid | hservice | hroot)
    · exact Or.inr hid
    · exact Or.inl (Or.inr hservice)
    · exact Or.inl (Or.inl hroot)
  · rintro ((hroot | hservice) | hid)
    · exact Or.inr (Or.inr hroot)
    · exact Or.inr (Or.inl hservice)
    · exact Or.inl hid

/-- **The handlers of a chain**, up to their order: those of the modules engaged at the three levels
    of the operation, each module once, and those declared at the three levels. -/
theorem Coherent.chain_perm (h : d.Coherent) {key : ChainKey} {chain : Chain Handler}
    (hchain : d.chain key = .ok (chain, e)) {p id : NodeId}
    (hp : d.tree.service? key.service = some p)
    (ho : d.tree.operation? key.service key.operation = some id) :
    chain.links.Perm
      ((d.engagedAt rootId ++ d.engagedAt p ++ d.engagedAt id).dedup.flatMap
          (d.moduleHandlers key.flow) ++
        (d.declaredAt rootId key.flow ++ d.declaredAt p key.flow ++ d.declaredAt id key.flow)) := by
  obtain ⟨id', ho', hresolve⟩ := h.resolveAt_of_chain hchain
  rw [ho, Option.some.injEq] at ho'
  subst ho'
  obtain ⟨p', hp', -, -, -, hpath⟩ := h.tree.ancestry_operation ho
  rw [hp, Option.some.injEq] at hp'
  subst hp'
  have hdeclared : ((d.tree.ancestry id).reverse.flatMap fun i => d.declaredAt i key.flow) =
      d.declaredAt rootId key.flow ++ d.declaredAt p key.flow ++ d.declaredAt id key.flow := by
    simp [hpath]
  have hcontributed := (perm_of_resolve hresolve).trans (contributions_perm d id key.flow)
  rw [hdeclared] at hcontributed
  exact hcontributed.trans (((h.engagedOnWay_perm hp ho).flatMap_right _).append_right _)

/-! ### Chains of two deployments -/

/-- Two coherent deployments of one shape answer alike if they resolve alike. -/
theorem Coherent.map_fst_chain_congr (hd : d.Coherent) (he : e.Coherent)
    (hshape : Tree.SameShape e.tree d.tree)
    (hresolve : ∀ id, d.tree.Contributes id → ∀ flow, e.resolveAt id flow = d.resolveAt id flow)
    (key : ChainKey) : (e.chain key).map Prod.fst = (d.chain key).map Prod.fst := by
  rw [he.map_fst_chain, hd.map_fst_chain, hshape.scopeNode_eq]
  cases hs : d.tree.scopeNode (.operation key.service key.operation) with
  | error error => rfl
  | ok id => exact hresolve id (hd.tree.contributes_of_scopeNode hs) key.flow

/-- Where the same modules are engaged at every node, in whatever order, every node gets the same
    handlers. -/
theorem contributions_perm_of_engaged (hd : d.tree.WellFormed) (he : e.tree.WellFormed)
    (hshape : Tree.SameShape e.tree d.tree)
    (hengaged : ∀ i, (e.engagedAt i).Perm (d.engagedAt i))
    (hdeclared : e.declared = d.declared) (hmodules : e.modules = d.modules) (id : NodeId)
    (flow : Flow) : (e.contributions id flow).Perm (d.contributions id flow) := by
  have hdecl : ∀ i, e.declaredAt i flow = d.declaredAt i flow :=
    fun i => by rw [declaredAt, declaredAt, hdeclared]
  have hmod : ∀ name, e.moduleHandlers flow name = d.moduleHandlers flow name :=
    fun name => by rw [moduleHandlers, moduleHandlers, module?, module?, hmodules]
  refine List.Subperm.antisymm ?_ ?_
  · exact contributions_subperm (hshape.ancestry_eq id) (nodup_engagedAt he)
      (fun i => (hengaged i).subset) hdecl hmod
  · exact contributions_subperm (hshape.symm.ancestry_eq id) (nodup_engagedAt hd)
      (fun i => (hengaged i).symm.subset) (fun i => (hdecl i).symm) (fun name => (hmod name).symm)

/-- Dropping chains does not change what they resolve to. -/
theorem resolveAt_invalidate (d : Deployment) (scope : Scope) (id : NodeId) (flow : Flow) :
    (d.invalidate scope).resolveAt id flow = d.resolveAt id flow :=
  @resolveAt_of_eq d (d.invalidate scope) rfl rfl rfl rfl id flow

/-! ### Engagements that are accepted -/

/-- The deployment with a module engaged at a node behind the others, before that is validated. -/
def engageAt (d : Deployment) (id : NodeId) (module : String) : Deployment :=
  { d with tree := d.tree.setEngaged id fun engaged => engaged ++ [module] }

theorem sameShape_engageAt (d : Deployment) (id : NodeId) (module : String) :
    Tree.SameShape (d.engageAt id module).tree d.tree :=
  d.tree.sameShape_setEngaged id _

theorem engagedAt_engageAt {id : NodeId} (hid : d.tree.Contributes id) (module : String)
    (i : NodeId) : (d.engageAt id module).engagedAt i =
      if i = id then d.engagedAt id ++ [module] else d.engagedAt i := by
  obtain ⟨node, hn, -⟩ := hid
  have hhere : d.engagedAt id = node.engaged := by rw [engagedAt, hn]
  rw [hhere]
  exact engagedAt_setEngaged hn _ i

theorem wellFormed_engageAt (htree : d.tree.WellFormed) {id : NodeId} {module : String}
    (hnew : module ∉ d.engagedAt id) : (d.engageAt id module).tree.WellFormed := by
  refine htree.setEngaged (g := fun engaged => engaged ++ [module]) fun node hn => ?_
  rw [engagedAt, hn] at hnew
  exact (htree.engaged_nodup id node hn).append (List.nodup_singleton _)
    (List.disjoint_singleton.2 hnew)

/-- An engagement that is new is accepted if everything below it resolves with it. -/
theorem engage_of_resolves (htree : d.tree.WellFormed) {module : String} {scope : Scope}
    {id : NodeId} (hs : d.tree.scopeNode scope = .ok id) (hnew : module ∉ d.engagedAt id)
    (hall : ∀ j, d.tree.Contributes j → id ∈ d.tree.ancestry j → ∀ flow, ∃ chain,
      (d.engageAt id module).resolveAt j flow = .ok chain) :
    d.engage module scope = (.ok true, (d.engageAt id module).invalidate scope) := by
  have hshape := d.sameShape_engageAt id module
  have hvalid : (d.engageAt id module).validate d.order scope id = .ok () := by
    refine (validate_ok_iff (wellFormed_engageAt htree hnew)
      ((hshape.scopeNode_eq scope).trans hs)).2 ?_
    intro j hj hmem
    exact hall j ((hshape.contributes_iff j).1 hj) (hshape.ancestry_eq j ▸ hmem)
  have htried : d.tree.engage id module = .ok (true, (d.engageAt id module).tree) := by
    obtain ⟨node, hn, -⟩ := htree.contributes_of_scopeNode hs
    rw [engagedAt, hn] at hnew
    simp only [Tree.engage, hn, if_neg hnew]
    rfl
  simp only [Deployment.engage, hs, htried]
  rw [show { d with tree := (d.engageAt id module).tree } = d.engageAt id module from rfl, hvalid]

/-- An engagement that is there is not made again. -/
theorem engage_of_engaged {module : String} {scope : Scope} {id : NodeId}
    (hs : d.tree.scopeNode scope = .ok id) (hmem : module ∈ d.engagedAt id) :
    d.engage module scope = (.ok false, d) := by
  rw [engagedAt] at hmem
  cases hn : d.tree.node? id with
  | none =>
    rw [hn] at hmem
    cases hmem
  | some node =>
    rw [hn] at hmem
    have htried : d.tree.engage id module = .ok (false, d.tree) := by
      simp only [Tree.engage, hn, if_pos hmem]
    simp only [Deployment.engage, hs, htried]

/-! ### An engagement below another -/

/-- Once a module has been met, it does not matter where else it is engaged. -/
theorem contributionsAlong_of_seen {flow : Flow} {seen : List String} {path : List NodeId}
    {module : String} (hseen : module ∈ seen)
    (hengaged : ∀ i, (e.engagedAt i).filter (· ≠ module) = (d.engagedAt i).filter (· ≠ module))
    (hdeclared : ∀ i, e.declaredAt i flow = d.declaredAt i flow)
    (hmodule : e.moduleHandlers flow = d.moduleHandlers flow) :
    e.contributionsAlong flow seen path = d.contributionsAlong flow seen path := by
  induction path generalizing seen with
  | nil => rfl
  | cons id rest ih =>
    -- what was seen includes the module, so leaving it out first makes no difference
    have hunseen : ∀ names : List String, (names.filter fun name => name ∉ seen) =
        (names.filter (· ≠ module)).filter fun name => name ∉ seen := by
      intro names
      rw [List.filter_filter]
      refine List.filter_congr fun name _ => ?_
      by_cases hname : name = module
      · simp [hname, hseen]
      · simp [hname]
    have hhere : ((e.engagedAt id).filter fun name => name ∉ seen) =
        (d.engagedAt id).filter fun name => name ∉ seen := by
      rw [hunseen, hengaged, ← hunseen]
    rw [contributionsAlong, contributionsAlong, hhere, hmodule, hdeclared,
      ih (List.mem_append_left _ hseen)]

/-- Below a node where a module is engaged, it does not matter where else it is engaged. -/
theorem contributionsAlong_of_engaged {flow : Flow} {seen : List String} {above below : List NodeId}
    {i : NodeId} {module : String} (hmem : module ∈ d.engagedAt i)
    (habove : ∀ k ∈ above ++ [i], e.engagedAt k = d.engagedAt k)
    (hengaged : ∀ k, (e.engagedAt k).filter (· ≠ module) = (d.engagedAt k).filter (· ≠ module))
    (hdeclared : ∀ k, e.declaredAt k flow = d.declaredAt k flow)
    (hmodule : e.moduleHandlers flow = d.moduleHandlers flow) :
    e.contributionsAlong flow seen (above ++ i :: below) =
      d.contributionsAlong flow seen (above ++ i :: below) := by
  induction above generalizing seen with
  | nil =>
    have hmet : module ∈ seen ++ (d.engagedAt i).filter fun name => name ∉ seen := by
      by_cases hseen : module ∈ seen
      · exact List.mem_append_left _ hseen
      · exact List.mem_append_right _ (List.mem_filter.2 ⟨hmem, by simpa using hseen⟩)
    rw [List.nil_append, contributionsAlong, contributionsAlong, habove i (by simp), hmodule,
      hdeclared, contributionsAlong_of_seen hmet hengaged hdeclared hmodule]
  | cons k rest ih =>
    rw [List.cons_append, contributionsAlong, contributionsAlong, habove k (by simp), hmodule,
      hdeclared, ih fun k' hk' => habove k' (List.mem_cons_of_mem _ hk')]

/-- A node does not lie above itself. -/
theorem not_mem_above (htree : d.tree.WellFormed) {j : NodeId} (hj : d.tree.Contributes j)
    {above : List NodeId} (hpath : d.tree.ancestry j = j :: above) : j ∉ above := by
  rcases htree.contributes_cases hj with ⟨-, hway⟩ | ⟨hne, -, hway⟩ |
    ⟨hne, -, -, p, -, -, -, hpj, hway⟩
  · rw [hway] at hpath
    simp [← (List.cons.inj hpath).2]
  · rw [hway] at hpath
    simp [← (List.cons.inj hpath).2, hne]
  · rw [hway] at hpath
    simp [← (List.cons.inj hpath).2, hne, Ne.symm hpj]

/-- **One more engagement below another** reaches no chain. -/
theorem Coherent.resolveAt_engageAt_below (h : d.Coherent) {module : String} {i j : NodeId}
    (hj : d.tree.Contributes j) (hbelow : i ∈ d.tree.ancestry j) (hmem : module ∈ d.engagedAt i)
    (hnew : module ∉ d.engagedAt j) (id : NodeId) (flow : Flow) :
    (d.engageAt j module).resolveAt id flow = d.resolveAt id flow := by
  by_cases hreach : j ∈ d.tree.ancestry id
  · obtain ⟨lower, rest, hlower⟩ := List.append_of_mem hreach
    have hpath := h.tree.ancestry_of_split hlower
    have hrest : i ∈ rest := by
      rw [hpath] at hbelow
      refine (List.mem_cons.1 hbelow).resolve_left ?_
      rintro rfl
      exact hnew hmem
    obtain ⟨mid, above, rfl⟩ := List.append_of_mem hrest
    have hnot := not_mem_above h.tree hj hpath
    -- from the root downwards, the module is met before the node where it is engaged once more
    have hway : (d.tree.ancestry id).reverse =
        above.reverse ++ i :: (mid.reverse ++ j :: lower.reverse) := by
      simp [hlower]
    refine resolveAt_congr rfl ?_
    rw [contributions, contributions, (d.sameShape_engageAt j module).ancestry_eq, hway]
    refine contributionsAlong_of_engaged hmem ?_ ?_ (fun _ => rfl) rfl
    · intro k hk
      rw [engagedAt_engageAt hj, if_neg]
      rintro rfl
      simp only [List.mem_append, List.mem_reverse, List.mem_singleton] at hk
      simp only [List.mem_append, List.mem_cons, not_or] at hnot
      rcases hk with hk | rfl
      · exact hnot.2.2 hk
      · exact hnot.2.1 rfl
    · intro k
      rw [engagedAt_engageAt hj]
      by_cases hk : k = j
      · rw [if_pos hk, hk, List.filter_append]
        simp
      · rw [if_neg hk]
  · obtain ⟨node, hn, -⟩ := hj
    exact resolveAt_setEngaged_elsewhere hn _ hreach flow

/-- An engagement below another is accepted, unless it is there already, and leaves every chain as
    it is. -/
theorem Coherent.engage_below (h : d.Coherent) {module : String} {scope : Scope} {i j : NodeId}
    (hready : d.isReady module = true) (hs : d.tree.scopeNode scope = .ok j)
    (hbelow : i ∈ d.tree.ancestry j) (hmem : module ∈ d.engagedAt i) :
    ∃ e, d.engage module scope = (.ok (decide (module ∉ d.engagedAt j)), e) ∧
      ∀ key, (e.chain key).map Prod.fst = (d.chain key).map Prod.fst := by
  by_cases hthere : module ∈ d.engagedAt j
  · refine ⟨d, ?_, fun _ => rfl⟩
    rw [engage_of_engaged hs hthere, decide_eq_false (not_not_intro hthere)]
  · have hj := h.tree.contributes_of_scopeNode hs
    have hsame := h.resolveAt_engageAt_below hj hbelow hmem hthere
    have hmade := engage_of_resolves h.tree hs hthere fun k hk _ flow => by
      rw [hsame]
      exact h.resolves k hk flow
    refine ⟨_, by rw [hmade, decide_eq_true hthere], ?_⟩
    refine h.map_fst_chain_congr (h.engage hready hmade) (d.sameShape_engageAt j module) ?_
    intro k _ flow
    rw [resolveAt_invalidate, hsame]

/-! ### Engagements that end, and begin again -/

/-- Taking a name out of a list and putting it behind the others keeps what is in the list. -/
theorem filter_ne_append_perm {names : List String} {name : String} (hnodup : names.Nodup)
    (hmem : name ∈ names) : (names.filter (· ≠ name) ++ [name]).Perm names := by
  have herase : names.erase name = names.filter (· ≠ name) := by
    rw [hnodup.erase_eq_filter]
    exact List.filter_congr fun other _ => by rw [bne, beq_eq_decide, decide_not]
  rw [← herase]
  exact (List.perm_append_singleton _ _).trans (List.perm_cons_erase hmem).symm

/-- What the end of an engagement changes: the module is taken out at one node. -/
theorem disengage_engagedAt {module : String} {scope : Scope}
    (he : d.disengage module scope = .ok (true, e)) :
    ∃ id, d.tree.scopeNode scope = .ok id ∧ module ∈ d.engagedAt id ∧
      Tree.SameShape e.tree d.tree ∧ e.order = d.order ∧ e.declared = d.declared ∧
      e.modules = d.modules ∧ ∀ i, e.engagedAt i =
        if i = id then (d.engagedAt id).filter (· ≠ module) else d.engagedAt i := by
  obtain ⟨id, hs, ⟨hno, -⟩ | ⟨-, tree, ht, rfl⟩⟩ := disengage_ok he
  · cases hno
  obtain ⟨node, hn, ⟨hno, -⟩ | ⟨-, hmem, rfl⟩⟩ := Tree.disengage_ok ht
  · cases hno
  have hhere : d.engagedAt id = node.engaged := by rw [Deployment.engagedAt, hn]
  refine ⟨id, hs, hhere ▸ hmem, d.tree.sameShape_setEngaged id _, rfl, rfl, rfl, ?_⟩
  rw [hhere]
  exact engagedAt_setEngaged hn fun engaged => engaged.filter (· ≠ module)

/-- **An engagement that ended can be made again**, and every phase of every chain then has the
    handlers back that it had. -/
theorem Coherent.engage_of_disengage (h : d.Coherent) {module : String} {scope : Scope}
    (he : d.disengage module scope = .ok (true, e)) :
    ∃ f, e.engage module scope = (.ok true, f) ∧ Tree.SameShape f.tree d.tree ∧
      ∀ id, d.tree.Contributes id → ∀ flow, ∃ chain other, d.resolveAt id flow = .ok chain ∧
        f.resolveAt id flow = .ok other ∧ other.PhaseByPhase List.Perm chain := by
  have hended := h.disengage he
  obtain ⟨id, hs, hmem, hshape, horder, hdeclared, hmodules, hremoved⟩ := disengage_engagedAt he
  have hs' : e.tree.scopeNode scope = .ok id := (hshape.scopeNode_eq scope).trans hs
  have hnew : module ∉ e.engagedAt id := by
    rw [hremoved, if_pos rfl]
    simp
  have hagain : Tree.SameShape (e.engageAt id module).tree d.tree :=
    (e.sameShape_engageAt id module).trans hshape
  -- the module stands behind the others now, and nothing else is different
  have hengaged : ∀ i, ((e.engageAt id module).engagedAt i).Perm (d.engagedAt i) := by
    intro i
    rw [engagedAt_engageAt (hended.tree.contributes_of_scopeNode hs')]
    by_cases hi : i = id
    · rw [if_pos hi, hremoved, if_pos rfl, hi]
      exact filter_ne_append_perm (nodup_engagedAt h.tree id) hmem
    · rw [if_neg hi, hremoved, if_neg hi]
  have hresolve : ∀ j, d.tree.Contributes j → ∀ flow, ∃ chain other,
      d.resolveAt j flow = .ok chain ∧ (e.engageAt id module).resolveAt j flow = .ok other ∧
        other.PhaseByPhase List.Perm chain := by
    intro j hj flow
    obtain ⟨chain, hchain⟩ := h.resolves j hj flow
    have hperm : ((e.engageAt id module).contributions j flow).Perm (d.contributions j flow) :=
      contributions_perm_of_engaged h.tree (wellFormed_engageAt hended.tree hnew) hagain hengaged
        hdeclared hmodules j flow
    obtain ⟨other, hother, hphases⟩ := resolve_perm hchain hperm
    refine ⟨chain, other, hchain, ?_, hphases⟩
    rw [resolveAt, ← hother, ← horder]
    rfl
  have hmade := engage_of_resolves hended.tree hs' hnew fun j hj _ flow => by
    obtain ⟨-, other, -, hother, -⟩ := hresolve j ((hshape.contributes_iff j).1 hj) flow
    exact ⟨other, hother⟩
  refine ⟨_, hmade, hagain, fun j hj flow => ?_⟩
  rw [resolveAt_invalidate]
  exact hresolve j hj flow

/-- **An engagement that is made and then ended** leaves the tree as it was. -/
theorem disengage_of_engage {module : String} {scope : Scope}
    (he : d.engage module scope = (.ok true, e)) :
    e.disengage module scope = .ok (true, (d.invalidate scope).invalidate scope) := by
  obtain ⟨id, hs, ⟨hno, -⟩ | ⟨-, tree, ht, -, rfl⟩⟩ := engage_ok he
  · cases hno
  have hback : tree.disengage id module = .ok (true, d.tree) := Tree.disengage_of_engage ht
  have hs' : tree.scopeNode scope = .ok id := by
    obtain ⟨node, -, ⟨hno, -⟩ | ⟨-, -, rfl⟩⟩ := Tree.engage_ok ht
    · cases hno
    · exact ((d.tree.sameShape_setEngaged id _).scopeNode_eq scope).trans hs
  exact except_bind_ok.2 ⟨id, hs', except_bind_ok.2 ⟨(true, d.tree), hback, rfl⟩⟩

end Deployment

end ExchangePipeline
