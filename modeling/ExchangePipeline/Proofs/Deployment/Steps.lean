/-
  ExchangePipeline/Proofs/Deployment/Steps.lean
  =============================================
  **What one change of a deployment does.**

  Each operation gets one statement of everything that its success means, and all
  of them together are the steps that a deployment can take (`Step`).  A setup is
  two steps, one when it begins and one when it ends, so that the steps which its
  own program asks for stand between them.

  An operation that fails leaves the deployment as it was, also where it had
  changed it first and took the change back (`engage_error`, `addHandler_error`).
-/
import ExchangePipeline.Proofs.Tree.Changes
import ExchangePipeline.Deployment
import Mathlib.Logic.Relation

namespace ExchangePipeline

/-- What a sequence of two steps gives comes out of both. -/
theorem except_bind_ok {ε α β : Type} {x : Except ε α} {f : α → Except ε β} {b : β} :
    (x >>= f) = .ok b ↔ ∃ a, x = .ok a ∧ f a = .ok b := by
  cases x with
  | error error =>
    constructor
    · intro h
      cases h
    · rintro ⟨a, h, -⟩
      cases h
  | ok a =>
    constructor
    · intro h
      exact ⟨a, rfl, h⟩
    · rintro ⟨a', h, hf⟩
      cases h
      exact hf

namespace Deployment

variable {d e : Deployment}

/-! ### Modules -/

/-- A module that is registered is the last one, and was not there before. -/
theorem registerModule_ok {module : Module} {id : NodeId}
    (h : d.registerModule module = (.ok id, e)) :
    d.module? module.name = none ∧
      ∃ tree, d.tree.attach rootId .module module.name = .ok (id, tree) ∧
        e = { d with
          tree
          modules := d.modules ++ [{ module, attempts := 0, status := .pending }] } := by
  unfold registerModule at h
  split at h
  · cases h
  · rename_i hfree
    dsimp only at h
    split at h
    · cases h
    · rename_i hattach
      cases h
      refine ⟨?_, _, hattach, rfl⟩
      exact Option.not_isSome_iff_eq_none.1 fun hsome => hfree (Or.inl hsome)

/-- A module whose name is taken is not registered.  One whose name is free gets its node, so it is
    never registered without. -/
theorem registerModule_error {module : Module} {error : ConfigError}
    (h : d.registerModule module = (.error error, e)) : e = d := by
  unfold registerModule at h
  split at h
  · cases h
    rfl
  · rename_i hfree
    have hnode : d.tree.child? rootId .module module.name = none :=
      Option.not_isSome_iff_eq_none.1 fun hsome => hfree (Or.inr hsome)
    simp [Tree.addModule, Tree.attach, hnode] at h

theorem module?_name {name : String} {m : RegisteredModule} (h : d.module? name = some m) :
    m.module.name = name := by
  simpa using List.find?_some h

theorem isReady_iff {name : String} :
    d.isReady name = true ↔ ∃ m, d.module? name = some m ∧ m.status = .ready := by
  rw [isReady]
  cases d.module? name with
  | none => simp
  | some m => simp

/-- A module that joins the others changes what is found under its own name only. -/
theorem module?_append (m : RegisteredModule) (name : String) :
    { d with modules := d.modules ++ [m] }.module? name =
      (d.module? name).or (if m.module.name = name then some m else none) := by
  simp only [module?, List.find?_append, List.find?_cons, List.find?_nil]
  by_cases hname : m.module.name = name
  · simp [hname]
  · simp [hname]

/-- A change of one module is found under its name. -/
theorem module?_updateModule {f : RegisteredModule → RegisteredModule}
    (hf : ∀ m, (f m).module = m.module) (d : Deployment) (name other : String) :
    (d.updateModule name f).module? other =
      (d.module? other).map fun m => if m.module.name = name then f m else m := by
  simp only [module?, updateModule]
  rw [List.find?_map]
  congr 2
  funext m
  by_cases hname : m.module.name = name
  · simp [hname, hf]
  · simp [hname]

theorem module?_updateModule_of_ne {f : RegisteredModule → RegisteredModule}
    (hf : ∀ m, (f m).module = m.module) {name other : String} (hne : other ≠ name) :
    (d.updateModule name f).module? other = d.module? other := by
  rw [module?_updateModule hf]
  cases hm : d.module? other with
  | none => rfl
  | some m =>
    rw [Option.map_some, if_neg]
    rwa [module?_name hm]

/-- The setup of a module begins. -/
def beginInit (d : Deployment) (name : String) : Deployment :=
  d.updateModule name fun m => { m with attempts := m.attempts + 1, status := .running }

theorem module?_beginInit {name : String} {m : RegisteredModule} (hm : d.module? name = some m) :
    (d.beginInit name).module? name =
      some { m with attempts := m.attempts + 1, status := .running } := by
  rw [beginInit, module?_updateModule fun _ => by rfl, hm, Option.map_some,
    if_pos (module?_name hm)]

theorem module?_beginInit_of_ne {name other : String} (hne : other ≠ name) :
    (d.beginInit name).module? other = d.module? other :=
  module?_updateModule_of_ne (fun _ => by rfl) hne

/-- The setup of a module ends. -/
def endInit (d : Deployment) (name : String) (status : ModuleStatus) : Deployment :=
  d.updateModule name fun m => { m with status }

theorem module?_endInit {name : String} {m : RegisteredModule} (hm : d.module? name = some m)
    (status : ModuleStatus) : (d.endInit name status).module? name = some { m with status } := by
  rw [endInit, module?_updateModule fun _ => by rfl, hm, Option.map_some, if_pos (module?_name hm)]

theorem module?_endInit_of_ne {name other : String} (hne : other ≠ name) (status : ModuleStatus) :
    (d.endInit name status).module? other = d.module? other :=
  module?_updateModule_of_ne (fun _ => by rfl) hne

/-! ### Engagements -/

theorem engage_ok {module : String} {scope : Scope} {added : Bool}
    (h : d.engage module scope = (.ok added, e)) :
    ∃ id, d.tree.scopeNode scope = .ok id ∧
      ((added = false ∧ e = d ∧ d.tree.engage id module = .ok (false, d.tree)) ∨
        (added = true ∧ ∃ tree, d.tree.engage id module = .ok (true, tree) ∧
          { d with tree }.validate d.order scope id = .ok () ∧
          e = { d with tree }.invalidate scope)) := by
  unfold engage at h
  cases hs : d.tree.scopeNode scope with
  | error error =>
    simp only [hs] at h
    cases h
  | ok id =>
    refine ⟨id, rfl, ?_⟩
    simp only [hs] at h
    split at h
    · cases h
    · rename_i tree ht
      cases h
      obtain ⟨node, -, ⟨-, -, rfl⟩ | ⟨hnot, -⟩⟩ := Tree.engage_ok ht
      · exact Or.inl ⟨rfl, rfl, ht⟩
      · cases hnot
    · rename_i tree ht
      split at h
      · unfold takeBackEngagement at h
        split at h
        · cases h
        · cases h
      · rename_i hv
        cases h
        exact Or.inr ⟨rfl, tree, ht, hv, rfl⟩

/-- **An engagement that is refused** leaves the deployment as it was, down to the order of the
    engagements at the node. -/
theorem engage_error {module : String} {scope : Scope} {error : ConfigError}
    (h : d.engage module scope = (.error error, e)) : e = d := by
  unfold engage at h
  cases hs : d.tree.scopeNode scope with
  | error error =>
    simp only [hs] at h
    cases h
    rfl
  | ok id =>
    simp only [hs] at h
    split at h
    · cases h
      rfl
    · cases h
    · rename_i tree ht
      split at h
      · -- the engagement was made, and something below does not resolve with it
        have hback : tree.disengage id module = .ok (true, d.tree) := Tree.disengage_of_engage ht
        simp only [takeBackEngagement, hback] at h
        cases h
        rfl
      · cases h

theorem disengage_ok {module : String} {scope : Scope} {removed : Bool}
    (h : d.disengage module scope = .ok (removed, e)) :
    ∃ id, d.tree.scopeNode scope = .ok id ∧
      ((removed = false ∧ e = d ∧ d.tree.disengage id module = .ok (false, d.tree)) ∨
        (removed = true ∧ ∃ tree, d.tree.disengage id module = .ok (true, tree) ∧
          e = { d with tree }.invalidate scope)) := by
  obtain ⟨id, hs, h⟩ := except_bind_ok.1 h
  obtain ⟨⟨removed', tree⟩, ht, h⟩ := except_bind_ok.1 h
  refine ⟨id, hs, ?_⟩
  cases removed' with
  | false =>
    cases h
    obtain ⟨node, -, ⟨-, -, rfl⟩ | ⟨hnot, -⟩⟩ := Tree.disengage_ok ht
    · exact Or.inl ⟨rfl, rfl, ht⟩
    · cases hnot
  | true =>
    cases h
    exact Or.inr ⟨rfl, tree, ht, rfl⟩

/-! ### Declarations -/

theorem lookup_declareHandler (key other : NodeId × Flow) (link : Link Handler)
    (declared : List ((NodeId × Flow) × List (Link Handler))) :
    ((declareHandler key link declared).lookup other).getD [] =
      (declared.lookup other).getD [] ++ if other = key then [link] else [] := by
  induction declared with
  | nil =>
    by_cases hkey : other = key
    · simp [declareHandler, hkey]
    · have hne : (other == key) = false := beq_eq_false_iff_ne.2 hkey
      simp [declareHandler, List.lookup_cons, hne, hkey]
  | cons entry rest ih =>
    obtain ⟨k, links⟩ := entry
    by_cases hk : k = key
    · subst hk
      by_cases hkey : other = k
      · simp [declareHandler, hkey]
      · have hne : (other == k) = false := beq_eq_false_iff_ne.2 hkey
        simp [declareHandler, List.lookup_cons, hne, hkey]
    · by_cases hother : other = k
      · subst hother
        simp [declareHandler, hk]
      · have hne : (other == k) = false := beq_eq_false_iff_ne.2 hother
        simp only [declareHandler, hk, if_false, List.lookup_cons, hne]
        exact ih

theorem mem_declareHandler {key : NodeId × Flow} {link : Link Handler}
    {declared : List ((NodeId × Flow) × List (Link Handler))}
    {entry : (NodeId × Flow) × List (Link Handler)}
    (h : entry ∈ declareHandler key link declared) :
    entry.1 = key ∨ ∃ other ∈ declared, other.1 = entry.1 := by
  induction declared with
  | nil =>
    rw [declareHandler, List.mem_singleton] at h
    exact Or.inl (by rw [h])
  | cons first rest ih =>
    obtain ⟨k, links⟩ := first
    rw [declareHandler] at h
    by_cases hk : k = key
    · rw [if_pos hk] at h
      rcases List.mem_cons.1 h with rfl | hrest
      · exact Or.inl hk
      · exact Or.inr ⟨entry, List.mem_cons_of_mem _ hrest, rfl⟩
    · rw [if_neg hk] at h
      rcases List.mem_cons.1 h with rfl | hrest
      · exact Or.inr ⟨_, List.mem_cons_self, rfl⟩
      · rcases ih hrest with heq | ⟨other, hother, heq⟩
        · exact Or.inl heq
        · exact Or.inr ⟨other, List.mem_cons_of_mem _ hother, heq⟩

/-- A declaration that joins others is not empty, and neither is a new one. -/
theorem nonempty_declareHandler {key : NodeId × Flow} {link : Link Handler}
    {declared : List ((NodeId × Flow) × List (Link Handler))}
    (h : ∀ entry ∈ declared, entry.2 ≠ []) :
    ∀ entry ∈ declareHandler key link declared, entry.2 ≠ [] := by
  induction declared with
  | nil =>
    intro entry hentry
    rw [declareHandler, List.mem_singleton] at hentry
    simp [hentry]
  | cons first rest ih =>
    obtain ⟨hfirst, hrest⟩ := List.forall_mem_cons.1 h
    rw [declareHandler]
    split
    · exact List.forall_mem_cons.2 ⟨by simp, hrest⟩
    · exact List.forall_mem_cons.2 ⟨hfirst, ih hrest⟩

/-- **A declaration that is taken back** leaves no trace where no empty list is kept. -/
theorem takeBackHandler_declareHandler {key : NodeId × Flow} {link : Link Handler}
    {declared : List ((NodeId × Flow) × List (Link Handler))}
    (h : ∀ entry ∈ declared, entry.2 ≠ []) :
    takeBackHandler key (declareHandler key link declared) = declared := by
  induction declared with
  | nil => simp [declareHandler, takeBackHandler]
  | cons first rest ih =>
    obtain ⟨k, links⟩ := first
    obtain ⟨hfirst, hrest⟩ := List.forall_mem_cons.1 h
    by_cases hk : k = key
    · simpa [declareHandler, takeBackHandler, hk] using hfirst
    · simp [declareHandler, takeBackHandler, hk, ih hrest]

theorem addHandler_ok {scope : Scope} {flow : Flow} {link : Link Handler}
    (h : d.addHandler scope flow link = (.ok (), e)) :
    ∃ id, d.tree.scopeNode scope = .ok id ∧
      { d with declared := declareHandler (id, flow) link d.declared }.validate d.order scope id =
        .ok () ∧
      e = { d with declared := declareHandler (id, flow) link d.declared }.invalidate scope := by
  unfold addHandler at h
  cases hs : d.tree.scopeNode scope with
  | error error =>
    simp only [hs] at h
    cases h
  | ok id =>
    simp only [hs] at h
    split at h
    · cases h
    · rename_i hv
      cases h
      exact ⟨id, rfl, hv, rfl⟩

/-- **A declaration that is refused** leaves the deployment as it was. -/
theorem addHandler_error {scope : Scope} {flow : Flow} {link : Link Handler} {error : ConfigError}
    (hd : ∀ entry ∈ d.declared, entry.2 ≠ [])
    (h : d.addHandler scope flow link = (.error error, e)) : e = d := by
  unfold addHandler at h
  cases hs : d.tree.scopeNode scope with
  | error error =>
    simp only [hs] at h
    cases h
    rfl
  | ok id =>
    simp only [hs] at h
    split at h
    · simp only [takeBackHandler_declareHandler hd] at h
      cases h
      rfl
    · cases h

/-- Declaring a handler has nothing to do with modules. -/
theorem modules_addHandler (d : Deployment) (scope : Scope) (flow : Flow) (link : Link Handler) :
    (d.addHandler scope flow link).2.modules = d.modules := by
  unfold addHandler
  split
  · rfl
  · dsimp only
    split
    · rfl
    · rfl

theorem tree_addHandler (d : Deployment) (scope : Scope) (flow : Flow) (link : Link Handler) :
    (d.addHandler scope flow link).2.tree = d.tree := by
  unfold addHandler
  split
  · rfl
  · dsimp only
    split
    · rfl
    · rfl

theorem declarePhases_ok {order : PhaseOrder} (h : d.declarePhases order = .ok e) :
    d.validate order .everywhere rootId = .ok () ∧
      e = { d with order }.invalidate .everywhere := by
  obtain ⟨_, hv, h⟩ := except_bind_ok.1 h
  cases h
  exact ⟨hv, rfl⟩

/-! ### Chains -/

theorem chain_ok {key : ChainKey} {chain : Chain Handler} (h : d.chain key = .ok (chain, e)) :
    (∃ cached, d.cached? key = some cached ∧ chain = cached.chain ∧ e = d) ∨
      (d.cached? key = none ∧
        ∃ id, d.tree.scopeNode (.operation key.service key.operation) = .ok id ∧
          resolve d.order key.flow (d.contributions id key.flow) = .ok chain ∧
          e = { d with
            cache := d.cache ++ [(key, { chain, serial := d.serials })]
            serials := d.serials + 1 }) := by
  rw [Deployment.chain] at h
  cases hc : d.cached? key with
  | some cached =>
    rw [hc] at h
    cases h
    exact Or.inl ⟨cached, rfl, rfl, rfl⟩
  | none =>
    simp only [hc] at h
    obtain ⟨id, hs, h⟩ := except_bind_ok.1 h
    obtain ⟨chain', hr, h⟩ := except_bind_ok.1 h
    cases h
    exact Or.inr ⟨rfl, id, hs, hr, rfl⟩

/-! ### Validation -/

theorem resolveTargets_ok_iff {order : PhaseOrder} {targets : List (NodeId × Flow)} :
    d.resolveTargets order targets = .ok () ↔
      ∀ target ∈ targets, ∃ chain,
        resolve order target.2 (d.contributions target.1 target.2) = .ok chain := by
  induction targets with
  | nil => simp [resolveTargets]
  | cons target rest ih =>
    obtain ⟨id, flow⟩ := target
    rw [resolveTargets, List.forall_mem_cons]
    cases hr : resolve order flow (d.contributions id flow) with
    | error error => simp
    | ok chain => simpa using ih

/-- **A change is accepted** exactly if everything resolves at and below the node of its scope. -/
theorem validate_ok_iff (htree : d.tree.WellFormed) {order : PhaseOrder} {scope : Scope}
    {id : NodeId} (hs : d.tree.scopeNode scope = .ok id) :
    d.validate order scope id = .ok () ↔
      ∀ j, d.tree.Contributes j → id ∈ d.tree.ancestry j → ∀ flow, ∃ chain,
        resolve order flow (d.contributions j flow) = .ok chain := by
  rw [validate, resolveTargets_ok_iff]
  constructor
  · intro h j hj hid flow
    refine h (j, flow) (List.mem_flatMap.2 ⟨j, (htree.mem_nodesBelow_iff hs).2 ⟨hj, hid⟩, ?_⟩)
    exact List.mem_map.2 ⟨flow, flow.mem_all, rfl⟩
  · intro h target ht
    obtain ⟨j, hj, hmem⟩ := List.mem_flatMap.1 ht
    obtain ⟨flow, -, rfl⟩ := List.mem_map.1 hmem
    obtain ⟨hcontrib, hid⟩ := (htree.mem_nodesBelow_iff hs).1 hj
    exact h j hcontrib hid flow

/-! ### Steps -/

/-- One change of a deployment.  A setup begins and ends in steps of its own.  A handler that is
    refused makes a step as well, since only in deployments as they are kept it leaves no trace. -/
inductive Step : Deployment → Deployment → Prop
  | registerModule {d e : Deployment} {module : Module} {id : NodeId}
      (accepted : d.registerModule module = (.ok id, e)) : Step d e
  | addService {d : Deployment} {name : String} {id : NodeId} {tree : Tree}
      (accepted : d.tree.addService name = .ok (id, tree)) : Step d { d with tree }
  | addOperation {d : Deployment} {service name : String} {id : NodeId} {tree : Tree}
      (accepted : d.tree.addOperation service name = .ok (id, tree)) : Step d { d with tree }
  | addTransport {d : Deployment} {name : String} {id : NodeId} {tree : Tree}
      (accepted : d.tree.addTransport name = .ok (id, tree)) : Step d { d with tree }
  | addParameter {d : Deployment} {node : NodeId} {parameter : Parameter} {tree : Tree}
      (accepted : d.tree.addParameter node parameter = .ok tree) : Step d { d with tree }
  | initBegins {d : Deployment} {name : String} {m : RegisteredModule}
      (registered : d.module? name = some m) (pending : m.status = .pending) :
      Step d (d.beginInit name)
  | initEnds {d : Deployment} {name : String} {m : RegisteredModule} (status : ModuleStatus)
      (registered : d.module? name = some m) (running : m.status = .running) :
      Step d (d.endInit name status)
  | engage {d e : Deployment} {module : String} {scope : Scope} {added : Bool}
      (ready : d.isReady module = true) (accepted : d.engage module scope = (.ok added, e)) :
      Step d e
  | disengage {d e : Deployment} {module : String} {scope : Scope} {removed : Bool}
      (accepted : d.disengage module scope = .ok (removed, e)) : Step d e
  | addHandler {d e : Deployment} {scope : Scope} {flow : Flow} {link : Link Handler}
      {result : Except ConfigError Unit} (taken : d.addHandler scope flow link = (result, e)) :
      Step d e
  | declarePhases {d e : Deployment} {order : PhaseOrder}
      (accepted : d.declarePhases order = .ok e) : Step d e
  | chain {d e : Deployment} {key : ChainKey} {chain : Chain Handler}
      (resolved : d.chain key = .ok (chain, e)) : Step d e
  | registerTransport {d : Deployment} (role : TransportRole) (t : RegisteredTransport) :
      Step d (d.registerTransport role t)

end Deployment

end ExchangePipeline
