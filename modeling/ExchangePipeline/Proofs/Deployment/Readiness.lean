/-
  ExchangePipeline/Proofs/Deployment/Readiness.lean
  =================================================
  **Modules become ready, and stay so.**

  A step leaves the modules as they are, or adds one that is to be set up, or takes
  the setup of one further that is not ready yet (`Step.modules_forms`).  So modules
  are never lost (`moduleNames_of_steps`) and those that are ready stay ready
  (`isReady_of_steps`); and since a module is engaged only when it is ready, all
  engaged modules are (`isReady_of_engaged`).
-/
import ExchangePipeline.Proofs.Deployment.Coherence
import ExchangePipeline.Proofs.Tree.Growth

namespace ExchangePipeline

namespace Deployment

/-- The names of the modules, in registration order. -/
def moduleNames (d : Deployment) : List String :=
  d.modules.map fun m => m.module.name

variable {d e : Deployment} {name : String}

theorem mem_moduleNames : name ∈ d.moduleNames ↔ ∃ m, d.module? name = some m := by
  rw [module?, ← Option.isSome_iff_exists, List.find?_isSome]
  simp [moduleNames]

/-! ### Modules -/

theorem module?_of_append {m : RegisteredModule} (h : e.modules = d.modules ++ [m]) (name : String) :
    e.module? name = (d.module? name).or (if m.module.name = name then some m else none) := by
  rw [← module?_append m name, module?, module?, h]

/-- **What a step does to modules.** -/
theorem Step.modules_forms (hs : Step d e) :
    e.modules = d.modules ∨
    (∃ module id, d.registerModule module = (.ok id, e) ∧ d.module? module.name = none ∧
      e.modules = d.modules ++ [{ module, attempts := 0, status := .pending }]) ∨
    ∃ name m f, d.module? name = some m ∧ m.status ≠ .ready ∧
      (∀ m : RegisteredModule, (f m).module = m.module) ∧ e = d.updateModule name f := by
  cases hs with
  | registerModule accepted =>
    obtain ⟨hnew, tree, -, hmodules⟩ := registerModule_ok accepted
    exact Or.inr (Or.inl ⟨_, _, accepted, hnew, by rw [hmodules]⟩)
  | initBegins registered pending =>
    exact Or.inr (Or.inr ⟨_, _, _, registered, by simp [pending], fun _ => by rfl, rfl⟩)
  | initEnds status registered running =>
    exact Or.inr (Or.inr ⟨_, _, _, registered, by simp [running], fun _ => by rfl, rfl⟩)
  | engage _ accepted =>
    obtain ⟨-, -, ⟨-, rfl, -⟩ | ⟨-, tree, -, -, rfl⟩⟩ := engage_ok accepted
    · exact Or.inl rfl
    · exact Or.inl rfl
  | disengage accepted =>
    obtain ⟨-, -, ⟨-, rfl, -⟩ | ⟨-, tree, -, rfl⟩⟩ := disengage_ok accepted
    · exact Or.inl rfl
    · exact Or.inl rfl
  | @addHandler _ scope flow link _ taken =>
    have hmodules := modules_addHandler d scope flow link
    rw [taken] at hmodules
    exact Or.inl hmodules
  | declarePhases accepted =>
    obtain ⟨-, rfl⟩ := declarePhases_ok accepted
    exact Or.inl rfl
  | chain resolved =>
    obtain ⟨-, -, -, rfl⟩ | ⟨-, -, -, -, rfl⟩ := chain_ok resolved
    · exact Or.inl rfl
    · exact Or.inl rfl
  | registerTransport role t => cases role <;> exact Or.inl rfl
  | _ => exact Or.inl rfl

theorem moduleNames_updateModule {f : RegisteredModule → RegisteredModule}
    (hf : ∀ m, (f m).module = m.module) (name : String) :
    (d.updateModule name f).moduleNames = d.moduleNames := by
  rw [moduleNames, updateModule, List.map_map]
  refine List.map_congr_left fun m _ => ?_
  by_cases hm : m.module.name = name
  · simp [hm, hf]
  · simp [hm]

/-- A step keeps the names of the modules, or adds a new one behind them. -/
theorem Step.moduleNames_forms (hs : Step d e) :
    e.moduleNames = d.moduleNames ∨
      ∃ name, name ∉ d.moduleNames ∧ e.moduleNames = d.moduleNames ++ [name] := by
  obtain hsame | ⟨module, id, -, hnew, hsame⟩ | ⟨name, m, f, -, -, hf, rfl⟩ := hs.modules_forms
  · left
    rw [moduleNames, moduleNames, hsame]
  · refine Or.inr ⟨module.name, ?_, ?_⟩
    · intro hmem
      obtain ⟨m, hm⟩ := mem_moduleNames.1 hmem
      rw [hnew] at hm
      cases hm
    · rw [moduleNames, hsame, List.map_append]
      rfl
  · exact Or.inl (moduleNames_updateModule hf name)

theorem Step.isReady (hs : Step d e) (h : d.isReady name = true) : e.isReady name = true := by
  obtain ⟨m, hm, hready⟩ := isReady_iff.1 h
  obtain hsame | ⟨module, id, -, -, hsame⟩ | ⟨other, m', f, hm', hnot, hf, rfl⟩ :=
    hs.modules_forms
  · rw [Deployment.isReady, module?, hsame]
    exact h
  · refine isReady_iff.2 ⟨m, ?_, hready⟩
    rw [module?_of_append hsame, hm, Option.some_or]
  · refine isReady_iff.2 ⟨m, ?_, hready⟩
    rw [module?_updateModule_of_ne hf, hm]
    rintro rfl
    rw [hm, Option.some.injEq] at hm'
    exact hnot (hm' ▸ hready)

/-- Modules are never lost; those that are registered meanwhile come behind. -/
theorem moduleNames_of_steps (h : Relation.ReflTransGen Step d e) :
    ∃ late, e.moduleNames = d.moduleNames ++ late ∧ ∀ name ∈ late, name ∉ d.moduleNames := by
  induction h with
  | refl => exact ⟨[], (List.append_nil _).symm, fun _ hname => by cases hname⟩
  | tail _ hstep ih =>
    obtain ⟨late, hlate, hnew⟩ := ih
    obtain hsame | ⟨name, hname, hadds⟩ := hstep.moduleNames_forms
    · exact ⟨late, hsame.trans hlate, hnew⟩
    · refine ⟨late ++ [name], by rw [hadds, hlate, List.append_assoc], ?_⟩
      intro other hother hold
      rcases List.mem_append.1 hother with hother | hother
      · exact hnew other hother hold
      · rw [List.mem_singleton.1 hother] at hold
        rw [hlate] at hname
        exact hname (List.mem_append_left _ hold)

/-- No two modules come to have the same name. -/
theorem nodup_moduleNames_of_steps (h : Relation.ReflTransGen Step d e)
    (hd : d.moduleNames.Nodup) : e.moduleNames.Nodup := by
  induction h with
  | refl => exact hd
  | tail _ hstep ih =>
    rcases hstep.moduleNames_forms with hsame | ⟨name, hname, hadds⟩
    · rwa [hsame]
    · rw [hadds]
      apply List.Nodup.append ih (List.nodup_singleton name)
      simpa using hname

theorem isReady_of_steps (h : Relation.ReflTransGen Step d e) (hready : d.isReady name = true) :
    e.isReady name = true := by
  induction h with
  | refl => exact hready
  | tail _ hstep ih => exact hstep.isReady ih

/-! ### Engagements -/

theorem mem_engagedAt_of_attach {tree : Tree} {parent id i : NodeId} {kind : NodeKind}
    {label : String} (ha : d.tree.attach parent kind label = .ok (id, tree))
    (h : name ∈ { d with tree }.engagedAt i) : name ∈ d.engagedAt i := by
  rwa [engagedAt_attach (e := { d with tree }) ha] at h

theorem mem_engagedAt_of_setEngaged {i id : NodeId} {node : Node} (hn : d.tree.node? i = some node)
    {g : List String → List String}
    (h : name ∈ { d with tree := d.tree.setEngaged i g }.engagedAt id) :
    name ∈ d.engagedAt id ∨ name ∈ g (d.engagedAt id) := by
  rw [engagedAt_setEngaged hn] at h
  by_cases hid : id = i
  · subst hid
    rw [if_pos rfl] at h
    right
    rwa [engagedAt, hn]
  · rw [if_neg hid] at h
    exact Or.inl h

/-- **A module comes to be engaged** when it is ready only. -/
theorem Step.engagedAt (hs : Step d e) {id : NodeId} (h : name ∈ e.engagedAt id) :
    name ∈ d.engagedAt id ∨ d.isReady name = true := by
  cases hs with
  | registerModule accepted =>
    obtain ⟨-, tree, hattach, rfl⟩ := registerModule_ok accepted
    exact Or.inl (mem_engagedAt_of_attach hattach h)
  | addService accepted => exact Or.inl (mem_engagedAt_of_attach accepted h)
  | addOperation accepted =>
    obtain ⟨parent, -, hattach⟩ := Tree.addOperation_ok accepted
    exact Or.inl (mem_engagedAt_of_attach hattach h)
  | addTransport accepted => exact Or.inl (mem_engagedAt_of_attach accepted h)
  | addParameter accepted =>
    obtain ⟨-, hsame⟩ := Tree.addParameter_ok accepted
    rw [engagedAt_eq, hsame id, ← engagedAt_eq] at h
    exact Or.inl h
  | engage ready accepted =>
    obtain ⟨i, -, ⟨-, rfl, -⟩ | ⟨-, tree, ht, -, rfl⟩⟩ := engage_ok accepted
    · exact Or.inl h
    obtain ⟨node, hn, ⟨-, -, rfl⟩ | ⟨-, -, rfl⟩⟩ := Tree.engage_ok ht
    · exact Or.inl h
    obtain hold | hnew := mem_engagedAt_of_setEngaged hn h
    · exact Or.inl hold
    rcases List.mem_append.1 hnew with hold | hnew
    · exact Or.inl hold
    · rw [List.mem_singleton.1 hnew]
      exact Or.inr ready
  | disengage accepted =>
    obtain ⟨i, -, ⟨-, rfl, -⟩ | ⟨-, tree, ht, rfl⟩⟩ := disengage_ok accepted
    · exact Or.inl h
    obtain ⟨node, hn, ⟨-, -, rfl⟩ | ⟨-, -, rfl⟩⟩ := Tree.disengage_ok ht
    · exact Or.inl h
    obtain hold | hleft := mem_engagedAt_of_setEngaged hn h
    · exact Or.inl hold
    · exact Or.inl (List.mem_of_mem_filter hleft)
  | @addHandler _ scope flow link _ taken =>
    have htree := tree_addHandler d scope flow link
    rw [taken] at htree
    rw [Deployment.engagedAt, htree] at h
    exact Or.inl h
  | declarePhases accepted =>
    obtain ⟨-, rfl⟩ := declarePhases_ok accepted
    exact Or.inl h
  | chain resolved =>
    obtain ⟨-, -, -, rfl⟩ | ⟨-, -, -, -, rfl⟩ := chain_ok resolved
    · exact Or.inl h
    · exact Or.inl h
  | registerTransport role t => cases role <;> exact Or.inl h
  | _ => exact Or.inl h

/-- **All engaged modules are ready**, if they were. -/
theorem isReady_of_engaged (h : Relation.ReflTransGen Step d e)
    (hd : ∀ id, ∀ name ∈ d.engagedAt id, d.isReady name = true) :
    ∀ id, ∀ name ∈ e.engagedAt id, e.isReady name = true := by
  induction h with
  | refl => exact hd
  | tail _ hstep ih =>
    intro id name hname
    obtain hold | hready := hstep.engagedAt hname
    · exact hstep.isReady (ih id name hold)
    · exact hstep.isReady hready

end Deployment

end ExchangePipeline
