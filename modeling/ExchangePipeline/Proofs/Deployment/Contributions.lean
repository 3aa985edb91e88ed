/-
  ExchangePipeline/Proofs/Deployment/Contributions.lean
  =====================================================
  **What contributions are made of.**

  Up to their order, the contributions of a node are the handlers of the modules
  engaged on the way to it, each module once, and the handlers declared on that
  way (`contributions_perm`).  So they depend on nothing off the way
  (`contributions_congr`), a bare node below adds nothing to them
  (`contributions_of_bare_node`), and with fewer engagements there are fewer of
  them, though perhaps in another order (`contributions_subperm`).
-/
import ExchangePipeline.Deployment
import Mathlib.Data.List.Flatten
import Mathlib.Data.List.Perm.Subperm
import Mathlib.Data.List.Nodup

namespace ExchangePipeline

namespace Deployment

open scoped List

variable {d e : Deployment} {flow : Flow}

/-! ### Modules on the way -/

/-- The modules engaged along a path that were not seen before, each where it is first met. -/
def engagedAlong (d : Deployment) : List String → List NodeId → List String
  | _, [] => []
  | seen, id :: rest =>
    let engaged := (d.engagedAt id).filter fun name => name ∉ seen
    engaged ++ engagedAlong d (seen ++ engaged) rest

theorem mem_engagedAlong {seen : List String} {path : List NodeId} {name : String} :
    name ∈ d.engagedAlong seen path ↔ name ∉ seen ∧ ∃ id ∈ path, name ∈ d.engagedAt id := by
  induction path generalizing seen with
  | nil => simp [engagedAlong]
  | cons id rest ih =>
    simp only [engagedAlong, List.mem_append, ih, List.mem_filter, decide_eq_true_eq,
      List.mem_cons, exists_eq_or_imp]
    by_cases hseen : name ∈ seen
    · simp [hseen]
    · by_cases hhere : name ∈ d.engagedAt id
      · simp [hseen, hhere]
      · simp [hseen, hhere]

theorem nodup_engagedAlong {seen : List String} {path : List NodeId}
    (h : ∀ id ∈ path, (d.engagedAt id).Nodup) : (d.engagedAlong seen path).Nodup := by
  induction path generalizing seen with
  | nil => exact List.nodup_nil
  | cons id rest ih =>
    rw [engagedAlong]
    apply List.Nodup.append
    · exact (h id List.mem_cons_self).filter _
    · exact ih fun i hi => h i (List.mem_cons_of_mem _ hi)
    · intro name hhere hbelow
      exact (mem_engagedAlong.1 hbelow).1 (List.mem_append_right _ hhere)

/-! ### Contributions along a path -/

/-- Up to their order, contributions are those of the modules met and the declared handlers. -/
theorem contributionsAlong_perm (d : Deployment) (flow : Flow) (seen : List String)
    (path : List NodeId) :
    d.contributionsAlong flow seen path ~
      (d.engagedAlong seen path).flatMap (d.moduleHandlers flow) ++
        path.flatMap fun id => d.declaredAt id flow := by
  induction path generalizing seen with
  | nil => exact List.Perm.refl _
  | cons id rest ih =>
    simp only [contributionsAlong, engagedAlong, List.flatMap_append, List.flatMap_cons,
      List.append_assoc]
    apply List.Perm.append_left
    calc
      _ ~ d.declaredAt id flow ++ ((d.engagedAlong _ rest).flatMap (d.moduleHandlers flow) ++
            rest.flatMap fun i => d.declaredAt i flow) := List.Perm.append_left _ (ih _)
      _ ~ (d.engagedAlong _ rest).flatMap (d.moduleHandlers flow) ++
            (d.declaredAt id flow ++ rest.flatMap fun i => d.declaredAt i flow) := by
        rw [← List.append_assoc, ← List.append_assoc]
        exact List.Perm.append_right _ List.perm_append_comm

theorem contributionsAlong_congr {seen : List String} {path : List NodeId}
    (hengaged : ∀ id ∈ path, e.engagedAt id = d.engagedAt id)
    (hdeclared : ∀ id ∈ path, e.declaredAt id flow = d.declaredAt id flow)
    (hmodule : ∀ id ∈ path, ∀ name ∈ d.engagedAt id,
      e.moduleHandlers flow name = d.moduleHandlers flow name) :
    e.contributionsAlong flow seen path = d.contributionsAlong flow seen path := by
  induction path generalizing seen with
  | nil => rfl
  | cons id rest ih =>
    have hrest : ∀ seen, e.contributionsAlong flow seen rest = d.contributionsAlong flow seen rest :=
      fun seen => ih
        (fun i hi => hengaged i (List.mem_cons_of_mem _ hi))
        (fun i hi => hdeclared i (List.mem_cons_of_mem _ hi))
        (fun i hi => hmodule i (List.mem_cons_of_mem _ hi))
    have hhere : ((d.engagedAt id).filter fun name => name ∉ seen).flatMap
          (e.moduleHandlers flow) =
        ((d.engagedAt id).filter fun name => name ∉ seen).flatMap (d.moduleHandlers flow) :=
      List.flatMap_congr fun name hname =>
        hmodule id List.mem_cons_self name (List.mem_of_mem_filter hname)
    simp only [contributionsAlong, hengaged id List.mem_cons_self,
      hdeclared id List.mem_cons_self, hrest, hhere]

/-- A node that holds nothing adds nothing at the end of a path. -/
theorem contributionsAlong_concat_bare {seen : List String} {path : List NodeId} {id : NodeId}
    (hengaged : d.engagedAt id = []) (hdeclared : d.declaredAt id flow = []) :
    d.contributionsAlong flow seen (path ++ [id]) = d.contributionsAlong flow seen path := by
  induction path generalizing seen with
  | nil => simp [contributionsAlong, hengaged, hdeclared]
  | cons i rest ih => rw [List.cons_append, contributionsAlong, contributionsAlong, ih]

/-! ### Contributions of a node -/

/-- The modules engaged on the way from the root to a node, each once. -/
def engagedOnWay (d : Deployment) (id : NodeId) : List String :=
  d.engagedAlong [] (d.tree.ancestry id).reverse

theorem mem_engagedOnWay {id : NodeId} {name : String} :
    name ∈ d.engagedOnWay id ↔ ∃ i ∈ d.tree.ancestry id, name ∈ d.engagedAt i := by
  simp [engagedOnWay, mem_engagedAlong]

/-- **What a node gets**: the handlers of the modules engaged on the way to it, each module once,
    and the handlers declared on that way. -/
theorem contributions_perm (d : Deployment) (id : NodeId) (flow : Flow) :
    d.contributions id flow ~
      (d.engagedOnWay id).flatMap (d.moduleHandlers flow) ++
        (d.tree.ancestry id).reverse.flatMap fun i => d.declaredAt i flow :=
  contributionsAlong_perm d flow [] _

/-- What a node gets depends on the nodes on the way to it, and on the modules engaged there. -/
theorem contributions_congr {id : NodeId} (hpath : e.tree.ancestry id = d.tree.ancestry id)
    (hengaged : ∀ i ∈ d.tree.ancestry id, e.engagedAt i = d.engagedAt i)
    (hdeclared : ∀ i ∈ d.tree.ancestry id, e.declaredAt i flow = d.declaredAt i flow)
    (hmodule : ∀ i ∈ d.tree.ancestry id, ∀ name ∈ d.engagedAt i,
      e.moduleHandlers flow name = d.moduleHandlers flow name) :
    e.contributions id flow = d.contributions id flow := by
  rw [contributions, contributions, hpath]
  exact contributionsAlong_congr
    (fun i hi => hengaged i (List.mem_reverse.1 hi))
    (fun i hi => hdeclared i (List.mem_reverse.1 hi))
    (fun i hi => hmodule i (List.mem_reverse.1 hi))

/-- A node that holds nothing gets what its parent gets. -/
theorem contributions_of_bare_node {id parent : NodeId}
    (hpath : d.tree.ancestry id = id :: d.tree.ancestry parent)
    (hengaged : d.engagedAt id = []) (hdeclared : d.declaredAt id flow = []) :
    d.contributions id flow = d.contributions parent flow := by
  rw [contributions, contributions, hpath, List.reverse_cons]
  exact contributionsAlong_concat_bare hengaged hdeclared

/-- **Fewer engagements, fewer handlers**: where engagements are taken away, a node gets some of
    what it got, perhaps in another order. -/
theorem contributions_subperm {id : NodeId} (hpath : e.tree.ancestry id = d.tree.ancestry id)
    (hnodup : ∀ i, (e.engagedAt i).Nodup)
    (hengaged : ∀ i, e.engagedAt i ⊆ d.engagedAt i)
    (hdeclared : ∀ i, e.declaredAt i flow = d.declaredAt i flow)
    (hmodule : ∀ name, e.moduleHandlers flow name = d.moduleHandlers flow name) :
    (e.contributions id flow).Subperm (d.contributions id flow) := by
  have hway : (e.engagedOnWay id).Subperm (d.engagedOnWay id) := by
    apply List.Nodup.subperm (nodup_engagedAlong fun i _ => hnodup i)
    intro name hname
    obtain ⟨i, hi, hmem⟩ := mem_engagedOnWay.1 hname
    exact mem_engagedOnWay.2 ⟨i, hpath ▸ hi, hengaged i hmem⟩
  have hmodules : ((e.engagedOnWay id).flatMap (e.moduleHandlers flow)).Subperm
      ((d.engagedOnWay id).flatMap (d.moduleHandlers flow)) := by
    obtain ⟨kept, hperm, hsub⟩ := hway
    rw [show e.moduleHandlers flow = d.moduleHandlers flow from funext hmodule]
    exact ⟨kept.flatMap (d.moduleHandlers flow), hperm.flatMap_right _, hsub.flatMap _⟩
  have hothers : ((e.tree.ancestry id).reverse.flatMap fun i => e.declaredAt i flow) =
      (d.tree.ancestry id).reverse.flatMap fun i => d.declaredAt i flow := by
    rw [hpath]
    exact List.flatMap_congr fun i _ => hdeclared i
  apply (contributions_perm e id flow).subperm.trans
  refine List.Subperm.trans ?_ (contributions_perm d id flow).symm.subperm
  rw [hothers]
  exact hmodules.append (List.Subperm.refl _)

end Deployment

end ExchangePipeline
