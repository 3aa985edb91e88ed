/-
  ExchangePipeline/Proofs/Session/LateHandler.lean
  ================================================
  **Declaring a handler at an operation moves no other.**

  The way from the root ends at the operation, and what is declared there is
  contributed in the order in which it was declared.  So a handler that is declared
  at an operation is the last contribution to its chain (`contributions_declareHandler`),
  and if no other handler of the phase has to wait for it, it comes last in its
  phase (`Reachable.late_handler_moves_no_other`).
-/
import ExchangePipeline.Proofs.Chain.LateHandler
import ExchangePipeline.Proofs.Deployment.Engagements
import ExchangePipeline.Proofs.Session.Refusals

namespace ExchangePipeline

open Session

namespace Deployment

variable {d e : Deployment} {flow : Flow} {link : Link Handler} {id : NodeId}

/-! ### The last contribution -/

/-- What is declared at the end of a path is contributed last. -/
theorem contributionsAlong_declareHandler {path : List NodeId} (hpath : id ∉ path)
    (seen : List String) :
    { d with declared := declareHandler (id, flow) link d.declared }.contributionsAlong flow seen
        (path ++ [id]) =
      d.contributionsAlong flow seen (path ++ [id]) ++ [link] := by
  have hdeclared : ∀ i, { d with
      declared := declareHandler (id, flow) link d.declared }.declaredAt i flow =
        d.declaredAt i flow ++ if (i, flow) = (id, flow) then [link] else [] := fun i =>
    lookup_declareHandler (id, flow) (i, flow) link d.declared
  induction path generalizing seen with
  | nil =>
    simp only [List.nil_append, contributionsAlong, hdeclared, if_true, List.append_nil,
      List.append_assoc]
    rfl
  | cons i rest ih =>
    rw [List.mem_cons, not_or] at hpath
    have hne : (i, flow) ≠ (id, flow) := fun heq => hpath.1 (congrArg Prod.fst heq).symm
    rw [List.cons_append, contributionsAlong, contributionsAlong, ih hpath.2, hdeclared,
      if_neg hne, List.append_nil, List.append_assoc _ _ [link]]
    rfl

/-- **The last contribution** to a chain is what was declared last at its operation. -/
theorem contributions_declareHandler (htree : d.tree.WellFormed) {service operation : String}
    (ho : d.tree.operation? service operation = some id) :
    { d with declared := declareHandler (id, flow) link d.declared }.contributions id flow =
      d.contributions id flow ++ [link] := by
  obtain ⟨p, -, hroot, -, hp, hway⟩ := htree.ancestry_operation ho
  have hreverse : (d.tree.ancestry id).reverse = [rootId, p] ++ [id] := by
    rw [hway]
    rfl
  rw [contributions, contributions, hreverse]
  apply contributionsAlong_declareHandler
  simp [hroot, hp.symm]

theorem Coherent.addHandler_gainsLate (h : d.Coherent) {service operation : String}
    (he : d.addHandler (.operation service operation) flow link = (.ok (), e)) :
    ∃ old new d' e', d.chain { service, operation, flow } = .ok (old, d') ∧
      e.chain { service, operation, flow } = .ok (new, e') ∧
      (Unrequired link old → old.GainsLate link new) := by
  have hcoherent := h.addHandler he
  obtain ⟨id, hs, -, rfl⟩ := addHandler_ok he
  have ho := Tree.scopeNode_operation_iff.1 hs
  obtain ⟨old, d', hold⟩ : ∃ old d', d.chain { service, operation, flow } = .ok (old, d') :=
    h.exists_chain ho
  obtain ⟨new, e', hnew⟩ : ∃ new e', Deployment.chain _ { service, operation, flow } =
    .ok (new, e') := hcoherent.exists_chain ho
  refine ⟨old, new, d', e', hold, hnew, fun hlate => ?_⟩
  obtain ⟨i, hi, hresolve⟩ := h.resolveAt_of_chain hold
  obtain ⟨j, hj, hresolve'⟩ := hcoherent.resolveAt_of_chain hnew
  cases ho.symm.trans hi
  cases ho.symm.trans hj
  rw [resolveAt_invalidate, resolveAt, contributions_declareHandler h.tree ho] at hresolve'
  exact gainsLate_of_resolve hresolve hresolve' hlate

/-! ### Requests -/

variable {settings : EngineSettings} {s t : Session} {depth : Nat} {service operation : String}

/-- **A late handler moves no other.**  When a handler has been declared at an operation of a
    configuration that can be reached, the chain of the operation is what it was before, with the
    handler at the end of its phase, right before the one that claims the last place if there is
    one; the other handlers keep their order.  All that is asked of the handler is that it claims
    neither end and that no handler of its phase in the chain has to run after it. -/
theorem Reachable.late_handler_moves_no_other (h : Reachable settings s.deployment)
    (hrun : (perform (nested depth) (.addHandler (.operation service operation) flow link)).run s =
      .ok (.done, t)) :
    ∃ old new d e, s.deployment.chain { service, operation, flow } = .ok (old, d) ∧
      t.deployment.chain { service, operation, flow } = .ok (new, e) ∧
      (Unrequired link old → old.GainsLate link new ∧
        ∃ front back, old.links = front ++ back ∧ new.links = front ++ link :: back) := by
  obtain ⟨result, _, htake, hreply⟩ := run_bind_ok.1 hrun
  obtain ⟨e, hstep, rfl⟩ := take_ok htake
  cases result with
  | error error => cases hreply
  | ok done =>
    cases hreply
    obtain ⟨old, new, d', e', hold, hnew, hgains⟩ := h.coherent.addHandler_gainsLate hstep
    exact ⟨old, new, d', e', hold, hnew, fun hlate => ⟨hgains hlate, (hgains hlate).links_eq⟩⟩

/-- An operation whose chain is not in the order of registration, with handlers from all levels and
    a claimant of the last place. -/
def crowdedPhase : List Request := [
  .addService "orders", .addOperation "orders" "place",
  .addHandler .everywhere .inbound ⟨{ name := "trace", phase := "Dispatch" }, .done (.ok .proceed)⟩,
  .addHandler (.service "orders") .inbound
    ⟨{ name := "send", phase := "Dispatch", last := true }, .done (.ok .proceed)⟩,
  .addHandler (.operation "orders" "place") .inbound
    ⟨{ name := "price", phase := "Dispatch", before := .ofList ["stamp"] }, .done (.ok .proceed)⟩,
  .addHandler (.operation "orders" "place") .inbound
    ⟨{ name := "check", phase := "Dispatch", before := .ofList ["trace", "price"] },
      .done (.ok .proceed)⟩]

/-- A handler that is asked for by one and asks for another, and for one that is not there. -/
def stampLink : Link Handler :=
  ⟨{ name := "stamp", phase := "Dispatch", after := .ofList ["check", "seal"] },
    .done (.ok .proceed)⟩

/-- The handler comes before the claimant of the last place, and behind all others. -/
theorem late_handler_moves_no_other_of_stamp :
    ∃ s t old new d e, (perform (nested 1)
        (.addHandler (.operation "orders" "place") .inbound stampLink)).run s = .ok (.done, t) ∧
      s.deployment.chain ⟨"orders", "place", .inbound⟩ = .ok (old, d) ∧
      old.handlerNames = ["check", "trace", "price", "send"] ∧
      t.deployment.chain ⟨"orders", "place", .inbound⟩ = .ok (new, e) ∧
      new.handlerNames = ["check", "trace", "price", "stamp", "send"] ∧
      old.GainsLate stampLink new := by
  obtain ⟨s, answer, t, hs, hrun, hanswer, hold, hnew, hlate⟩ :=
    exists_performed {} 1 crowdedPhase
      (.addHandler (.operation "orders" "place") .inbound stampLink)
      (fun s answer t => answer.declines = false ∧
        ((s.deployment.chain ⟨"orders", "place", .inbound⟩).toOption.map
          fun result => result.1.handlerNames) = some ["check", "trace", "price", "send"] ∧
        ((t.deployment.chain ⟨"orders", "place", .inbound⟩).toOption.map
          fun result => result.1.handlerNames) = some ["check", "trace", "price", "stamp", "send"] ∧
        ((s.deployment.chain ⟨"orders", "place", .inbound⟩).toOption.map
          fun result => decide (Unrequired stampLink result.1)) = some true)
      (by decide +kernel)
  obtain ⟨result, _, htake, hreply⟩ := run_bind_ok.1 hrun
  cases hreply
  have hdone : result = .ok () := by
    cases result with
    | error error => cases hanswer
    | ok done => rfl
  subst hdone
  obtain ⟨old, new, d, e, hchain, hchain', hgains⟩ := hs.late_handler_moves_no_other hrun
  rw [hchain] at hold hlate
  rw [hchain'] at hnew
  have hunrequired : Unrequired stampLink old := of_decide_eq_true (Option.some.inj hlate)
  exact ⟨s, t, old, new, d, e, hrun, hchain, Option.some.inj hold, hchain', Option.some.inj hnew,
    (hgains hunrequired).1⟩

end Deployment

end ExchangePipeline
