/-
  ExchangePipeline/Proofs/Session/Parameters.lean
  ===============================================
  **Defining parameters.**

  What the request to define a parameter does to a session, from what it does to
  the tree: it is accepted where no lock is in sight, and then changes the look-ups
  that its node is exposed to, and nothing else; a refusal names the reason and
  leaves the session as it was (`Tree.Reachable.definition_reaches_exposed`).  Two
  requests that see nothing of each other can be made in either order
  (`Tree.independent_definitions_commute`).
-/
import ExchangePipeline.Proofs.Session.Moves
import ExchangePipeline.Proofs.Tree.Commuting

namespace ExchangePipeline

namespace Session

variable {s : Session} {n : NodeId} {q : Parameter}

theorem perform_addParameter_ok (inner : Inner) {t : Tree}
    (h : s.deployment.tree.addParameter n q = .ok t) :
    (perform inner (.addParameter n q)).run s =
      .ok (.done, { s with deployment := { s.deployment with tree := t } }) := by
  refine run_bind_ok.2 ⟨.ok (), _, run_changeOnly _ ?_, rfl⟩
  rw [h]
  rfl

theorem perform_addParameter_error (inner : Inner) {error : ConfigError}
    (h : s.deployment.tree.addParameter n q = .error error) :
    (perform inner (.addParameter n q)).run s = .ok (.refused (.config error), s) := by
  refine run_bind_ok.2 ⟨.error error, _, run_change_of_error _ ?_, rfl⟩
  dsimp only
  rw [h]
  rfl

end Session

namespace Tree

variable {tree : Tree}

/-- **What a definition reaches.**  In a reachable tree a parameter can be defined on a node exactly
    if the node is there and nothing on the way from it to the root defines the name as locked.
    Then the look-up gives the new definition at every node that it is exposed to, and all other
    look-ups, own definitions, engagements, nodes and children are what they were.  Otherwise the
    refusal names the missing node, or the node and the nearest one that locks the name, and
    everything is as before. -/
theorem Reachable.definition_reaches_exposed (h : Reachable tree) (n : NodeId) (q : Parameter) :
    ((∃ t, tree.addParameter n q = .ok t) ↔
      (∃ node, tree.node? n = some node) ∧
        ∀ i, tree.LeadsTo n i → ∀ p, tree.ownParameter? i q.name = some p → p.locked = false) ∧
    (∀ t, tree.addParameter n q = .ok t → tree.RedefinedAt n q t ∧
      ∀ inner (s : Session), s.deployment.tree = tree →
        (Session.perform inner (.addParameter n q)).run s =
          .ok (.done, { s with deployment := { s.deployment with tree := t } })) ∧
    ∀ error, tree.addParameter n q = .error error →
      ((tree.node? n = none ∧ error = .unknownNode n) ∨
        ∃ owner, tree.NearestLock n q.name owner ∧
          error = .lockedParameter q.name (tree.path n) (tree.path owner)) ∧
      ∀ inner (s : Session), s.deployment.tree = tree →
        (Session.perform inner (.addParameter n q)).run s = .ok (.refused (.config error), s) := by
  have hw := h.wellFormed
  refine ⟨hw.addParameter_ok_iff, fun t ht => ⟨hw.redefinedAt ht, ?_⟩,
    fun error herror => ⟨hw.addParameter_error herror, ?_⟩⟩
  · rintro inner s rfl
    exact Session.perform_addParameter_ok inner ht
  · rintro inner s rfl
    exact Session.perform_addParameter_error inner herror

/-- The root locks a region and has a time-out; a service has a time-out of its own, and so has one
    of its two operations.  Another service has nothing. -/
def tieredTimeouts : Tree where
  nodes := [
    { Node.fresh .root "global" none with
      parameters := [("region", ⟨"region", .string "north", true⟩),
        ("timeout", ⟨"timeout", .string "60s", false⟩)] },
    { Node.fresh .service "orders" (some rootId) with
      parameters := [("timeout", ⟨"timeout", .string "30s", false⟩)] },
    { Node.fresh .operation "place" (some 1) with
      parameters := [("timeout", ⟨"timeout", .string "5s", false⟩)] },
    .fresh .operation "cancel" (some 1),
    .fresh .service "billing" (some rootId)]
  children := [
    ({ parent := rootId, kind := .service, name := "orders" }, 1),
    ({ parent := 1, kind := .operation, name := "place" }, 2),
    ({ parent := 1, kind := .operation, name := "cancel" }, 3),
    ({ parent := rootId, kind := .service, name := "billing" }, 4)]

theorem reachable_tieredTimeouts : Reachable tieredTimeouts := by
  have horders : Reachable _ := .single (@Step.addService _ _ "orders" _ rfl)
  have hplace : Reachable _ := horders.tail (@Step.addOperation _ _ "orders" "place" _ rfl)
  have hcancel : Reachable _ := hplace.tail (@Step.addOperation _ _ "orders" "cancel" _ rfl)
  have hbilling : Reachable _ := hcancel.tail (@Step.addService _ _ "billing" _ rfl)
  have hregion : Reachable _ :=
    hbilling.tail (@Step.addParameter _ _ rootId ⟨"region", .string "north", true⟩ rfl)
  have hglobal : Reachable _ :=
    hregion.tail (@Step.addParameter _ _ rootId ⟨"timeout", .string "60s", false⟩ rfl)
  have hservice : Reachable _ :=
    hglobal.tail (@Step.addParameter _ _ 1 ⟨"timeout", .string "30s", false⟩ rfl)
  exact hservice.tail (@Step.addParameter _ _ 2 ⟨"timeout", .string "5s", false⟩ rfl)

/-- The time-out of the service is defined anew.  The operation without one of its own sees it, the
    other does not, and neither do the root and the other service.  The region cannot be defined on
    an operation, nor anything on a node that is not there. -/
theorem definition_reaches_exposed_of_tiers :
    Reachable tieredTimeouts ∧
    (∃ t, tieredTimeouts.addParameter 1 ⟨"timeout", .string "10s", true⟩ = .ok t ∧
      t.parameter? 1 "timeout" = some ⟨"timeout", .string "10s", true⟩ ∧
      t.parameter? 3 "timeout" = some ⟨"timeout", .string "10s", true⟩ ∧
      t.parameter? 2 "timeout" = some ⟨"timeout", .string "5s", false⟩ ∧
      t.parameter? 4 "timeout" = some ⟨"timeout", .string "60s", false⟩ ∧
      t.parameter? 3 "region" = some ⟨"region", .string "north", true⟩) ∧
    (∃ owner, tieredTimeouts.NearestLock 3 "region" owner ∧
      tieredTimeouts.addParameter 3 ⟨"region", .null, false⟩ =
        .error (.lockedParameter "region" (tieredTimeouts.path 3) (tieredTimeouts.path owner))) ∧
    tieredTimeouts.addParameter 7 ⟨"timeout", .null, false⟩ = .error (.unknownNode 7) := by
  have h := reachable_tieredTimeouts
  have hw := h.wellFormed
  obtain ⟨-, hdone, -⟩ := h.definition_reaches_exposed 1 ⟨"timeout", .string "10s", true⟩
  obtain ⟨-, -, hlocked⟩ := h.definition_reaches_exposed 3 ⟨"region", .null, false⟩
  obtain ⟨-, -, hunknown⟩ := h.definition_reaches_exposed 7 ⟨"timeout", .null, false⟩
  obtain ⟨hredefined, -⟩ := hdone _ rfl
  have hservice : tieredTimeouts.ExposedTo 1 "timeout" 1 :=
    ⟨.refl, fun i hdi hin hne => absurd (hin.antisymm hdi hw) hne⟩
  have hcancel : tieredTimeouts.ExposedTo 1 "timeout" 3 := by
    refine ⟨leadsTo_of_mem_upward (show 1 ∈ tieredTimeouts.ancestry 3 by decide), ?_⟩
    intro i hdi hin hne
    have hway : tieredTimeouts.ancestry 3 = [3] ++ 1 :: [0] := rfl
    rw [List.mem_singleton.1 ((hw.mem_before_iff hway).2 ⟨hdi, hin, hne⟩)]
    rfl
  have hhidden : ¬ tieredTimeouts.ExposedTo 1 "timeout" 2 := by
    intro hexposed
    cases hexposed.unhidden 2 .refl hexposed.way (by decide)
  have haside : ¬ tieredTimeouts.ExposedTo 1 "timeout" 4 := by
    intro hexposed
    have hmem := (hw.mem_ancestry_iff (d := 4) rfl).2 hexposed.way
    exact absurd hmem (by decide)
  refine ⟨h, ⟨_, rfl, hredefined.visible 1 hservice, hredefined.visible 3 hcancel, ?_, ?_, ?_⟩,
    ?_, ?_⟩
  · exact hredefined.unaffected 2 "timeout" fun hand => hhidden hand.2
  · exact hredefined.unaffected 4 "timeout" fun hand => haside hand.2
  · exact hredefined.unaffected 3 "region" fun hand => absurd hand.1 (by decide)
  · rcases (hlocked _ rfl).1 with ⟨hnone, -⟩ | ⟨owner, howner, herror⟩
    · cases hnone
    · exact ⟨owner, howner, congrArg Except.error herror⟩
  · rcases (hunknown _ rfl).1 with ⟨-, herror⟩ | ⟨owner, howner, -⟩
    · exact congrArg Except.error herror
    · obtain ⟨p, hp, -⟩ := howner.locked
      have hmem : owner = 7 := by
        rcases Relation.ReflTransGen.cases_head howner.way with rfl | ⟨i, ⟨node, hn, -⟩, -⟩
        · rfl
        · cases hn
      subst hmem
      cases hp

end Tree

namespace Session

variable {s : Session} {n m : NodeId} {q r : Parameter}

/-- The request to define a parameter answers what the attempt gives, and leaves its tree. -/
theorem perform_addParameter (inner : Inner) (s : Session) (n : NodeId) (q : Parameter) :
    (perform inner (.addParameter n q)).run s =
      .ok (reply (fun _ => .done) (s.deployment.tree.attempt n q).1,
        { s with deployment := { s.deployment with
          tree := (s.deployment.tree.attempt n q).2 } }) := by
  cases h : s.deployment.tree.addParameter n q with
  | ok t =>
    rw [perform_addParameter_ok inner h, Tree.attempt, h]
    rfl
  | error error =>
    rw [perform_addParameter_error inner h, Tree.attempt, h]
    rfl

/-- Performs two requests, one after the other. -/
def performBoth (inner : Inner) (one other : Request) : Doing (Reply × Reply) := do
  let first ← perform inner one
  let second ← perform inner other
  return (first, second)

theorem performBoth_addParameter (inner : Inner) (s : Session) (n m : NodeId) (q r : Parameter) :
    (performBoth inner (.addParameter n q) (.addParameter m r)).run s =
      .ok ((reply (fun _ => .done) (s.deployment.tree.attempt n q).1,
          reply (fun _ => .done) ((s.deployment.tree.attempt n q).2.attempt m r).1),
        { s with deployment := { s.deployment with
          tree := ((s.deployment.tree.attempt n q).2.attempt m r).2 } }) := by
  refine run_bind_ok.2 ⟨_, _, perform_addParameter inner s n q, ?_⟩
  exact run_bind_ok.2 ⟨_, _, perform_addParameter inner _ m r, rfl⟩

end Session

namespace Tree

/-- **Definitions that see nothing of each other.**  Two attempts to define parameters, of different
    names, or on nodes of which neither is the other or an ancestor of the other, have the same two
    results and leave the same tree in either order, whether they are locked and whether they are
    refused; and so it is with the requests of a session.  In particular what a node defines, locked
    or not, never affects a definition outside its subtree: that has the same result as without it,
    and leaves all other nodes as without it. -/
theorem independent_definitions_commute (tree : Tree) (n m : NodeId) (q r : Parameter) :
    ((q.name ≠ r.name ∨ ¬ tree.LeadsTo n m ∧ ¬ tree.LeadsTo m n) →
      ((tree.attempt n q).2.attempt m r).1 = (tree.attempt m r).1 ∧
      ((tree.attempt m r).2.attempt n q).1 = (tree.attempt n q).1 ∧
      ((tree.attempt n q).2.attempt m r).2 = ((tree.attempt m r).2.attempt n q).2 ∧
      ∀ inner (s : Session), s.deployment.tree = tree → ∃ answer answer' t,
        (Session.performBoth inner (.addParameter n q) (.addParameter m r)).run s =
          .ok ((answer, answer'), t) ∧
        (Session.performBoth inner (.addParameter m r) (.addParameter n q)).run s =
          .ok ((answer', answer), t)) ∧
    (¬ tree.LeadsTo m n →
      ((tree.attempt n q).2.attempt m r).1 = (tree.attempt m r).1 ∧
      ∀ i, i ≠ n →
        ((tree.attempt n q).2.attempt m r).2.node? i = (tree.attempt m r).2.node? i) := by
  constructor
  · intro h
    have hqr : ¬ (r.name = q.name ∧ tree.LeadsTo m n) := by
      rintro ⟨hname, hway⟩
      rcases h with hne | ⟨-, hapart⟩
      · exact hne hname.symm
      · exact hapart hway
    have hrq : ¬ (q.name = r.name ∧ tree.LeadsTo n m) := by
      rintro ⟨hname, hway⟩
      rcases h with hne | ⟨hapart, -⟩
      · exact hne hname
      · exact hapart hway
    have hsecond := (attempt_outside hqr).1
    have hfirst := (attempt_outside hrq).1
    have htree := attempt_comm hqr hrq
    refine ⟨hsecond, hfirst, htree, ?_⟩
    rintro inner s rfl
    refine ⟨_, _, _, Session.performBoth_addParameter inner s n m q r, ?_⟩
    rw [Session.performBoth_addParameter, hsecond, hfirst, htree]
  · intro h
    exact attempt_outside fun hand => h hand.2

/-- A service locks the time-out that another one defines as well, in either order; the first lets
    nobody define the time-out below it afterwards, and the root may still define it. -/
theorem independent_definitions_commute_of_lock :
    (¬ tieredTimeouts.LeadsTo 1 4 ∧ ¬ tieredTimeouts.LeadsTo 4 1) ∧
    (∃ t, tieredTimeouts.attempt 1 ⟨"timeout", .string "10s", true⟩ = (.ok (), t) ∧
      (t.attempt 4 ⟨"timeout", .string "20s", false⟩).1 = .ok () ∧
      (t.attempt 4 ⟨"timeout", .string "20s", false⟩).2 =
        ((tieredTimeouts.attempt 4 ⟨"timeout", .string "20s", false⟩).2.attempt 1
          ⟨"timeout", .string "10s", true⟩).2 ∧
      (t.attempt 3 ⟨"timeout", .string "20s", false⟩).1 ≠ .ok () ∧
      ¬ tieredTimeouts.LeadsTo rootId 1 ∧
      (t.attempt rootId ⟨"timeout", .string "90s", true⟩).1 = .ok ()) := by
  have hw := reachable_tieredTimeouts.wellFormed
  have hone : ¬ tieredTimeouts.LeadsTo 1 4 := fun h =>
    absurd ((hw.mem_ancestry_iff (d := 1) rfl).2 h) (by decide)
  have hother : ¬ tieredTimeouts.LeadsTo 4 1 := fun h =>
    absurd ((hw.mem_ancestry_iff (d := 4) rfl).2 h) (by decide)
  have hroot : ¬ tieredTimeouts.LeadsTo rootId 1 := fun h =>
    absurd ((hw.mem_ancestry_iff (d := rootId) rfl).2 h) (by decide)
  obtain ⟨hresult, -, htree, -⟩ := (independent_definitions_commute tieredTimeouts 1 4
    ⟨"timeout", .string "10s", true⟩ ⟨"timeout", .string "20s", false⟩).1 (Or.inr ⟨hone, hother⟩)
  have habove := ((independent_definitions_commute tieredTimeouts 1 rootId
    ⟨"timeout", .string "10s", true⟩ ⟨"timeout", .string "90s", true⟩).2 hroot).1
  refine ⟨⟨hone, hother⟩, _, rfl, hresult, htree, ?_, hroot, habove⟩
  intro h
  cases h

end Tree

end ExchangePipeline
