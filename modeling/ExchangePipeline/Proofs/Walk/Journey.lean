/-
  ExchangePipeline/Proofs/Walk/Journey.lean
  =========================================
  **The journey of an exchange.**

  An exchange is driven by calls, at any times, in whatever state its host has
  come into meanwhile (`Life`).  Over the whole of its life its handlers are
  invoked along the chain that it was bound to first, each once; or they are up to
  one that faults, and then along the fault chain supplied at that moment
  (`Journey`).  Cursor, chain and flow say how far this has gone, so that a call
  that goes on with the exchange goes on where the last one stopped.

  What a call adds to the log is kept by each handler of a walk and each diversion
  (`Lawful.walkAlong_concludes`, `Lawful.faultWithin_concludes`), so it is kept by calls, and
  by induction over lives (`Life.follows_chains`).
-/
import ExchangePipeline.Proofs.Walk.Hosts

namespace ExchangePipeline

variable {σ β : Type}

/-! ### What is seen of an exchange -/

inductive Sight (β : Type) where
  /-- The exchange is given a chain to run along. -/
  | given (chain : Chain β)
  | answered (service operation : String) (flow : Flow) (answer : Except ConfigError (Chain β))
  /-- A handler was invoked; `paused` is the pause flag that it left. -/
  | invoked (link : Link β) (outcome : Outcome) (paused : Bool)
  | returned (result : Except ExecutionError Status)

namespace Sight

def observer : Observer β (Sight β) where
  answered service operation flow answer := [.answered service operation flow answer]
  invoked link _ result := [.invoked link result.1 result.2.paused]

def link? : Sight β → Option (Link β)
  | .invoked link _ _ => some link
  | _ => none

def chain? : Sight β → Option (Chain β)
  | .given chain => some chain
  | .answered _ _ _ (.ok chain) => some chain
  | _ => none

/-- A handler returned without fault and asked for a pause. -/
def asksPause : Sight β → Prop
  | .invoked _ (.ok response) paused => response = .pause ∨ paused = true
  | _ => False

end Sight

/-- The handlers invoked, in order. -/
def handlersIn (seen : List (Sight β)) : List (Link β) :=
  seen.filterMap Sight.link?

/-- The chains that the exchange was given or that were supplied to it, in order. -/
def chainsIn (seen : List (Sight β)) : List (Chain β) :=
  seen.filterMap Sight.chain?

@[simp] theorem handlersIn_nil : handlersIn ([] : List (Sight β)) = [] := rfl

@[simp] theorem chainsIn_nil : chainsIn ([] : List (Sight β)) = [] := rfl

@[simp] theorem handlersIn_cons (sight : Sight β) (seen : List (Sight β)) :
    handlersIn (sight :: seen) = sight.link?.toList ++ handlersIn seen := by
  rw [handlersIn, List.filterMap_cons]
  cases sight.link? <;> rfl

@[simp] theorem chainsIn_cons (sight : Sight β) (seen : List (Sight β)) :
    chainsIn (sight :: seen) = sight.chain?.toList ++ chainsIn seen := by
  rw [chainsIn, List.filterMap_cons]
  cases sight.chain? <;> rfl

@[simp] theorem handlersIn_append (seen more : List (Sight β)) :
    handlersIn (seen ++ more) = handlersIn seen ++ handlersIn more :=
  List.filterMap_append

@[simp] theorem chainsIn_append (seen more : List (Sight β)) :
    chainsIn (seen ++ more) = chainsIn seen ++ chainsIn more :=
  List.filterMap_append

/-- Whoever asks for a pause, without fault, is the last in the call, and the call says so. -/
def Heeded : List (Sight β) → Prop
  | [] => True
  | sight :: rest =>
    (sight.asksPause → rest.head? = some (.returned (.ok .paused))) ∧ Heeded rest

theorem Heeded.append {seen more : List (Sight β)} (h : Heeded seen) (h' : Heeded more) :
    Heeded (seen ++ more) := by
  induction seen with
  | nil => exact h'
  | cons sight rest ih =>
    rw [List.cons_append]
    refine ⟨fun hask => ?_, ih h.2⟩
    rw [List.head?_append, h.1 hask, Option.some_or]

theorem Heeded.concat {seen : List (Sight β)} (h : Heeded seen) {sight : Sight β}
    (hquiet : ¬ sight.asksPause) : Heeded (seen ++ [sight]) :=
  h.append ⟨fun hask => absurd hask hquiet, trivial⟩

theorem Heeded.concat_pause {seen : List (Sight β)} (h : Heeded seen) (sight : Sight β) :
    Heeded (seen ++ [sight] ++ [.returned (.ok .paused)]) := by
  rw [List.append_assoc]
  exact h.append ⟨fun _ => rfl, fun hask => hask.elim, trivial⟩

theorem Heeded.of_append_cons {before after : List (Sight β)} {sight : Sight β}
    (h : Heeded (before ++ sight :: after)) (hask : sight.asksPause) :
    ∃ rest, after = .returned (.ok .paused) :: rest := by
  induction before with
  | nil => exact List.head?_eq_some_iff.1 (h.1 hask)
  | cons first before ih => exact ih h.2

/-! ### Where an exchange stands -/

/-- An exchange stands on a chain, behind the handlers it has been through. -/
structure StandsOn (chain : Chain β) (through : List (Link β)) (x : Exchange β) : Prop where
  chain_eq : x.chain = some chain
  flow_eq : x.activeFlow = chain.flow
  through_eq : through = chain.links.take x.cursor
  cursor_le : x.cursor ≤ chain.links.length

variable {x y : Exchange β} {seen : List (Sight β)} {c : Chain β} {through : List (Link β)}

theorem StandsOn.congr (h : StandsOn c through x) (hchain : y.chain = x.chain)
    (hflow : y.activeFlow = x.activeFlow) (hcursor : y.cursor = x.cursor) :
    StandsOn c through y := by
  obtain ⟨h₁, h₂, h₃, h₄⟩ := h
  rw [← hcursor] at h₃ h₄
  exact ⟨hchain.trans h₁, hflow.trans h₂, h₃, h₄⟩

theorem StandsOn.start (c : Chain β) (x : Exchange β) : StandsOn c [] (x.start c) :=
  ⟨rfl, rfl, rfl, Nat.zero_le _⟩

theorem StandsOn.remaining_eq (h : StandsOn c through x) :
    x.remaining = c.links.drop x.cursor := by
  rw [Exchange.remaining, h.chain_eq]

theorem StandsOn.length_eq (h : StandsOn c through x) : through.length = x.cursor := by
  rw [h.through_eq, List.length_take, Nat.min_eq_left h.cursor_le]

theorem StandsOn.isPrefix (h : StandsOn c through x) : through <+: c.links := by
  rw [h.through_eq]
  exact List.take_prefix _ _

/-- Where nothing remains, all handlers have been invoked. -/
theorem StandsOn.through_all (h : StandsOn c through x) (hrest : x.remaining = []) :
    through = c.links := by
  rw [h.remaining_eq, List.drop_eq_nil_iff] at hrest
  rw [h.through_eq, List.take_of_length_le hrest]

theorem StandsOn.next (h : StandsOn c through x) {link : Link β} {rest : List (Link β)}
    (hrest : x.remaining = link :: rest) :
    StandsOn c (through ++ [link]) (x.moveTo (x.cursor + 1)) := by
  rw [h.remaining_eq] at hrest
  have hlink : c.links[x.cursor]? = some link := by
    rw [← List.head?_drop, hrest, List.head?_cons]
  refine ⟨h.chain_eq, h.flow_eq, ?_, (List.getElem?_eq_some_iff.1 hlink).1⟩
  have htake := @List.take_add_one _ c.links x.cursor
  rw [hlink, ← h.through_eq] at htake
  exact htake.symm

/-- What has been seen of an exchange, and where it stands accordingly. -/
inductive Journey (x : Exchange β) (seen : List (Sight β)) : Prop where
  | unbound (chain_eq : x.chain = none) (chains : chainsIn seen = [])
      (handlers : handlersIn seen = [])
  | straight (c : Chain β) (chains : chainsIn seen = [c]) (stands : StandsOn c (handlersIn seen) x)
  /-- The handler `link` of the chain `c` faulted, and the exchange went on along `f`. -/
  | diverted (c f : Chain β) (before : List (Sight β)) (link : Link β) (fault : Fault)
      (paused : Bool) (after : List (Sight β))
      (seen_eq : seen = before ++ .invoked link (.error fault) paused ::
        .answered x.service x.operation c.flow.faultFlow (.ok f) :: after)
      (first : chainsIn before = [c]) (last : chainsIn after = [])
      (ordinary : c.flow.isFault = false) (flow_eq : f.flow = c.flow.faultFlow)
      (along : handlersIn before ++ [link] <+: c.links) (stands : StandsOn f (handlersIn after) x)

/-- What the state of an exchange says of its chain. -/
def Exchange.Standing (x : Exchange β) : Prop :=
  match x.state with
  | .created => x.chain = none
  | .running | .paused => x.chain ≠ none
  | .completed => x.chain ≠ none ∧ x.remaining = []
  | .faulted => True

/-- How a call leaves an exchange and the log, before it returns. -/
structure Concludes (driven : Driven β) (seen : List (Sight β)) : Prop where
  journey : Journey driven.2 seen
  standing : driven.2.Standing
  heeded : Heeded (seen ++ [.returned driven.1])

theorem Journey.congr (h : Journey x seen) (hservice : y.service = x.service)
    (hoperation : y.operation = x.operation) (hchain : y.chain = x.chain)
    (hflow : y.activeFlow = x.activeFlow) (hcursor : y.cursor = x.cursor) : Journey y seen := by
  cases h with
  | unbound chain_eq chains handlers => exact .unbound (hchain.trans chain_eq) chains handlers
  | straight c chains stands => exact .straight c chains (stands.congr hchain hflow hcursor)
  | diverted c f before link fault paused after seen_eq first last ordinary flow_eq along stands =>
    rw [← hservice, ← hoperation] at seen_eq
    exact .diverted c f before link fault paused after seen_eq first last ordinary flow_eq along
      (stands.congr hchain hflow hcursor)

/-- What is neither a chain nor a handler does not matter. -/
theorem Journey.concat (h : Journey x seen) {sight : Sight β} (hchain : sight.chain? = none)
    (hlink : sight.link? = none) : Journey x (seen ++ [sight]) := by
  cases h with
  | unbound chain_eq chains handlers =>
    exact .unbound chain_eq (by simp [chains, hchain]) (by simp [handlers, hlink])
  | straight c chains stands =>
    exact .straight c (by simp [chains, hchain]) (by simpa [hlink] using stands)
  | diverted c f before link fault paused after seen_eq first last ordinary flow_eq along stands =>
    exact .diverted c f before link fault paused (after ++ [sight]) (by simp [seen_eq]) first
      (by simp [last, hchain]) ordinary flow_eq along (by simpa [hlink] using stands)

/-- The next handler is invoked. -/
theorem Journey.next (h : Journey x seen) {link : Link β} {rest : List (Link β)}
    (hrest : x.remaining = link :: rest) (outcome : Outcome) (paused : Bool) :
    Journey (x.moveTo (x.cursor + 1)) (seen ++ [.invoked link outcome paused]) := by
  cases h with
  | unbound chain_eq chains handlers =>
    rw [Exchange.remaining, chain_eq] at hrest
    cases hrest
  | straight c chains stands =>
    refine .straight c (by simp [chains, Sight.chain?]) ?_
    simpa [Sight.link?] using stands.next hrest
  | diverted c f before faulty fault flag after seen_eq first last ordinary flow_eq along stands =>
    refine .diverted c f before faulty fault flag (after ++ [.invoked link outcome paused]) ?_ first
      (by simp [last, Sight.chain?]) ordinary flow_eq along ?_
    · simp [seen_eq, Exchange.moveTo]
    · simpa [Sight.link?] using stands.next hrest

/-- A handler faulted that is of no fault flow, and its fault chain is there. -/
theorem Journey.divert {before : List (Sight β)} {link : Link β} {fault : Fault} {paused : Bool}
    (h : Journey x (before ++ [.invoked link (.error fault) paused]))
    (hordinary : x.activeFlow.isFault = false) {f : Chain β}
    (hflow : f.flow = x.activeFlow.faultFlow) (record : FaultRecord) :
    Journey (x.divert f record) (before ++ [.invoked link (.error fault) paused] ++
      [.answered x.service x.operation x.activeFlow.faultFlow (.ok f)]) := by
  cases h with
  | unbound chain_eq chains handlers => simp [Sight.link?] at handlers
  | straight c chains stands =>
    have hc : x.activeFlow = c.flow := stands.flow_eq
    rw [hc] at hordinary hflow ⊢
    refine .diverted c f before link fault paused [] ?_ (by simpa [Sight.chain?] using chains) rfl
      hordinary hflow (by simpa [Sight.link?] using stands.isPrefix) (.start f _)
    rw [List.append_assoc]
    rfl
  | diverted c f' before' faulty fault' flag after seen_eq first last ordinary flow_eq along stands =>
    -- the exchange is in its fault flow already
    rw [stands.flow_eq, flow_eq, Flow.isFault_faultFlow] at hordinary
    cases hordinary

/-! ### Walks -/

/-- An exchange that is under way. -/
structure UnderWay (x : Exchange β) (seen : List (Sight β)) : Prop where
  running : x.state = .running
  bound : x.chain ≠ none
  journey : Journey x seen

theorem Journey.fails (h : Journey x seen) (hheeded : Heeded seen) (error : ExecutionError)
    (record : FaultRecord) : Concludes (.error error, x.fail record) seen :=
  ⟨h.congr rfl rfl rfl rfl rfl, trivial, hheeded.concat id⟩

/-- A handler has been invoked, and left the exchange as it may. -/
theorem UnderWay.next (h : UnderWay x seen) {link : Link β} {rest : List (Link β)}
    (hrest : x.remaining = link :: rest) (hy : x.Touched y) (outcome : Outcome) :
    UnderWay (y.moveTo (x.cursor + 1)) (seen ++ [.invoked link outcome y.paused]) := by
  have hjourney := h.journey.next hrest outcome y.paused
  refine ⟨hy.state_eq.trans h.running, ?_, ?_⟩
  · exact fun hnone => h.bound (hy.chain_eq.symm.trans hnone)
  · exact hjourney.congr hy.service_eq hy.operation_eq hy.chain_eq hy.activeFlow_eq rfl

variable {Good : σ → Prop} {host : Host σ β} {s t : σ} {d : Driven β} {q : List (Sight β) × σ}

/-- What comes of a fault in an exchange that is under way ends as it should. -/
def ConcludesFaults (Good : σ → Prop) (onFault : Host.OnFault (List (Sight β) × σ) β) : Prop :=
  ∀ {link fault x before paused s d q}, Good s →
    UnderWay x (before ++ [.invoked link (.error fault) paused]) → Heeded before →
    (onFault link x.activeFlow fault x).run (before ++ [.invoked link (.error fault) paused], s) =
      .ok (d, q) → Concludes d q.1

/-- One handler after the other. -/
theorem Host.Lawful.walkAlong_concludes (h : host.Lawful Good)
    {onFault : Host.OnFault (List (Sight β) × σ) β} (hf : ConcludesFaults Good onFault)
    {rest : List (Link β)} (hrest : x.remaining = rest) (hx : UnderWay x seen)
    (hheeded : Heeded seen) (hs : Good s)
    (hrun : ((host.observed Sight.observer).walkAlong onFault rest x).run (seen, s) = .ok (d, q)) :
    Concludes d q.1 := by
  induction rest generalizing x seen s with
  | nil =>
    obtain ⟨_, _, hget, hrun⟩ := run_bind_ok.1 hrun
    cases hget
    split at hrun
    · cases hrun
      exact hx.journey.fails hheeded _ _
    · cases hrun
      exact ⟨hx.journey.congr rfl rfl rfl rfl rfl, ⟨hx.bound, hrest⟩, hheeded.concat id⟩
  | cons link rest ih =>
    obtain ⟨_, _, hget, hrun⟩ := run_bind_ok.1 hrun
    cases hget
    split at hrun
    · cases hrun
      exact hx.journey.fails hheeded _ _
    obtain ⟨⟨outcome, y⟩, _, hinvoke, hrun⟩ := run_bind_ok.1 hrun
    obtain ⟨t, ht, hy, rfl⟩ := h.invoke_observed hs hx.running hinvoke
    have hnext := hx.next hrest hy outcome
    cases outcome with
    | error fault =>
      rw [← hy.activeFlow_eq] at hrun
      exact hf ht hnext hheeded hrun
    | ok response =>
      dsimp only at hrun
      split at hrun
      · cases hrun
        refine ⟨hnext.journey.congr rfl rfl rfl rfl rfl, hnext.bound, ?_⟩
        exact hheeded.concat_pause _
      · rename_i hgoes
        exact ih (hy.remaining_next hrest) hnext (hheeded.concat hgoes) ht hrun

/-- One diversion after the other; with a lawful host there is one at most. -/
theorem Host.Lawful.faultWithin_concludes (h : host.Lawful Good) (diversions : Nat) :
    ConcludesFaults Good ((host.observed Sight.observer).faultWithin diversions) := by
  induction diversions with
  | zero =>
    intro link fault x before paused s d q _ _ _ hrun
    cases hrun
  | succ diversions ih =>
    intro link fault x before paused s d q hs hx hheeded hrun
    have hheeded' : Heeded (before ++ [.invoked link (.error fault) paused]) := hheeded.concat id
    rw [Host.faultWithin] at hrun
    dsimp only at hrun
    split at hrun
    · cases hrun
      exact hx.journey.fails hheeded' _ _
    rename_i hordinary
    obtain ⟨answer, _, hchain, hrun⟩ := run_bind_ok.1 hrun
    obtain ⟨t, ht, hflow, rfl⟩ := h.chainFor_observed hs hchain
    cases answer with
    | error error =>
      cases hrun
      exact (hx.journey.concat rfl rfl).fails (hheeded'.concat id) _ _
    | ok f =>
      have hjourney := hx.journey.divert (Bool.eq_false_iff.2 hordinary) (hflow f rfl)
        (.handler link.placement x.activeFlow fault.text)
      refine h.walkAlong_concludes ih ?_ ⟨rfl, ?_, hjourney⟩ (hheeded'.concat id) ht hrun
      · rfl
      · exact fun hnone => by cases hnone

theorem Host.Lawful.walk_concludes (h : host.Lawful Good) (hx : UnderWay x seen)
    (hheeded : Heeded seen) (hs : Good s)
    (hrun : ((host.observed Sight.observer).walk x).run (seen, s) = .ok (d, q)) : Concludes d q.1 :=
  h.walkAlong_concludes (h.faultWithin_concludes _) rfl hx hheeded hs hrun

/-! ### Calls -/

/-- What has been seen of an exchange that nobody drives at the moment. -/
structure Rests (x : Exchange β) (seen : List (Sight β)) : Prop where
  journey : Journey x seen
  standing : x.Standing
  heeded : Heeded seen

theorem Rests.touched (h : Rests x seen) (hy : x.Touched y) : Rests y seen := by
  refine ⟨h.journey.congr hy.service_eq hy.operation_eq hy.chain_eq hy.activeFlow_eq hy.cursor_eq,
    ?_, h.heeded⟩
  have hstanding := h.standing
  unfold Exchange.Standing Exchange.remaining at *
  rw [hy.state_eq, hy.chain_eq, hy.cursor_eq]
  exact hstanding

theorem Rests.refused (h : Rests x seen) (error : ExecutionError) : Concludes (.error error, x) seen :=
  ⟨h.journey, h.standing, h.heeded.concat id⟩

/-- An exchange that was not started is bound to no chain yet, and is now bound to one. -/
theorem Rests.start (h : Rests x seen) (hx : x.state = .created) {sight : Sight β}
    (hchain : sight.chain? = some c) (hlink : sight.link? = none) :
    UnderWay (x.start c) (seen ++ [sight]) := by
  have hnone : x.chain = none := by
    have hstanding := h.standing
    rw [Exchange.Standing, hx] at hstanding
    exact hstanding
  refine ⟨rfl, fun hstart => (by cases hstart), ?_⟩
  cases h.journey with
  | unbound _ chains handlers =>
    refine .straight c (by simp [chains, hchain]) ?_
    simpa [handlers, hlink] using StandsOn.start c x
  | straight c' _ stands => cases hnone.symm.trans stands.chain_eq
  | diverted c' f _ _ _ _ _ _ _ _ _ _ _ stands => cases hnone.symm.trans stands.chain_eq

namespace Call

/-- The chain that comes with a call, if the exchange can take one. -/
def given (call : Call β) (x : Exchange β) : List (Sight β) :=
  match call with
  | .runChain chain => if x.state = .created then [.given chain] else []
  | _ => []

/-- A call, with all that is seen of it. -/
def watched (host : Host σ β) (call : Call β) (x : Exchange β) :
    Act (List (Sight β) × σ) (Driven β) := do
  modify fun p => (p.1 ++ call.given x, p.2)
  let driven ← call.perform (host.observed Sight.observer) x
  modify fun p => (p.1 ++ [.returned driven.1], p.2)
  return driven

/-- A call that is watched is that call. -/
theorem mirrors_watched (host : Host σ β) (call : Call β) (x : Exchange β) :
    Mirrors Prod.snd (call.watched host x) (call.perform host x) := by
  intro p
  have h := @mirrors_perform _ _ _ host Sight.observer call x (p.1 ++ call.given x, p.2)
  have hrun : (call.watched host x).run p =
      ((call.perform (host.observed Sight.observer) x).run (p.1 ++ call.given x, p.2)).map
        fun result => (result.1, result.2.1 ++ [.returned result.1.1], result.2.2) := by
    simp only [watched, StateT.run_bind, StateT.run_modify, pure_bind]
    cases (call.perform (host.observed Sight.observer) x).run (p.1 ++ call.given x, p.2) <;> rfl
  rw [hrun, ← h]
  cases (call.perform (host.observed Sight.observer) x).run (p.1 ++ call.given x, p.2) <;> rfl

end Call

theorem Host.Lawful.runChain_concludes (h : host.Lawful Good) (hrests : Rests x seen) (hs : Good s)
    (hrun : ((host.observed Sight.observer).runChain c x).run
      (seen ++ (Call.runChain c).given x, s) = .ok (d, q)) : Concludes d q.1 := by
  unfold Host.runChain at hrun
  by_cases hx : x.state = .created
  · simp only [Call.given, if_pos hx] at hrun
    exact h.walk_concludes (hrests.start hx rfl rfl) (hrests.heeded.concat id) hs hrun
  · simp only [Call.given, if_neg hx, List.append_nil] at hrun
    cases hrun
    exact hrests.refused _

theorem Host.Lawful.run_concludes (h : host.Lawful Good) (hrests : Rests x seen) (hs : Good s)
    (hrun : ((host.observed Sight.observer).run x).run (seen, s) = .ok (d, q)) : Concludes d q.1 := by
  unfold Host.run at hrun
  split at hrun
  · rename_i hx
    obtain ⟨answer, _, hchain, hrun⟩ := run_bind_ok.1 hrun
    obtain ⟨t, ht, -, rfl⟩ := h.chainFor_observed hs hchain
    cases answer with
    | error error =>
      cases hrun
      exact (hrests.journey.concat rfl rfl).fails (hrests.heeded.concat id) _ _
    | ok chain =>
      simp only [Host.runChain, if_pos hx] at hrun
      exact h.walk_concludes (hrests.start hx rfl rfl) (hrests.heeded.concat id) ht hrun
  · cases hrun
    exact hrests.refused _

theorem Host.Lawful.resume_concludes (h : host.Lawful Good) (hrests : Rests x seen) (hs : Good s)
    (hrun : ((host.observed Sight.observer).resume x).run (seen, s) = .ok (d, q)) :
    Concludes d q.1 := by
  unfold Host.resume at hrun
  split at hrun
  · rename_i hx
    have hbound := hrests.standing
    rw [Exchange.Standing, hx] at hbound
    have hunderway : UnderWay x.unpause seen :=
      ⟨rfl, hbound, hrests.journey.congr rfl rfl rfl rfl rfl⟩
    exact h.walk_concludes hunderway hrests.heeded hs hrun
  · cases hrun
    exact hrests.refused _

/-- **What a call keeps.** -/
theorem Host.Lawful.watched_rests (h : host.Lawful Good) (hrests : Rests x seen) (hs : Good s)
    {call : Call β} {result : Except ExecutionError Status} {seen' : List (Sight β)}
    (hrun : (call.watched host x).run (seen, s) = .ok ((result, y), (seen', t))) :
    Rests y seen' := by
  obtain ⟨_, _, hgiven, hrun⟩ := run_bind_ok.1 hrun
  cases hgiven
  obtain ⟨d, q, hperform, hrun⟩ := run_bind_ok.1 hrun
  obtain ⟨_, _, hreturned, hrun⟩ := run_bind_ok.1 hrun
  cases hreturned
  cases hrun
  have hconcludes : Concludes (result, y) q.1 := by
    cases call with
    | run =>
      simp only [Call.given, List.append_nil] at hperform
      exact h.run_concludes hrests hs hperform
    | runChain chain => exact h.runChain_concludes hrests hs hperform
    | resume =>
      simp only [Call.given, List.append_nil] at hperform
      exact h.resume_concludes hrests hs hperform
  exact ⟨hconcludes.journey.concat rfl rfl, hconcludes.standing, hconcludes.heeded⟩

/-! ### Lives -/

/-- An exchange in the course of its life, and all that has been seen of it.  Each call finds the
    host in some good state, whatever has happened there since the last one. -/
inductive Life (Good : σ → Prop) (host : Host σ β) : Exchange β → List (Sight β) → Prop where
  | created (id : Nat) (service operation : String) (direction : Flow)
      (payload : Option (List UInt8)) (transport : Option TransportBinding) :
      Life Good host (.create id service operation direction payload transport) []
  | touched {x y : Exchange β} {seen : List (Sight β)} (earlier : Life Good host x seen)
      (touches : x.Touched y) : Life Good host y seen
  | driven {x y : Exchange β} {seen seen' : List (Sight β)} {s t : σ} {call : Call β}
      {result : Except ExecutionError Status} (earlier : Life Good host x seen) (good : Good s)
      (runs : (call.watched host x).run (seen, s) = .ok ((result, y), (seen', t))) :
      Life Good host y seen'
  | cancelled {x y : Exchange β} {seen : List (Sight β)} {s t : σ}
      {result : Except ExecutionError Unit} (earlier : Life Good host x seen)
      (runs : (host.cancel x).run s = .ok ((result, y), t)) : Life Good host y seen

theorem Life.rests (h : host.Lawful Good) (hlife : Life Good host x seen) : Rests x seen := by
  induction hlife with
  | created => exact ⟨.unbound rfl rfl rfl, rfl, trivial⟩
  | touched _ touches ih => exact ih.touched touches
  | driven _ good runs ih => exact h.watched_rests ih good runs
  | cancelled _ runs ih =>
    unfold Host.cancel at runs
    split at runs
    · cases runs
      exact ⟨ih.journey.congr rfl rfl rfl rfl rfl, trivial, ih.heeded⟩
    · cases runs
      exact ih

/-- An exchange is bound to a chain and has been through its first handlers, up to the cursor; if it
    is completed, through all of them. -/
structure Follows (chain : Chain β) (through : List (Link β)) (x : Exchange β) : Prop where
  chain_eq : x.chain = some chain
  isPrefix : through <+: chain.links
  cursor_eq : x.cursor = through.length
  completed : x.state = .completed → through = chain.links

theorem StandsOn.follows (h : StandsOn c through x) (hstanding : x.Standing) :
    Follows c through x := by
  refine ⟨h.chain_eq, h.isPrefix, h.length_eq.symm, fun hx => h.through_all ?_⟩
  rw [Exchange.Standing, hx] at hstanding
  exact hstanding.2

/-- **An exchange follows its chain**, over the whole of its life: no handler is left out and none
    is invoked again.  Where a handler faults that is of no fault flow, the exchange follows the
    fault chain that was supplied at that moment instead, and no third one.  And a handler that
    asks for a pause without a fault ends the call, which says that the exchange is paused. -/
theorem Life.follows_chains (h : host.Lawful Good) (hlife : Life Good host x seen) :
    ((chainsIn seen = [] ∧ handlersIn seen = [] ∧ (x.state = .created ∨ x.state = .faulted)) ∨
      (∃ c, chainsIn seen = [c] ∧ Follows c (handlersIn seen) x) ∨
      ∃ c f before link fault paused after, chainsIn seen = [c, f] ∧ c.flow.isFault = false ∧
        seen = before ++ .invoked link (.error fault) paused ::
          .answered x.service x.operation c.flow.faultFlow (.ok f) :: after ∧
        handlersIn before ++ [link] <+: c.links ∧ Follows f (handlersIn after) x) ∧
    ∀ before link response paused after,
      seen = before ++ .invoked link (.ok response) paused :: after →
      (response = .pause ∨ paused = true) → ∃ rest, after = .returned (.ok .paused) :: rest := by
  have hrests := hlife.rests h
  have hstanding := hrests.standing
  refine ⟨?_, ?_⟩
  · cases hrests.journey with
    | unbound chain_eq chains handlers =>
      refine Or.inl ⟨chains, handlers, ?_⟩
      cases hx : x.state with
      | created => exact Or.inl rfl
      | faulted => exact Or.inr rfl
      | running => simp [Exchange.Standing, hx, chain_eq] at hstanding
      | paused => simp [Exchange.Standing, hx, chain_eq] at hstanding
      | completed => simp [Exchange.Standing, hx, chain_eq] at hstanding
    | straight c chains stands => exact Or.inr (Or.inl ⟨c, chains, stands.follows hstanding⟩)
    | diverted c f before link fault paused after seen_eq first last ordinary _ along stands =>
      refine Or.inr (Or.inr ⟨c, f, before, link, fault, paused, after, ?_, ordinary, seen_eq, along,
        stands.follows hstanding⟩)
      simp [seen_eq, first, last, Sight.chain?]
  · rintro before link response paused after rfl hasks
    exact hrests.heeded.of_append_cons hasks

/-- An exchange driven by one call after the other. -/
def Call.watchedEach (host : Host σ β) :
    List (Call β) → Exchange β → Act (List (Sight β) × σ) (Exchange β)
  | [], x => pure x
  | call :: rest, x => do
    let (_, y) ← call.watched host x
    watchedEach host rest y

theorem Life.drivenEach (hgood : ∀ s, Good s) {calls : List (Call β)}
    {seen' : List (Sight β)} (hlife : Life Good host x seen)
    (hrun : (Call.watchedEach host calls x).run (seen, s) = .ok (y, (seen', t))) :
    Life Good host y seen' := by
  induction calls generalizing x seen s with
  | nil =>
    cases hrun
    exact hlife
  | cons call rest ih =>
    obtain ⟨⟨result, z⟩, ⟨seen'', u⟩, hcall, hrun⟩ := run_bind_ok.1 hrun
    exact ih (hlife.driven (hgood s) hcall) hrun

/-- What comes of a new exchange that is driven by these calls, as far as it can be checked. -/
theorem exists_driven (host : Host σ β) (s : σ) (hgood : ∀ s, Good s) (calls : List (Call β))
    (p : Exchange β → List (Sight β) → Prop) [∀ x seen, Decidable (p x seen)]
    (h : (match (Call.watchedEach host calls
        (.create 0 "orders" "place" .inbound none none)).run ([], s) with
      | .ok (x, (seen, _)) => decide (p x seen)
      | .error _ => false) = true) : ∃ x seen, Life Good host x seen ∧ p x seen := by
  split at h
  · rename_i x seen t hrun
    have hlife : Life Good host x seen := Life.drivenEach hgood (.created ..) hrun
    exact ⟨x, seen, hlife, of_decide_eq_true h⟩
  · cases h

/-- A handler pauses, the next one faults, a handler of the fault chain pauses once more. -/
theorem follows_chains_to_refund :
    ∃ (x : Exchange (Outcome × Bool)) (seen : List (Sight (Outcome × Bool)))
      (c f : Chain (Outcome × Bool)) (through : List (Link (Outcome × Bool))),
      Life (fun _ => True) (scripted orderLinks) x seen ∧
      (handlersIn seen).map Link.name = ["check", "charge", "refund", "report"] ∧
      chainsIn seen = [c, f] ∧ Follows f through x ∧ through = f.links := by
  obtain ⟨x, seen, hlife, hnames, hstate, hlength⟩ :=
    exists_driven (scripted orderLinks) () (fun _ => trivial) [.run, .resume, .resume]
      (fun x seen => (handlersIn seen).map Link.name = ["check", "charge", "refund", "report"] ∧
        x.state = .completed ∧ (chainsIn seen).length = 2)
      (by decide +kernel)
  obtain ⟨hchains, -, -⟩ | ⟨c, hchains, -⟩ | ⟨c, f, -, -, -, -, after, hchains, -, -, -, hfollows⟩ :=
    (hlife.follows_chains (lawful_scripted orderLinks)).1
  · rw [hchains] at hlength
    cases hlength
  · rw [hchains] at hlength
    cases hlength
  · exact ⟨x, seen, c, f, handlersIn after, hlife, hnames, hchains, hfollows,
      hfollows.completed hstate⟩

end ExchangePipeline
