/-
  ExchangePipeline/Proofs/Walk/Cancellation.lean
  ==============================================
  **What a request for cancellation does to a call.**

  Once cancellation of an exchange has been requested, a driving call that is
  accepted invokes no handler: it fails the exchange, and says that it was cancelled
  (`Cancellation`), unless its first chain cannot be had
  (`Host.Responsive.perform_requested`).

  If the request is made while a handler runs, this handler still returns, and then
  it depends on what it has returned how the call ends (`Host.Stops`): a pause or a
  final fault go first, and so does a fault chain that cannot be had; in all other
  cases the call is cancelled, also on the fault chain that it has just been
  diverted to (`Host.Lawful.stops`).

  The turns of a walk say what its result is, since with a lawful host no walk is
  ever diverted more than once (`Host.Lawful.perform_of_turns`).
-/
import ExchangePipeline.Proofs.Walk.FaultRecord
import ExchangePipeline.Proofs.Walk.Pauses

namespace ExchangePipeline

variable {σ β : Type}

/-! ### Turns give the result -/

section

variable {Good : σ → Prop} {host : Host σ β} {x y : Exchange β} {s t u : σ} {d : Driven β}

/-- A handler that faults ends the walk along its chain. -/
theorem Host.walkAlong_of_faults (hfree : host.cancelRequested x.id s = false) {link : Link β}
    {fault : Fault} (hinvoke : (host.invoke link x).run s = .ok ((.error fault, y), t))
    (onFault : Host.OnFault σ β) (rest : List (Link β)) :
    (host.walkAlong onFault (link :: rest) x).run s =
      (onFault link x.activeFlow fault (y.moveTo (x.cursor + 1))).run t := by
  simp only [Host.walkAlong, StateT.run_bind, StateT.run_get, pure_bind, hfree,
    Bool.false_eq_true, if_false, hinvoke]
  rfl

theorem Host.walkAlong_of_returns (hfree : host.cancelRequested x.id s = false) {link : Link β}
    {response : Response} (hinvoke : (host.invoke link x).run s = .ok ((.ok response, y), t))
    (onFault : Host.OnFault σ β) (rest : List (Link β)) :
    (host.walkAlong onFault (link :: rest) x).run s =
      (if response = .pause ∨ y.paused = true then
        pure (.ok .paused, (y.moveTo (x.cursor + 1)).suspend)
        else host.walkAlong onFault rest (y.moveTo (x.cursor + 1)) : Act σ (Driven β)).run t := by
  simp only [Host.walkAlong, StateT.run_bind, StateT.run_get, pure_bind, hfree,
    Bool.false_eq_true, if_false, hinvoke]
  rfl

theorem Host.walkAlong_of_requested (hrequested : host.cancelRequested x.id s = true)
    (onFault : Host.OnFault σ β) (rest : List (Link β)) :
    (host.walkAlong onFault rest x).run s =
      .ok ((.error (.cancelled x.id), x.fail (.cancelled x.activeFlow)), s) := by
  cases rest <;>
  · simp only [Host.walkAlong, StateT.run_bind, StateT.run_get, pure_bind, hrequested, if_true]
    rfl

theorem Host.Turns.eq_of_ended {p : Stage β × σ} (h : host.Turns (.ended d, t) p) :
    p = (.ended d, t) := by
  obtain rfl | ⟨q, hturn, -⟩ := h.cases_head
  · rfl
  · cases hturn

/-- **The turns of a walk give its result**, if as many diversions are allowed for as its flow can
    need. -/
theorem Host.Lawful.walkAlong_of_turns (h : host.Lawful Good)
    (hturns : host.Turns (.walking x, s) (.ended d, t)) (hx : x.state = .running) (hs : Good s)
    {diversions : Nat} (hn : x.activeFlow.diversions ≤ diversions) :
    (host.walkAlong (host.faultWithin diversions) x.remaining x).run s = .ok (d, t) := by
  generalize hp : ((.walking x, s) : Stage β × σ) = p at hturns
  induction hturns using Relation.ReflTransGen.head_induction_on generalizing x s diversions with
  | refl => cases hp
  | head hturn hrest ih =>
    subst hp
    obtain ⟨n, rfl⟩ : ∃ k, diversions = k + 1 :=
      ⟨diversions - 1, by have := x.activeFlow.diversions_pos; omega⟩
    cases hturn with
    | cancels requested =>
      cases Turns.eq_of_ended hrest
      exact Host.walkAlong_of_requested requested _ _
    | completes unrequested atEnd =>
      cases Turns.eq_of_ended hrest
      simp only [atEnd, Host.walkAlong, StateT.run_bind, StateT.run_get, pure_bind, unrequested]
      rfl
    | pauses unrequested next returns asks =>
      cases Turns.eq_of_ended hrest
      rw [next, Host.walkAlong_of_returns unrequested returns, if_pos asks]
      rfl
    | proceeds unrequested next returns goes =>
      obtain ⟨ht, hy⟩ := h.invoke hs hx returns
      rw [next, Host.walkAlong_of_returns unrequested returns, if_neg goes,
        ← hy.remaining_next next]
      refine ih ?_ ht ?_ rfl
      · exact hy.state_eq.trans hx
      · exact hy.activeFlow_eq ▸ hn
    | breaks unrequested next faults final =>
      cases Turns.eq_of_ended hrest
      rw [next, Host.walkAlong_of_faults unrequested faults]
      simp only [Host.faultWithin, if_pos final]
      rfl
    | strands unrequested next faults ordinary asked =>
      cases Turns.eq_of_ended hrest
      rw [next, Host.walkAlong_of_faults unrequested faults]
      simp only [Host.faultWithin, ordinary, Bool.false_eq_true, if_false]
      exact run_bind_ok.2 ⟨_, _, asked, rfl⟩
    | @diverts _ y _ _ _ link _ fault chain unrequested next faults ordinary asked =>
      obtain ⟨ht, hy⟩ := h.invoke hs hx faults
      obtain ⟨hu, hflow⟩ := h.chainFor ht asked
      rw [next, Host.walkAlong_of_faults unrequested faults]
      simp only [Host.faultWithin, ordinary, Bool.false_eq_true, if_false]
      refine run_bind_ok.2 ⟨_, _, asked, ?_⟩
      refine ih ?_ hu ?_ rfl
      · rfl
      · have hleft := Flow.diversions_faultFlow ordinary
        rw [← hflow _ rfl] at hleft
        change chain.flow.diversions ≤ n
        omega

/-- **A call that is accepted is what its beginning and its turns come to.** -/
theorem Host.Lawful.perform_of_turns (h : host.Lawful Good) (hs : Good s) {call : Call β}
    {first : Stage β} (hbegins : call.Begins host (x, s) (first, u))
    (hturns : host.Turns (first, u) (.ended d, t)) : (call.perform host x).run s = .ok (d, t) := by
  have hwalk : ∀ {z : Exchange β} {v : σ}, z.state = .running → Good v →
      host.Turns (.walking z, v) (.ended d, t) → (host.walk z).run v = .ok (d, t) :=
    fun hz hv hz' => h.walkAlong_of_turns hz' hz hv (Flow.diversions_le _)
  cases hbegins with
  | run fresh asked =>
    simp only [Call.perform, Host.run, if_pos fresh]
    refine run_bind_ok.2 ⟨_, _, asked, ?_⟩
    simp only [Host.runChain, if_pos fresh]
    exact hwalk rfl (h.chainFor hs asked).1 hturns
  | unresolved fresh asked =>
    cases Turns.eq_of_ended hturns
    simp only [Call.perform, Host.run, if_pos fresh]
    exact run_bind_ok.2 ⟨_, _, asked, rfl⟩
  | runChain fresh =>
    simp only [Call.perform, Host.runChain, if_pos fresh]
    exact hwalk rfl hs hturns
  | resume paused =>
    simp only [Call.perform, Host.resume, if_pos paused]
    exact hwalk rfl hs hturns

/-! ### Cancelled calls -/

/-- The call says that the exchange was cancelled; the exchange has failed, and what is recorded
    says why. -/
structure Cancellation (d : Driven β) : Prop where
  result : d.1 = .error (.cancelled d.2.id)
  state : d.2.state = .faulted
  record : d.2.fault? = some (.map [("flow", .string d.2.activeFlow.label),
    ("kind", .string "cancelled"), ("message", .string "exchange cancelled")])

theorem FaultRecord.toValue_cancelled (flow : Flow) :
    (FaultRecord.cancelled flow).toValue = .map [("flow", .string flow.label),
      ("kind", .string "cancelled"), ("message", .string "exchange cancelled")] := by
  simp +decide only [FaultRecord.toValue, Dict.ofList, Dict.insert, List.foldl, if_true, if_false]

theorem cancellation_fail (x : Exchange β) :
    Cancellation (.error (.cancelled x.id), x.fail (.cancelled x.activeFlow)) := by
  refine ⟨rfl, rfl, ?_⟩
  rw [← FaultRecord.toValue_cancelled]
  exact Dict.find?_insert_self _ _ _

/-- A host that answers whenever it is asked for a chain, and takes no request for cancellation
    back when it does. -/
def Host.Responsive (host : Host σ β) : Prop :=
  ∀ service operation flow s, ∃ answer t,
    (host.chainFor service operation flow).run s = .ok (answer, t) ∧
      ∀ id, host.cancelRequested id s = true → host.cancelRequested id t = true

/-- **Where cancellation has been requested**, a call that is accepted invokes no handler: the
    exchange is cancelled, if its first chain can be had. -/
theorem Host.Responsive.perform_requested (h : host.Responsive) {call : Call β}
    (hallowed : call.AllowedIn x.state) (hrequested : host.cancelRequested x.id s = true) :
    ∃ d t, (call.perform host x).run s = .ok (d, t) ∧ d.2.id = x.id ∧
      (Cancellation d ∨ call = .run ∧ ∃ error, d =
        (.error (.resolution error), x.fail (.resolution x.direction error.message))) := by
  cases call with
  | run =>
    have hx : x.state = .created := hallowed
    obtain ⟨answer, t, hasked, hkeeps⟩ := h x.service x.operation x.direction s
    rw [Call.perform, Host.run, if_pos hx]
    cases answer with
    | error error =>
      exact ⟨_, t, run_bind_ok.2 ⟨_, _, hasked, rfl⟩, rfl, Or.inr ⟨rfl, error, rfl⟩⟩
    | ok chain =>
      have hcancelled := Host.walkAlong_of_requested (x := x.start chain) (hkeeps _ hrequested)
        (host.faultWithin diversions) (x.start chain).remaining
      refine ⟨_, t, run_bind_ok.2 ⟨_, _, hasked, ?_⟩, ?_, Or.inl (cancellation_fail (x.start chain))⟩
      · simp only [Host.runChain, if_pos hx]
        exact hcancelled
      · rfl
  | runChain chain =>
    have hperform : (Call.runChain chain).perform host x = host.walk (x.start chain) :=
      if_pos (show x.state = .created from hallowed)
    rw [hperform]
    exact ⟨_, s, Host.walkAlong_of_requested (x := x.start chain) hrequested _ _, rfl,
      Or.inl (cancellation_fail _)⟩
  | resume =>
    have hperform : Call.resume.perform host x = host.walk x.unpause :=
      if_pos (show x.state = .paused from hallowed)
    rw [hperform]
    exact ⟨_, s, Host.walkAlong_of_requested (x := x.unpause) hrequested _ _, rfl,
      Or.inl (cancellation_fail _)⟩

/-! ### Requests during a call -/

/-- How a call ends whose handler `link`, invoked on `x`, has returned after cancellation was
    requested. -/
inductive Host.Stops (host : Host σ β) (link : Link β) (x : Exchange β) :
    (Outcome × Exchange β) × σ → Driven β × σ → Prop where
  | pauses {response : Response} {y : Exchange β} {t : σ}
      (asks : response = .pause ∨ y.paused = true) :
      Stops host link x ((.ok response, y), t) ((.ok .paused, (y.moveTo (x.cursor + 1)).suspend), t)
  | cancels {response : Response} {y : Exchange β} {t : σ}
      (goes : ¬ (response = .pause ∨ y.paused = true)) :
      Stops host link x ((.ok response, y), t)
        ((.error (.cancelled y.id), (y.moveTo (x.cursor + 1)).fail (.cancelled y.activeFlow)), t)
  | breaks {fault : Fault} {y : Exchange β} {t : σ} (final : x.activeFlow.isFault = true) :
      Stops host link x ((.error fault, y), t) ((.error (.unrecoverable y.id link.name fault),
        (y.moveTo (x.cursor + 1)).fail (.handler link.placement x.activeFlow fault.text)), t)
  | strands {fault : Fault} {y : Exchange β} {t u : σ} {error : ConfigError}
      (ordinary : x.activeFlow.isFault = false)
      (asked : (host.chainFor y.service y.operation x.activeFlow.faultFlow).run t =
        .ok (.error error, u)) :
      Stops host link x ((.error fault, y), t) ((.error (.resolution error),
        (y.moveTo (x.cursor + 1)).fail (.handler link.placement x.activeFlow fault.text)), u)
  /-- No handler of the fault chain is invoked. -/
  | cancelsDiverted {fault : Fault} {y : Exchange β} {t u : σ} {chain : Chain β}
      (ordinary : x.activeFlow.isFault = false)
      (asked : (host.chainFor y.service y.operation x.activeFlow.faultFlow).run t =
        .ok (.ok chain, u)) :
      Stops host link x ((.error fault, y), t) ((.error (.cancelled y.id),
        ((y.moveTo (x.cursor + 1)).divert chain
          (.handler link.placement x.activeFlow fault.text)).fail (.cancelled chain.flow)), u)

/-- A call that stops because the exchange was cancelled leaves it as cancelled exchanges are. -/
theorem Host.Stops.cancellation {link : Link β} {returned : (Outcome × Exchange β) × σ} {id : Nat}
    {d : Driven β} (h : host.Stops link x returned (d, t)) (hd : d.1 = .error (.cancelled id)) :
    Cancellation d := by
  cases h with
  | @cancels _ y => exact cancellation_fail (y.moveTo (x.cursor + 1))
  | @cancelsDiverted fault y _ _ chain =>
    exact cancellation_fail ((y.moveTo (x.cursor + 1)).divert chain
      (.handler link.placement x.activeFlow fault.text))
  | _ => cases hd

/-- **The current handler returns, and its outcome decides.**  When cancellation is requested during
    an invocation, the call ends as the outcome of that handler has it. -/
theorem Host.Lawful.stops (h : host.Lawful Good) (hresponsive : host.Responsive) (hs : Good s)
    {call : Call β} {first : Stage β} (hbegins : call.Begins host (x, s) (first, u))
    {z : Exchange β} {v w : σ} (hturns : host.Turns (first, u) (.walking z, v))
    (hfree : host.cancelRequested x.id v = false) {link : Link β} {rest : List (Link β)}
    (hnext : z.remaining = link :: rest) {outcome : Outcome}
    (hinvoke : (host.invoke link z).run v = .ok ((outcome, y), w))
    (hrequested : host.cancelRequested x.id w = true) :
    ∃ d t, (call.perform host x).run s = .ok (d, t) ∧
      host.Stops link z ((outcome, y), w) (d, t) ∧ y.id = x.id := by
  obtain ⟨-, hfirst⟩ := hbegins.moves
  obtain ⟨hu, hid⟩ := h.steady.begins_good hbegins hs
  obtain ⟨hv, hz, -⟩ := h.steady.turns_inOrder hturns hu hfirst
  have hy : z.Touched y := (h.invoke hv hz hinvoke).2
  have hzid : z.id = x.id := (h.steady.turns_id hturns hu hfirst).trans hid
  have hyid : y.id = x.id := hy.id_eq.trans hzid
  rw [← hzid] at hfree
  rw [← hyid] at hrequested
  suffices hends : ∃ d t, host.Turns (.walking z, v) (.ended d, t) ∧
      host.Stops link z ((outcome, y), w) (d, t) by
    obtain ⟨d, t, hrest, hstops⟩ := hends
    exact ⟨d, t, h.perform_of_turns hs hbegins (hturns.trans hrest), hstops, hyid⟩
  cases outcome with
  | ok response =>
    by_cases hasks : response = .pause ∨ y.paused = true
    · exact ⟨_, _, .single (.pauses hfree hnext hinvoke hasks), .pauses hasks⟩
    · have hcancels : host.Turn (.walking (y.moveTo (z.cursor + 1)), w) _ := .cancels hrequested
      exact ⟨_, _, .head (.proceeds hfree hnext hinvoke hasks) (.single hcancels), .cancels hasks⟩
  | error fault =>
    by_cases hflow : z.activeFlow.isFault = true
    · exact ⟨_, _, .single (.breaks hfree hnext hinvoke hflow), .breaks hflow⟩
    rw [Bool.not_eq_true] at hflow
    obtain ⟨answer, w', hasked, hkeeps⟩ :=
      hresponsive y.service y.operation z.activeFlow.faultFlow w
    cases answer with
    | error error =>
      exact ⟨_, _, .single (.strands hfree hnext hinvoke hflow hasked), .strands hflow hasked⟩
    | ok chain =>
      have hcancels : host.Turn (.walking ((y.moveTo (z.cursor + 1)).divert chain
          (.handler link.placement z.activeFlow fault.text)), w') _ :=
        .cancels (hkeeps _ hrequested)
      exact ⟨_, _, .head (.diverts hfree hnext hinvoke hflow hasked) (.single hcancels),
        .cancelsDiverted hflow hasked⟩

end

end ExchangePipeline
