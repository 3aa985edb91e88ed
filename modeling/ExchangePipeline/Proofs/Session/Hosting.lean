/-
  ExchangePipeline/Proofs/Session/Hosting.lean
  ============================================
  **A session is a lawful host.**

  The chains of a coherent deployment are of the flow that they are asked for, and
  whatever programs ask for leaves it coherent.  A handler has its own exchange in
  hand while that is running.  It may ask for every operation on it; those that
  would drive the exchange are refused while it runs, so that its payload, its
  properties and its pause flag are all that a handler can change
  (`Work.Proceeds.touched`).  So sessions are lawful hosts (`lawful_host`), and all
  that holds of lawful hosts holds of them.
-/
import ExchangePipeline.Proofs.Session.Reachable
import ExchangePipeline.Proofs.Walk.Journey

namespace ExchangePipeline

/-! ### Chains -/

theorem flow_eq_of_resolve {β : Type} {order : PhaseOrder} {flow : Flow} {links : List (Link β)}
    {chain : Chain β} (h : resolve order flow links = .ok chain) : chain.flow = flow := by
  obtain ⟨-, phases, -, rfl⟩ := resolve_ok h
  rfl

theorem Deployment.Coherent.flow_eq_of_chain {d e : Deployment} (h : d.Coherent) {key : ChainKey}
    {chain : Chain Handler} (hchain : d.chain key = .ok (chain, e)) : chain.flow = key.flow := by
  obtain ⟨id, -, hresolve⟩ := h.resolveAt_of_chain hchain
  exact flow_eq_of_resolve hresolve

namespace Session

variable {inner : Inner} {s t : Session} {x y : Exchange Handler}

theorem Advances.coherent (h : s.Advances t) (hs : s.deployment.Coherent) :
    t.deployment.Coherent :=
  hs.steps h.moves.steps

theorem flow_eq_of_chainFor (hs : s.deployment.Coherent) {service operation : String} {flow : Flow}
    {chain : Chain Handler}
    (hrun : (chainFor service operation flow).run s = .ok (.ok chain, t)) : chain.flow = flow := by
  obtain ⟨_, _, hget, hrun⟩ := run_bind_ok.1 hrun
  cases hget
  cases hsource : s.source with
  | deployed =>
    simp only [hsource] at hrun
    obtain ⟨error, herror, -⟩ | ⟨chain', e, hok, hchain, -⟩ := change_cases hrun
    · cases herror
    · cases hok
      exact hs.flow_eq_of_chain hchain
  | fixed order handlers =>
    simp only [hsource] at hrun
    split at hrun
    · obtain ⟨hresolve, -⟩ := Prod.mk.inj (Except.ok.inj hrun)
      exact flow_eq_of_resolve hresolve
    · cases hrun

/-! ### Handlers -/

/-- Running an exchange along a chain that is not there does nothing but say so. -/
theorem performOn_runChain_none {choice : ChainChoice} (h : s.chosenChain? x choice = none) :
    (performOn inner (.runChain choice) x).run s = .ok ((.refused .noChain, x), s) := by
  simp only [performOn, StateT.run_bind, StateT.run_get, pure_bind, h]
  rfl

theorem performOn_runChain_some {choice : ChainChoice} {chain : Chain Handler}
    (h : s.chosenChain? x choice = some chain) :
    (performOn inner (.runChain choice) x).run s =
      ((host inner).runChain chain x >>= fun driven => pure (drivenReply driven) : Doing _).run s := by
  simp only [performOn, StateT.run_bind, StateT.run_get, pure_bind, h]

/-- Nothing that a handler asks for on its own exchange moves it. -/
theorem touched_of_performOn (hx : x.state = .running) {op : ExchangeOp} {reply : Reply}
    (hrun : (performOn inner op x).run s = .ok ((reply, y), t)) : x.Touched y := by
  cases op with
  | run =>
    simp only [performOn, run_of_running hx] at hrun
    cases hrun
    rfl
  | resume =>
    simp only [performOn, resume_of_running hx] at hrun
    cases hrun
    rfl
  | cancel =>
    simp only [performOn, cancel_of_running hx] at hrun
    cases hrun
    rfl
  | runChain choice =>
    cases hchosen : s.chosenChain? x choice with
    | none =>
      rw [performOn_runChain_none hchosen] at hrun
      cases hrun
      rfl
    | some chain =>
      rw [performOn_runChain_some hchosen, runChain_of_running hx] at hrun
      cases hrun
      rfl
  | _ =>
    cases hrun
    rfl

theorem touched_of_answer (hx : x.state = .running) {ask : Ask Request} {reply : Reply}
    (hrun : ((answer inner ask).run x).run s = .ok ((reply, y), t)) : x.Touched y := by
  cases ask with
  | own op => exact touched_of_performOn hx hrun
  | request request =>
    obtain ⟨_, _, -, hdone⟩ := run_bind_ok.1 hrun
    cases hdone
    rfl

/-- A handler at work: what it has still to do, the exchange as it has made it, and the session. -/
structure Work where
  left : Handler
  exchange : Exchange Handler
  session : Session

/-- A request of a handler at work is answered. -/
inductive Work.Answered (inner : Inner) : Work → Work → Prop where
  | intro {ask : Ask Request} {next : Reply → Handler} {reply : Reply} {x y : Exchange Handler}
      {s t : Session} (answers : ((answer inner ask).run x).run s = .ok ((reply, y), t)) :
      Answered inner ⟨.ask ask next, x, s⟩ ⟨next reply, y, t⟩

/-- Any number of requests, one after the other. -/
def Work.Proceeds (inner : Inner) : Work → Work → Prop :=
  Relation.ReflTransGen (Answered inner)

/-- A handler that returns has worked its way through to its outcome. -/
theorem proceeds_of_answers (p : Handler) {outcome : Outcome}
    (hrun : ((p.run (answer inner)).run x).run s = .ok ((outcome, y), t)) :
    Work.Proceeds inner ⟨p, x, s⟩ ⟨.done outcome, y, t⟩ := by
  induction p generalizing x s with
  | done result =>
    cases hrun
    exact .refl
  | ask ask next ih =>
    rw [Program.run_ask, StateT.run_bind] at hrun
    obtain ⟨⟨reply, z⟩, u, hanswer, hrun⟩ := run_bind_ok.1 hrun
    exact .head (.intro hanswer) (ih reply hrun)

theorem Work.Answered.touched {w w' : Work} (h : w.Answered inner w')
    (hw : w.exchange.state = .running) : w.exchange.Touched w'.exchange := by
  obtain ⟨answers⟩ := h
  exact touched_of_answer hw answers

/-- Whatever a handler has done so far, its exchange stands where it stood. -/
theorem Work.Proceeds.touched {w w' : Work} (h : w.Proceeds inner w')
    (hw : w.exchange.state = .running) : w.exchange.Touched w'.exchange := by
  induction h with
  | refl => rfl
  | tail _ hlast ih => exact ih.trans (hlast.touched (ih.state_eq.trans hw))

/-- An invocation is recorded, and is then the work of its handler. -/
theorem proceeds_of_invoke {depth : Nat} {link : Link Handler} {outcome : Outcome}
    (hrun : ((host (nested (depth + 1))).invoke link x).run s = .ok ((outcome, y), t)) :
    Work.Proceeds (nested depth) ⟨link.body, x, s.record (.invoked x.id link)⟩
      ⟨.done outcome, y, t⟩ := by
  obtain ⟨_, _, hrecord, hbody⟩ := run_bind_ok.1 hrun
  cases hrecord
  exact proceeds_of_answers link.body hbody

theorem touched_of_invoke {depth : Nat} {link : Link Handler} (hx : x.state = .running)
    {outcome : Outcome}
    (hrun : ((host (nested depth)).invoke link x).run s = .ok ((outcome, y), t)) : x.Touched y := by
  cases depth with
  | zero => cases hrun
  | succ depth => exact (proceeds_of_invoke hrun).touched hx

/-! ### The host -/

/-- **A session is a lawful host**, as long as its deployment is coherent, and it stays so. -/
theorem lawful_host (depth : Nat) :
    (host (nested depth)).Lawful fun s => s.deployment.Coherent where
  chainFor := by
    intro service operation flow s answer t hs hrun
    refine ⟨(keeps_chainFor Advances.deploys service operation flow s answer t hrun).coherent hs, ?_⟩
    rintro chain rfl
    exact flow_eq_of_chainFor hs hrun
  invoke := by
    intro link x s outcome y t hs hx hrun
    exact ⟨hs.steps (steps_invoke hrun), touched_of_invoke hx hrun⟩

end Session

end ExchangePipeline
