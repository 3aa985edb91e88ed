/-
  ExchangePipeline/Proofs/Session/Steering.lean
  =============================================
  **A handler cannot steer the walk that it is part of.**

  A handler has its exchange in hand while that is running, and may ask for whatever it
  likes, in any order and as often as it likes: it may write to the exchange, and may try to
  run, to resume or to cancel it, through the session or through any other host, along the
  chain that is bound or along any other.  All that it achieves is in the payload, the
  properties and the pause flag.  Where the exchange stands is what it was, each of the
  calls is refused and does nothing (`HeldFast`), and the walk goes on as its handler's
  outcome, the two flags and the question for a fault chain decide
  (`walk_not_steered_by_handler`).
-/
import ExchangePipeline.Proofs.Session.StateMachine
import ExchangePipeline.Proofs.Walk.Sequel

namespace ExchangePipeline

namespace Session

variable {depth : Nat} {inner : Inner} {s t : Session} {x y z : Exchange Handler}

/-- `z` is what a handler has made so far of the exchange `x` that it was invoked on.  It stands
    where it stood, and every call that would move it, through any host at all or asked of a
    session, is refused because it is running, and changes neither it nor the session. -/
structure HeldFast (x z : Exchange Handler) : Prop where
  stands : x.StandsAs z
  undriven : z.Undriven
  driving : ∀ (inner : Inner) (s : Session) (op : ExchangeOp) (call : Call Handler),
    op.call? s z = some call → (performOn inner op z).run s =
      .ok ((.refused (.execution (.invalidState x.id .running call.asked)), z), s)
  cancelling : ∀ (inner : Inner) (s : Session), (performOn inner .cancel z).run s =
    .ok ((.refused (.execution (.invalidState x.id .running .cancel)), z), s)

theorem performOn_of_undriven (hz : z.Undriven) {op : ExchangeOp} {call : Call Handler}
    (h : op.call? s z = some call) : (performOn inner op z).run s =
      .ok ((.refused (.execution (.invalidState z.id .running call.asked)), z), s) := by
  rw [performOn_call h, hz.perform]
  rfl

theorem performOn_cancel_of_undriven (hz : z.Undriven) : (performOn inner .cancel z).run s =
    .ok ((.refused (.execution (.invalidState z.id .running .cancel)), z), s) := by
  simp only [performOn, hz.cancel]
  rfl

theorem heldFast_of_touched (hx : x.state = .running) (h : x.Touched z) : HeldFast x z := by
  have hundriven : z.Undriven := Exchange.undriven_of_running (h.state_eq.trans hx)
  constructor
  · exact h.standsAs
  · exact hundriven
  · intro inner s op call hcall
    rw [← h.id_eq]
    exact performOn_of_undriven hundriven hcall
  · intro inner s
    rw [← h.id_eq]
    exact performOn_cancel_of_undriven hundriven

/-- **A handler cannot steer its own walk.**  Take any driving call that has come to a handler, and
    the handler that returns.  It was invoked on a running exchange.  At every moment of its work the
    exchange stood where it stands now, and whatever would have moved it was refused and did nothing.
    What the walk does next can be told from where the exchange stood before the handler, from its
    outcome, from the pause flag that it left, from whether cancellation has been requested, and,
    if it faulted, from the chain that is had for the fault. -/
theorem walk_not_steered_by_handler {call : Call Handler} {x₀ : Exchange Handler}
    {first : Stage Handler} {s₀ s₁ : Session} {link : Link Handler} {rest : List (Link Handler)}
    {outcome : Outcome} (begins : call.Begins (host (nested (depth + 1))) (x₀, s₀) (first, s₁))
    (walked : (host (nested (depth + 1))).Turns (first, s₁) (.walking x, s))
    (unrequested : s.isTripped x.id = false) (next : x.remaining = link :: rest)
    (invoked : ((host (nested (depth + 1))).invoke link x).run s = .ok ((outcome, y), t)) :
    x.state = .running ∧ x.StandsAs y ∧
      Work.Proceeds (nested depth) ⟨link.body, x, s.record (.invoked x.id link)⟩
        ⟨.done outcome, y, t⟩ ∧
      (∀ w, Work.Proceeds (nested depth) ⟨link.body, x, s.record (.invoked x.id link)⟩ w →
        HeldFast x w.exchange) ∧
      ∀ stage u lookup, (host (nested (depth + 1))).Turn (.walking x, s) (stage, u) →
        (∀ fault, outcome = .error fault → x.activeFlow.isFault = false →
          (chainFor x.service x.operation x.activeFlow.faultFlow).run t = .ok (lookup, u)) →
        stage.sequel (u.isTripped x.id) =
            x.sequel link outcome y.paused (u.isTripped x.id) lookup ∧
          ∀ q, (host (nested (depth + 1))).Turn (stage, u) q →
            (host (nested (depth + 1))).Fulfils (stage, u) q
              (x.sequel link outcome y.paused (u.isTripped x.id) lookup) := by
  have hsteady := steady_host (depth + 1)
  have hrunning : x.state = .running :=
    (hsteady.turns_inOrder walked trivial begins.moves.2).2.1
  have hworked := proceeds_of_invoke invoked
  refine ⟨hrunning, (hworked.touched hrunning).standsAs, hworked, ?_, ?_⟩
  · intro w hw
    exact heldFast_of_touched hrunning (hw.touched hrunning)
  · intro stage u lookup hturn hasked
    have hsequel := hsteady.sequel_of_turn trivial hrunning unrequested next invoked hturn hasked
    refine ⟨hsequel, fun q hnext => ?_⟩
    have hid : stage.exchange.id = x.id := hsteady.turn_id hturn trivial hrunning
    have hfulfils := hnext.fulfils
    rw [hid] at hfulfils
    exact hsequel ▸ hfulfils

/-- A handler that tries everything on its own exchange, between other things that it does to it. -/
def interloper : Link Handler :=
  ⟨{ name := "interlope", phase := "Dispatch" },
    .ask (.own (.runChain .bound)) fun _ => .ask (.own (.setPayload [7])) fun _ =>
    .ask (.own .run) fun _ => .ask (.own .takePayload) fun _ => .ask (.own .resume) fun _ =>
    .ask (.own (.setProperty faultProperty (.string "mine"))) fun _ => .ask (.own .cancel) fun _ =>
    .done (.ok .proceed)⟩

/-- Greets, lets the interloper try, and reports. -/
def besetChain : Chain Handler :=
  ⟨.inbound, [⟨"Dispatch",
    [⟨{ name := "greet", phase := "Dispatch" },
        .ask (.own (.setPayload [1, 2])) fun _ => .done (.ok .proceed)⟩,
      interloper, ⟨{ name := "report", phase := "Dispatch" }, .done (.ok .proceed)⟩]⟩]⟩

/-- The interloper is gone through as if it had done nothing: behind it the third handler is
    invoked, unless somebody asks for cancellation. -/
theorem walk_not_steered_by_handler_of_interloper :
    let h := host (nested 1)
    let x₀ : Exchange Handler := .create 0 "orders" "place" .inbound none none
    ∃ x s y t, h.Turns (.walking (x₀.start besetChain), meddled) (.walking x, s) ∧
      (h.invoke interloper x).run s = .ok ((.ok .proceed, y), t) ∧
      x.payload = some [1, 2] ∧ y.payload = none ∧ y.fault? = some (.string "mine") ∧
      x.StandsAs y ∧ y.Undriven ∧
      ∀ q r, h.Turn (.walking x, s) q → q.2.isTripped 0 = false → h.Turn q r →
        ∃ report z outcome w u, report.name = "report" ∧ z.cursor = 2 ∧
          (h.invoke report z).run q.2 = .ok ((outcome, w), u) := by
  intro h x₀
  have hbegins : (Call.runChain besetChain).Begins h (x₀, meddled)
      (.walking (x₀.start besetChain), meddled) := .runChain rfl
  have hgreets : h.Turn (.walking (x₀.start besetChain), meddled) (.walking _, _) :=
    .proceeds rfl rfl rfl (by simp [Exchange.start, x₀, Exchange.setPayload])
  refine ⟨_, _, _, _, .single hgreets, rfl, rfl, rfl, rfl, ?_⟩
  obtain ⟨-, hstands, hworked, hheld, honward⟩ :=
    walk_not_steered_by_handler hbegins (.single hgreets) rfl rfl rfl
  refine ⟨hstands, (hheld _ hworked).undriven, ?_⟩
  rintro ⟨stage, u⟩ r hturn hfree hnext
  obtain ⟨-, hfulfils⟩ := honward stage u (.error (.unknownModule "")) hturn (by simp)
  have hinvokes := hfulfils r hnext
  change h.Fulfils _ _ (Exchange.sequel _ _ _ _ (u.isTripped 0) _) at hinvokes
  rw [show u.isTripped 0 = false from hfree] at hinvokes
  obtain ⟨z, outcome, w, v, -, -, hcursor, -, hinvoke⟩ := hinvokes
  exact ⟨_, z, outcome, w, v, rfl, hcursor, hinvoke⟩

end Session

end ExchangePipeline
