/-
  ExchangePipeline/Proofs/Session/Cancellation.lean
  =================================================
  **A request for cancellation is final.**

  Requests for cancellation are kept beside the exchanges and never withdrawn, and
  a walk looks at them before it invokes a handler.  So no handler is invoked on an
  exchange after its cancellation was requested, whatever is asked of the session
  and by whom (`Heeds`, from single moves).  The exchange never completes from then
  on (`Onward.unfinished`), and a call that is under way, or one that is made later,
  ends as the walk has it (`cancellation_is_final`).
-/
import ExchangePipeline.Proofs.Session.StateMachine
import ExchangePipeline.Proofs.Walk.Cancellation

namespace ExchangePipeline

open Session

namespace Session

variable {inner : Inner} {s t u : Session} {x y : Exchange Handler} {new more : List Event}

theorem isTripped_iff {id : Nat} : s.isTripped id = true ↔ id ∈ s.tripped :=
  List.contains_iff_mem

/-! ### Handlers are not invoked -/

/-- What the journal tells between two moments of requests for cancellation: they last, and no
    handler is invoked on an exchange behind one. -/
structure Heeds (s : Session) (new : List Event) (t : Session) : Prop where
  lasting : ∀ id, s.isTripped id = true ∨ .tripped id ∈ new → t.isTripped id = true
  before : ∀ id, s.isTripped id = true → ∀ link, .invoked id link ∉ new
  since : new.Pairwise fun a b => ∀ id link, a = .tripped id → b ≠ .invoked id link

theorem Heeds.silent (h : t.tripped = s.tripped) : Heeds s [] t := by
  refine ⟨?_, fun _ _ _ => List.not_mem_nil, .nil⟩
  rintro id (hid | hid)
  · rw [isTripped, h]
    exact hid
  · cases hid

theorem Heeds.single {event : Event} (h : t.tripped = s.tripped)
    (hother : ∀ id, event ≠ .tripped id)
    (hinvoked : ∀ id link, event = .invoked id link → s.isTripped id = false) :
    Heeds s [event] t := by
  refine ⟨?_, ?_, List.pairwise_singleton _ _⟩
  · rintro id (hid | hid)
    · rw [isTripped, h]
      exact hid
    · exact absurd (List.mem_singleton.1 hid).symm (hother id)
  · intro id hid link hmem
    rw [hinvoked id link (List.mem_singleton.1 hmem).symm] at hid
    cases hid

theorem Heeds.trip (id : Nat) (s : Session) : Heeds s [.tripped id] (s.trip id) := by
  refine ⟨?_, ?_, List.pairwise_singleton _ _⟩
  · rintro other (hother | hother)
    · exact isTripped_iff.2 (List.mem_cons_of_mem _ (isTripped_iff.1 hother))
    · cases List.mem_singleton.1 hother
      exact isTripped_iff.2 List.mem_cons_self
  · intro other _ link hmem
    cases List.mem_singleton.1 hmem

theorem Heeds.append (h : Heeds s new t) (h' : Heeds t more u) : Heeds s (new ++ more) u := by
  refine ⟨?_, ?_, ?_⟩
  · rintro id (hid | hid)
    · exact h'.lasting id (Or.inl (h.lasting id (Or.inl hid)))
    · rcases List.mem_append.1 hid with hnew | hmore
      · exact h'.lasting id (Or.inl (h.lasting id (Or.inr hnew)))
      · exact h'.lasting id (Or.inr hmore)
  · intro id hid link hmem
    rcases List.mem_append.1 hmem with hnew | hmore
    · exact h.before id hid link hnew
    · exact h'.before id (h.lasting id (Or.inl hid)) link hmore
  · refine List.pairwise_append.2 ⟨h.since, h'.since, ?_⟩
    rintro _ ha _ hb id link rfl rfl
    exact h'.before id (h.lasting id (Or.inr ha)) link hb

/-- **One move.** -/
theorem Move.heeds (h : Move s t) : ∃ new, t.events = s.events ++ new ∧ Heeds s new t := by
  cases h with
  | deploys => exact ⟨[], (List.append_nil _).symm, .silent rfl⟩
  | registers => exact ⟨[], (List.append_nil _).symm, .silent rfl⟩
  | files => exact ⟨[], (List.append_nil _).symm, .silent rfl⟩
  | trips id => exact ⟨_, events_record _ _, .trip id s⟩
  | invokes link unrequested =>
    refine ⟨_, events_record _ _, .single rfl (fun _ => by simp) ?_⟩
    rintro id link heq
    cases heq
    exact unrequested
  | @notes event plain =>
    refine ⟨_, events_record _ _, .single rfl ?_ ?_⟩
    · rintro id rfl
      cases plain
    · rintro id link rfl
      cases plain
  | _ => exact ⟨_, events_record _ _, .single rfl (fun _ => by simp) fun _ _ heq => by cases heq⟩

/-- **Any number of moves.** -/
theorem Moves.heeds (h : Moves s t) : ∃ new, t.events = s.events ++ new ∧ Heeds s new t :=
  h.told (fun _ => .silent rfl) Heeds.append Move.heeds

/-! ### Exchanges do not complete -/

/-- A session answers whenever it is asked for a chain. -/
theorem responsive_host (inner : Inner) : (host inner).Responsive := by
  intro service operation flow s
  suffices h : ∃ answer t, (chainFor service operation flow).run s = .ok (answer, t) ∧
      t.tripped = s.tripped by
    obtain ⟨answer, t, hrun, htripped⟩ := h
    refine ⟨answer, t, hrun, fun id hid => ?_⟩
    change t.tripped.contains id = true
    rw [htripped]
    exact hid
  simp only [chainFor, StateT.run_bind, StateT.run_get, pure_bind]
  cases s.source with
  | deployed =>
    simp only [change, StateT.run_bind, StateT.run_get, pure_bind]
    cases s.deployment.chain { service, operation, flow } with
    | error error => exact ⟨_, _, rfl, rfl⟩
    | ok result => exact ⟨_, _, rfl, rfl⟩
  | fixed order handlers =>
    dsimp only
    cases handlers.lookup flow with
    | none => exact ⟨_, _, rfl, rfl⟩
    | some links => exact ⟨_, _, rfl, rfl⟩

/-- An exchange that is to be cancelled is not completed by a driving call. -/
theorem unfinished_of_perform {call : Call Handler} {d : Driven Handler}
    (hrequested : s.isTripped x.id = true) (hx : x.state ≠ .completed)
    (hrun : (call.perform (host inner) x).run s = .ok (d, t)) :
    d.2.id = x.id ∧ d.2.state ≠ .completed := by
  by_cases hallowed : call.AllowedIn x.state
  · obtain ⟨d', t', hrun', hid, hd⟩ := (responsive_host inner).perform_requested hallowed hrequested
    cases hrun.symm.trans hrun'
    refine ⟨hid, ?_⟩
    obtain ⟨-, hfaulted, -⟩ | ⟨-, error, rfl⟩ := hd
    · simp [hfaulted]
    · simp [Exchange.fail]
  · rw [call.perform_of_not_allowed (host inner) hallowed] at hrun
    cases hrun
    exact ⟨rfl, hx⟩

theorem id_eq_of_cancel {result : Except ExecutionError Unit}
    (hrun : ((host inner).cancel x).run s = .ok ((result, y), t)) : y.id = x.id := by
  unfold Host.cancel at hrun
  split at hrun
  · cases hrun
    rfl
  · cases hrun
    rfl

/-- What can happen next to an exchange that is not under way, or in the session around it.
    Between two operations the exchange may be put among the others and taken out again. -/
inductive Onward : Exchange Handler × Session → Exchange Handler × Session → Prop where
  | operated {depth : Nat} {op : ExchangeOp} {x y : Exchange Handler} {s t : Session} {reply : Reply}
      (runs : (performOn (nested depth) op x).run s = .ok ((reply, y), t)) : Onward (x, s) (y, t)
  | dispatched {depth : Nat} {gate : Gate} {x y : Exchange Handler} {s t : Session}
      {result : Except DispatchError Status}
      (runs : (dispatch (nested depth) gate x).run s = .ok ((result, y), t)) : Onward (x, s) (y, t)
  | meanwhile {depth : Nat} {request : Request} {x : Exchange Handler} {s t : Session} {reply : Reply}
      (runs : (perform (nested depth) request).run s = .ok (reply, t)) : Onward (x, s) (x, t)
  | filed {x : Exchange Handler} {s : Session} (exchanges : Dict (Exchange Handler)) :
      Onward (x, s) (x, { s with exchanges })

variable {p q : Exchange Handler × Session}

theorem Onward.moves (h : Onward p q) : Moves p.2 q.2 := by
  cases h with
  | @operated depth op x _ _ _ _ runs =>
    exact (keeps_performOn (keeping_host (keeping_nested depth)) op x _ _ _ runs).moves
  | @dispatched depth gate x _ _ _ _ runs =>
    exact (keeps_dispatch (keeping_nested depth) gate x _ _ _ runs).moves
  | @meanwhile depth request _ _ _ _ runs =>
    exact (keeps_perform (keeping_nested depth) request _ _ _ runs).moves
  | filed exchanges => exact .single (.files _ _ _ _)

theorem moves_of_onwards (h : Relation.ReflTransGen Onward p q) : Moves p.2 q.2 := by
  induction h with
  | refl => exact .refl
  | tail _ hlast ih => exact ih.trans hlast.moves

theorem Onward.unfinished (h : Onward p q) (hrequested : p.2.isTripped p.1.id = true)
    (hp : p.1.state ≠ .completed) : q.1.id = p.1.id ∧ q.1.state ≠ .completed := by
  cases h with
  | @operated depth op x y s t reply runs =>
    cases hcall : op.call? s x with
    | some call =>
      rw [performOn_call hcall] at runs
      cases hperform : (call.perform (host (nested depth)) x).run s with
      | error halt =>
        rw [hperform] at runs
        cases runs
      | ok result =>
        obtain ⟨⟨result, z⟩, u⟩ := result
        have hz := unfinished_of_perform hrequested hp hperform
        rw [hperform] at runs
        cases result with
        | ok status =>
          cases runs
          exact hz
        | error error =>
          cases runs
          exact hz
    | none =>
      by_cases hcancel : op = .cancel
      · subst hcancel
        obtain ⟨result, hcancel, -⟩ := performOn_cancel runs
        obtain ⟨-, -, -, hfaulted, -⟩ | ⟨-, -, rfl, -⟩ := cancel_moves hcancel
        · exact ⟨id_eq_of_cancel hcancel, by simp [hfaulted]⟩
        · exact ⟨rfl, hp⟩
      · have hy := touched_of_other hcall hcancel runs
        exact ⟨hy.id_eq, hy.state_eq ▸ hp⟩
  | @dispatched depth gate x y s t result runs =>
    obtain ⟨-, heq, -⟩ | ⟨free, driven, u, -, hdriven, heq, -⟩ := dispatch_cases runs
    · cases heq
      exact ⟨rfl, hp⟩
    · cases heq
      have hadmitted : (s.letIn gate free x).isTripped x.id = true := hrequested
      obtain ⟨call, hdriven⟩ : ∃ call : Call Handler,
          (call.perform (host (nested depth)) x).run (s.letIn gate free x) = .ok (driven, u) := by
        unfold startOrResume at hdriven
        split at hdriven
        · exact ⟨.resume, hdriven⟩
        · exact ⟨.run, hdriven⟩
      exact unfinished_of_perform hadmitted hp hdriven
  | meanwhile => exact ⟨rfl, hp⟩
  | filed => exact ⟨rfl, hp⟩

/-- Any number of things can happen. -/
theorem unfinished_of_onwards (h : Relation.ReflTransGen Onward p q)
    (hrequested : p.2.isTripped p.1.id = true) (hp : p.1.state ≠ .completed) :
    q.1.id = p.1.id ∧ q.1.state ≠ .completed ∧ q.2.isTripped q.1.id = true := by
  induction h with
  | refl => exact ⟨rfl, hp, hrequested⟩
  | tail _ hlast ih =>
    obtain ⟨hid, hstate, hstill⟩ := ih
    obtain ⟨hsame, hstate'⟩ := hlast.unfinished hstill hstate
    obtain ⟨new, -, hheeds⟩ := hlast.moves.heeds
    refine ⟨hsame.trans hid, hstate', ?_⟩
    rw [hsame]
    exact hheeds.lasting _ (Or.inl hstill)

end Session

namespace Deployment

variable {settings : EngineSettings} {s : Session} {x : Exchange Handler}

/-- **A request for cancellation is final.**  Whatever is done with an exchange and in the session
    around it, no handler is invoked on it after the request; it does not complete, if it has not
    before; a call that is made later is cancelled, unless it is a first one without a chain; and a
    call that is under way lets the current handler return and then stops as its outcome has it. -/
theorem Reachable.cancellation_is_final (h : Reachable settings s.deployment) :
    (∀ y t, Relation.ReflTransGen Onward (x, s) (y, t) →
      ∃ new, t.events = s.events ++ new ∧ Heeds s new t) ∧
    (s.isTripped x.id = true → x.state ≠ .completed →
      ∀ y t, Relation.ReflTransGen Onward (x, s) (y, t) →
        y.id = x.id ∧ y.state ≠ .completed ∧ t.isTripped y.id = true) ∧
    (s.isTripped x.id = true → ∀ inner (call : Call Handler), call.AllowedIn x.state →
      ∃ d t, (call.perform (host inner) x).run s = .ok (d, t) ∧ d.2.id = x.id ∧
        (Cancellation d ∨ call = .run ∧ ∃ error, d =
          (.error (.resolution error), x.fail (.resolution x.direction error.message)))) ∧
    ∀ depth (call : Call Handler) first u z v link rest outcome y w,
      call.Begins (host (nested depth)) (x, s) (first, u) →
      (host (nested depth)).Turns (first, u) (.walking z, v) → v.isTripped x.id = false →
      z.remaining = link :: rest →
      ((host (nested depth)).invoke link z).run v = .ok ((outcome, y), w) →
      w.isTripped x.id = true →
      ∃ d t, (call.perform (host (nested depth)) x).run s = .ok (d, t) ∧ y.id = x.id ∧
        (host (nested depth)).Stops link z ((outcome, y), w) (d, t) ∧
        ∀ id, d.1 = .error (.cancelled id) → Cancellation d := by
  refine ⟨?_, ?_, ?_, ?_⟩
  · intro y t honward
    exact (moves_of_onwards honward).heeds
  · intro hrequested hx y t honward
    exact unfinished_of_onwards honward hrequested hx
  · intro hrequested inner call hallowed
    exact (responsive_host inner).perform_requested hallowed hrequested
  · intro depth call first u z v link rest outcome y w hbegins hturns hfree hnext hinvoke hrequested
    obtain ⟨d, t, hrun, hstops, hid⟩ := (lawful_host depth).stops (responsive_host _) h.coherent
      hbegins hturns hfree hnext hinvoke hrequested
    exact ⟨d, t, hrun, hid, hstops, fun id hd => hstops.cancellation hd⟩

/-- A handler that has its own exchange cancelled, and then rejects it. -/
def withdrawal : Link Handler :=
  ⟨{ name := "withdraw", phase := "Dispatch" },
    .ask (.own .trip) fun _ => .done (.error (.rejected "withdrawn"))⟩

/-- A session whose orders are withdrawn, with a handler for what comes of that. -/
def withdrawn : Session :=
  .create (.fixed (.uniform ["Dispatch"]) [(.inbound, [withdrawal]),
    (.inFault, [⟨{ name := "notify", phase := "Dispatch" }, .done (.ok .proceed)⟩])]) (.empty {})

/-- The order is cancelled on the fault chain, where nobody is notified, and is so for good. -/
theorem cancellation_is_final_of_withdrawn_order :
    let order : Exchange Handler := .create 0 "orders" "place" .inbound none none
    ∃ d t, (Call.run.perform (host (nested 1)) order).run withdrawn = .ok (d, t) ∧
      Cancellation d ∧ d.2.activeFlow = .inFault ∧
      ∀ y u, Relation.ReflTransGen Onward (d.2, t) (y, u) → y.state ≠ .completed ∧
        ∃ new, u.events = t.events ++ new ∧ ∀ link, .invoked 0 link ∉ new := by
  intro order
  have hreachable : Reachable {} withdrawn.deployment := .now _
  have hbegins : Call.run.Begins (host (nested 1)) (order, withdrawn) _ := .run rfl rfl
  obtain ⟨d, t, hrun, -, -, hcancelled⟩ := (hreachable.cancellation_is_final (x := order)).2.2.2 1
    .run _ _ _ _ withdrawal [] _ _ _ hbegins .refl rfl rfl rfl rfl
  obtain ⟨d', t', hrun', hresult, hflow, hid, htripped, hdeployment⟩ : ∃ d t,
      (Call.run.perform (host (nested 1)) order).run withdrawn = .ok (d, t) ∧
        d.1 = .error (.cancelled 0) ∧ d.2.activeFlow = .inFault ∧ d.2.id = 0 ∧
        t.isTripped 0 = true ∧ t.deployment = .empty {} := ⟨_, _, rfl, rfl, rfl, rfl, rfl, rfl⟩
  cases hrun.symm.trans hrun'
  have hcancellation := hcancelled 0 hresult
  have hreachable' : Reachable {} t.deployment := hdeployment ▸ .now _
  have htripped' : t.isTripped d.2.id = true := hid ▸ htripped
  refine ⟨d, t, hrun, hcancellation, hflow, fun y u honward => ?_⟩
  obtain ⟨hheeds, hunfinished, -⟩ := hreachable'.cancellation_is_final (x := d.2)
  obtain ⟨-, hstate, -⟩ := hunfinished htripped' (by simp [hcancellation.state]) y u honward
  obtain ⟨new, hnew, hsilent⟩ := hheeds y u honward
  exact ⟨hstate, new, hnew, hsilent.before 0 htripped⟩

end Deployment

end ExchangePipeline
