/-
  ExchangePipeline/Proofs/Session/Telling.lean
  ============================================
  **Runs that tell of their calls.**

  What programs call is not in the journal.  Beside every run there is one that tells of
  it (`telling`): it performs every request by `perform`, and each time a call returns it
  writes the call, with its reply, behind all that the journal has held before.  There
  nothing in the run looks, so that the two runs are the same besides.

  The calls that are told are those of the run, with all that its setups, handlers and
  transports call, in the order in which they returned; and they make up a history of the
  deployment (`Told`).  Every run has its calls: this holds of all that requests are made
  of, so it holds of every request (`exists_inside`) and, by induction on the levels, of
  every program (`telling_nested`).
-/
import ExchangePipeline.Proofs.Session.Histories
import ExchangePipeline.Proofs.Session.Past

namespace ExchangePipeline

namespace Session

/-! ### Telling -/

theorem after_after (s : Session) (old older : List Event) :
    (s.after old).after older = s.after (old ++ older) := by
  rw [after, after, after, List.append_assoc]

/-- How calls are written down. -/
abbrev Teller := Request × Reply → Event

/-- Performs a request, and tells of it behind all that the journal holds. -/
def performTelling (tell : Teller) (inner : Inner) (request : Request) : Doing Reply := do
  let reply ← perform inner request
  modify (after [tell (request, reply)])
  return reply

/-- What a handler asks for.  Operations on its own exchange are no calls. -/
def answerTelling (tell : Teller) (inner : Inner) :
    Ask Request → StateT (Exchange Handler) Doing Reply
  | .own op => fun x => performOn inner op x
  | .request request => fun x => do return (← performTelling tell inner request, x)

/-- Programs, nested up to a number of levels, that tell of what they call. -/
def telling (tell : Teller) : Nat → Inner
  | 0 => nested 0
  | depth + 1 => {
      invoke := fun link x => do
        modify (record (.invoked x.id link))
        (link.body.run (answerTelling tell (telling tell depth))).run x
      carryOut := fun procedure => procedure.run (performTelling tell (telling tell depth)) }

/-- The calls of a run from `s` to `t`, as they are told beside it. -/
structure Told {α : Type} (aloud : Teller → Doing α) (s : Session)
    (calls : List (Request × Reply)) (a : α) (t : Session) : Prop where
  history : Deployment.History s.deployment calls t.deployment
  told : ∀ tell old, (aloud tell).run (s.after old) = .ok (a, t.after (old ++ calls.map tell))

/-- A teller that leaves nothing of a call out: what it writes down is a handler that makes the call
    and notes the reply. -/
def wordForWord : Teller := fun (request, reply) =>
  .invoked 0 ⟨{ name := "", phase := "" },
    .ask (.request request) fun _ => .ask (.request (.note (.answered reply))) fun _ =>
      .done (.ok .proceed)⟩

theorem wordForWord_injective : Function.Injective wordForWord := by
  rintro ⟨request, reply⟩ ⟨request', reply'⟩ hsame
  simp only [wordForWord, Event.invoked.injEq, Link.mk.injEq, Program.ask.injEq,
    Ask.request.injEq] at hsame
  obtain ⟨-, -, rfl, hrest⟩ := hsame
  have hnote := congrFun hrest .done
  simp only [Program.ask.injEq, Ask.request.injEq, Request.note.injEq, Note.answered.injEq]
    at hnote
  rw [hnote.1]

/-- **A run has no other calls** than the ones that are told. -/
theorem Told.unique {α : Type} {aloud : Teller → Doing α} {s t : Session} {a : α}
    {calls calls' : List (Request × Reply)} (h : Told aloud s calls a t)
    (h' : Told aloud s calls' a t) : calls = calls' := by
  have hsame := (h.told wordForWord []).symm.trans (h'.told wordForWord [])
  simp only [Except.ok.injEq, Prod.mk.injEq, true_and, List.nil_append, after,
    Session.mk.injEq, List.append_cancel_left_eq] at hsame
  exact wordForWord_injective.list_map hsame

/-- Every run of a computation has its calls. -/
def Tells {α : Type} (aloud : Teller → Doing α) (act : Doing α) : Prop :=
  ∀ s a t, act.run s = .ok (a, t) → ∃ calls, Told aloud s calls a t

end Session

/-- Every run of outside code has its calls. -/
structure Inner.Tells (aloud : Session.Teller → Inner) (inner : Inner) : Prop where
  invoke : ∀ link x, Session.Tells (fun tell => (aloud tell).invoke link x) (inner.invoke link x)
  carryOut : ∀ procedure,
    Session.Tells (fun tell => (aloud tell).carryOut procedure) (inner.carryOut procedure)

namespace Session

variable {α β : Type} {s t : Session} {act : Doing α}

/-! ### Sequences -/

/-- Where nothing is called, nothing is told. -/
theorem told_nil {aloud : Teller → Doing α} {a : α}
    (h : ∀ tell old, (aloud tell).run (s.after old) = .ok (a, t.after old)) (tell : Teller)
    (old : List Event) :
    (aloud tell).run (s.after old) = .ok (a, t.after (old ++ [].map tell)) := by
  rw [List.map_nil, List.append_nil]
  exact h tell old

theorem Tells.of_unaware (h : Unaware act)
    (hquiet : Keeps (fun s t => Deployment.History s.deployment [] t.deployment) act) :
    Tells (fun _ => act) act := by
  intro s a t hrun
  exact ⟨[], hquiet s a t hrun, told_nil fun _ old => h.run_ok hrun old⟩

theorem Tells.pure (a : α) : Tells (fun _ => pure a) (pure a) :=
  .of_unaware (.pure a) fun s b t h => by cases h; exact .now

theorem Tells.throw (aloud : Teller → Doing α) (halt : Halt) : Tells aloud (throw halt) :=
  fun _ _ _ h => by cases h

theorem Tells.modify {f : Session → Session} (h : ∀ s old, (f s).after old = f (s.after old))
    (hsame : ∀ s, (f s).deployment = s.deployment) : Tells (fun _ => modify f) (modify f) := by
  refine .of_unaware (.modify h) (.modify fun s => ?_)
  rw [hsame]
  exact .now

theorem Tells.bind {aloud : Teller → Doing α} {next : α → Doing β}
    {aloudNext : Teller → α → Doing β} (h : Tells aloud act)
    (hnext : ∀ a, Tells (fun tell => aloudNext tell a) (next a)) :
    Tells (fun tell => aloud tell >>= aloudNext tell) (act >>= next) := by
  intro s b u hrun
  obtain ⟨a, t, hfirst, hrest⟩ := run_bind_ok.1 hrun
  obtain ⟨calls, hcalls⟩ := h s a t hfirst
  obtain ⟨more, hmore⟩ := hnext a t b u hrest
  refine ⟨calls ++ more, hcalls.history.trans hmore.history, fun tell old => ?_⟩
  rw [List.map_append, ← List.append_assoc]
  exact run_bind_ok.2 ⟨a, _, hcalls.told tell old, hmore.told tell _⟩

theorem Tells.look {next : Session → Doing β} {aloudNext : Teller → Session → Doing β}
    (hnext : ∀ s, Tells (fun tell => aloudNext tell s) (next s))
    (hsame : ∀ tell s old, aloudNext tell (s.after old) = aloudNext tell s) :
    Tells (fun tell => get >>= aloudNext tell) (get >>= next) := by
  intro s b t hrun
  obtain ⟨calls, hcalls⟩ := hnext s s b t hrun
  refine ⟨calls, hcalls.history, fun tell old => ?_⟩
  rw [← hcalls.told tell old, ← hsame tell s old]
  rfl

theorem Tells.ite {c : Prop} [Decidable c] {aloud aloud' : Teller → Doing α} {act' : Doing α}
    (h : Tells aloud act) (h' : Tells aloud' act') :
    Tells (fun tell => if c then aloud tell else aloud' tell) (if c then act else act') := by
  split
  · exact h
  · exact h'

/-! ### Programs -/

theorem Tells.program {ρ θ : Type} {perform : ρ → Doing θ} {aloud : Teller → ρ → Doing θ}
    (h : ∀ request, Tells (fun tell => aloud tell request) (perform request)) (p : Program ρ θ α) :
    Tells (fun tell => p.run (aloud tell)) (p.run perform) := by
  induction p with
  | done a => exact .pure a
  | ask request next ih => exact .bind (h request) ih

theorem Tells.program_beside {ρ θ ξ : Type} {perform : ρ → StateT ξ Doing θ}
    {aloud : Teller → ρ → StateT ξ Doing θ}
    (h : ∀ request x, Tells (fun tell => (aloud tell request).run x) ((perform request).run x))
    (p : Program ρ θ α) (x : ξ) :
    Tells (fun tell => (p.run (aloud tell)).run x) ((p.run perform).run x) := by
  induction p generalizing x with
  | done a => exact .pure (a, x)
  | ask request next ih =>
    simp only [Program.run_ask, StateT.run_bind]
    exact .bind (h request x) fun result => ih result.1 result.2

/-! ### Chains -/

theorem tells_asks (key : ChainKey) :
    Tells (fun _ => change fun d => d.chain key) (change fun d => d.chain key) := by
  refine .of_unaware (unaware_change _) fun s result t hrun => ?_
  obtain ⟨_, -, rfl⟩ | ⟨chain, e, -, hchain, rfl⟩ := change_cases hrun
  · exact .now
  · exact .asks .now hchain

theorem tells_chainFor (service operation : String) (flow : Flow) :
    Tells (fun _ => chainFor service operation flow) (chainFor service operation flow) := by
  refine .look (fun s => ?_) fun _ _ _ => rfl
  cases s.source with
  | deployed => exact tells_asks _
  | fixed order handlers =>
    dsimp only
    split
    · exact .pure _
    · exact .pure _

theorem history_of_cacheAll (keys : List ChainKey) (d : Deployment) :
    Deployment.History d [] (Deployment.cacheAll keys d).2 := by
  induction keys generalizing d with
  | nil => exact .now
  | cons key rest ih =>
    rw [Deployment.cacheAll]
    cases hc : d.chain key with
    | error error => exact .now
    | ok result => exact (Deployment.History.asks .now hc).trans (ih result.2)

theorem tells_resolveAll : Tells (fun _ => resolveAll) resolveAll := by
  refine .of_unaware (unaware_take _) fun s result t hrun => ?_
  obtain ⟨e, hstep, rfl⟩ := take_ok hrun
  cases hstep
  exact history_of_cacheAll _ _

/-! ### Walks -/

variable {inner : Inner} {aloud : Teller → Inner}

theorem tells_walkAlong (h : inner.Tells aloud) {onFault : Host.OnFault Session Handler}
    {aloudOnFault : Teller → Host.OnFault Session Handler}
    (hf : ∀ link flow fault x,
      Tells (fun tell => aloudOnFault tell link flow fault x) (onFault link flow fault x))
    (rest : List (Link Handler)) (x : Exchange Handler) :
    Tells (fun tell => (host (aloud tell)).walkAlong (aloudOnFault tell) rest x)
      ((host inner).walkAlong onFault rest x) := by
  induction rest generalizing x with
  | nil =>
    simp only [Host.walkAlong]
    exact .look (fun _ => .ite (.pure _) (.pure _)) fun _ _ _ => rfl
  | cons link rest ih =>
    simp only [Host.walkAlong]
    refine .look (fun s => .ite (.pure _) (.bind (h.invoke link x) ?_)) fun _ _ _ => rfl
    rintro ⟨fault | response, y⟩
    · exact hf _ _ _ _
    · exact .ite (.pure _) (ih _)

theorem tells_faultWithin (h : inner.Tells aloud) (diversions : Nat) (link : Link Handler)
    (flow : Flow) (fault : Fault) (x : Exchange Handler) :
    Tells (fun tell => (host (aloud tell)).faultWithin diversions link flow fault x)
      ((host inner).faultWithin diversions link flow fault x) := by
  induction diversions generalizing link flow fault x with
  | zero => exact .throw _ _
  | succ diversions ih =>
    simp only [Host.faultWithin]
    refine .ite (.pure _) (.bind (tells_chainFor _ _ _) ?_)
    rintro (error | chain)
    · exact .pure _
    · exact tells_walkAlong h ih _ _

theorem tells_walk (h : inner.Tells aloud) (x : Exchange Handler) :
    Tells (fun tell => (host (aloud tell)).walk x) ((host inner).walk x) :=
  tells_walkAlong h (tells_faultWithin h _) _ _

theorem tells_runChain (h : inner.Tells aloud) (chain : Chain Handler) (x : Exchange Handler) :
    Tells (fun tell => (host (aloud tell)).runChain chain x) ((host inner).runChain chain x) :=
  .ite (tells_walk h _) (.pure _)

theorem tells_run (h : inner.Tells aloud) (x : Exchange Handler) :
    Tells (fun tell => (host (aloud tell)).run x) ((host inner).run x) := by
  refine .ite (.bind (tells_chainFor _ _ _) ?_) (.pure _)
  rintro (error | chain)
  · exact .pure _
  · exact tells_runChain h _ _

theorem tells_resume (h : inner.Tells aloud) (x : Exchange Handler) :
    Tells (fun tell => (host (aloud tell)).resume x) ((host inner).resume x) :=
  .ite (tells_walk h _) (.pure _)

theorem tells_cancel (x : Exchange Handler) :
    Tells (fun tell => (host (aloud tell)).cancel x) ((host inner).cancel x) :=
  .ite (.bind (.modify (fun _ _ => rfl) fun _ => rfl) fun _ => .pure _) (.pure _)

/-! ### Exchanges -/

theorem tells_performOn (h : inner.Tells aloud) (op : ExchangeOp) (x : Exchange Handler) :
    Tells (fun tell => performOn (aloud tell) op x) (performOn inner op x) := by
  cases op with
  | view => exact .look (fun _ => .pure _) fun _ _ _ => rfl
  | property key => exact .pure _
  | setProperty key value => exact .pure _
  | removeProperty key => exact .pure _
  | setPayload content => exact .pure _
  | takePayload => exact .pure _
  | pause => exact .pure _
  | trip => exact .bind (.modify (fun _ _ => rfl) fun _ => rfl) fun _ => .pure _
  | run => exact .bind (tells_run h x) fun _ => .pure _
  | resume => exact .bind (tells_resume h x) fun _ => .pure _
  | cancel =>
    refine .bind (tells_cancel x) ?_
    rintro ⟨_ | _, y⟩
    · exact .pure _
    · exact .pure _
  | runChain choice =>
    refine .look (fun s => ?_) fun tell s old => ?_
    · cases s.chosenChain? x choice with
      | none => exact .pure _
      | some chain => exact .bind (tells_runChain h chain x) fun _ => .pure _
    · cases choice <;> rfl

theorem tells_withExchange (name : String)
    {operation : Exchange Handler → Doing (Reply × Exchange Handler)}
    {aloudOperation : Teller → Exchange Handler → Doing (Reply × Exchange Handler)}
    (h : ∀ x, Tells (fun tell => aloudOperation tell x) (operation x)) :
    Tells (fun tell => withExchange name (aloudOperation tell)) (withExchange name operation) := by
  intro s reply t hrun
  obtain ⟨hnone, rfl, rfl⟩ | ⟨x, y, u, hx, hop, rfl⟩ := withExchange_cases hrun
  · have habsent := fun tell old =>
      run_withExchange_absent (s := t.after old) hnone (aloudOperation tell)
    exact ⟨[], .now, told_nil habsent⟩
  · obtain ⟨calls, hcalls⟩ := h x _ _ _ hop
    refine ⟨calls, hcalls.history, fun tell old => ?_⟩
    have htaken := run_withExchange_resting (s := s.after old) hx (aloudOperation tell)
    have hinside := hcalls.told tell old
    exact htaken.trans (congrArg (Except.map _) hinside)

theorem tells_dispatch (h : inner.Tells aloud) (gate : Gate) (x : Exchange Handler) :
    Tells (fun tell => dispatch (aloud tell) gate x) (dispatch inner gate x) := by
  have hdriven : Tells (fun tell => startOrResume (aloud tell) x) (startOrResume inner x) :=
    .ite (tells_resume h x) (tells_run h x)
  intro s handed t hrun
  obtain ⟨hfull, rfl, rfl⟩ | ⟨free, driven, u, hfree, hwalk, rfl, rfl⟩ := dispatch_cases hrun
  · exact ⟨[], .now, told_nil fun _ _ => run_dispatch_of_full hfull⟩
  · obtain ⟨calls, hcalls⟩ := hdriven _ _ _ hwalk
    refine ⟨calls, hcalls.history, fun tell old => ?_⟩
    have hlet : (dispatch (aloud tell) gate x).run (s.after old) = _ := run_dispatch_of_free hfree
    have hinside := hcalls.told tell old
    exact hlet.trans (congrArg (Except.map _) hinside)

theorem tells_dispatchNamed (h : inner.Tells aloud) (gate : Gate) (name : String) :
    Tells (fun tell => dispatchNamed (aloud tell) gate name) (dispatchNamed inner gate name) := by
  refine tells_withExchange name fun x => .bind (tells_dispatch h gate x) fun handed => ?_
  exact .look (fun _ => .pure _) fun _ _ _ => rfl

/-! ### Setups -/

theorem tells_initModule (h : inner.Tells aloud) (hkeeping : inner.Keeping Advances)
    (name : String) :
    Tells (fun tell => initModule (aloud tell) name) (initModule inner name) := by
  intro s result t hrun
  obtain ⟨hnone, rfl, rfl⟩ | ⟨hready, rfl, rfl⟩ | ⟨verdict, ⟨m, u, hm, hpending, hinit, rfl⟩, rfl⟩ :=
    initModule_cases hrun
  · exact ⟨[], .now, told_nil fun _ _ => run_initModule_of_unknown hnone⟩
  · exact ⟨[], .now, told_nil fun _ _ => run_initModule_of_ready hready⟩
  · obtain ⟨calls, hcalls⟩ := h.carryOut _ _ _ _ hinit
    have hrunning := (hkeeping.carryOut _ _ _ _ hinit).module?_beginSetup hm
    have hbegun : Deployment.History s.deployment [] (s.deployment.beginInit name) :=
      .setupBegins .now hm hpending
    refine ⟨calls, .setupEnds (hbegun.trans hcalls.history) _ hrunning rfl, fun tell old => ?_⟩
    have hsets : SetsUp (aloud tell) name verdict (s.after old)
        ((u.after (old ++ calls.map tell)).endSetup name verdict) :=
      ⟨m, _, hm, hpending, hcalls.told tell old, rfl⟩
    exact hsets.run_initModule

/-! ### Requests -/

/-- All that requests are made of that configure nothing has its calls, if programs have. -/
theorem pervades_tells (h : inner.Tells aloud) (hkeeping : inner.Keeping Advances) :
    Pervades fun _ act => Tells (fun tell => act (aloud tell)) (act inner) where
  pure := .pure
  bind := .bind
  look hnext hsame := .look hnext fun tell s old => congrFun (hsame s old) (aloud tell)
  notes _ := .modify (fun _ _ => rfl) fun _ => rfl
  trips _ := .modify (fun _ _ => rfl) fun _ => rfl
  opens _ _ _ _ _ _ := .modify (fun _ _ => rfl) fun _ => rfl
  holds _ _ := .modify (fun _ _ => rfl) fun _ => rfl
  asks := tells_asks
  connects role t := .of_unaware (.modify fun _ _ => rfl) (.modify fun _ => .connects .now role t)
  resolvesAll := tells_resolveAll
  setsUp := tells_initModule h hkeeping
  carriesOut := h.carryOut
  operates name op := tells_withExchange name (tells_performOn h op)
  dispatches := tells_dispatchNamed h

/-- Of the operations of a configuration, engagements alone run outside code. -/
theorem perform_eq_of_isConfiguration {request : Request}
    (hconfigures : request.isConfiguration = true)
    (hengage : ∀ module scope, request ≠ .engage module scope) (inner inner' : Inner) :
    perform inner request = perform inner' request := by
  cases request with
  | engage module scope => exact absurd rfl (hengage module scope)
  | addService | addOperation | addTransport | addParameter => rfl
  | registerModule | disengage | addHandler | declarePhases | chain | resolveAll => rfl
  | scopeNode | moduleNode | services | operations | parameter | isLocked => rfl
  | engaged | phaseOrder | cachedChain => rfl
  | _ => cases hconfigures

/-- What is called inside an engagement is called by the setup that it causes. -/
theorem exists_inside_engage (h : inner.Tells aloud) (hkeeping : inner.Keeping Advances)
    {module : String} {scope : Scope} {result : Except DeploymentError Bool}
    (hrun : (engage inner module scope).run s = .ok (result, t)) :
    ∃ inside, Deployment.History s.deployment
        (inside ++ [(.engage module scope, deploymentReply .flag result)]) t.deployment ∧
      ∀ tell old, (engage (aloud tell) module scope).run (s.after old) =
        .ok (result, t.after (old ++ inside.map tell)) := by
  cases hm : s.deployment.module? module with
  | none =>
    rw [run_engage_of_unknown hm] at hrun
    cases hrun
    exact ⟨[], .refuses .now module scope _, told_nil fun _ _ => run_engage_of_unknown hm⟩
  | some m =>
    cases hs : s.deployment.tree.scopeNode scope with
    | error error =>
      rw [run_engage_of_lost hm hs] at hrun
      cases hrun
      exact ⟨[], .refuses .now module scope _, told_nil fun _ _ => run_engage_of_lost hm hs⟩
    | ok id =>
      rw [run_engage_of_named hm hs] at hrun
      obtain ⟨outcome, u, hinit, hrun⟩ := run_bind_ok.1 hrun
      obtain ⟨calls, hcalls⟩ := tells_initModule h hkeeping module s outcome u hinit
      cases outcome with
      | error error =>
        cases hrun
        exact ⟨calls, .refuses hcalls.history module scope _, fun tell old =>
          run_engage_of_failure hm hs (hcalls.told tell old)⟩
      | ok done =>
        obtain ⟨answer, _, htake, hdone⟩ := run_bind_ok.1 hrun
        obtain ⟨e, htried, rfl⟩ := take_ok htake
        cases hdone
        -- the module is ready now, so at this moment the engagement sets nothing up
        have hready := (initModule_ok hkeeping hinit).2 rfl
        have hengage := run_engage_of_ready (nested 0) hready htried
        exact ⟨calls, .called hcalls.history rfl (run_bind_ok.2 ⟨_, _, hengage, rfl⟩),
          fun tell old =>
            run_engage_of_success (s := s.after old) hm hs (hcalls.told tell old) htried⟩

/-- **A request** comes last of all that is called on its behalf. -/
theorem exists_inside (h : inner.Tells aloud) (hkeeping : inner.Keeping Advances)
    (request : Request) {reply : Reply}
    (hrun : (perform inner request).run s = .ok (reply, t)) :
    ∃ inside, Deployment.History s.deployment (inside ++ [(request, reply)]) t.deployment ∧
      ∀ tell old, (perform (aloud tell) request).run (s.after old) =
        .ok (reply, t.after (old ++ inside.map tell)) := by
  by_cases hengage : ∃ module scope, request = .engage module scope
  · obtain ⟨module, scope, rfl⟩ := hengage
    obtain ⟨result, _, hengage, hreply⟩ := run_bind_ok.1 hrun
    cases hreply
    obtain ⟨inside, hhistory, htold⟩ := exists_inside_engage h hkeeping hengage
    exact ⟨inside, hhistory, fun tell old => run_bind_ok.2 ⟨_, _, htold tell old, rfl⟩⟩
  push Not at hengage
  cases hconfigures : request.isConfiguration with
  | true =>
    have heq := perform_eq_of_isConfiguration hconfigures hengage
    rw [heq inner (nested 0)] at hrun
    refine ⟨[], .called .now hconfigures hrun, told_nil fun tell old => ?_⟩
    rw [heq (aloud tell) (nested 0)]
    exact (unaware_perform 0 request).run_ok hrun old
  | false =>
    obtain ⟨calls, hcalls⟩ := (pervades_tells h hkeeping).perform hconfigures s reply t hrun
    exact ⟨calls, .returns hcalls.history hconfigures reply, hcalls.told⟩

theorem told_perform (h : inner.Tells aloud) (hkeeping : inner.Keeping Advances)
    (request : Request) {reply : Reply}
    (hrun : (perform inner request).run s = .ok (reply, t)) :
    ∃ inside, Told (fun tell => performTelling tell (aloud tell) request) s
      (inside ++ [(request, reply)]) reply t := by
  obtain ⟨inside, hhistory, htold⟩ := exists_inside h hkeeping request hrun
  refine ⟨inside, hhistory, fun tell old => ?_⟩
  rw [List.map_append, ← List.append_assoc, ← after_after]
  exact run_bind_ok.2 ⟨reply, _, htold tell old, rfl⟩

/-! ### Everything -/

/-- **Programs** have their calls, however deep they are nested. -/
theorem telling_nested (depth : Nat) : (nested depth).Tells fun tell => telling tell depth := by
  induction depth with
  | zero => exact ⟨fun _ _ => .throw _ _, fun _ => .throw _ _⟩
  | succ depth ih =>
    have hperform : ∀ request, Tells
        (fun tell => performTelling tell (telling tell depth) request)
        (perform (nested depth) request) := by
      intro request s reply t hrun
      obtain ⟨inside, hinside⟩ := told_perform ih (keeping_nested depth) request hrun
      exact ⟨_, hinside⟩
    refine ⟨fun link x => ?_, fun procedure => .program hperform procedure⟩
    refine .bind (.modify (fun _ _ => rfl) fun _ => rfl) fun _ => ?_
    refine .program_beside (fun ask y => ?_) link.body x
    cases ask with
    | own op => exact tells_performOn ih op y
    | request request => exact .bind (hperform request) fun _ => .pure _

end Session

end ExchangePipeline
