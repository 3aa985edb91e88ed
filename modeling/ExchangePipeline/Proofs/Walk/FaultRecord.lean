/-
  ExchangePipeline/Proofs/Walk/FaultRecord.lean
  =============================================
  **What is recorded of a fault, and what was seen of it.**

  A walk records the fault that diverts it under a property like any other, so the
  record tells what has happened as long as nobody else writes there: no handler
  that is invoked (`Host.LeavesRecord`), and nobody who has the exchange in hand
  between two calls (`Untampered`).  Nothing is recorded then before a handler has
  faulted, and after a diversion it is the first fault that is recorded, however
  many handlers and pauses follow (`Untampered.recorded`).

  A failed exchange is left out: its record says why it has failed.
-/
import ExchangePipeline.Proofs.Walk.Journey
import ExchangePipeline.Proofs.Walk.States

namespace ExchangePipeline

variable {σ β ω α : Type}

/-! ### Faults that were seen -/

/-- The handler that faulted, and its fault. -/
def Sight.fault? : Sight β → Option (Link β × Fault)
  | .invoked link (.error fault) _ => some (link, fault)
  | _ => none

/-- The faults of handlers, in order. -/
def faultsIn (seen : List (Sight β)) : List (Link β × Fault) :=
  seen.filterMap Sight.fault?

@[simp] theorem faultsIn_nil : faultsIn ([] : List (Sight β)) = [] := rfl

@[simp] theorem faultsIn_cons (sight : Sight β) (seen : List (Sight β)) :
    faultsIn (sight :: seen) = sight.fault?.toList ++ faultsIn seen := by
  rw [faultsIn, List.filterMap_cons]
  cases sight.fault? <;> rfl

@[simp] theorem faultsIn_append (seen more : List (Sight β)) :
    faultsIn (seen ++ more) = faultsIn seen ++ faultsIn more :=
  List.filterMap_append

/-- The first handler that faulted was `link`, on a chain of `flow`, and at that moment the
    exchange was supplied with a fault chain. -/
def DivertedBy (link : Link β) (flow : Flow) (fault : Fault) (seen : List (Sight β)) : Prop :=
  ∃ c f before paused service operation after,
    seen = before ++ .invoked link (.error fault) paused ::
      .answered service operation flow.faultFlow (.ok f) :: after ∧
    chainsIn before = [c] ∧ c.flow = flow ∧ flow.isFault = false ∧ faultsIn before = []

variable {link link' : Link β} {flow flow' : Flow} {fault fault' : Fault} {seen more : List (Sight β)}

theorem DivertedBy.append (h : DivertedBy link flow fault seen) (more : List (Sight β)) :
    DivertedBy link flow fault (seen ++ more) := by
  obtain ⟨c, f, before, paused, service, operation, after, rfl, hc⟩ := h
  exact ⟨c, f, before, paused, service, operation, after ++ more, by simp, hc⟩

theorem DivertedBy.head?_faultsIn (h : DivertedBy link flow fault seen) :
    (faultsIn seen).head? = some (link, fault) := by
  obtain ⟨c, f, before, paused, service, operation, after, rfl, -, -, -, hfaultless⟩ := h
  simp [hfaultless, Sight.fault?]

theorem DivertedBy.faultsIn_ne_nil (h : DivertedBy link flow fault seen) : faultsIn seen ≠ [] := by
  intro hfaultless
  have hhead := h.head?_faultsIn
  rw [hfaultless] at hhead
  cases hhead

theorem DivertedBy.head?_chainsIn (h : DivertedBy link flow fault seen) :
    (chainsIn seen).head?.map Chain.flow = some flow := by
  obtain ⟨c, f, before, paused, service, operation, after, rfl, hchains, hflow, -, -⟩ := h
  simp [hchains, hflow]

theorem DivertedBy.unique (h : DivertedBy link flow fault seen)
    (h' : DivertedBy link' flow' fault' seen) : link' = link ∧ flow' = flow ∧ fault' = fault := by
  have hfault := h'.head?_faultsIn.symm.trans h.head?_faultsIn
  have hflow := h'.head?_chainsIn.symm.trans h.head?_chainsIn
  cases hfault
  cases hflow
  exact ⟨rfl, rfl, rfl⟩

/-! ### What is recorded -/

theorem FaultRecord.toValue_handler (placement : Placement) (flow : Flow) (message : String) :
    (FaultRecord.handler placement flow message).toValue =
      .map [("flow", .string flow.label), ("handler", .string placement.name),
        ("kind", .string "handler"), ("message", .string message),
        ("phase", .string placement.phase)] := by
  simp +decide only [FaultRecord.toValue, Dict.ofList, Dict.insert, List.foldl, if_true, if_false]

variable {x y : Exchange β}

/-- What is recorded is what was seen. -/
inductive Recorded (x : Exchange β) (seen : List (Sight β)) : Prop where
  | clean (faultless : faultsIn seen = []) (record : x.fault? = none)
  | diverted (link : Link β) (flow : Flow) (fault : Fault)
      (divertedBy : DivertedBy link flow fault seen) (final : x.activeFlow.isFault = true)
      (record : x.fault? = some (FaultRecord.handler link.placement flow fault.text).toValue)

theorem Recorded.congr (h : Recorded x seen) (hrecord : y.fault? = x.fault?)
    (hflow : y.activeFlow = x.activeFlow) : Recorded y seen := by
  cases h with
  | clean faultless record => exact .clean faultless (hrecord.trans record)
  | diverted link flow fault divertedBy final record =>
    exact .diverted link flow fault divertedBy (hflow ▸ final) (hrecord.trans record)

theorem Recorded.append (h : Recorded x seen) (hmore : faultsIn more = []) :
    Recorded x (seen ++ more) := by
  cases h with
  | clean faultless record => exact .clean (by simp [faultless, hmore]) record
  | diverted link flow fault divertedBy final record =>
    exact .diverted link flow fault (divertedBy.append more) final record

theorem Recorded.fault?_eq (h : Recorded x seen) (hfault : DivertedBy link flow fault seen) :
    x.fault? = some (FaultRecord.handler link.placement flow fault.text).toValue := by
  cases h with
  | clean faultless _ => exact absurd faultless hfault.faultsIn_ne_nil
  | diverted _ _ _ divertedBy _ record =>
    obtain ⟨rfl, rfl, rfl⟩ := divertedBy.unique hfault
    exact record

theorem Recorded.isSome_fault? (h : Recorded x seen) :
    x.fault?.isSome = true ↔ ∃ link flow fault, DivertedBy link flow fault seen := by
  constructor
  · intro hsome
    cases h with
    | clean _ record =>
      rw [record] at hsome
      cases hsome
    | diverted link flow fault divertedBy _ _ => exact ⟨link, flow, fault, divertedBy⟩
  · rintro ⟨link, flow, fault, hfault⟩
    rw [h.fault?_eq hfault]
    rfl

theorem faultsIn_of_handlersIn (h : handlersIn seen = []) : faultsIn seen = [] := by
  rw [handlersIn, List.filterMap_eq_nil_iff] at h
  rw [faultsIn, List.filterMap_eq_nil_iff]
  intro sight hsight
  have hnone := h sight hsight
  cases sight with
  | invoked link outcome paused => cases hnone
  | _ => rfl

/-- Before the first fault an exchange follows the chain that it was bound to first. -/
theorem UnderWay.onFirstChain (h : UnderWay x seen) (hfaultless : faultsIn seen = []) :
    ∃ c, chainsIn seen = [c] ∧ c.flow = x.activeFlow := by
  cases h.journey with
  | unbound chain_eq => exact absurd chain_eq h.bound
  | straight c chains stands => exact ⟨c, chains, stands.flow_eq.symm⟩
  | diverted c f before link fault paused after seen_eq =>
    simp [seen_eq, Sight.fault?] at hfaultless

/-- The first fault diverts the exchange, and is recorded. -/
theorem Recorded.divert (h : Recorded x seen) (hx : UnderWay x seen)
    (hordinary : x.activeFlow.isFault = false) (link : Link β) (fault : Fault) (paused : Bool)
    (service operation : String) {f : Chain β} (hflow : f.flow = x.activeFlow.faultFlow) :
    Recorded (y.divert f (.handler link.placement x.activeFlow fault.text))
      (seen ++ [.invoked link (.error fault) paused] ++
        [.answered service operation x.activeFlow.faultFlow (.ok f)]) := by
  cases h with
  | clean faultless _ =>
    obtain ⟨c, hchains, hc⟩ := hx.onFirstChain faultless
    have hfinal : f.flow.isFault = true := by rw [hflow, Flow.isFault_faultFlow]
    refine .diverted link x.activeFlow fault ?_ hfinal (Dict.find?_insert_self _ _ _)
    exact ⟨c, f, seen, paused, service, operation, [], by simp, hchains, hc, hordinary, faultless⟩
  | diverted _ _ _ _ final _ =>
    -- the exchange is in its fault flow already
    rw [final] at hordinary
    cases hordinary

/-! ### Turns -/

/-- What is recorded at a stage of a call.  That of a failed exchange is another matter. -/
def Stage.Recorded : Stage β → List (Sight β) → Prop
  | .walking x, seen => UnderWay x seen ∧ ExchangePipeline.Recorded x seen
  | .ended d, seen => d.2.state ≠ .faulted → ExchangePipeline.Recorded d.2 seen

/-- A handler that leaves the record of a fault as it finds it. -/
def Host.LeavesRecord (Good : σ → Prop) (host : Host σ β) (link : Link β) : Prop :=
  ∀ {x s outcome y t}, Good s → x.state = .running →
    (host.invoke link x).run s = .ok ((outcome, y), t) → y.fault? = x.fault?

variable {Good : σ → Prop} {host : Host σ β} {s t : σ} {p q : Stage β × (List (Sight β) × σ)}

theorem Host.Lawful.invoke_leaves (h : host.Lawful Good) (hs : Good s) (hx : UnderWay x seen)
    {rest : List (Link β)} (hrest : x.remaining = link :: rest) {outcome : Outcome}
    {seen' : List (Sight β)}
    (hrun : ((host.observed Sight.observer).invoke link x).run (seen, s) =
      .ok ((outcome, y), (seen', t)))
    (hleaves : ∀ l ∈ handlersIn seen', host.LeavesRecord Good l) :
    Good t ∧ seen' = seen ++ [.invoked link outcome y.paused] ∧ x.Touched y ∧
      UnderWay (y.moveTo (x.cursor + 1)) seen' ∧ y.fault? = x.fault? := by
  obtain ⟨_, hinvoke, hlog⟩ := noting_ok.1 hrun
  cases hlog
  obtain ⟨ht, hy⟩ := h.invoke hs hx.running hinvoke
  refine ⟨ht, rfl, hy, hx.next hrest hy outcome, ?_⟩
  exact hleaves link (by simp [Sight.observer, Sight.link?]) hs hx.running hinvoke

/-- **One turn.** -/
theorem Host.Lawful.turn_recorded (h : host.Lawful Good)
    (hturn : (host.observed Sight.observer).Turn p q) (hp : Good p.2.2)
    (hrecorded : p.1.Recorded p.2.1) (hleaves : ∀ l ∈ handlersIn q.2.1, host.LeavesRecord Good l) :
    Good q.2.2 ∧ q.1.Recorded q.2.1 := by
  cases hturn with
  | cancels => exact ⟨hp, fun hstate => absurd rfl hstate⟩
  | completes => exact ⟨hp, fun _ => hrecorded.2.congr rfl rfl⟩
  | pauses _ next returns _ =>
    -- a handler that returns is no fault, and leaves the record
    obtain ⟨ht, hseen, hy, -, hrecord⟩ := h.invoke_leaves hp hrecorded.1 next returns hleaves
    refine ⟨ht, fun _ => ?_⟩
    rw [hseen]
    exact (hrecorded.2.append rfl).congr hrecord hy.activeFlow_eq
  | proceeds _ next returns _ =>
    obtain ⟨ht, hseen, hy, hunderway, hrecord⟩ :=
      h.invoke_leaves hp hrecorded.1 next returns hleaves
    refine ⟨ht, hunderway, ?_⟩
    rw [hseen]
    exact (hrecorded.2.append rfl).congr hrecord hy.activeFlow_eq
  | breaks _ next faults _ =>
    have ht := (h.invoke_leaves hp hrecorded.1 next faults hleaves).1
    exact ⟨ht, fun hstate => absurd rfl hstate⟩
  | strands _ next faults _ asked =>
    -- the whole log is read first, since it tells of the handler that was invoked before
    obtain ⟨u, hasked, hlog⟩ := noting_ok.1 asked
    cases hlog
    have ht := (h.invoke_leaves hp hrecorded.1 next faults fun l hl => hleaves l (by simp [hl])).1
    exact ⟨(h.chainFor ht hasked).1, fun hstate => absurd rfl hstate⟩
  | diverts _ next faults ordinary asked =>
    obtain ⟨u, hasked, hlog⟩ := noting_ok.1 asked
    cases hlog
    obtain ⟨ht, hseen, hy, hunderway, -⟩ := h.invoke_leaves hp hrecorded.1 next faults fun l hl =>
      hleaves l (by simp [hl])
    obtain ⟨hu, hflow⟩ := h.chainFor ht hasked
    rw [hseen] at hunderway ⊢
    refine ⟨hu, ⟨rfl, Option.some_ne_none _, ?_⟩,
      hrecorded.2.divert hrecorded.1 ordinary _ _ _ _ _ (hflow _ rfl)⟩
    rw [← hy.activeFlow_eq] at ordinary hflow ⊢
    exact hunderway.journey.divert ordinary (hflow _ rfl) _

theorem noting_lengthens {note : α → List ω} {act : Act σ α} {p q : List ω × σ} {a : α}
    (hrun : (noting note act).run p = .ok (a, q)) : p.1 <+: q.1 := by
  obtain ⟨t, -, rfl⟩ := noting_ok.1 hrun
  exact List.prefix_append _ _

theorem Host.Turn.lengthens (hturn : (host.observed Sight.observer).Turn p q) :
    p.2.1 <+: q.2.1 := by
  cases hturn with
  | cancels => exact List.prefix_refl _
  | completes => exact List.prefix_refl _
  | pauses _ _ returns _ => exact noting_lengthens returns
  | proceeds _ _ returns _ => exact noting_lengthens returns
  | breaks _ _ faults _ => exact noting_lengthens faults
  | strands _ _ faults _ asked => exact (noting_lengthens faults).trans (noting_lengthens asked)
  | diverts _ _ faults _ asked => exact (noting_lengthens faults).trans (noting_lengthens asked)

theorem mem_handlersIn_of_isPrefix {seen seen' : List (Sight β)} (h : seen <+: seen')
    (hlink : link ∈ handlersIn seen) : link ∈ handlersIn seen' := by
  obtain ⟨more, rfl⟩ := h
  rw [handlersIn_append]
  exact List.mem_append_left _ hlink

/-- **A walk**, turn by turn. -/
theorem Host.Lawful.turns_recorded (h : host.Lawful Good)
    (hturns : (host.observed Sight.observer).Turns p q) (hp : Good p.2.2)
    (hrecorded : p.1.Recorded p.2.1) (hleaves : ∀ l ∈ handlersIn q.2.1, host.LeavesRecord Good l) :
    Good q.2.2 ∧ q.1.Recorded q.2.1 := by
  induction hturns with
  | refl => exact ⟨hp, hrecorded⟩
  | tail _ hturn ih =>
    obtain ⟨hgood, hmid⟩ := ih fun l hl =>
      hleaves l (mem_handlersIn_of_isPrefix hturn.lengthens hl)
    exact h.turn_recorded hturn hgood hmid hleaves

/-! ### Calls -/

/-- What is known of an exchange between two calls. -/
structure Traced (x : Exchange β) (seen : List (Sight β)) : Prop where
  rests : Rests x seen
  recorded : x.state ≠ .faulted → Recorded x seen

/-- Nothing happens to an exchange before it is started. -/
theorem Rests.faultless (h : Rests x seen) (hx : x.state = .created) : faultsIn seen = [] := by
  have hstanding := h.standing
  rw [Exchange.Standing, hx] at hstanding
  cases h.journey with
  | unbound _ _ handlers => exact faultsIn_of_handlersIn handlers
  | straight c _ stands => cases hstanding.symm.trans stands.chain_eq
  | diverted c f _ _ _ _ _ _ _ _ _ _ _ stands => cases hstanding.symm.trans stands.chain_eq

/-- An exchange that was not started has no record, and has none when it starts. -/
theorem Traced.start (h : Traced x seen) (hx : x.state = .created) (c : Chain β) :
    Recorded (x.start c) seen := by
  have hfaultless := h.rests.faultless hx
  cases h.recorded (by simp [hx]) with
  | clean _ record => exact .clean hfaultless record
  | diverted _ _ _ divertedBy _ _ => exact absurd hfaultless divertedBy.faultsIn_ne_nil

theorem Host.Lawful.begins_recorded (h : host.Lawful Good) (htraced : Traced x seen) (hs : Good s)
    {call : Call β} {first : Stage β} {r : List (Sight β) × σ}
    (hbegins : call.Begins (host.observed Sight.observer) (x, (seen ++ call.given x, s))
      (first, r)) : Good r.2 ∧ first.Recorded r.1 := by
  cases hbegins with
  | @run _ _ _ chain fresh asked =>
    obtain ⟨t, ht, -, rfl⟩ := h.chainFor_observed hs asked
    simp only [Call.given, List.append_nil]
    exact ⟨ht, htraced.rests.start fresh rfl rfl, (htraced.start fresh chain).append rfl⟩
  | unresolved _ asked =>
    obtain ⟨t, ht, -, rfl⟩ := h.chainFor_observed hs asked
    exact ⟨ht, fun hstate => absurd rfl hstate⟩
  | @runChain _ _ chain fresh =>
    simp only [Call.given, if_pos fresh]
    exact ⟨hs, htraced.rests.start fresh rfl rfl, (htraced.start fresh chain).append rfl⟩
  | resume paused =>
    have hbound := htraced.rests.standing
    rw [Exchange.Standing, paused] at hbound
    have hrecorded := htraced.recorded (by simp [paused])
    simp only [Call.given, List.append_nil]
    exact ⟨hs, ⟨rfl, hbound, htraced.rests.journey.congr rfl rfl rfl rfl rfl⟩,
      hrecorded.congr rfl rfl⟩

/-- A watched call is the call on the observed host, between what it is given and what it returns. -/
theorem Call.watched_ok {call : Call β} {result : Except ExecutionError Status}
    {seen' : List (Sight β)}
    (hrun : (call.watched host x).run (seen, s) = .ok ((result, y), (seen', t))) :
    ∃ log, (call.perform (host.observed Sight.observer) x).run (seen ++ call.given x, s) =
      .ok ((result, y), (log, t)) ∧ seen' = log ++ [.returned result] := by
  obtain ⟨_, _, hgiven, hrun⟩ := run_bind_ok.1 hrun
  cases hgiven
  obtain ⟨d, ⟨log, u⟩, hperform, hrun⟩ := run_bind_ok.1 hrun
  obtain ⟨_, _, hreturned, hrun⟩ := run_bind_ok.1 hrun
  cases hreturned
  cases hrun
  exact ⟨log, hperform, rfl⟩

/-- A call that is not possible leaves everything as it was. -/
theorem Call.watched_of_not_allowed {call : Call β} (hallowed : ¬ call.AllowedIn x.state)
    {result : Except ExecutionError Status} {seen' : List (Sight β)}
    (hrun : (call.watched host x).run (seen, s) = .ok ((result, y), (seen', t))) :
    y = x ∧ seen' = seen ++ [.returned result] := by
  obtain ⟨log, hperform, rfl⟩ := Call.watched_ok hrun
  rw [call.perform_of_not_allowed _ hallowed] at hperform
  cases hperform
  have hgiven : call.given x = [] := by
    cases call with
    | runChain chain => exact if_neg hallowed
    | _ => rfl
  exact ⟨rfl, by rw [hgiven, List.append_nil]⟩

/-- **A call.** -/
theorem Host.Lawful.watched_recorded (h : host.Lawful Good) (htraced : Traced x seen) (hs : Good s)
    {call : Call β} {result : Except ExecutionError Status} {seen' : List (Sight β)}
    (hleaves : ∀ l ∈ handlersIn seen', host.LeavesRecord Good l)
    (hrun : (call.watched host x).run (seen, s) = .ok ((result, y), (seen', t))) :
    Traced y seen' := by
  refine ⟨h.watched_rests htraced.rests hs hrun, fun hstate => ?_⟩
  by_cases hallowed : call.AllowedIn x.state
  · obtain ⟨log, hperform, rfl⟩ := Call.watched_ok hrun
    obtain ⟨first, r, -, hbegins, hturns⟩ :=
      (h.observed Sight.observer).steady.perform_turns hs hallowed hperform
    obtain ⟨hr, hfirst⟩ := h.begins_recorded htraced hs hbegins
    have hover := (h.turns_recorded hturns hr hfirst fun l hl => hleaves l (by simp [hl])).2
    exact (hover hstate).append rfl
  · obtain ⟨rfl, rfl⟩ := Call.watched_of_not_allowed hallowed hrun
    exact (htraced.recorded hstate).append rfl

theorem Host.Lawful.watched_completed (h : host.Lawful Good) (hs : Good s) {call : Call β}
    {seen' : List (Sight β)}
    (hrun : (call.watched host x).run (seen, s) = .ok ((.ok .completed, y), (seen', t))) :
    y.state = .completed := by
  obtain ⟨log, hperform, -⟩ := Call.watched_ok hrun
  by_cases hallowed : call.AllowedIn x.state
  · exact ((h.observed _).steady.perform_moves hs hallowed hperform).2.completed.1 rfl
  · rw [call.perform_of_not_allowed _ hallowed] at hperform
    cases hperform

/-! ### Lives -/

/-- The life of an exchange whose record of a fault is written by its walks only.  Between the
    calls, whoever has it in hand may do all else to it that anyone may do. -/
inductive Untampered (Good : σ → Prop) (host : Host σ β) : Exchange β → List (Sight β) → Prop where
  | created (id : Nat) (service operation : String) (direction : Flow)
      (payload : Option (List UInt8)) (transport : Option TransportBinding) :
      Untampered Good host (.create id service operation direction payload transport) []
  | touched {x y : Exchange β} {seen : List (Sight β)} (earlier : Untampered Good host x seen)
      (touches : x.Touched y) (spares : y.fault? = x.fault?) : Untampered Good host y seen
  | driven {x y : Exchange β} {seen seen' : List (Sight β)} {s t : σ} {call : Call β}
      {result : Except ExecutionError Status} (earlier : Untampered Good host x seen)
      (good : Good s) (leaves : ∀ link ∈ handlersIn seen', host.LeavesRecord Good link)
      (runs : (call.watched host x).run (seen, s) = .ok ((result, y), (seen', t))) :
      Untampered Good host y seen'
  | cancelled {x y : Exchange β} {seen : List (Sight β)} {s t : σ}
      {result : Except ExecutionError Unit} (earlier : Untampered Good host x seen)
      (runs : (host.cancel x).run s = .ok ((result, y), t)) : Untampered Good host y seen

theorem Untampered.life (h : Untampered Good host x seen) : Life Good host x seen := by
  induction h with
  | created => exact .created ..
  | touched _ touches _ ih => exact .touched ih touches
  | driven _ good _ runs ih => exact .driven ih good runs
  | cancelled _ runs ih => exact .cancelled ih runs

/-- **What is recorded is what was seen**, over the whole life of an exchange, as long as it has
    not failed. -/
theorem Untampered.recorded (hlife : Untampered Good host x seen) (h : host.Lawful Good)
    (hx : x.state ≠ .faulted) : Recorded x seen := by
  induction hlife with
  | created => exact .clean rfl rfl
  | touched _ touches spares ih =>
    exact (ih (touches.state_eq ▸ hx)).congr spares touches.activeFlow_eq
  | driven earlier good leaves runs ih =>
    exact (h.watched_recorded ⟨earlier.life.rests h, ih⟩ good leaves runs).recorded hx
  | cancelled _ runs ih =>
    obtain ⟨-, -, -, hfaulted, -⟩ | ⟨-, -, rfl, -⟩ := cancel_moves runs
    · exact absurd hfaulted hx
    · exact ih hx

end ExchangePipeline
