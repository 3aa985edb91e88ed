/-
  ExchangePipeline/Proofs/Session/Failures.lean
  =============================================
  **An error and the record of it agree.**

  A driving call fails in one of four ways: cancellation is found to be requested,
  a handler of a fault flow faults, the first chain cannot be had, or the fault
  chain cannot be had that a fault asks for.  Each fails the exchange in the very
  step that ends the call, and writes the record over whatever stands there
  (`Host.Turn.recounts`).  So the last turn of a walk decides, and nothing that
  handlers have done to the record before matters (`failure_is_recorded`).
-/
import ExchangePipeline.Proofs.Session.FaultRecord
import ExchangePipeline.Proofs.Walk.Cancellation

namespace ExchangePipeline

/-! ### What a failure leaves behind -/

section

variable {σ β : Type}

theorem FaultRecord.toValue_resolution (flow : Flow) (message : String) :
    (FaultRecord.resolution flow message).toValue = .map [("flow", .string flow.label),
      ("kind", .string "resolution"), ("message", .string message)] := by
  simp +decide only [FaultRecord.toValue, Dict.ofList, Dict.insert, List.foldl, if_true, if_false]

/-- The record of a fault of a handler in a flow. -/
def faultEntry (link : Link β) (flow : Flow) (fault : Fault) : Value :=
  .map [("flow", .string flow.label), ("handler", .string link.name), ("kind", .string "handler"),
    ("message", .string fault.text), ("phase", .string link.phase)]

/-- What is recorded in an exchange that has failed, for the error that its call has given and what
    was seen during the call.  The call was made on `x`, and has left `y`. -/
def Recounts (call : Call β) (x y : Exchange β) (log : List (Sight β)) : ExecutionError → Prop
  | .invalidState _ _ _ => False
  | .cancelled id =>
    id = x.id ∧
      y.fault? = some (.map [("flow", .string y.activeFlow.label), ("kind", .string "cancelled"),
        ("message", .string "exchange cancelled")])
  /- The handler invoked last has faulted, in a fault flow. -/
  | .unrecoverable id name fault =>
    id = x.id ∧ ∃ before link paused, log = before ++ [.invoked link (.error fault) paused] ∧
      link.name = name ∧ y.activeFlow.isFault = true ∧
      y.fault? = some (faultEntry link y.activeFlow fault)
  | .resolution error =>
    /- The first chain could not be had, and no handler was invoked. -/
    (call = .run ∧ log = [.answered x.service x.operation x.direction (.error error)] ∧
      y.fault? = some (.map [("flow", .string x.direction.label), ("kind", .string "resolution"),
        ("message", .string error.message)])) ∨
    /- The handler invoked last has faulted elsewhere, and its fault chain could not be had. -/
    ∃ before link fault paused,
      log = before ++ [.invoked link (.error fault) paused,
        .answered y.service y.operation y.activeFlow.faultFlow (.error error)] ∧
      y.activeFlow.isFault = false ∧ y.fault? = some (faultEntry link y.activeFlow fault)

variable {x y : Exchange β}

theorem Exchange.fault?_fail (x : Exchange β) (record : FaultRecord) :
    (x.fail record).fault? = some record.toValue :=
  Dict.find?_insert_self _ _ _

theorem Exchange.fault?_fail_handler (x : Exchange β) (link : Link β) (flow : Flow) (fault : Fault) :
    (x.fail (.handler link.placement flow fault.text)).fault? =
      some (faultEntry link flow fault) := by
  rw [fault?_fail, FaultRecord.toValue_handler]
  rfl

/-! ### The last turn -/

variable {Good : σ → Prop} {host : Host σ β} {s t : σ} {error : ExecutionError} {call : Call β}

/-- **The turn that fails** an exchange records why it does. -/
theorem Host.Turn.recounts {w : Exchange β} {p q : List (Sight β) × σ}
    (hturn : (host.observed Sight.observer).Turn (.walking w, p) (.ended (.error error, y), q))
    (h : host.Steady Good) (hp : Good p.2) (hw : w.state = .running) (hid : w.id = x.id) :
    Recounts call x y q.1 error := by
  cases hturn with
  | cancels =>
    refine ⟨hid, ?_⟩
    rw [Exchange.fault?_fail, FaultRecord.toValue_cancelled]
    rfl
  | @breaks _ z _ _ link _ fault _ _ faults final =>
    obtain ⟨u, hinvoke, rfl⟩ := noting_ok.1 faults
    obtain ⟨-, hz⟩ := h.invoke hp hw hinvoke
    rw [← hz.activeFlow_eq] at final ⊢
    exact ⟨hz.id_eq.trans hid, p.1, link, z.paused, rfl, rfl, final,
      Exchange.fault?_fail_handler _ link _ fault⟩
  | @strands _ z _ _ _ link _ fault _ _ _ faults ordinary asked =>
    obtain ⟨u, hinvoke, rfl⟩ := noting_ok.1 faults
    obtain ⟨v, -, rfl⟩ := noting_ok.1 asked
    obtain ⟨-, hz⟩ := h.invoke hp hw hinvoke
    rw [← hz.activeFlow_eq] at ordinary ⊢
    refine Or.inr ⟨p.1, link, fault, z.paused, ?_, ordinary,
      Exchange.fault?_fail_handler _ link _ fault⟩
    exact List.append_assoc _ _ _

/-- **A call that fails** leaves a failed exchange with the record of that failure. -/
theorem Host.Steady.recounts (h : host.Steady Good) (hs : Good s)
    (hrun : (call.perform host x).run s = .ok ((.error error, y), t))
    (hvalid : ∀ id state asked, error ≠ .invalidState id state asked) :
    y.state = .faulted ∧ ∃ log,
      (call.watched host x).run ([], s) =
        .ok ((.error error, y), (log ++ [.returned (.error error)], t)) ∧
      Recounts call x y log error := by
  have hallowed : call.AllowedIn x.state := by
    by_contra hallowed
    rw [call.perform_of_not_allowed host hallowed] at hrun
    cases hrun
    exact hvalid _ _ _ rfl
  obtain ⟨-, hsettled⟩ := h.perform_moves hs hallowed hrun
  refine ⟨hsettled.faulted.1 ⟨error, rfl, hvalid⟩, ?_⟩
  obtain ⟨⟨seen, u⟩, hwatched, rfl⟩ := (Call.mirrors_watched host call x).exists_ok (p := ([], s)) hrun
  obtain ⟨log, hperform, rfl⟩ := Call.watched_ok hwatched
  refine ⟨log, hwatched, ?_⟩
  have hobserved := h.observed Sight.observer
  obtain ⟨first, r, hr, hbegins, hturns⟩ := hobserved.perform_turns hs hallowed hperform
  rcases Relation.ReflTransGen.cases_tail hturns with hend | ⟨⟨mid, p⟩, hbefore, hlast⟩
  · -- the call was over as soon as it had begun
    cases hend
    cases hbegins with
    | unresolved _ asked =>
      obtain ⟨v, -, hlog⟩ := noting_ok.1 asked
      cases hlog
      refine Or.inl ⟨rfl, rfl, ?_⟩
      rw [Exchange.fault?_fail, FaultRecord.toValue_resolution]
  · obtain ⟨hgood, hmid, -⟩ := hobserved.turns_inOrder hbefore hr hbegins.moves.2
    have hid := hobserved.turns_id hbefore hr hbegins.moves.2
    rw [(hobserved.begins_good hbegins hs).2] at hid
    cases mid with
    | ended d => cases hlast
    | walking w => exact hlast.recounts h hgood hmid hid

end

/-! ### Sessions -/

namespace Session

variable {depth : Nat} {s t : Session} {x y : Exchange Handler} {call : Call Handler}
  {error : ExecutionError}

/-- **Errors and records agree.**  When a driving call on an exchange gives an error, other than
    that the call is not possible, the exchange has failed, and its record is that of the very
    failure which the error tells: the cancellation in the flow under way; the fault of the handler
    that was invoked last, in a fault flow; the refusal of the first chain, before any handler was
    invoked; or the fault of the handler that was invoked last, in another flow, whose fault chain
    was refused.  Nothing is asked of the handlers, which may have written or removed the record as
    they liked. -/
theorem failure_is_recorded
    (hrun : (call.perform (host (nested depth)) x).run s = .ok ((.error error, y), t))
    (hvalid : ∀ id state asked, error ≠ .invalidState id state asked) :
    y.state = .faulted ∧ ∃ log,
      (call.watched (host (nested depth)) x).run ([], s) =
        .ok ((.error error, y), (log ++ [.returned (.error error)], t)) ∧
      Recounts call x y log error :=
  (steady_host depth).recounts trivial hrun hvalid

/-- A handler that forges the record, and then fails for want of a refund. -/
def forger : Link Handler :=
  ⟨{ name := "forge", phase := "Dispatch" },
    .ask (.own (.setProperty faultProperty (.string "none"))) fun _ =>
      .done (.error (.rejected "no refund"))⟩

/-- A session without a chain for faults, where a forger comes first. -/
def unprepared : Session :=
  .create (.fixed (.uniform ["Dispatch"]) [(.inbound, [forger])]) (.empty {})

/-- The forger fails in the fault chain of the one session, and where there is no fault chain in the
    other; both times the record is that of its own fault. -/
theorem failure_is_recorded_of_forger :
    let x : Exchange Handler := .create 0 "orders" "place" .inbound none none
    (∃ y t, (Call.run.perform (host (nested 1)) x).run (insolvent forger) =
        .ok ((.error (.unrecoverable 0 "forge" (.rejected "no refund")), y), t) ∧
      y.state = .faulted ∧
      y.fault? = some (.map [("flow", .string "in-fault"), ("handler", .string "forge"),
        ("kind", .string "handler"), ("message", .string "no refund"),
        ("phase", .string "Dispatch")])) ∧
    ∃ y t log, (Call.run.perform (host (nested 1)) x).run unprepared =
        .ok ((.error (.resolution (.unknownOperation "orders" "place")), y), t) ∧
      y.state = .faulted ∧ handlersIn log = [forger] ∧
      Recounts .run x y log (.resolution (.unknownOperation "orders" "place")) := by
  intro x
  obtain ⟨y, t, hrun, hflow, hlog⟩ : ∃ y t,
      (Call.run.perform (host (nested 1)) x).run (insolvent forger) =
        .ok ((.error (.unrecoverable 0 "forge" (.rejected "no refund")), y), t) ∧
      y.activeFlow = .inFault ∧
      ∀ result log u, (Call.run.watched (host (nested 1)) x).run ([], insolvent forger) =
        .ok (result, (log, u)) → (handlersIn log).getLast? = some forger := by
    refine ⟨_, _, rfl, rfl, fun result log u hwatched => ?_⟩
    cases hwatched
    rfl
  obtain ⟨y', t', hrun', hlog'⟩ : ∃ y t,
      (Call.run.perform (host (nested 1)) x).run unprepared =
        .ok ((.error (.resolution (.unknownOperation "orders" "place")), y), t) ∧
      ∀ result log u, (Call.run.watched (host (nested 1)) x).run ([], unprepared) =
        .ok (result, (log, u)) → handlersIn log = [forger] := by
    refine ⟨_, _, rfl, fun result log u hwatched => ?_⟩
    cases hwatched
    rfl
  obtain ⟨hstate, log, hwatched, -, before, link, paused, rfl, -, -, hrecord⟩ :=
    failure_is_recorded hrun (by simp)
  obtain ⟨hstate', log', hwatched', hrecounts⟩ := failure_is_recorded hrun' (by simp)
  have hlast := hlog _ _ _ hwatched
  have hhandlers := hlog' _ _ _ hwatched'
  simp only [handlersIn_append, handlersIn_cons, handlersIn_nil, Sight.link?, Option.toList_some,
    Option.toList_none, List.append_nil, List.getLast?_concat, Option.some.injEq] at hlast hhandlers
  refine ⟨⟨y, t, hrun, hstate, ?_⟩, y', t', log', hrun', hstate', hhandlers, hrecounts⟩
  rw [hrecord, hflow, hlast]
  rfl

end Session

end ExchangePipeline
