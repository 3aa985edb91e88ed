/-
  ExchangePipeline/Proofs/Session/FaultRecord.lean
  ================================================
  **What a completed exchange tells of faults.**

  That a driving call has completed an exchange does not say whether a fault was
  handled on the way; the record of a fault says it (`completion_tells_of_fault`).
  It does so as long as nobody but the walk writes the record, and for a handler
  that is so if its program never asks to write or to remove that one property
  (`leavesRecord_of_spares`).  The property is reserved in name only, and a handler
  that removes it hides the fault (`removal_hides_fault`).
-/
import ExchangePipeline.Proofs.Session.StateMachine
import ExchangePipeline.Proofs.Walk.FaultRecord

namespace ExchangePipeline

/-! ### Handlers that do not write a property -/

/-- An operation that writes a property or removes it. -/
def ExchangeOp.Writes (key : String) : ExchangeOp → Prop
  | .setProperty other _ => other = key
  | .removeProperty other => other = key
  | _ => False

/-- A handler that never asks to write a property of its exchange, or to remove it. -/
inductive Spares (key : String) : Handler → Prop where
  | done (outcome : Outcome) : Spares key (.done outcome)
  | ask {ask : Ask Request} {next : Reply → Handler}
      (elsewhere : ∀ op, ask = .own op → ¬ op.Writes key) (goesOn : ∀ reply, Spares key (next reply)) :
      Spares key (.ask ask next)

namespace Session

variable {key : String} {depth : Nat} {inner : Inner} {s t : Session} {x y : Exchange Handler}

theorem property?_of_performOn (hx : x.state = .running) {op : ExchangeOp} (hop : ¬ op.Writes key)
    {reply : Reply} (hrun : (performOn inner op x).run s = .ok ((reply, y), t)) :
    y.property? key = x.property? key := by
  cases hcall : op.call? s x with
  | some call =>
    have hallowed : ¬ call.AllowedIn x.state := by
      cases call <;> simp [Call.AllowedIn, hx]
    rw [(performOn_refused hcall hallowed hrun).2.1]
  | none =>
    cases op with
    | run => cases hcall
    | resume => cases hcall
    | cancel =>
      simp only [performOn, cancel_of_running hx] at hrun
      cases hrun
      rfl
    | runChain choice =>
      rw [performOn_runChain_none (Option.map_eq_none_iff.1 hcall)] at hrun
      cases hrun
      rfl
    | setProperty other value =>
      cases hrun
      exact Dict.find?_insert_of_ne (Ne.symm hop) _ _
    | removeProperty other =>
      cases hrun
      exact Dict.find?_erase_of_ne (Ne.symm hop) _
    | _ =>
      cases hrun
      rfl

theorem property?_of_answers (hx : x.state = .running) {p : Handler} (hp : Spares key p)
    {outcome : Outcome} (hrun : ((p.run (answer inner)).run x).run s = .ok ((outcome, y), t)) :
    y.property? key = x.property? key := by
  induction hp generalizing x s with
  | done outcome =>
    cases hrun
    rfl
  | @ask ask next elsewhere _ ih =>
    rw [Program.run_ask, StateT.run_bind] at hrun
    obtain ⟨⟨reply, z⟩, u, hanswer, hrun⟩ := run_bind_ok.1 hrun
    have hz : z.state = .running := (touched_of_answer hx hanswer).state_eq.trans hx
    refine (ih reply hz hrun).trans ?_
    cases ask with
    | own op => exact property?_of_performOn hx (elsewhere op rfl) hanswer
    | request request =>
      obtain ⟨_, _, -, hdone⟩ := run_bind_ok.1 hanswer
      cases hdone
      rfl

/-- Whatever else a handler asks for, on its exchange or of the session, leaves the record. -/
theorem leavesRecord_of_spares {link : Link Handler} (hlink : Spares faultProperty link.body) :
    (host (nested depth)).LeavesRecord (fun s => s.deployment.Coherent) link := by
  intro x s outcome y t _ hx hrun
  cases depth with
  | zero => cases hrun
  | succ depth =>
    obtain ⟨_, _, -, hbody⟩ := run_bind_ok.1 hrun
    exact property?_of_answers hx hlink hbody

/-! ### Completion -/

/-- **A completed exchange tells of faults.**  When a driving call completes an exchange, a fault
    is recorded if and only if a handler faulted and the walk was diverted to the fault chain; and
    what is recorded is then that first fault, with its handler, its phase, the flow and its text.
    Nobody but the walk may have written the record. -/
theorem completion_tells_of_fault {seen seen' : List (Sight Handler)} {call : Call Handler}
    (hlife : Untampered (fun s => s.deployment.Coherent) (host (nested depth)) x seen)
    (hs : s.deployment.Coherent)
    (hleaves : ∀ link ∈ handlersIn seen',
      (host (nested depth)).LeavesRecord (fun s => s.deployment.Coherent) link)
    (hrun : (call.watched (host (nested depth)) x).run (seen, s) =
      .ok ((.ok .completed, y), (seen', t))) :
    (y.fault?.isSome = true ↔ ∃ link flow fault, DivertedBy link flow fault seen') ∧
    ∀ link flow fault, DivertedBy link flow fault seen' →
      y.fault? = some (.map [("flow", .string flow.label), ("handler", .string link.name),
        ("kind", .string "handler"), ("message", .string fault.text),
        ("phase", .string link.phase)]) := by
  have hstate : y.state = .completed := (lawful_host depth).watched_completed hs hrun
  have hrecorded := (hlife.driven hs hleaves hrun).recorded (lawful_host depth) (by simp [hstate])
  refine ⟨hrecorded.isSome_fault?, fun link flow fault hfault => ?_⟩
  rw [hrecorded.fault?_eq hfault, FaultRecord.toValue_handler]
  rfl

/-- A handler that rejects every order. -/
def charge : Link Handler :=
  ⟨{ name := "charge", phase := "Dispatch" }, .done (.error (.rejected "no funds"))⟩

/-- A handler that notes that it has been there, and asks for a pause. -/
def refund : Link Handler :=
  ⟨{ name := "refund", phase := "Dispatch" },
    .ask (.own (.setProperty "refunded" (.bool true))) fun _ => .done (.ok .pause)⟩

/-- A handler that removes the record of the fault. -/
def hush : Link Handler :=
  ⟨{ name := "hush", phase := "Dispatch" },
    .ask (.own (.removeProperty faultProperty)) fun _ => .done (.ok .proceed)⟩

/-- A session whose orders cannot be charged for, with a handler for what comes of that. -/
def insolvent (aftermath : Link Handler) : Session :=
  .create (.fixed (.uniform ["Dispatch"]) [(.inbound, [charge]), (.inFault, [aftermath])]) (.empty {})

theorem spares_charge : Spares faultProperty charge.body := .done _

theorem spares_refund : Spares faultProperty refund.body := by
  refine .ask ?_ fun _ => .done _
  rintro op hop hwrites
  cases hop
  exact absurd hwrites (by simp [ExchangeOp.Writes, faultProperty])

/-- The record of a fault outlasts a pause in the fault chain. -/
theorem completion_tells_of_refunded_fault :
    ∃ (y z : Exchange Handler) (seen seen' : List (Sight Handler)) (s t : Session),
      (Call.run.watched (host (nested 1)) (.create 0 "orders" "place" .inbound none none)).run
        ([], insolvent refund) = .ok ((.ok .paused, y), (seen, s)) ∧
      (Call.resume.watched (host (nested 1)) y).run (seen, s) =
        .ok ((.ok .completed, z), (seen', t)) ∧
      DivertedBy charge .inbound (.rejected "no funds") seen' ∧
      z.fault? = some (.map [("flow", .string "in"), ("handler", .string "charge"),
        ("kind", .string "handler"), ("message", .string "no funds"),
        ("phase", .string "Dispatch")]) := by
  obtain ⟨y, z, seen, seen', s, t, hrun, hresume, hs, hseen, hseen', hfaults, hchains, hsome⟩ :
      ∃ y z seen seen' s t,
        (Call.run.watched (host (nested 1)) (.create 0 "orders" "place" .inbound none none)).run
          ([], insolvent refund) = .ok ((.ok .paused, y), (seen, s)) ∧
        (Call.resume.watched (host (nested 1)) y).run (seen, s) =
          .ok ((.ok .completed, z), (seen', t)) ∧
        s.deployment = .empty {} ∧ handlersIn seen = [charge, refund] ∧
        handlersIn seen' = [charge, refund] ∧
        (faultsIn seen').head? = some (charge, .rejected "no funds") ∧
        (chainsIn seen').head?.map Chain.flow = some .inbound ∧ z.fault?.isSome = true :=
    ⟨_, _, _, _, _, _, rfl, rfl, rfl, rfl, rfl, rfl, rfl, rfl⟩
  have hcoherent : (Deployment.empty {}).Coherent := Deployment.coherent_empty {}
  have hleaves : ∀ link ∈ [charge, refund],
      (host (nested 1)).LeavesRecord (fun s => s.deployment.Coherent) link := by
    simp only [List.mem_cons, List.not_mem_nil, or_false, forall_eq_or_imp, forall_eq]
    exact ⟨leavesRecord_of_spares spares_charge, leavesRecord_of_spares spares_refund⟩
  have hlife : Untampered (fun s => s.deployment.Coherent) (host (nested 1)) y seen :=
    .driven (.created ..) hcoherent (hseen ▸ hleaves) hrun
  obtain ⟨hrecorded, hrecord⟩ :=
    completion_tells_of_fault hlife (hs ▸ hcoherent) (hseen' ▸ hleaves) hresume
  obtain ⟨link, flow, fault, hdiverted⟩ := hrecorded.1 hsome
  cases hdiverted.head?_faultsIn.symm.trans hfaults
  cases hdiverted.head?_chainsIn.symm.trans hchains
  exact ⟨y, z, seen, seen', s, t, hrun, hresume, hdiverted, hrecord _ _ _ hdiverted⟩

/-- **The record is not protected**: a handler of the fault chain that removes it hides the fault
    from everybody who looks at the completed exchange. -/
theorem removal_hides_fault :
    ∃ (y : Exchange Handler) (seen : List (Sight Handler)) (s : Session),
      (Call.run.watched (host (nested 1)) (.create 0 "orders" "place" .inbound none none)).run
        ([], insolvent hush) = .ok ((.ok .completed, y), (seen, s)) ∧
      DivertedBy charge .inbound (.rejected "no funds") seen ∧ y.fault? = none :=
  ⟨_, _, _, rfl, ⟨_, _, [_], false, _, _, _, rfl, rfl, rfl, rfl, rfl⟩, rfl⟩

end Session

end ExchangePipeline
