/-
  ExchangePipeline/Proofs/Session/Pipeline.lean
  =============================================
  **Dispatching is driving, with one permit less.**

  What stands before the engine counts dispatches and holds permits.  Apart from
  that, the dispatch of an exchange that is let in does what resuming it does if it
  is paused, and what running it does otherwise, in the session with one permit less:
  the same handlers are invoked, with the same consequences for the exchange, for the
  others and for the configuration.

  The journal tells of the dispatch itself as well, so the two calls begin with
  different pasts.  Nothing that is done in a session depends on the past, and so that
  makes no difference (`Unaware.run_after`).
-/
import ExchangePipeline.Proofs.Session.Accounts
import ExchangePipeline.Proofs.Session.Past

namespace ExchangePipeline

namespace Session

/-- **Dispatching is driving, with one permit less.**  Where no permit is free, the exchange comes
    back as it was, and nothing has happened but that this was counted and told.  Otherwise the
    dispatch ends if and only if the engine's call does, made in the same session with one permit
    less: resuming a paused exchange, and running any other.  It hands back what that comes to, and
    leaves what that leaves, with the permit given back, and the dispatch counted and told. -/
theorem dispatch_drives (depth : Nat) (x : Exchange Handler) (s : Session) :
    (s.permits .pipeline = 0 →
      (dispatch (nested depth) .pipeline x).run s = .ok ((.error .overloaded, x), { s with
        samples := .shed (if x.state = .paused then .resume else .new) :: s.samples
        journal := .turnedAway .pipeline x :: s.journal })) ∧
    ∀ free, s.permits .pipeline = free + 1 →
      let engine := if x.state = .paused then (host (nested depth)).resume x
        else (host (nested depth)).run x
      (∀ halt, engine.run (s.setPermits .pipeline free) = .error halt ↔
        (dispatch (nested depth) .pipeline x).run s = .error halt) ∧
      ∀ result y u, engine.run (s.setPermits .pipeline free) = .ok ((result, y), u) →
        let handed : Dispatched := (result.mapError .failed, y)
        ∃ new t, (dispatch (nested depth) .pipeline x).run s = .ok (handed, t) ∧
          u.events = s.events ++ new ∧
          t.events = s.events ++ .entered .pipeline x :: new ++ [.left .pipeline x handed] ∧
          t = { u with
            permits := s.permits
            samples := .outcome (outcomeOf handed) :: .duration :: u.samples
            journal := t.journal } := by
  refine ⟨fun hfull => run_dispatch_of_full hfull, fun free hfree => ?_⟩
  intro engine
  have hunaware : Unaware (startOrResume (nested depth) x) :=
    unaware_startOrResume (unaware_nested depth).1 x
  -- both calls are the one without any past, and tell what that tells
  generalize hbare : (startOrResume (nested depth) x).run
    { s.setPermits .pipeline free with journal := [] } = bare
  have hengine : engine.run (s.setPermits .pipeline free) =
      bare.map fun result => (result.1, result.2.after s.journal) :=
    hbare ▸ hunaware.run_after (s.setPermits .pipeline free) s.journal
  have hadmitted : (startOrResume (nested depth) x).run (s.letIn .pipeline free x) =
      bare.map fun result => (result.1, result.2.after (.entered .pipeline x :: s.journal)) :=
    hbare ▸ hunaware.run_after (s.setPermits .pipeline free) (.entered .pipeline x :: s.journal)
  have hdispatch := @run_dispatch_of_free (nested depth) s .pipeline free x hfree
  rw [hadmitted] at hdispatch
  cases bare with
  | error halt' =>
    refine ⟨fun halt => ?_, fun result y u hdriven => ?_⟩
    · rw [hengine, hdispatch]
      simp [Except.map]
    · rw [hengine] at hdriven
      cases hdriven
  | ok bare =>
    obtain ⟨⟨result', y'⟩, v⟩ := bare
    refine ⟨fun halt => ?_, fun result y u hdriven => ?_⟩
    · rw [hengine, hdispatch]
      simp [Except.map]
    rw [hengine] at hdriven
    cases hdriven
    have hkept : v.permits = (s.setPermits .pipeline free).permits :=
      (keeps_startOrResume (settling_host (settling_nested depth)) x _ _ _ hbare).permits
    have hback : (v.setPermits .pipeline (v.permits .pipeline + 1)).permits = s.permits :=
      permits_give_back hfree hkept
    refine ⟨v.journal.reverse, _, hdispatch, ?_, ?_, ?_⟩
    · simp [events, after]
    · simp [events, after, release, record, sample, setPermits]
    · rw [← hback]
      rfl

/-- The handler finds the only permit taken and has the other exchange turned away.  So it does
    when the engine is called where no permit is free; the dispatch then gives its permit back. -/
theorem dispatch_drives_crowding_exchange :
    let s := openExchange "second" "orders" "place" .inbound none none
      (.create crowding (.empty { maxConcurrentExchanges := 1 }))
    let x := .create s.nextExchange "orders" "place" .inbound none none
    ∃ y u t, ((host (nested 2)).run x).run (s.setPermits .pipeline 0) =
        .ok ((.ok .completed, y), u) ∧ u.samples = [.shed .new] ∧
      (dispatch (nested 2) .pipeline x).run s = .ok ((.ok .completed, y), t) ∧
      t.permits = s.permits ∧ t.samples = [.outcome .completed, .duration, .shed .new] := by
  intro s x
  have hshed : (match ((host (nested 2)).run x).run (s.setPermits .pipeline 0) with
      | .ok ((result, y), u) => decide (result.toOption = some .completed ∧
          u.samples = [.shed .new] ∧ y.fault?.isSome = false)
      | .error _ => false) = true := by decide +kernel
  split at hshed
  · rename_i result y u hengine
    obtain ⟨hcompleted, hsamples, hfault⟩ := of_decide_eq_true hshed
    cases result with
    | error error => cases hcompleted
    | ok status =>
      cases hcompleted
      obtain ⟨-, hdrives⟩ := dispatch_drives 2 x s
      obtain ⟨new, t, hdispatch, -, -, ht⟩ := (hdrives 0 rfl).2 (.ok .completed) y u hengine
      refine ⟨y, u, t, hengine, hsamples, hdispatch, by rw [ht], ?_⟩
      rw [ht]
      simp [outcomeOf, hfault, hsamples, Except.mapError]
  · cases hshed

end Session

end ExchangePipeline
