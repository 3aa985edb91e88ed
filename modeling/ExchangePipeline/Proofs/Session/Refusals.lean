/-
  ExchangePipeline/Proofs/Session/Refusals.lean
  =============================================
  **A change that is refused leaves no trace.**

  Some changes are made first and taken back when something does not resolve with
  them.  Whether they are refused before or after that, the session is afterwards
  what it was: the tree with its parameters and the order of its engagements, the
  declared handlers, the phases, the modules, the cache with the serial numbers of
  its chains, and the count of changes (`Reachable.refusal_leaves_no_trace`).

  An engagement sets the module up before it is tried, and that stays done.  So a
  refused engagement leaves what the setup alone would have left (`SetsUp`).
-/
import ExchangePipeline.Proofs.Session.Reachable

namespace ExchangePipeline

/-- Whether a request changes the configuration by itself, without any outside code. -/
def Request.configures : Request → Bool
  | .registerModule _ | .addService _ | .addOperation _ _ | .addTransport _ | .addParameter _ _
  | .disengage _ _ | .addHandler _ _ _ | .declarePhases _ => true
  | _ => false

/-- Whether a reply says that nothing was done: the request was refused, or an engagement was there
    already or not there. -/
def Reply.declines : Reply → Bool
  | .refused _ | .flag false => true
  | _ => false

open Session

namespace Session

variable {s t : Session} {inner : Inner}

/-! ### Steps that are refused -/

theorem change_declines {α : Type} {step : Deployment → Except ConfigError (α × Deployment)}
    {f : α → Reply} {answer : Reply}
    (hf : ∀ a e, step s.deployment = .ok (a, e) → (f a).declines = true → e = s.deployment)
    (hrun : (change step >>= fun result => pure (reply f result)).run s = .ok (answer, t))
    (hno : answer.declines = true) : t = s := by
  obtain ⟨result, _, hchange, hreply⟩ := run_bind_ok.1 hrun
  cases hreply
  obtain ⟨_, -, rfl⟩ | ⟨a, e, rfl, hstep, rfl⟩ := change_cases hchange
  · rfl
  · rw [hf a e hstep hno]

theorem take_declines {α : Type} {step : Deployment → Except ConfigError α × Deployment}
    {f : α → Reply} {answer : Reply} (hf : ∀ a, (f a).declines = false)
    (hstep : ∀ error e, step s.deployment = (.error error, e) → e = s.deployment)
    (hrun : (take step >>= fun result => pure (reply f result)).run s = .ok (answer, t))
    (hno : answer.declines = true) : t = s := by
  obtain ⟨result, _, htake, hreply⟩ := run_bind_ok.1 hrun
  cases hreply
  obtain ⟨e, hresult, rfl⟩ := take_ok htake
  cases result with
  | ok a => cases (hf a).symm.trans hno
  | error error => rw [hstep error e hresult]

theorem registerModule_declines {module : Module} {answer : Reply}
    (hrun : (perform inner (.registerModule module)).run s = .ok (answer, t))
    (hno : answer.declines = true) : t = s := by
  obtain ⟨result, _, hregister, hreply⟩ := run_bind_ok.1 hrun
  cases hreply
  obtain ⟨result', _, htake, hregister⟩ := run_bind_ok.1 hregister
  obtain ⟨e, hresult, rfl⟩ := take_ok htake
  cases result' with
  | error error =>
    cases hregister
    rw [Deployment.registerModule_error hresult]
  | ok id =>
    obtain ⟨_, _, -, hdone⟩ := run_bind_ok.1 hregister
    cases hdone
    cases hno

/-- **A refused engagement** leaves what the setup of the module alone leaves. -/
theorem engage_declines {module : String} {scope : Scope} {answer : Reply}
    (hrun : (perform inner (.engage module scope)).run s = .ok (answer, t))
    (hno : answer.declines = true) :
    t = s ∨ ∃ verdict, SetsUp inner module verdict s t := by
  obtain ⟨result, _, hengage, hreply⟩ := run_bind_ok.1 hrun
  cases hreply
  -- whatever has declined, nothing has changed since the setup of the module
  suffices h : t = s ∨ ∃ outcome, (initModule inner module).run s = .ok (outcome, t) by
    obtain rfl | ⟨outcome, hinit⟩ := h
    · exact Or.inl rfl
    obtain ⟨-, -, rfl⟩ | ⟨-, -, rfl⟩ | ⟨verdict, hsetup, -⟩ := initModule_cases hinit
    · exact Or.inl rfl
    · exact Or.inl rfl
    · exact Or.inr ⟨verdict, hsetup⟩
  obtain ⟨-, rfl | ⟨error, hinit⟩⟩ | ⟨u, answer, e, hinit, htried, rfl, rfl⟩ := engage_cases hengage
  · exact Or.inl rfl
  · exact Or.inr ⟨_, hinit⟩
  cases answer with
  | error error =>
    rw [Deployment.engage_error htried]
    exact Or.inr ⟨_, hinit⟩
  | ok added =>
    cases added with
    | true => cases hno
    | false =>
      obtain ⟨-, -, ⟨-, rfl, -⟩ | ⟨htrue, -⟩⟩ := Deployment.engage_ok htried
      · exact Or.inr ⟨_, hinit⟩
      · cases htrue

end Session

namespace Deployment

variable {settings : EngineSettings} {s t : Session} {inner : Inner}

/-- **A refused change leaves no trace.**  The session is the one before, and after a refused
    engagement it is that or the one that the setup of the module, if it had one, has left. -/
theorem Reachable.refusal_leaves_no_trace (h : Reachable settings s.deployment) {request : Request}
    {answer : Reply} (hrun : (perform inner request).run s = .ok (answer, t))
    (hno : answer.declines = true) :
    (request.configures = true → t = s) ∧
      ∀ module scope, request = .engage module scope →
        t = s ∨ ∃ verdict, SetsUp inner module verdict s t := by
  refine ⟨fun hrequest => ?_, ?_⟩
  · cases request with
    | addService name => exact change_declines (fun _ _ _ hflag => by cases hflag) hrun hno
    | addOperation service name =>
      exact change_declines (fun _ _ _ hflag => by cases hflag) hrun hno
    | addTransport name => exact change_declines (fun _ _ _ hflag => by cases hflag) hrun hno
    | addParameter node parameter =>
      exact change_declines (fun _ _ _ hflag => by cases hflag) hrun hno
    | declarePhases order => exact change_declines (fun _ _ _ hflag => by cases hflag) hrun hno
    | registerModule module => exact registerModule_declines hrun hno
    | addHandler scope flow link =>
      exact take_declines (fun _ => rfl)
        (fun _ _ hstep => addHandler_error h.coherent.declared_nonempty hstep) hrun hno
    | disengage module scope =>
      refine change_declines (fun removed e hstep hflag => ?_) hrun hno
      cases removed with
      | true => cases hflag
      | false =>
        obtain ⟨-, -, ⟨-, rfl, -⟩ | ⟨htrue, -⟩⟩ := disengage_ok hstep
        · rfl
        · cases htrue
    | _ => cases hrequest
  · rintro module scope rfl
    exact engage_declines hrun hno

/-- What comes of a request in a session that can be reached, as far as it can be checked. -/
theorem exists_performed (settings : EngineSettings) (depth : Nat) (requests : List Request)
    (request : Request) (p : Session → Reply → Session → Prop)
    [∀ s answer t, Decidable (p s answer t)]
    (h : (match (Session.build (nested depth) requests).run (.create .deployed (.empty settings)) with
      | .ok (_, s) =>
        match (perform (nested depth) request).run s with
        | .ok (answer, t) => decide (p s answer t)
        | .error _ => false
      | .error _ => false) = true) :
    ∃ s answer t, Reachable settings s.deployment ∧
      (perform (nested depth) request).run s = .ok (answer, t) ∧ p s answer t := by
  split at h
  · rename_i result s hbuild
    split at h
    · rename_i answer t hrun
      exact ⟨s, answer, t, Later.build (.now _) hbuild, hrun, of_decide_eq_true h⟩
    · cases h
  · cases h

/-- A module whose handlers have no place, with a setup that declares a handler of its own. -/
def strayModule : Module where
  name := "stray"
  handlers _ := [⟨{ name := "stray", phase := "Nowhere" }, .done (.ok .proceed)⟩]
  init _ :=
    .ask (.addHandler .everywhere .inbound
        ⟨{ name := "early", phase := "Dispatch", first := true }, .done (.ok .proceed)⟩) fun _ =>
      .done (.ok ())
  shutdown := .done (.ok ())

/-- The handlers of a module without a place are refused, and what its setup has declared stays;
    a second handler of the same name is refused, and nothing is left of it. -/
theorem refusal_leaves_no_trace_of_stray_module :
    ∃ s answer t verdict,
      (perform (nested 2) (.engage "stray" .everywhere)).run s = .ok (answer, t) ∧
      answer.declines = true ∧ SetsUp (nested 2) "stray" verdict s t ∧
      (t.deployment.contributions rootId .inbound).map Link.name = ["early"] ∧
      ∃ again answer', again.configures = true ∧
        (perform (nested 2) again).run t = .ok (answer', t) ∧ answer'.declines = true := by
  let again : Request := .addHandler .everywhere .inbound
    ⟨{ name := "early", phase := "Dispatch" }, .done (.ok .proceed)⟩
  obtain ⟨s, answer, t, hs, hrun, hno, hbefore, hafter, hagain⟩ :=
    exists_performed {} 2 [.registerModule strayModule] (.engage "stray" .everywhere)
      (fun s answer t => answer.declines = true ∧
        (s.deployment.contributions rootId .inbound).map Link.name = [] ∧
        (t.deployment.contributions rootId .inbound).map Link.name = ["early"] ∧
        (match (perform (nested 2) again).run t with
          | .ok (answer', _) => answer'.declines
          | .error _ => false) = true)
      (by decide +kernel)
  split at hagain
  · rename_i answer' u hrun'
    obtain rfl | ⟨verdict, hsetup⟩ := (hs.refusal_leaves_no_trace hrun hno).2 _ _ rfl
    · cases hbefore.symm.trans hafter
    · have ht : Reachable {} t.deployment := Later.performed hs hrun
      have hsame : u = t := (ht.refusal_leaves_no_trace hrun' hagain).1 rfl
      subst hsame
      exact ⟨s, answer, u, verdict, hrun, hno, hsetup, hafter, again, answer', rfl, hrun', hagain⟩
  · cases hagain

end Deployment

end ExchangePipeline
