/-
  ExchangePipeline/Proofs/Session/Generations.lean
  ================================================
  **The generation is a version stamp.**

  Requests, programs and handlers have their calls, at any depth: those that return
  while they run, told beside the run with their replies (`Told`).  They make up a
  history, and between two moments of a history the generation grows by the number of
  the calls that count as changes.  Where none of them counts, the chains stay
  (`Stamped`).
-/
import ExchangePipeline.Proofs.Session.Telling

namespace ExchangePipeline

open Session

namespace Deployment

variable {settings : EngineSettings} {d : Deployment}

/-- A moment in the life of a deployment that has begun with these settings. -/
def Lived (settings : EngineSettings) (d : Deployment) : Prop :=
  ∃ before, History (.empty settings) before d

theorem Lived.coherent (h : Lived settings d) : d.Coherent := by
  obtain ⟨before, hbefore⟩ := h
  exact (coherent_empty settings).steps hbefore.steps

/-- Whatever requests lead to is such a moment. -/
theorem Reachable.lived (h : Reachable settings d) : Lived settings d := by
  induction h with
  | now => exact ⟨[], .now⟩
  | @performed s t depth request reply _ performs ih =>
    obtain ⟨before, hbefore⟩ := ih
    obtain ⟨inside, hinside, -⟩ :=
      exists_inside (telling_nested depth) (keeping_nested depth) request performs
    exact ⟨_, hbefore.trans hinside⟩
  | initBegun _ registered pending ih =>
    obtain ⟨before, hbefore⟩ := ih
    exact ⟨before, .setupBegins hbefore registered pending⟩

/-- Over a run the generation counts what is called. -/
theorem Lived.stamped {α : Type} {aloud : Teller → Doing α} {s t : Session} {a : α}
    {calls : List (Request × Reply)} (h : Lived settings s.deployment)
    (hcalls : Told aloud s calls a t) : Stamped s.deployment calls t.deployment :=
  hcalls.history.stamped h.coherent

/-- **The generation is a version stamp.**  Requests, programs and handlers have their calls, which
    are told beside the run, and no others; a request comes last of those made on its behalf.  Over
    the run the generation grows, modulo 2^64, by the number of the calls that count as changes.  If
    there are none, every operation that was deployed has the chains that it had, and one that has
    come since has those of its service.

    A moment inside a run is reached by the runs that are over, and by setups that have begun or
    ended.  Each run adds its calls to the history before it, and any two moments with a history
    between them are as the two ends of a run. -/
theorem generation_is_stamp (settings : EngineSettings) :
    (∀ d, Reachable settings d → Lived settings d) ∧
    (∀ depth request s reply t, Lived settings s.deployment →
      (perform (nested depth) request).run s = .ok (reply, t) →
      ∃ inside,
        Told (fun tell => performTelling tell (telling tell depth) request) s
          (inside ++ [(request, reply)]) reply t ∧
        Stamped s.deployment (inside ++ [(request, reply)]) t.deployment) ∧
    (∀ depth procedure s verdict t, Lived settings s.deployment →
      ((nested depth).carryOut procedure).run s = .ok (verdict, t) →
      ∃ calls,
        Told (fun tell => (telling tell depth).carryOut procedure) s calls verdict t ∧
        Stamped s.deployment calls t.deployment) ∧
    (∀ depth link x s result t, Lived settings s.deployment →
      ((nested depth).invoke link x).run s = .ok (result, t) →
      ∃ calls,
        Told (fun tell => (telling tell depth).invoke link x) s calls result t ∧
        Stamped s.deployment calls t.deployment) ∧
    (∀ (α : Type) (aloud : Teller → Doing α) s calls a t, Told aloud s calls a t →
      (∀ others, Told aloud s others a t → others = calls) ∧
      ∀ d before, History d before s.deployment → History d (before ++ calls) t.deployment) ∧
    ∀ d calls e, Lived settings d → History d calls e → Stamped d calls e := by
  refine ⟨fun _ h => h.lived, ?_, ?_, ?_, ?_, fun _ _ _ hlived h => h.stamped hlived.coherent⟩
  · intro depth request s reply t hlived hrun
    obtain ⟨inside, hinside⟩ :=
      told_perform (telling_nested depth) (keeping_nested depth) request hrun
    exact ⟨inside, hinside, hlived.stamped hinside⟩
  · intro depth procedure s verdict t hlived hrun
    obtain ⟨calls, hcalls⟩ := (telling_nested depth).carryOut procedure s verdict t hrun
    exact ⟨calls, hcalls, hlived.stamped hcalls⟩
  · intro depth link x s result t hlived hrun
    obtain ⟨calls, hcalls⟩ := (telling_nested depth).invoke link x s result t hrun
    exact ⟨calls, hcalls, hlived.stamped hcalls⟩
  · intro α aloud s calls a t hcalls
    exact ⟨fun _ hothers => hothers.unique hcalls, fun _ _ hbefore => hbefore.trans hcalls.history⟩

/-- Tells of a call whether it counts. -/
def tellWhether : Teller :=
  fun call => .noted (.shown (.flag (countsAsChange call)))

def whether? : Event → Option Bool
  | .noted (.shown (.flag counts)) => some counts
  | _ => none

/-- Which of the calls of a request count, where it leads from `s` to `t`, as is told beside it. -/
def flagsOf (depth : Nat) (request : Request) (s t : Session) : List Bool :=
  match (performTelling tellWhether (telling tellWhether depth) request).run s with
  | .ok (_, u) => (u.journal.drop t.journal.length).filterMap whether?
  | .error _ => []

theorem flagsOf_eq {depth : Nat} {request : Request} {s t : Session} {reply : Reply}
    {calls : List (Request × Reply)}
    (h : Told (fun tell => performTelling tell (telling tell depth) request) s calls reply t) :
    flagsOf depth request s t = calls.map countsAsChange := by
  have htold := h.told tellWhether []
  rw [after, List.append_nil, List.nil_append] at htold
  rw [flagsOf, htold]
  simp only [after, List.drop_left, List.filterMap_map]
  exact congrFun List.filterMap_eq_map' calls

theorem countP_countsAsChange (calls : List (Request × Reply)) :
    calls.countP countsAsChange = (calls.map countsAsChange).countP id := by
  rw [List.countP_map]
  rfl

/-- A module whose setup only adds things, or asks for changes that are refused or come to
    nothing. -/
def surveyModule : Module where
  name := "survey"
  handlers _ := []
  init _ :=
    .ask (.addOperation "orders" "cancel") fun _ => .ask (.addService "orders") fun _ =>
    .ask (.addTransport "http") fun _ => .ask (.disengage "audit" (.service "orders")) fun _ =>
    .ask (.engage "audit" .everywhere) fun _ => .ask (.declarePhases (.uniform [])) fun _ =>
    .ask (.addHandler (.service "orders") .inbound
        ⟨{ name := "early", phase := "Dispatch" }, .done (.ok .proceed)⟩) fun _ =>
    .ask (.chain "orders" "place" .inbound) fun _ => .done (.ok ())
  shutdown := .done (.ok ())

/-- A module is engaged whose setup declares a handler and resolves a chain: of the three calls two
    count.  And a setup with eight calls of which none counts leaves the chains as they were. -/
theorem generation_is_stamp_orders :
    (∃ s t reply calls,
      (perform (nested 2) (.engage "audit" (.service "orders"))).run s = .ok (reply, t) ∧
      Told (fun tell => performTelling tell (telling tell 2) (.engage "audit" (.service "orders")))
        s calls reply t ∧
      calls.map countsAsChange = [true, false, true] ∧
      t.deployment.generation - s.deployment.generation = 2) ∧
    ∃ s t reply calls,
      (perform (nested 2) (.initModule "survey")).run s = .ok (reply, t) ∧
      Told (fun tell => performTelling tell (telling tell 2) (.initModule "survey"))
        s calls reply t ∧
      calls.length = 9 ∧ s.deployment.KeepsChains t.deployment := by
  obtain ⟨hlived, hstamp, -⟩ := generation_is_stamp {}
  constructor
  · obtain ⟨s, reply, t, hs, hrun, hflags⟩ := exists_performed {} 2
      [.addService "orders", .addOperation "orders" "place", .registerModule auditModule]
      (.engage "audit" (.service "orders"))
      (fun s _ t => flagsOf 2 (.engage "audit" (.service "orders")) s t = [true, false, true])
      (by decide +kernel)
    obtain ⟨inside, htold, hstamped⟩ := hstamp 2 _ s reply t (hlived _ hs) hrun
    rw [flagsOf_eq htold] at hflags
    refine ⟨s, t, reply, _, hrun, htold, hflags, ?_⟩
    rw [hstamped.counts, countP_countsAsChange, hflags]
    rfl
  · obtain ⟨s, reply, t, hs, hrun, hflags⟩ := exists_performed {} 2
      [.addService "orders", .addOperation "orders" "place",
        .addHandler .everywhere .inbound
          ⟨{ name := "early", phase := "Dispatch", first := true }, .done (.ok .proceed)⟩,
        .registerModule surveyModule]
      (.initModule "survey")
      (fun s _ t => flagsOf 2 (.initModule "survey") s t = List.replicate 9 false)
      (by decide +kernel)
    obtain ⟨inside, htold, hstamped⟩ := hstamp 2 _ s reply t (hlived _ hs) hrun
    rw [flagsOf_eq htold] at hflags
    refine ⟨s, t, reply, _, hrun, htold, ?_, hstamped.keepsChains ?_⟩
    · rw [← List.length_map countsAsChange, hflags]
      rfl
    · rw [countP_countsAsChange, hflags]
      rfl

end Deployment

end ExchangePipeline
