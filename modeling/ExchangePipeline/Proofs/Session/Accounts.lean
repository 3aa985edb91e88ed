/-
  ExchangePipeline/Proofs/Session/Accounts.lean
  =============================================
  **Metrics account for every dispatch.**

  A dispatch through the pipeline that is let in counts once by its outcome and once
  as a sample of the time it took, when it is over; one that is turned away counts
  once by what it would have been.  Nothing else is counted.  So the metrics are what
  the journal tells (`Moves.samples_perm`), at every moment, however the dispatches
  stand inside each other; and what an outcome says is true of the exchange that is
  handed back (`Matches`).
-/
import ExchangePipeline.Proofs.Session.Permits
import Mathlib.Algebra.GroupWithZero.Nat

namespace ExchangePipeline

/-- What is counted where an event is told. -/
def Event.metrics : Event → List Metric
  | .left gate _ handed => Session.samplesOf gate handed
  | .turnedAway _ x => [.shed (Session.admissionOf x)]
  | _ => []

namespace Session

variable {source : ChainSource} {deployment : Deployment}
  {flights : List (Gate × Exchange Handler)} {depth : Nat} {gate : Gate} {s t u : Session}
  {x : Exchange Handler} {handed : Dispatched} {events : List Event}

/-! ### What the journal tells of dispatches -/

/-- The exchanges let in at a gate, as they came. -/
def letInAt (gate : Gate) (events : List Event) : List (Exchange Handler) :=
  events.filterMap fun event => match event with
    | .entered other x => if other = gate then some x else none
    | _ => none

/-- The exchanges whose dispatch is over, as they came and with what was handed back. -/
def finishedAt (gate : Gate) (events : List Event) : List (Exchange Handler × Dispatched) :=
  events.filterMap fun event => match event with
    | .left other x handed => if other = gate then some (x, handed) else none
    | _ => none

/-- The exchanges turned away at a gate. -/
def turnedAwayAt (gate : Gate) (events : List Event) : List (Exchange Handler) :=
  events.filterMap fun event => match event with
    | .turnedAway other x => if other = gate then some x else none
    | _ => none

theorem mem_finishedAt : (x, handed) ∈ finishedAt gate events ↔ .left gate x handed ∈ events := by
  rw [finishedAt, List.mem_filterMap]
  constructor
  · rintro ⟨event, hmem, hevent⟩
    cases event with
    | left other y result =>
      dsimp only at hevent
      split at hevent
      · rename_i hgate
        cases hevent
        rw [← hgate]
        exact hmem
      · cases hevent
    | _ => cases hevent
  · intro hmem
    exact ⟨_, hmem, by simp⟩

/-! ### What is counted -/

theorem count_outcome (outcome : DispatchOutcome) (events : List Event) :
    (events.flatMap Event.metrics).count (.outcome outcome) =
      (finishedAt .pipeline events).countP fun finished => outcomeOf finished.2 = outcome := by
  induction events with
  | nil => rfl
  | cons event rest ih =>
    rw [List.flatMap_cons, List.count_append, ih]
    cases event with
    | left gate x handed =>
      cases gate with
      | pipeline =>
        by_cases heq : outcomeOf handed = outcome
        · simp [Event.metrics, samplesOf, finishedAt, heq]
          omega
        · simp [Event.metrics, samplesOf, finishedAt, heq]
      | direct => simp [Event.metrics, samplesOf, finishedAt]
    | _ => simp [Event.metrics, finishedAt]

theorem count_duration (events : List Event) :
    (events.flatMap Event.metrics).count .duration = (finishedAt .pipeline events).length := by
  induction events with
  | nil => rfl
  | cons event rest ih =>
    rw [List.flatMap_cons, List.count_append, ih]
    cases event with
    | left gate x handed =>
      cases gate with
      | pipeline =>
        simp [Event.metrics, samplesOf, finishedAt]
        omega
      | direct => simp [Event.metrics, samplesOf, finishedAt]
    | _ => simp [Event.metrics, finishedAt]

theorem count_shed (admission : Admission) (events : List Event) :
    (events.flatMap Event.metrics).count (.shed admission) =
      (turnedAwayAt .pipeline events).countP (fun x => admissionOf x = admission) +
        (turnedAwayAt .direct events).countP fun x => admissionOf x = admission := by
  induction events with
  | nil => rfl
  | cons event rest ih =>
    rw [List.flatMap_cons, List.count_append, ih]
    cases event with
    | left gate x handed => cases gate <;> simp [Event.metrics, samplesOf, turnedAwayAt]
    | turnedAway gate x =>
      by_cases heq : admissionOf x = admission
      · cases gate <;> simp [Event.metrics, turnedAwayAt, heq] <;> omega
      · cases gate <;> simp [Event.metrics, turnedAwayAt, heq]
    | _ => simp [Event.metrics, turnedAwayAt]

/-- Every dispatch has one outcome. -/
theorem sum_outcomes (finished : List (Exchange Handler × Dispatched)) :
    (DispatchOutcome.all.map fun outcome =>
      finished.countP fun entry => outcomeOf entry.2 = outcome).sum = finished.length := by
  induction finished with
  | nil => rfl
  | cons entry rest ih =>
    rw [List.length_cons, ← ih]
    cases h : outcomeOf entry.2 <;> simp [DispatchOutcome.all, h] <;> omega

theorem sum_admissions (turnedAway : List (Exchange Handler)) :
    turnedAway.countP (fun x => admissionOf x = .new) +
      turnedAway.countP (fun x => admissionOf x = .resume) = turnedAway.length := by
  induction turnedAway with
  | nil => rfl
  | cons x rest ih =>
    rw [List.length_cons, ← ih]
    cases h : admissionOf x <;> simp [h] <;> omega

/-! ### Moves -/

theorem Move.samples_eq (h : Move s t) (hs : s.samples = s.journal.flatMap Event.metrics) :
    t.samples = t.journal.flatMap Event.metrics := by
  cases h with
  | releases gate x handed =>
    have hsamples : (s.release gate x handed).samples = samplesOf gate handed ++ s.samples := rfl
    rw [hsamples, hs]
    rfl
  | @turnsAway gate x full =>
    have hsamples : (s.turnAway gate x).samples = .shed (admissionOf x) :: s.samples := rfl
    rw [hsamples, hs]
    rfl
  | @notes event plain =>
    have hnone : event.metrics = [] := by
      cases event with
      | left => cases plain
      | turnedAway => cases plain
      | _ => rfl
    have hjournal : (s.record event).journal = event :: s.journal := rfl
    rw [hjournal, List.flatMap_cons, hnone]
    exact hs
  | _ => exact hs

/-- **The metrics are what the journal tells.** -/
theorem Moves.samples_perm (h : Moves (.create source deployment) s) :
    s.samples.Perm (s.events.flatMap Event.metrics) := by
  have hs : s.samples = s.journal.flatMap Event.metrics := by
    induction h with
    | refl => rfl
    | tail _ hmove ih => exact hmove.samples_eq ih
  rw [hs, events]
  exact (List.reverse_perm s.journal).symm.flatMap_right _

/-- What a gate has let in, its dispatches that are over, and its free permits. -/
theorem Move.permits_add_letInAt (h : Move s t) (gate : Gate) :
    t.permits gate + (letInAt gate t.journal).length + (finishedAt gate s.journal).length =
      s.permits gate + (letInAt gate s.journal).length + (finishedAt gate t.journal).length := by
  cases h with
  | @admits other free x available =>
    by_cases hgate : other = gate
    · subst hgate
      simp [letIn, record, setPermits, letInAt, finishedAt, available]
      omega
    · simp [letIn, record, setPermits, letInAt, finishedAt, hgate, Ne.symm hgate]
  | releases other x handed =>
    by_cases hgate : other = gate
    · subst hgate
      simp [release, record, setPermits, sample, letInAt, finishedAt]
      omega
    · simp [release, record, setPermits, sample, letInAt, finishedAt, hgate, Ne.symm hgate]
  | @notes event plain =>
    cases event with
    | entered => cases plain
    | left => cases plain
    | _ => rfl
  | _ => rfl

theorem Moves.permits_add_letInAt (h : Moves (.create source deployment) s) (gate : Gate) :
    s.permits gate + (letInAt gate s.events).length =
      deployment.settings.maxConcurrentExchanges.toNat + (finishedAt gate s.events).length := by
  have hs : s.permits gate + (letInAt gate s.journal).length =
      deployment.settings.maxConcurrentExchanges.toNat + (finishedAt gate s.journal).length := by
    induction h with
    | refl => rfl
    | tail _ hmove ih =>
      have hstep := hmove.permits_add_letInAt gate
      omega
  rw [letInAt, finishedAt, events, (List.reverse_perm _).filterMap _ |>.length_eq,
    (List.reverse_perm _).filterMap _ |>.length_eq]
  exact hs

/-! ### Moments -/

theorem Moment.moves (h : Moment source deployment flights s) :
    Moves (.create source deployment) s := by
  induction h with
  | opened => exact .refl
  | @performed _ _ _ depth request _ _ performs ih =>
    exact ih.trans (keeps_perform (keeping_nested depth) request _ _ _ performs).moves
  | @operated _ _ _ depth op x _ _ _ performs ih =>
    have hhost := keeping_host (keeping_nested depth)
    exact ih.trans (keeps_performOn hhost op x _ _ _ performs).moves
  | @dispatched _ _ _ depth gate x _ _ _ dispatches ih =>
    exact ih.trans (keeps_dispatch (keeping_nested depth) gate x _ _ _ dispatches).moves
  | takenOut _ _ ih => exact ih.tail (.files _ _ _ _)
  | filed _ _ _ ih => exact ih.tail (.files _ _ _ _)
  | admitted _ x available ih => exact ih.tail (.admits x available)
  | @walked _ _ _ _ depth _ _ _ _ _ begins turns ih =>
    have hhost := keeping_host (keeping_nested depth)
    exact ih.trans ((hhost.begins begins).trans (hhost.turns turns)).moves
  | invoked _ link unrequested ih => exact ih.tail (.invokes link unrequested)
  | setupBegun _ registered pending ih => exact ih.tail (.beginsSetup registered pending)
  | noted _ plain ih => exact ih.tail (.notes plain)

theorem Moment.orderly (h : Moment source deployment flights s) : s.Orderly := by
  induction h with
  | opened => exact orderly_create source deployment
  | @performed _ _ _ depth request _ _ performs ih =>
    exact (settles_perform depth request _ _ _ performs).orderly ih
  | @operated _ _ _ depth op x _ _ _ performs ih =>
    exact (settles_performOn (settling_nested depth) op x _ _ _ performs).orderly ih
  | @dispatched _ _ _ depth _ _ _ _ atRest dispatches ih =>
    exact (orderly_of_dispatch (settling_nested depth) atRest ih dispatches).1
  | takenOut _ name ih => exact ih.erase name
  | filed _ name atRest ih => exact ih.insert name atRest
  | admitted _ _ _ ih => exact .record (by simp) (ih.congr rfl rfl)
  | @walked _ _ _ _ depth _ _ _ _ _ begins turns ih =>
    have hhost := settling_host (settling_nested depth)
    exact ((hhost.begins begins).trans (hhost.turns turns)).orderly ih
  | invoked _ _ _ ih => exact ih.record (by simp)
  | setupBegun _ _ _ ih => exact .record (by simp) (ih.congr rfl rfl)
  | noted _ plain ih => exact (Settles.note plain).orderly ih

/-- The end of the walk is a moment of the dispatch. -/
theorem Moment.startsOrResumes {driven : Driven Handler} (h : Moment source deployment flights s)
    (hrun : (startOrResume (nested depth) x).run s = .ok (driven, t)) :
    Moment source deployment flights t := by
  obtain ⟨call, hcall⟩ : ∃ call : Call Handler,
      (call.perform (host (nested depth)) x).run s = .ok (driven, t) := by
    unfold startOrResume at hrun
    split at hrun
    · exact ⟨.resume, hrun⟩
    · exact ⟨.run, hrun⟩
  by_cases hallowed : call.AllowedIn x.state
  · obtain ⟨first, u, -, hbegins, hturns⟩ :=
      (steady_host depth).perform_turns trivial hallowed hcall
    exact .walked h hbegins hturns
  · rw [call.perform_of_not_allowed _ hallowed] at hcall
    cases hcall
    exact h

/-- **Metrics account for every dispatch.**  At every moment what has been counted for outcomes and
    for samples of the time are the dispatches through the pipeline that are over, and with those
    under way they are all that were let in.  What has been counted as shed are the exchanges turned
    away, by this pipeline and at the other gate.  Each dispatch counts once, where the driving call
    behind the gate has come to its end, and its outcome is true of the exchange handed back. -/
theorem Moment.metrics_account (h : Moment source deployment flights s) :
    (DispatchOutcome.all.map fun outcome => s.samples.count (.outcome outcome)).sum =
      s.samples.count .duration ∧
    (letInAt .pipeline s.events).length = s.samples.count .duration + inFlight flights .pipeline ∧
    (∀ outcome, s.samples.count (.outcome outcome) =
      (finishedAt .pipeline s.events).countP fun finished => outcomeOf finished.2 = outcome) ∧
    (∀ x handed, (x, handed) ∈ finishedAt .pipeline s.events → Matches x handed) ∧
    s.samples.count (.outcome .overloaded) = 0 ∧
    s.samples.count (.shed .new) + s.samples.count (.shed .resume) =
      (turnedAwayAt .pipeline s.events).length + (turnedAwayAt .direct s.events).length ∧
    (∀ admission, s.samples.count (.shed admission) =
      (turnedAwayAt .pipeline s.events).countP (fun x => admissionOf x = admission) +
        (turnedAwayAt .direct s.events).countP fun x => admissionOf x = admission) ∧
    ∀ depth x handed t, x.state ≠ .running →
      (dispatch (nested depth) .pipeline x).run s = .ok (handed, t) →
      (s.permits .pipeline = 0 ∧ handed = (.error .overloaded, x) ∧
        t.samples = .shed (if x.state = .paused then .resume else .new) :: s.samples) ∨
        ∃ free driven u, s.permits .pipeline = free + 1 ∧
          (startOrResume (nested depth) x).run (s.letIn .pipeline free x) = .ok (driven, u) ∧
          handed = (driven.1.mapError .failed, driven.2) ∧
          Moment source deployment ((.pipeline, x) :: flights) u ∧
          t.samples = .outcome (outcomeOf handed) :: .duration :: u.samples ∧
          Matches x handed := by
  have hperm := h.moves.samples_perm
  have houtcomes : ∀ outcome, s.samples.count (.outcome outcome) =
      (finishedAt .pipeline s.events).countP fun finished => outcomeOf finished.2 = outcome :=
    fun outcome => (hperm.count_eq _).trans (count_outcome outcome _)
  have hdurations : s.samples.count .duration = (finishedAt .pipeline s.events).length :=
    (hperm.count_eq _).trans (count_duration _)
  have hmatched : ∀ x handed, (x, handed) ∈ finishedAt .pipeline s.events → Matches x handed := by
    intro x handed hmem
    exact h.orderly.matched _ x handed (List.mem_reverse.1 (mem_finishedAt.1 hmem))
  have hsheds : ∀ admission, s.samples.count (.shed admission) =
      (turnedAwayAt .pipeline s.events).countP (fun x => admissionOf x = admission) +
        (turnedAwayAt .direct s.events).countP fun x => admissionOf x = admission :=
    fun admission => (hperm.count_eq _).trans (count_shed admission _)
  refine ⟨?_, ?_, houtcomes, hmatched, ?_, ?_, hsheds, ?_⟩
  · simp only [houtcomes, hdurations]
    exact sum_outcomes _
  · have hmoves := h.moves.permits_add_letInAt .pipeline
    have hflights := h.permits_add_inFlight .pipeline
    omega
  · rw [houtcomes, List.countP_eq_zero]
    rintro ⟨x, handed⟩ hmem
    simpa using (hmatched x handed hmem).overloaded
  · rw [hsheds, hsheds, ← sum_admissions, ← sum_admissions]
    omega
  · intro depth x handed t hx hrun
    rcases dispatch_cases hrun with ⟨hfull, hhanded, rfl⟩ | ⟨free, driven, u, hfree, hdriven, rfl, rfl⟩
    · exact Or.inl ⟨hfull, hhanded, rfl⟩
    · obtain ⟨-, hmatches⟩ := matches_of_startOrResume hx hdriven
      have hmoment := (h.admitted x hfree).startsOrResumes hdriven
      exact Or.inr ⟨free, driven, u, hfree, hdriven, rfl, hmoment, rfl, hmatches⟩

/-- Exchanges that all have another one dispatched on their way. -/
def crowding : ChainSource :=
  .fixed (.uniform ["Dispatch"]) [(.inbound, [⟨{ name := "crowd", phase := "Dispatch" },
    .ask (.request (.dispatch .pipeline "second")) fun _ => .done (.ok .proceed)⟩])]

/-- Where one exchange may be under way at once, the other one is turned away from inside its
    handler and counts as shed; the one that was let in counts as completed, and is. -/
theorem metrics_account_of_crowding_exchange :
    ∃ s x handed, Moment crowding (.empty { maxConcurrentExchanges := 1 }) [] s ∧
      (letInAt .pipeline s.events).length = 1 ∧ s.samples.count .duration = 1 ∧
      s.samples.count (.shed .new) = 1 ∧ s.samples.count (.outcome .completed) = 1 ∧
      (x, handed) ∈ finishedAt .pipeline s.events ∧ x.state ≠ .completed ∧
      handed.2.state = .completed := by
  obtain ⟨s, hmoment, hsamples⟩ := exists_moment crowding (.empty { maxConcurrentExchanges := 1 })
    2 [.open "first" "orders" "place" .inbound none none,
      .open "second" "orders" "place" .inbound none none, .dispatch .pipeline "first"]
    (fun s => s.samples = [.outcome .completed, .duration, .shed .new]) (by decide +kernel)
  obtain ⟨-, hletIn, houtcomes, hmatched, -⟩ := hmoment.metrics_account
  have hcompleted : s.samples.count (.outcome .completed) = 1 := by rw [hsamples]; rfl
  have hduration : s.samples.count .duration = 1 := by rw [hsamples]; rfl
  have hpos : 0 < (finishedAt .pipeline s.events).countP fun finished =>
      outcomeOf finished.2 = .completed := by
    rw [← houtcomes, hcompleted]
    exact Nat.one_pos
  obtain ⟨⟨x, handed⟩, hmem, houtcome⟩ := List.countP_pos_iff.1 hpos
  obtain ⟨hbefore, hafter, -⟩ := (hmatched x handed hmem).completed.1 (by simpa using houtcome)
  exact ⟨s, x, handed, hmoment, by rw [hletIn, hduration]; rfl, hduration, by rw [hsamples]; rfl,
    hcompleted, hmem, hbefore, hafter⟩

end Session

end ExchangePipeline
