/-
  ExchangePipeline/Proofs/Walk/Pauses.lean
  ========================================
  **Pauses do not matter.**

  Take two hosts whose handlers do the same, but those of one never ask for a
  pause (`Calms`).  An exchange that is resumed whenever it is paused comes, with
  the first, to what it comes to with the second in one call: the handlers are
  invoked in the same order on the same exchanges, and result, exchange and state
  of the host are the same (`pauses_are_transparent`).

  The two walks are compared handler by handler (`Alike`).  Where one is suspended
  it is resumed at the handler where the other one is.  Which diversions are still
  allowed for may then differ, but as many remain as are needed.
-/
import ExchangePipeline.Proofs.Walk.Hosts

namespace ExchangePipeline

variable {σ α γ β : Type}

/-! ### Two families of handlers -/

/-- The outcome without a request for a pause. -/
def Outcome.calm (outcome : Outcome) : Outcome :=
  outcome.map fun _ => .proceed

/-- The exchange without a request for a pause. -/
def Exchange.calm (x : Exchange β) : Exchange β :=
  { x with paused := false }

/-- What a handler leaves, without a request for a pause. -/
def calmedResult (result : Outcome × Exchange β) : Outcome × Exchange β :=
  (result.1.calm, result.2.calm)

/-- The second host is the first one, but that its handlers never ask for a pause. -/
structure Calms (Good : σ → Prop) (pausing calm : Host σ β) : Prop where
  chainFor : calm.chainFor = pausing.chainFor
  cancelRequested : calm.cancelRequested = pausing.cancelRequested
  invoke : ∀ link x s, Good s → x.state = .running → x.paused = false →
    (calm.invoke link x).run s = ((pausing.invoke link x).run s).map
      fun result => (calmedResult result.1, result.2)

/-- A host whose handlers' requests for a pause are dropped. -/
def Host.calmed (host : Host σ β) : Host σ β :=
  { host with invoke := fun link x => do return calmedResult (← host.invoke link x) }

theorem Host.calms_calmed (Good : σ → Prop) (host : Host σ β) : Calms Good host host.calmed where
  chainFor := rfl
  cancelRequested := rfl
  invoke link x s _ _ _ := by
    have hrun : (host.calmed.invoke link x).run s =
        (host.invoke link x).run s >>= fun result => pure (calmedResult result.1, result.2) := rfl
    rw [hrun]
    cases (host.invoke link x).run s <;> rfl

/-- Goes on with an exchange as long as it is paused, up to so many times. -/
def Host.resumeWhilePaused (host : Host σ β) : Nat → Driven β → Act σ (Driven β)
  | resumes + 1, (.ok .paused, x) => do host.resumeWhilePaused resumes (← host.resume x)
  | _, driven => pure driven

/-- A call, after which the exchange is resumed as long as it is paused, up to so many times. -/
def Call.throughPauses (host : Host σ β) (resumes : Nat) (call : Call β) (x : Exchange β) :
    Act σ (Driven β) := do
  host.resumeWhilePaused resumes (← call.perform host x)

/-! ### Computations compared -/

/-- Resumed often enough, the first computation comes to what the second comes to at once. -/
structure Alike (host : Host σ β) (act calm : Act σ (Driven β)) (s : σ) : Prop where
  settles : ∃ k, ∀ m, k ≤ m → (act >>= host.resumeWhilePaused m).run s = calm.run s
  final : ∀ d t, calm.run s = .ok (d, t) → d.1 ≠ .ok .paused

namespace Alike

variable {host : Host σ β} {s : σ}

theorem pure (d : Driven β) (hd : d.1 ≠ .ok .paused) : Alike host (pure d) (pure d) s := by
  refine ⟨⟨0, fun m _ => ?_⟩, ?_⟩
  · rw [pure_bind]
    obtain ⟨result, x⟩ := d
    cases m with
    | zero => rfl
    | succ m =>
      cases result with
      | error error => rfl
      | ok status =>
        cases status with
        | completed => rfl
        | paused => exact absurd rfl hd
  · intro d' t h
    cases h
    exact hd

/-- What is suspended is resumed. -/
theorem resume {x : Exchange β} {calm : Act σ (Driven β)} (h : Alike host (host.resume x) calm s) :
    Alike host (Pure.pure (.ok .paused, x)) calm s := by
  obtain ⟨⟨k, hk⟩, hfinal⟩ := h
  refine ⟨⟨k + 1, fun m hm => ?_⟩, hfinal⟩
  obtain ⟨m, rfl⟩ : ∃ n, m = n + 1 := ⟨m - 1, by omega⟩
  rw [pure_bind]
  exact hk m (by omega)

/-- Two computations that begin in the same way are compared behind that. -/
theorem bind {act : Act σ α} {act' : Act σ γ} {g : α → γ} {f : α → Act σ (Driven β)}
    {f' : γ → Act σ (Driven β)}
    (hact : act'.run s = (act.run s).map fun result => (g result.1, result.2))
    (hf : ∀ a t, act.run s = .ok (a, t) → Alike host (f a) (f' (g a)) t) :
    Alike host (act >>= f) (act' >>= f') s := by
  cases hrun : act.run s with
  | error halt =>
    rw [hrun] at hact
    refine ⟨⟨0, fun m _ => ?_⟩, ?_⟩
    · rw [bind_assoc, StateT.run_bind, StateT.run_bind, hrun, hact]
      rfl
    · intro d t h
      rw [StateT.run_bind, hact] at h
      cases h
  | ok result =>
    rw [hrun] at hact
    obtain ⟨⟨k, hk⟩, hfinal⟩ := hf result.1 result.2 hrun
    refine ⟨⟨k, fun m hm => ?_⟩, ?_⟩
    · rw [bind_assoc, StateT.run_bind, StateT.run_bind, hrun, hact]
      exact hk m hm
    · intro d t h
      rw [StateT.run_bind, hact] at h
      exact hfinal d t h

/-- Two computations that begin with the same one are compared behind that. -/
theorem bind_same {act : Act σ α} {f f' : α → Act σ (Driven β)}
    (hf : ∀ a t, act.run s = .ok (a, t) → Alike host (f a) (f' a) t) :
    Alike host (act >>= f) (act >>= f') s := by
  refine bind ?_ hf
  cases act.run s <;> rfl

theorem get_bind {f f' : σ → Act σ (Driven β)} (h : Alike host (f s) (f' s) s) :
    Alike host (get >>= f) (get >>= f') s :=
  ⟨h.settles, h.final⟩

end Alike

/-! ### Walks compared -/

/-- The diversions that must be allowed for in a flow. -/
def Flow.diversions (flow : Flow) : Nat :=
  if flow.isFault then 1 else 2

variable {Good : σ → Prop} {pausing calm : Host σ β} {x y : Exchange β} {s : σ}

theorem Flow.diversions_pos (flow : Flow) : 0 < flow.diversions := by
  cases flow <;> decide

theorem Flow.diversions_le (flow : Flow) : flow.diversions ≤ Host.diversions := by
  cases flow <;> decide

/-- A diversion leaves one less to be allowed for. -/
theorem Flow.diversions_faultFlow {flow : Flow} (h : flow.isFault = false) :
    flow.faultFlow.diversions + 1 = flow.diversions := by
  rw [Flow.diversions, Flow.diversions, if_pos flow.isFault_faultFlow, if_neg (by simp [h])]

/-- An exchange that is suspended and resumed goes on as if it had not been suspended. -/
theorem Host.resume_suspend (host : Host σ β) (hx : x.state = .running) {rest : List (Link β)}
    (hrest : x.remaining = rest) :
    host.resume x.suspend = host.walkAlong (host.faultWithin diversions) rest x.calm := by
  have hback : x.suspend.unpause = x.calm := by
    simp only [Exchange.suspend, Exchange.unpause, Exchange.calm, ← hx]
  have hresume : host.resume x.suspend = host.walk x.suspend.unpause := if_pos rfl
  rw [hresume, hback, ← hrest]
  rfl

/-- What comes of a fault in a flow is the same, up to pauses. -/
def FaultsAlike (Good : σ → Prop) (pausing calm : Host σ β) (flow : Flow) : Prop :=
  ∀ (n n' : Nat) (link : Link β) (fault : Fault) (x : Exchange β) (s : σ), flow.diversions ≤ n →
    flow.diversions ≤ n' → Good s →
    Alike pausing (pausing.faultWithin n link flow fault x)
      (calm.faultWithin n' link flow fault x.calm) s

/-- One handler after the other. -/
theorem Calms.walkAlong (hcalm : Calms Good pausing calm) (h : pausing.Lawful Good) {flow : Flow}
    (hf : FaultsAlike Good pausing calm flow) {n n' : Nat} (hn : flow.diversions ≤ n)
    (hn' : flow.diversions ≤ n') {rest : List (Link β)} (hrest : x.remaining = rest)
    (hflow : x.activeFlow = flow) (hx : x.state = .running) (hpaused : x.paused = false)
    (hs : Good s) :
    Alike pausing (pausing.walkAlong (pausing.faultWithin n) rest x)
      (calm.walkAlong (calm.faultWithin n') rest x) s := by
  induction rest generalizing x s n n' with
  | nil =>
    unfold Host.walkAlong
    refine Alike.get_bind ?_
    rw [hcalm.cancelRequested]
    split
    · exact Alike.pure _ (by simp)
    · exact Alike.pure _ (by simp)
  | cons link rest ih =>
    unfold Host.walkAlong
    refine Alike.get_bind ?_
    rw [hcalm.cancelRequested]
    split
    · exact Alike.pure _ (by simp)
    refine Alike.bind (hcalm.invoke link x s hs hx hpaused) ?_
    rintro ⟨outcome, y⟩ t hinvoke
    obtain ⟨ht, hy⟩ := h.invoke hs hx hinvoke
    have hrunning : (y.moveTo (x.cursor + 1)).state = .running := hy.state_eq.trans hx
    have hgoes : ∀ {m : Nat}, flow.diversions ≤ m →
        Alike pausing (pausing.walkAlong (pausing.faultWithin m) rest (y.moveTo (x.cursor + 1)).calm)
          (calm.walkAlong (calm.faultWithin n') rest (y.moveTo (x.cursor + 1)).calm) t :=
      fun hm => ih hm hn' (hy.remaining_next hrest) (hy.activeFlow_eq.trans hflow) hrunning rfl ht
    cases outcome with
    | error fault =>
      rw [hflow]
      exact hf n n' link fault _ t hn hn' ht
    | ok response =>
      have hquiet : ¬ (Response.proceed = .pause ∨
          (y.calm.moveTo (x.cursor + 1)).paused = true) := by
        simp [Exchange.calm, Exchange.moveTo]
      change Alike pausing _ (if Response.proceed = .pause ∨
          (y.calm.moveTo (x.cursor + 1)).paused = true then
        pure (.ok .paused, (y.calm.moveTo (x.cursor + 1)).suspend)
        else calm.walkAlong (calm.faultWithin n') rest (y.calm.moveTo (x.cursor + 1))) t
      rw [if_neg hquiet]
      dsimp only
      split
      · -- the walk is suspended, and resumed at the handler where the other one is
        refine Alike.resume ?_
        rw [pausing.resume_suspend hrunning (hy.remaining_next hrest)]
        exact hgoes flow.diversions_le
      · rename_i hgoing
        have hsame : (y.moveTo (x.cursor + 1)).calm = y.moveTo (x.cursor + 1) := by
          have hflag : y.paused = false := by
            cases hy : y.paused with
            | false => rfl
            | true => exact absurd (Or.inr hy) hgoing
          simp only [Exchange.calm, Exchange.moveTo, ← hflag]
        rw [← hsame]
        exact hgoes hn

/-- A fault in a flow: final in a fault flow, a diversion elsewhere. -/
theorem Calms.faultsAlike (hcalm : Calms Good pausing calm) (h : pausing.Lawful Good)
    (flow : Flow) : FaultsAlike Good pausing calm flow := by
  have hfinal : ∀ flow : Flow, flow.isFault = true → FaultsAlike Good pausing calm flow := by
    intro flow hflow n n' link fault x s hn hn' hs
    obtain ⟨n, rfl⟩ : ∃ k, n = k + 1 := ⟨n - 1, by have := flow.diversions_pos; omega⟩
    obtain ⟨n', rfl⟩ : ∃ k, n' = k + 1 := ⟨n' - 1, by have := flow.diversions_pos; omega⟩
    simp only [Host.faultWithin, if_pos hflow]
    exact Alike.pure _ (by simp)
  by_cases hflow : flow.isFault = true
  · exact hfinal flow hflow
  intro n n' link fault x s hn hn' hs
  have htwo : flow.diversions = 2 := if_neg hflow
  obtain ⟨n, rfl⟩ : ∃ k, n = k + 1 := ⟨n - 1, by omega⟩
  obtain ⟨n', rfl⟩ : ∃ k, n' = k + 1 := ⟨n' - 1, by omega⟩
  simp only [Host.faultWithin, if_neg hflow, hcalm.chainFor]
  refine Alike.bind_same ?_
  rintro (error | chain) t hanswer
  · exact Alike.pure _ (by simp)
  obtain ⟨ht, hchain⟩ := h.chainFor hs hanswer
  have hfault : chain.flow.isFault = true := by
    rw [hchain chain rfl]
    exact flow.isFault_faultFlow
  have hone : chain.flow.diversions = 1 := if_pos hfault
  exact hcalm.walkAlong h (hfinal _ hfault) (by omega) (by omega) rfl rfl rfl rfl ht

theorem Calms.walk (hcalm : Calms Good pausing calm) (h : pausing.Lawful Good)
    (hx : x.state = .running) (hpaused : x.paused = false) (hs : Good s) :
    Alike pausing (pausing.walk x) (calm.walk x) s :=
  hcalm.walkAlong h (hcalm.faultsAlike h _) (Flow.diversions_le _) (Flow.diversions_le _) rfl rfl hx
    hpaused hs

theorem Calms.runChain (hcalm : Calms Good pausing calm) (h : pausing.Lawful Good)
    (chain : Chain β) (x : Exchange β) (hs : Good s) :
    Alike pausing (pausing.runChain chain x) (calm.runChain chain x) s := by
  unfold Host.runChain
  split
  · exact hcalm.walk h rfl rfl hs
  · exact Alike.pure _ (by simp)

theorem Calms.perform (hcalm : Calms Good pausing calm) (h : pausing.Lawful Good)
    (call : Call β) (x : Exchange β) (hs : Good s) :
    Alike pausing (call.perform pausing x) (call.perform calm x) s := by
  cases call with
  | run =>
    simp only [Call.perform, Host.run, hcalm.chainFor]
    split
    · refine Alike.bind_same ?_
      rintro (error | chain) t hanswer
      · exact Alike.pure _ (by simp)
      · exact hcalm.runChain h chain x (h.chainFor hs hanswer).1
    · exact Alike.pure _ (by simp)
  | runChain chain => exact hcalm.runChain h chain x hs
  | resume =>
    simp only [Call.perform, Host.resume]
    split
    · exact hcalm.walk h rfl rfl hs
    · exact Alike.pure _ (by simp)

/-! ### Pauses -/

/-- Writes down which handlers are invoked, and on what. -/
def invocations : Observer β (Link β × Exchange β) where
  answered _ _ _ _ := []
  invoked link x _ := [(link, x)]

theorem Calms.observed (hcalm : Calms Good pausing calm) :
    Calms (fun p => Good p.2) (pausing.observed invocations) (calm.observed invocations) where
  chainFor := by
    unfold Host.observed
    rw [hcalm.chainFor]
  cancelRequested := by
    unfold Host.observed
    rw [hcalm.cancelRequested]
  invoke link x p hp hx hpaused := by
    have hrun : ∀ host : Host σ β, ((host.observed invocations).invoke link x).run p =
        ((host.invoke link x).run p.2).map fun result =>
          (result.1, p.1 ++ [(link, x)], result.2) := fun _ => rfl
    rw [hrun, hrun, hcalm.invoke link x p.2 hp hx hpaused]
    cases (pausing.invoke link x).run p.2 <;> rfl

/-- **Pauses do not matter.**  An exchange that is resumed as often as it is paused comes to what it
    comes to in one call if nobody asks for a pause: with the same result, which is not that it is
    paused, as the same exchange, in the same state of the host, and after the same invocations. -/
theorem pauses_are_transparent (h : pausing.Lawful Good) (hcalm : Calms Good pausing calm)
    (call : Call β) (x : Exchange β) (hs : Good s) (log : List (Link β × Exchange β)) :
    (∃ k, ∀ m, k ≤ m →
      (call.throughPauses (pausing.observed invocations) m x).run (log, s) =
        (call.perform (calm.observed invocations) x).run (log, s)) ∧
    ∀ driven p, (call.perform (calm.observed invocations) x).run (log, s) = .ok (driven, p) →
      driven.1 ≠ .ok .paused :=
  have halike : Alike (pausing.observed invocations) (call.perform (pausing.observed invocations) x)
      (call.perform (calm.observed invocations) x) (log, s) :=
    hcalm.observed.perform (h.observed invocations) call x hs
  ⟨halike.settles, halike.final⟩

/-- An order that is paused at its first handler, and again in its fault chain, comes to what an
    order comes to that is never paused. -/
theorem pauses_are_transparent_to_refund :
    let order : Exchange (Outcome × Bool) := .create 0 "orders" "place" .inbound none none
    (∃ x, ((scripted orderLinks).run order).run () = .ok ((.ok .paused, x), ())) ∧
    ∃ k driven p, driven.1 = .ok .completed ∧
      p.1.map (fun invocation => invocation.1.name) = ["check", "charge", "refund", "report"] ∧
      (Call.run.perform ((scripted orderLinks).calmed.observed invocations) order).run ([], ()) =
        .ok (driven, p) ∧
      ∀ m, k ≤ m →
        (Call.run.throughPauses ((scripted orderLinks).observed invocations) m order).run ([], ()) =
          .ok (driven, p) := by
  intro order
  obtain ⟨⟨k, hk⟩, -⟩ := pauses_are_transparent (lawful_scripted orderLinks)
    ((scripted orderLinks).calms_calmed _) .run order trivial []
  refine ⟨⟨_, rfl⟩, k, _, _, ?_, ?_, rfl, fun m hm => (hk m hm).trans rfl⟩
  · rfl
  · decide +kernel

end ExchangePipeline
