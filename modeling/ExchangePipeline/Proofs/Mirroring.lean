/-
  ExchangePipeline/Proofs/Mirroring.lean
  ======================================
  **Computations that differ in what is left out of their states.**

  A computation on a richer state mirrors one on a poorer state, if leaving something
  out before or after it comes to the same.  This goes through sequences, as long as
  what is looked at is not among what is left out; so programs mirror each other if
  their requests do, and walks if their hosts do.
-/
import ExchangePipeline.Walk
import ExchangePipeline.Program

namespace ExchangePipeline

variable {σ τ α β γ : Type}

/-- A computation mirrors another one if both do the same up to what `drop` leaves out. -/
def Mirrors (drop : τ → σ) (rich : Act τ α) (poor : Act σ α) : Prop :=
  ∀ p, (rich.run p).map (fun result => (result.1, drop result.2)) = poor.run (drop p)

variable {drop : τ → σ} {rich : Act τ α} {poor : Act σ α}

/-- What computations on a richer state come to, from what they come to on the poorer one. -/
theorem Mirrors.exists_ok (h : Mirrors drop rich poor) {p : τ} {a : α} {t : σ}
    (hrun : poor.run (drop p) = .ok (a, t)) : ∃ q, rich.run p = .ok (a, q) ∧ drop q = t := by
  have hsame := (h p).trans hrun
  cases hrich : rich.run p with
  | error halt =>
    rw [hrich] at hsame
    cases hsame
  | ok result =>
    obtain ⟨a', q⟩ := result
    rw [hrich] at hsame
    cases hsame
    exact ⟨q, rfl, rfl⟩

/-! ### Sequences -/

theorem Mirrors.pure (drop : τ → σ) (a : α) : Mirrors drop (pure a) (pure a) :=
  fun _ => rfl

theorem Mirrors.throw (drop : τ → σ) (halt : Halt) :
    Mirrors drop (throw halt : Act τ α) (throw halt) :=
  fun _ => rfl

theorem Mirrors.bind {f : α → Act τ γ} {g : α → Act σ γ} (h : Mirrors drop rich poor)
    (hf : ∀ a, Mirrors drop (f a) (g a)) : Mirrors drop (rich >>= f) (poor >>= g) := by
  intro p
  rw [StateT.run_bind, StateT.run_bind, ← h p]
  cases rich.run p with
  | error halt => rfl
  | ok result => exact hf result.1 result.2

theorem Mirrors.ite {c : Prop} [Decidable c] {rich' : Act τ α} {poor' : Act σ α}
    (h : Mirrors drop rich poor) (h' : Mirrors drop rich' poor') :
    Mirrors drop (if c then rich else rich') (if c then poor else poor') := by
  split
  · exact h
  · exact h'

/-- Whatever depends on the state must not depend on what is left out. -/
theorem Mirrors.get_bind {f : τ → Act τ γ} {g : σ → Act σ γ}
    (hf : ∀ p, Mirrors drop (f p) (g (drop p))) : Mirrors drop (get >>= f) (get >>= g) :=
  fun p => hf p p

theorem Mirrors.modify {f : τ → τ} {g : σ → σ} (h : ∀ p, drop (f p) = g (drop p)) :
    Mirrors drop (modify f : Act τ Unit) (modify g) := by
  intro p
  exact congrArg (fun s => Except.ok ((), s)) (h p)

theorem Mirrors.set {p : τ} {s : σ} (h : drop p = s) :
    Mirrors drop (set p : Act τ PUnit) (set s) := by
  intro _
  exact congrArg (fun s => Except.ok (PUnit.unit, s)) h

/-! ### Programs -/

variable {ρ θ : Type}

theorem Mirrors.program {perform : ρ → Act τ θ} {perform' : ρ → Act σ θ}
    (h : ∀ request, Mirrors drop (perform request) (perform' request)) (p : Program ρ θ α) :
    Mirrors drop (p.run perform) (p.run perform') := by
  induction p with
  | done a => exact Mirrors.pure drop a
  | ask request next ih => exact Mirrors.bind (h request) ih

/-- Programs with a state of their own, which both see. -/
theorem Mirrors.program_beside {ξ : Type} {perform : ρ → StateT ξ (Act τ) θ}
    {perform' : ρ → StateT ξ (Act σ) θ}
    (h : ∀ request x, Mirrors drop ((perform request).run x) ((perform' request).run x))
    (p : Program ρ θ α) (x : ξ) :
    Mirrors drop ((p.run perform).run x) ((p.run perform').run x) := by
  induction p generalizing x with
  | done a => exact Mirrors.pure drop (a, x)
  | ask request next ih =>
    rw [Program.run_ask, Program.run_ask, StateT.run_bind, StateT.run_bind]
    exact Mirrors.bind (h request x) fun result => ih result.1 result.2

/-! ### Walks -/

namespace Host

/-- A host mirrors another one if all that it does for a walk mirrors what the other does. -/
structure Mirror (drop : τ → σ) (rich : Host τ β) (poor : Host σ β) : Prop where
  chainFor : ∀ service operation flow, Mirrors drop
    (rich.chainFor service operation flow) (poor.chainFor service operation flow)
  invoke : ∀ link x, Mirrors drop (rich.invoke link x) (poor.invoke link x)
  cancelRequested : ∀ id p, rich.cancelRequested id p = poor.cancelRequested id (drop p)
  requestCancel : ∀ id p, drop (rich.requestCancel id p) = poor.requestCancel id (drop p)

variable {rich : Host τ β} {poor : Host σ β}

theorem Mirror.walkAlong (h : rich.Mirror drop poor) {onFault : OnFault τ β}
    {onFault' : OnFault σ β}
    (hf : ∀ link flow fault x, Mirrors drop (onFault link flow fault x)
      (onFault' link flow fault x)) (rest : List (Link β)) (x : Exchange β) :
    Mirrors drop (rich.walkAlong onFault rest x)
      (poor.walkAlong onFault' rest x) := by
  induction rest generalizing x with
  | nil =>
    simp only [Host.walkAlong]
    refine .get_bind fun p => ?_
    rw [h.cancelRequested]
    exact .ite (.pure _ _) (.pure _ _)
  | cons link rest ih =>
    simp only [Host.walkAlong]
    refine .get_bind fun p => ?_
    rw [h.cancelRequested]
    refine .ite (.pure _ _) (.bind (h.invoke link x) ?_)
    rintro ⟨fault | response, y⟩
    · exact hf _ _ _ _
    · exact .ite (.pure _ _) (ih _)

theorem Mirror.faultWithin (h : rich.Mirror drop poor) (diversions : Nat) (link : Link β)
    (flow : Flow) (fault : Fault) (x : Exchange β) :
    Mirrors drop (rich.faultWithin diversions link flow fault x)
      (poor.faultWithin diversions link flow fault x) := by
  induction diversions generalizing link flow fault x with
  | zero => exact .throw _ _
  | succ diversions ih =>
    simp only [Host.faultWithin]
    refine .ite (.pure _ _) (.bind (h.chainFor _ _ _) ?_)
    rintro (error | chain)
    · exact .pure _ _
    · exact h.walkAlong ih _ _

theorem Mirror.walk (h : rich.Mirror drop poor) (x : Exchange β) :
    Mirrors drop (rich.walk x) (poor.walk x) :=
  h.walkAlong (h.faultWithin _) _ _

theorem Mirror.runChain (h : rich.Mirror drop poor) (chain : Chain β) (x : Exchange β) :
    Mirrors drop (rich.runChain chain x) (poor.runChain chain x) :=
  .ite (h.walk _) (.pure _ _)

theorem Mirror.run (h : rich.Mirror drop poor) (x : Exchange β) :
    Mirrors drop (rich.run x) (poor.run x) := by
  refine .ite (.bind (h.chainFor _ _ _) ?_) (.pure _ _)
  rintro (error | chain)
  · exact .pure _ _
  · exact h.runChain _ _

theorem Mirror.resume (h : rich.Mirror drop poor) (x : Exchange β) :
    Mirrors drop (rich.resume x) (poor.resume x) :=
  .ite (h.walk _) (.pure _ _)

theorem Mirror.cancel (h : rich.Mirror drop poor) (x : Exchange β) :
    Mirrors drop (rich.cancel x) (poor.cancel x) :=
  .ite (.bind (.modify (h.requestCancel x.id)) fun _ => .pure _ _) (.pure _ _)

end Host

end ExchangePipeline
