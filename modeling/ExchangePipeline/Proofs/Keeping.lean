/-
  ExchangePipeline/Proofs/Keeping.lean
  ====================================
  **What computations keep.**

  A computation on a state keeps a relation if the state it ends in is always
  related to the one it began in.  For a reflexive and transitive relation this
  can be read off the parts of the computation: whatever runs in sequence keeps
  what each piece keeps, so a program keeps what the requests keep that it makes,
  and a walk keeps what its host keeps.
-/
import ExchangePipeline.Walk
import ExchangePipeline.Program
import Mathlib.Order.Defs.Unbundled

namespace ExchangePipeline

variable {σ α β : Type}

/-- What a sequence of two computations gives comes out of both. -/
theorem run_bind_ok {x : Act σ α} {f : α → Act σ β} {s u : σ} {b : β} :
    (x >>= f).run s = .ok (b, u) ↔
      ∃ a t, x.run s = .ok (a, t) ∧ (f a).run t = .ok (b, u) := by
  rw [StateT.run_bind]
  cases hx : x.run s with
  | error halt =>
    constructor
    · intro h
      cases h
    · rintro ⟨a, t, h, -⟩
      cases h
  | ok result =>
    obtain ⟨a, t⟩ := result
    constructor
    · intro h
      exact ⟨a, t, rfl, h⟩
    · rintro ⟨a', t', h, hf⟩
      cases h
      exact hf

/-- A sequence gives no result because one of the two gives none. -/
theorem run_bind_error {x : Act σ α} {f : α → Act σ β} {s : σ} {halt : Halt} :
    (x >>= f).run s = .error halt ↔
      x.run s = .error halt ∨ ∃ a t, x.run s = .ok (a, t) ∧ (f a).run t = .error halt := by
  rw [StateT.run_bind]
  cases hx : x.run s with
  | error other =>
    constructor
    · intro h
      cases h
      exact Or.inl rfl
    · rintro (h | ⟨a, t, h, -⟩)
      · cases h
        rfl
      · cases h
  | ok result =>
    obtain ⟨a, t⟩ := result
    constructor
    · intro h
      exact Or.inr ⟨a, t, rfl, h⟩
    · rintro (h | ⟨a', t', h, hf⟩)
      · cases h
      · cases h
        exact hf

/-- A computation keeps a relation if it leads from a state to related states only. -/
def Keeps (R : σ → σ → Prop) (act : Act σ α) : Prop :=
  ∀ s a t, act.run s = .ok (a, t) → R s t

variable {R : σ → σ → Prop}

/-! ### Sequences -/

theorem Keeps.throw (halt : Halt) : Keeps R (throw halt : Act σ α) := by
  intro s b t h
  cases h

theorem Keeps.modify {f : σ → σ} (hf : ∀ s, R s (f s)) : Keeps R (modify f : Act σ Unit) := by
  intro s b t h
  cases h
  exact hf s

/-- What follows a look at the state may make use of what was seen. -/
theorem Keeps.get_bind {f : σ → Act σ β}
    (hf : ∀ s b t, (f s).run s = .ok (b, t) → R s t) : Keeps R (get >>= f) := by
  intro s b t h
  exact hf s b t h

variable [IsPreorder σ R]

theorem Keeps.pure (a : α) : Keeps R (pure a : Act σ α) := by
  intro s b t h
  cases h
  exact refl_of R s

theorem Keeps.bind {x : Act σ α} {f : α → Act σ β} (hx : Keeps R x) (hf : ∀ a, Keeps R (f a)) :
    Keeps R (x >>= f) := by
  intro s b u h
  obtain ⟨a, t, hs, ht⟩ := run_bind_ok.1 h
  exact trans_of R (hx s a t hs) (hf a t b u ht)

theorem Keeps.get : Keeps R (get : Act σ σ) := by
  intro s b t h
  cases h
  exact refl_of R s

/-! ### Programs -/

variable {ρ θ : Type}

/-- A program keeps what its requests keep. -/
theorem Keeps.program {perform : ρ → Act σ θ} (h : ∀ request, Keeps R (perform request))
    (p : Program ρ θ α) : Keeps R (p.run perform) := by
  induction p with
  | done a => exact Keeps.pure a
  | ask request next ih =>
    rw [Program.run_ask]
    exact Keeps.bind (h request) ih

/-- A program with a state of its own keeps what its requests keep. -/
theorem Keeps.program_beside {ξ : Type} {perform : ρ → StateT ξ (Act σ) θ}
    (h : ∀ request x, Keeps R ((perform request).run x)) (p : Program ρ θ α) (x : ξ) :
    Keeps R ((p.run perform).run x) := by
  induction p generalizing x with
  | done a => exact Keeps.pure (a, x)
  | ask request next ih =>
    rw [Program.run_ask, StateT.run_bind]
    exact Keeps.bind (h request x) fun result => ih result.1 result.2

/-! ### Walks -/

namespace Host

/-- A host keeps a relation if all that it does for a walk keeps it.  Handlers are invoked only
    where no cancellation has been requested. -/
structure Keeping (R : σ → σ → Prop) (host : Host σ β) : Prop where
  chainFor : ∀ service operation flow, Keeps R (host.chainFor service operation flow)
  invoke : ∀ link x s result t, host.cancelRequested x.id s = false →
    (host.invoke link x).run s = .ok (result, t) → R s t
  requestCancel : ∀ id s, R s (host.requestCancel id s)

variable {host : Host σ β}

theorem Keeping.walkAlong (h : host.Keeping R) {onFault : OnFault σ β}
    (hf : ∀ link flow fault x, Keeps R (onFault link flow fault x)) (rest : List (Link β))
    (x : Exchange β) : Keeps R (host.walkAlong onFault rest x) := by
  induction rest generalizing x with
  | nil =>
    rw [Host.walkAlong]
    refine Keeps.bind Keeps.get fun s => ?_
    split
    · exact Keeps.pure _
    · exact Keeps.pure _
  | cons link rest ih =>
    rw [Host.walkAlong]
    refine Keeps.get_bind fun s d t hrun => ?_
    split at hrun
    · cases hrun
      exact refl_of R s
    rename_i hfree
    rw [Bool.not_eq_true] at hfree
    obtain ⟨⟨outcome, y⟩, u, hinvoke, hrun⟩ := run_bind_ok.1 hrun
    have hinside := h.invoke link x s _ u hfree hinvoke
    cases outcome with
    | error fault => exact trans_of R hinside (hf _ _ _ _ _ _ _ hrun)
    | ok response =>
      dsimp only at hrun
      split at hrun
      · cases hrun
        exact hinside
      · exact trans_of R hinside (ih _ _ _ _ hrun)

theorem Keeping.faultWithin (h : host.Keeping R) (diversions : Nat) (link : Link β) (flow : Flow)
    (fault : Fault) (x : Exchange β) : Keeps R (host.faultWithin diversions link flow fault x) := by
  induction diversions generalizing link flow fault x with
  | zero => exact Keeps.throw _
  | succ diversions ih =>
    rw [Host.faultWithin]
    dsimp only
    split
    · exact Keeps.pure _
    · refine Keeps.bind (h.chainFor _ _ _) ?_
      rintro (error | chain)
      · exact Keeps.pure _
      · exact h.walkAlong ih _ _

theorem Keeping.walk (h : host.Keeping R) (x : Exchange β) : Keeps R (host.walk x) :=
  h.walkAlong (h.faultWithin _) _ _

theorem Keeping.runChain (h : host.Keeping R) (chain : Chain β) (x : Exchange β) :
    Keeps R (host.runChain chain x) := by
  unfold Host.runChain
  split
  · exact h.walk _
  · exact Keeps.pure _

theorem Keeping.run (h : host.Keeping R) (x : Exchange β) : Keeps R (host.run x) := by
  unfold Host.run
  split
  · refine Keeps.bind (h.chainFor _ _ _) ?_
    rintro (error | chain)
    · exact Keeps.pure _
    · exact h.runChain _ _
  · exact Keeps.pure _

theorem Keeping.resume (h : host.Keeping R) (x : Exchange β) : Keeps R (host.resume x) := by
  unfold Host.resume
  split
  · exact h.walk _
  · exact Keeps.pure _

theorem Keeping.cancel (h : host.Keeping R) (x : Exchange β) : Keeps R (host.cancel x) := by
  unfold Host.cancel
  split
  · exact Keeps.bind (Keeps.modify fun s => h.requestCancel _ s) fun _ => Keeps.pure _
  · exact Keeps.pure _

end Host

end ExchangePipeline
