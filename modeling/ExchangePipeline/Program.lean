/-
  ExchangePipeline/Program.lean
  =============================
  **Programs**: what handlers, modules and transports do.

  The pipeline runs code that it does not know.  Such code is a tree: it ends
  with a result, or it makes a request and goes on according to the reply.  A
  program can do nothing but make requests, so what it can reach is exactly what
  requests exist, and a statement about all programs is one about all such trees.

  Programs form a lawful monad, and running one is a map of monads: what follows a
  program runs after it (`run_bind`), and one request runs as it is performed
  (`run_send`).
-/

namespace ExchangePipeline

/-- A program that makes requests of type `ρ`, gets replies of type `θ` and ends with an `α`. -/
inductive Program (ρ θ α : Type) where
  | done (result : α)
  | ask (request : ρ) (next : θ → Program ρ θ α)

namespace Program

variable {ρ θ α β γ : Type}

/-- Runs a program, then the one that its result chooses. -/
def bind : Program ρ θ α → (α → Program ρ θ β) → Program ρ θ β
  | .done a, f => f a
  | .ask request next, f => .ask request fun reply => (next reply).bind f

instance : Monad (Program ρ θ) where
  pure := .done
  bind := bind

/-! ### Laws -/

@[simp] theorem done_bind (a : α) (f : α → Program ρ θ β) : (done a).bind f = f a := rfl

@[simp] theorem ask_bind (request : ρ) (next : θ → Program ρ θ α) (f : α → Program ρ θ β) :
    (ask request next).bind f = .ask request fun reply => (next reply).bind f := rfl

/-- Ending with the result of a program is that program. -/
theorem bind_done (p : Program ρ θ α) : p.bind .done = p := by
  induction p with
  | done a => rfl
  | ask request next ih =>
    rw [ask_bind]
    exact congrArg (Program.ask request) (funext ih)

/-- What comes after a program may be split in any way. -/
theorem bind_assoc (p : Program ρ θ α) (f : α → Program ρ θ β) (g : β → Program ρ θ γ) :
    (p.bind f).bind g = p.bind fun a => (f a).bind g := by
  induction p with
  | done a => rfl
  | ask request next ih =>
    rw [ask_bind, ask_bind, ask_bind]
    exact congrArg (Program.ask request) (funext ih)

instance : LawfulMonad (Program ρ θ) :=
  LawfulMonad.mk' _ bind_done (fun _ _ => rfl) bind_assoc

/-! ### Running -/

/-- Makes one request and ends with its reply. -/
def send (request : ρ) : Program ρ θ θ :=
  .ask request .done

/-- Runs a program, with the meaning of each request given. -/
def run {m : Type → Type} [Monad m] (perform : ρ → m θ) : Program ρ θ α → m α
  | .done a => pure a
  | .ask request next => do
    let reply ← perform request
    run perform (next reply)

@[simp] theorem run_done {m : Type → Type} [Monad m] (perform : ρ → m θ) (a : α) :
    run perform (.done a) = pure a := rfl

@[simp] theorem run_ask {m : Type → Type} [Monad m] (perform : ρ → m θ) (request : ρ)
    (next : θ → Program ρ θ α) :
    run perform (.ask request next) =
      perform request >>= fun reply => run perform (next reply) := rfl

/-- **Running in pieces**: a program and what follows it run one after the other. -/
theorem run_bind {m : Type → Type} [Monad m] [LawfulMonad m] (perform : ρ → m θ)
    (p : Program ρ θ α) (f : α → Program ρ θ β) :
    run perform (p.bind f) = run perform p >>= fun a => run perform (f a) := by
  induction p with
  | done a => simp
  | ask request next ih => simp [ih]

/-- Running one request performs it. -/
@[simp] theorem run_send {m : Type → Type} [Monad m] [LawfulMonad m] (perform : ρ → m θ)
    (request : ρ) : run perform (send request) = perform request := by
  simp [send]

end Program

end ExchangePipeline
