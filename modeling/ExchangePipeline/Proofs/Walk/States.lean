/-
  ExchangePipeline/Proofs/Walk/States.lean
  ========================================
  **The states of an exchange.**

  An exchange moves from state to state in seven ways only
  (`ExchangeState.Moves`), and from a terminal state in none.  A driving call that
  is accepted moves it at its beginning, and every turn of the walk leaves it
  running or moves it once more; when the call is over, what it answers tells where
  the exchange stands (`Host.Steady.perform_moves`).
-/
import ExchangePipeline.Proofs.Walk.Turns

namespace ExchangePipeline

variable {σ β : Type}

namespace ExchangeState

/-- The moves of the state machine. -/
inductive Moves : ExchangeState → ExchangeState → Prop where
  | starts : Moves .created .running
  /-- Cancelled before it was started, or without a chain to start on. -/
  | failsUnstarted : Moves .created .faulted
  | pauses : Moves .running .paused
  | completes : Moves .running .completed
  | fails : Moves .running .faulted
  | resumes : Moves .paused .running
  | failsPaused : Moves .paused .faulted

theorem Moves.not_terminal {a b : ExchangeState} (h : a.Moves b) : a.isTerminal = false := by
  cases h <;> rfl

/-- At most one move. -/
def StaysOrMoves (a b : ExchangeState) : Prop :=
  b = a ∨ a.Moves b

end ExchangeState

/-! ### What a call says when it is over -/

/-- The answer of a driving call and the exchange that it leaves agree.  An error that says that
    the call is not possible is not among the answers. -/
structure Settled (d : Driven β) : Prop where
  atRest : d.2.state = .completed ∨ d.2.state = .paused ∨ d.2.state = .faulted
  completed : d.1 = .ok .completed ↔ d.2.state = .completed
  paused : d.1 = .ok .paused ↔ d.2.state = .paused
  faulted : (∃ error, d.1 = .error error ∧ ∀ id state call, error ≠ .invalidState id state call) ↔
    d.2.state = .faulted
  flag : d.2.paused = true ↔ d.2.state = .paused

theorem settled_complete (x : Exchange β) : Settled (.ok .completed, x.complete) := by
  constructor <;> simp [Exchange.complete]

theorem settled_suspend (x : Exchange β) : Settled (.ok .paused, x.suspend) := by
  constructor <;> simp [Exchange.suspend]

theorem settled_fail (x : Exchange β) (record : FaultRecord) {error : ExecutionError}
    (h : ∀ id state call, error ≠ .invalidState id state call) :
    Settled (.error error, x.fail record) := by
  constructor <;> simp [Exchange.fail, h]

/-- What is known of every stage of a call. -/
def Stage.InOrder : Stage β → Prop
  | .walking x => x.state = .running
  | .ended d => Settled d

theorem Stage.InOrder.staysOrMoves {stage : Stage β} (h : stage.InOrder) :
    ExchangeState.running.StaysOrMoves stage.exchange.state := by
  cases stage with
  | walking x => exact Or.inl h
  | ended d =>
    right
    obtain ⟨hstate | hstate | hstate, -⟩ : Settled d := h
    · exact hstate ▸ .completes
    · exact hstate ▸ .pauses
    · exact hstate ▸ .fails

/-! ### Turns -/

variable {Good : σ → Prop} {host : Host σ β} {x : Exchange β} {s t : σ} {d : Driven β}
  {p q : Stage β × σ}

/-- What every turn keeps. -/
theorem Host.Steady.turn_inOrder (h : host.Steady Good) (hturn : host.Turn p q) (hp : Good p.2)
    (hin : p.1.InOrder) : Good q.2 ∧ q.1.InOrder := by
  cases hturn with
  | cancels => exact ⟨hp, settled_fail _ _ (by simp)⟩
  | completes => exact ⟨hp, settled_complete _⟩
  | pauses _ _ returns _ => exact ⟨(h.invoke hp hin returns).1, settled_suspend _⟩
  | proceeds _ _ returns _ =>
    obtain ⟨hgood, hy⟩ := h.invoke hp hin returns
    exact ⟨hgood, hy.state_eq.trans hin⟩
  | breaks _ _ faults _ => exact ⟨(h.invoke hp hin faults).1, settled_fail _ _ (by simp)⟩
  | strands _ _ faults _ asked =>
    exact ⟨h.chainFor (h.invoke hp hin faults).1 asked, settled_fail _ _ (by simp)⟩
  | diverts _ _ faults _ asked => exact ⟨h.chainFor (h.invoke hp hin faults).1 asked, rfl⟩

theorem Host.Steady.turn_moves (h : host.Steady Good) (hturn : host.Turn p q) (hp : Good p.2)
    (hin : p.1.InOrder) : p.1.exchange.state.StaysOrMoves q.1.exchange.state := by
  have hq := (h.turn_inOrder hturn hp hin).2.staysOrMoves
  -- turns are taken from walking stages only
  have hrunning : p.1.exchange.state = .running := by
    cases hturn <;> exact hin
  rwa [hrunning]

/-- A turn goes on with the same exchange. -/
theorem Host.Steady.turn_id (h : host.Steady Good) (hturn : host.Turn p q) (hp : Good p.2)
    (hin : p.1.InOrder) : q.1.exchange.id = p.1.exchange.id := by
  cases hturn with
  | cancels => rfl
  | completes => rfl
  | pauses _ _ returns _ => exact (h.invoke hp hin returns).2.id_eq
  | proceeds _ _ returns _ => exact (h.invoke hp hin returns).2.id_eq
  | breaks _ _ faults _ => exact (h.invoke hp hin faults).2.id_eq
  | strands _ _ faults _ _ => exact (h.invoke hp hin faults).2.id_eq
  | diverts _ _ faults _ _ => exact (h.invoke hp hin faults).2.id_eq

/-- A walk by turns, each of which leaves the exchange running or moves it. -/
def Host.MovingTurns (host : Host σ β) : Stage β × σ → Stage β × σ → Prop :=
  Relation.ReflTransGen fun p q =>
    host.Turn p q ∧ p.1.exchange.state.StaysOrMoves q.1.exchange.state

theorem Host.Steady.turns_inOrder (h : host.Steady Good) (hturns : host.Turns p q) (hp : Good p.2)
    (hin : p.1.InOrder) : Good q.2 ∧ q.1.InOrder ∧ host.MovingTurns p q := by
  induction hturns with
  | refl => exact ⟨hp, hin, .refl⟩
  | tail _ hturn ih =>
    obtain ⟨hgood, hmid, hmoving⟩ := ih
    obtain ⟨hgood', hend⟩ := h.turn_inOrder hturn hgood hmid
    exact ⟨hgood', hend, hmoving.tail ⟨hturn, h.turn_moves hturn hgood hmid⟩⟩

theorem Host.Steady.turns_id (h : host.Steady Good) (hturns : host.Turns p q) (hp : Good p.2)
    (hin : p.1.InOrder) : q.1.exchange.id = p.1.exchange.id := by
  induction hturns with
  | refl => rfl
  | tail hbefore hturn ih =>
    obtain ⟨hgood, hmid, -⟩ := h.turns_inOrder hbefore hp hin
    exact (h.turn_id hturn hgood hmid).trans ih

/-! ### Calls -/

theorem Call.Begins.moves {call : Call β} {first : Stage β} (h : call.Begins host (x, s) (first, t)) :
    x.state.Moves first.exchange.state ∧ first.InOrder := by
  cases h with
  | run fresh => exact ⟨fresh ▸ .starts, rfl⟩
  | unresolved fresh => exact ⟨fresh ▸ .failsUnstarted, settled_fail _ _ (by simp)⟩
  | runChain fresh => exact ⟨fresh ▸ .starts, rfl⟩
  | resume paused => exact ⟨paused ▸ .resumes, rfl⟩

theorem Host.Steady.begins_good (h : host.Steady Good) {call : Call β} {first : Stage β}
    (hbegins : call.Begins host (x, s) (first, t)) (hs : Good s) :
    Good t ∧ first.exchange.id = x.id := by
  cases hbegins with
  | run _ asked => exact ⟨h.chainFor hs asked, rfl⟩
  | unresolved _ asked => exact ⟨h.chainFor hs asked, rfl⟩
  | runChain => exact ⟨hs, rfl⟩
  | resume => exact ⟨hs, rfl⟩

/-- How a call that is accepted takes an exchange from state to state. -/
def Call.Drives (call : Call β) (host : Host σ β) (x : Exchange β) (s : σ) (d : Driven β) (t : σ) :
    Prop :=
  ∃ first u, call.Begins host (x, s) (first, u) ∧ x.state.Moves first.exchange.state ∧
    host.MovingTurns (first, u) (.ended d, t)

/-- **A call that is accepted** takes the exchange along the moves of the state machine, and its
    answer tells where that has ended. -/
theorem Host.Steady.perform_moves (h : host.Steady Good) (hs : Good s) {call : Call β}
    (hallowed : call.AllowedIn x.state) (hrun : (call.perform host x).run s = .ok (d, t)) :
    call.Drives host x s d t ∧ Settled d := by
  obtain ⟨first, u, hu, hbegins, hturns⟩ := h.perform_turns hs hallowed hrun
  obtain ⟨hmoves, hfirst⟩ := hbegins.moves
  obtain ⟨-, hsettled, hmoving⟩ := h.turns_inOrder hturns hu hfirst
  exact ⟨⟨first, u, hbegins, hmoves, hmoving⟩, hsettled⟩

/-- What comes of a cancellation: the exchange fails, or nothing happens at all. -/
theorem cancel_moves {result : Except ExecutionError Unit} {y : Exchange β}
    (hrun : (host.cancel x).run s = .ok ((result, y), t)) :
    ((x.state = .created ∨ x.state = .paused) ∧ result = .ok () ∧ x.state.Moves y.state ∧
        y.state = .faulted ∧ y.paused = false ∧ t = host.requestCancel x.id s) ∨
      (¬ (x.state = .created ∨ x.state = .paused) ∧
        result = .error (.invalidState x.id x.state .cancel) ∧ y = x ∧ t = s) := by
  unfold Host.cancel at hrun
  split at hrun
  · rename_i hstate
    cases hrun
    refine Or.inl ⟨hstate, rfl, ?_, rfl, rfl, rfl⟩
    rcases hstate with hstate | hstate
    · exact hstate ▸ .failsUnstarted
    · exact hstate ▸ .failsPaused
  · rename_i hstate
    cases hrun
    exact Or.inr ⟨hstate, rfl, rfl, rfl⟩

end ExchangePipeline
