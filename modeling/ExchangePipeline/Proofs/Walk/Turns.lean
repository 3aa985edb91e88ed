/-
  ExchangePipeline/Proofs/Walk/Turns.lean
  =======================================
  **Walks, turn by turn.**

  A driving call begins by putting an exchange under way, or by failing it at once
  (`Call.Begins`).  The walk then goes in turns: each looks whether cancellation has
  been requested, invokes the handler at the cursor, and takes the exchange on, or
  ends the call (`Host.Turn`).  What a turn does depends on its host and on the
  exchange alone, so a walk is the path that its turns make, and a call that is
  accepted is its beginning with such a path (`Host.Steady.perform_turns`).

  What is to be proved of walks can so be proved of one turn.
-/
import ExchangePipeline.Proofs.Walk.Hosts
import Mathlib.Logic.Relation

namespace ExchangePipeline

variable {σ β : Type}

/-- A host whose handlers leave an exchange where it stands, in the states that are good. -/
structure Host.Steady (Good : σ → Prop) (host : Host σ β) : Prop where
  chainFor : ∀ {service operation flow s answer t}, Good s →
    (host.chainFor service operation flow).run s = .ok (answer, t) → Good t
  invoke : ∀ {link x s outcome y t}, Good s → x.state = .running →
    (host.invoke link x).run s = .ok ((outcome, y), t) → Good t ∧ x.Touched y

theorem Host.Lawful.steady {Good : σ → Prop} {host : Host σ β} (h : host.Lawful Good) :
    host.Steady Good :=
  ⟨fun hs hrun => (h.chainFor hs hrun).1, h.invoke⟩

theorem Host.Steady.observed {Good : σ → Prop} {host : Host σ β} (h : host.Steady Good)
    {ω : Type} (observer : Observer β ω) :
    (host.observed observer).Steady fun p => Good p.2 where
  chainFor hp hrun := by
    obtain ⟨t, hanswer, rfl⟩ := noting_ok.1 hrun
    exact h.chainFor hp hanswer
  invoke hp hx hrun := by
    obtain ⟨t, hinvoke, rfl⟩ := noting_ok.1 hrun
    exact h.invoke hp hx hinvoke

/-! ### Turns -/

/-- Where a driving call stands: the exchange is under way, or the call is over. -/
inductive Stage (β : Type) where
  | walking (x : Exchange β)
  | ended (driven : Driven β)

def Stage.exchange : Stage β → Exchange β
  | .walking x => x
  | .ended driven => driven.2

/-- One turn of a walk, with the state of the host before and behind it. -/
inductive Host.Turn (host : Host σ β) : Stage β × σ → Stage β × σ → Prop where
  | cancels {x : Exchange β} {s : σ} (requested : host.cancelRequested x.id s = true) :
      Turn host (.walking x, s)
        (.ended (.error (.cancelled x.id), x.fail (.cancelled x.activeFlow)), s)
  | completes {x : Exchange β} {s : σ} (unrequested : host.cancelRequested x.id s = false)
      (atEnd : x.remaining = []) : Turn host (.walking x, s) (.ended (.ok .completed, x.complete), s)
  | pauses {x y : Exchange β} {s t : σ} {link : Link β} {rest : List (Link β)} {response : Response}
      (unrequested : host.cancelRequested x.id s = false) (next : x.remaining = link :: rest)
      (returns : (host.invoke link x).run s = .ok ((.ok response, y), t))
      (asks : response = .pause ∨ y.paused = true) :
      Turn host (.walking x, s) (.ended (.ok .paused, (y.moveTo (x.cursor + 1)).suspend), t)
  | proceeds {x y : Exchange β} {s t : σ} {link : Link β} {rest : List (Link β)}
      {response : Response}
      (unrequested : host.cancelRequested x.id s = false) (next : x.remaining = link :: rest)
      (returns : (host.invoke link x).run s = .ok ((.ok response, y), t))
      (goes : ¬ (response = .pause ∨ y.paused = true)) :
      Turn host (.walking x, s) (.walking (y.moveTo (x.cursor + 1)), t)
  /-- A fault in a fault flow is final. -/
  | breaks {x y : Exchange β} {s t : σ} {link : Link β} {rest : List (Link β)} {fault : Fault}
      (unrequested : host.cancelRequested x.id s = false) (next : x.remaining = link :: rest)
      (faults : (host.invoke link x).run s = .ok ((.error fault, y), t))
      (final : x.activeFlow.isFault = true) :
      Turn host (.walking x, s) (.ended (.error (.unrecoverable y.id link.name fault),
        (y.moveTo (x.cursor + 1)).fail (.handler link.placement x.activeFlow fault.text)), t)
  /-- The fault chain cannot be had. -/
  | strands {x y : Exchange β} {s t u : σ} {link : Link β} {rest : List (Link β)} {fault : Fault}
      {error : ConfigError}
      (unrequested : host.cancelRequested x.id s = false) (next : x.remaining = link :: rest)
      (faults : (host.invoke link x).run s = .ok ((.error fault, y), t))
      (ordinary : x.activeFlow.isFault = false)
      (asked : (host.chainFor y.service y.operation x.activeFlow.faultFlow).run t =
        .ok (.error error, u)) :
      Turn host (.walking x, s) (.ended (.error (.resolution error),
        (y.moveTo (x.cursor + 1)).fail (.handler link.placement x.activeFlow fault.text)), u)
  | diverts {x y : Exchange β} {s t u : σ} {link : Link β} {rest : List (Link β)} {fault : Fault}
      {chain : Chain β}
      (unrequested : host.cancelRequested x.id s = false) (next : x.remaining = link :: rest)
      (faults : (host.invoke link x).run s = .ok ((.error fault, y), t))
      (ordinary : x.activeFlow.isFault = false)
      (asked : (host.chainFor y.service y.operation x.activeFlow.faultFlow).run t =
        .ok (.ok chain, u)) :
      Turn host (.walking x, s) (.walking ((y.moveTo (x.cursor + 1)).divert chain
        (.handler link.placement x.activeFlow fault.text)), u)

/-- A walk by turns. -/
def Host.Turns (host : Host σ β) : Stage β × σ → Stage β × σ → Prop :=
  Relation.ReflTransGen host.Turn

/-! ### Walks are paths of turns -/

variable {Good : σ → Prop} {host : Host σ β} {x y : Exchange β} {s t : σ} {d : Driven β}

/-- What comes of a fault is the rest of a walk by turns, from the turn on in which it arose. -/
def FaultsByTurns (Good : σ → Prop) (host : Host σ β) (onFault : Host.OnFault σ β) : Prop :=
  ∀ {x y : Exchange β} {s t u : σ} {link : Link β} {rest : List (Link β)} {fault : Fault}
    {d : Driven β}, Good s → x.state = .running → host.cancelRequested x.id s = false →
    x.remaining = link :: rest → (host.invoke link x).run s = .ok ((.error fault, y), t) →
    (onFault link x.activeFlow fault (y.moveTo (x.cursor + 1))).run t = .ok (d, u) →
    host.Turns (.walking x, s) (.ended d, u)

theorem Host.Steady.walkAlong_turns (h : host.Steady Good) {onFault : Host.OnFault σ β}
    (hf : FaultsByTurns Good host onFault) {rest : List (Link β)} (hrest : x.remaining = rest)
    (hx : x.state = .running) (hs : Good s)
    (hrun : (host.walkAlong onFault rest x).run s = .ok (d, t)) :
    host.Turns (.walking x, s) (.ended d, t) := by
  induction rest generalizing x s with
  | nil =>
    obtain ⟨_, _, hget, hrun⟩ := run_bind_ok.1 hrun
    cases hget
    split at hrun
    · rename_i hrequested
      cases hrun
      exact .single (.cancels hrequested)
    · rename_i hfree
      cases hrun
      exact .single (.completes (Bool.eq_false_iff.2 hfree) hrest)
  | cons link rest ih =>
    obtain ⟨_, _, hget, hrun⟩ := run_bind_ok.1 hrun
    cases hget
    split at hrun
    · rename_i hrequested
      cases hrun
      exact .single (.cancels hrequested)
    rename_i hfree
    rw [Bool.not_eq_true] at hfree
    obtain ⟨⟨outcome, y⟩, u, hinvoke, hrun⟩ := run_bind_ok.1 hrun
    obtain ⟨hu, hy⟩ := h.invoke hs hx hinvoke
    cases outcome with
    | error fault => exact hf hs hx hfree hrest hinvoke hrun
    | ok response =>
      dsimp only at hrun
      split at hrun
      · rename_i hasks
        cases hrun
        exact .single (.pauses hfree hrest hinvoke hasks)
      · rename_i hgoes
        exact .head (.proceeds hfree hrest hinvoke hgoes)
          (ih (hy.remaining_next hrest) (hy.state_eq.trans hx) hu hrun)

theorem Host.Steady.faultWithin_turns (h : host.Steady Good) (diversions : Nat) :
    FaultsByTurns Good host (host.faultWithin diversions) := by
  induction diversions with
  | zero =>
    intro x y s t u link rest fault d _ _ _ _ _ hrun
    cases hrun
  | succ diversions ih =>
    intro x y s t u link rest fault d hs hx hfree hrest hinvoke hrun
    rw [Host.faultWithin] at hrun
    dsimp only at hrun
    split at hrun
    · rename_i hfinal
      have hturn := Host.Turn.breaks hfree hrest hinvoke hfinal
      cases hrun
      exact .single hturn
    rename_i hordinary
    rw [Bool.not_eq_true] at hordinary
    obtain ⟨answer, v, hasked, hrun⟩ := run_bind_ok.1 hrun
    have hv : Good v := h.chainFor (h.invoke hs hx hinvoke).1 hasked
    cases answer with
    | error error =>
      have hturn := Host.Turn.strands hfree hrest hinvoke hordinary hasked
      cases hrun
      exact .single hturn
    | ok chain =>
      -- the fault was the end of a turn; the walk goes on along the fault chain
      have hturn := Host.Turn.diverts hfree hrest hinvoke hordinary hasked
      exact .head hturn (h.walkAlong_turns ih rfl rfl hv hrun)

/-- **A walk is the path that its turns make.** -/
theorem Host.Steady.walk_turns (h : host.Steady Good) (hx : x.state = .running) (hs : Good s)
    (hrun : (host.walk x).run s = .ok (d, t)) : host.Turns (.walking x, s) (.ended d, t) :=
  h.walkAlong_turns (h.faultWithin_turns _) rfl hx hs hrun

/-! ### Calls -/

namespace Call

/-- The states in which an exchange takes a call. -/
def AllowedIn : Call β → ExchangeState → Prop
  | .run, state => state = .created
  | .runChain _, state => state = .created
  | .resume, state => state = .paused

/-- What a call asks for, as errors name it. -/
def asked : Call β → DrivingCall
  | .run => .run
  | .runChain _ => .run
  | .resume => .resume

/-- How a call that is accepted begins. -/
inductive Begins (host : Host σ β) : Call β → Exchange β × σ → Stage β × σ → Prop where
  | run {x : Exchange β} {s t : σ} {chain : Chain β} (fresh : x.state = .created)
      (asked : (host.chainFor x.service x.operation x.direction).run s = .ok (.ok chain, t)) :
      Begins host .run (x, s) (.walking (x.start chain), t)
  /-- The first chain cannot be had. -/
  | unresolved {x : Exchange β} {s t : σ} {error : ConfigError} (fresh : x.state = .created)
      (asked : (host.chainFor x.service x.operation x.direction).run s = .ok (.error error, t)) :
      Begins host .run (x, s) (.ended (.error (.resolution error),
        x.fail (.resolution x.direction error.message)), t)
  | runChain {x : Exchange β} {s : σ} {chain : Chain β} (fresh : x.state = .created) :
      Begins host (.runChain chain) (x, s) (.walking (x.start chain), s)
  | resume {x : Exchange β} {s : σ} (paused : x.state = .paused) :
      Begins host .resume (x, s) (.walking x.unpause, s)

/-- **A call out of season** does nothing but say so. -/
theorem perform_of_not_allowed (host : Host σ β) {call : Call β} (h : ¬ call.AllowedIn x.state) :
    call.perform host x = pure (.error (.invalidState x.id x.state call.asked), x) := by
  cases call with
  | run => exact if_neg h
  | runChain chain => exact if_neg h
  | resume => exact if_neg h

end Call

/-- **A call that is accepted** is its beginning, and a walk by turns from there. -/
theorem Host.Steady.perform_turns (h : host.Steady Good) (hs : Good s) {call : Call β}
    (hallowed : call.AllowedIn x.state) (hrun : (call.perform host x).run s = .ok (d, t)) :
    ∃ first u, Good u ∧ call.Begins host (x, s) (first, u) ∧ host.Turns (first, u) (.ended d, t) := by
  cases call with
  | run =>
    have hx : x.state = .created := hallowed
    simp only [Call.perform, Host.run, if_pos hx] at hrun
    obtain ⟨answer, u, hasked, hrun⟩ := run_bind_ok.1 hrun
    have hu : Good u := h.chainFor hs hasked
    cases answer with
    | error error =>
      cases hrun
      exact ⟨_, _, hu, .unresolved hx hasked, .refl⟩
    | ok chain =>
      simp only [Host.runChain, if_pos hx] at hrun
      exact ⟨_, _, hu, .run hx hasked, h.walk_turns rfl hu hrun⟩
  | runChain chain =>
    have hx : x.state = .created := hallowed
    simp only [Call.perform, Host.runChain, if_pos hx] at hrun
    exact ⟨_, _, hs, .runChain hx, h.walk_turns rfl hs hrun⟩
  | resume =>
    have hx : x.state = .paused := hallowed
    simp only [Call.perform, Host.resume, if_pos hx] at hrun
    exact ⟨_, _, hs, .resume hx, h.walk_turns rfl hs hrun⟩

/-! ### What calls keep on their way -/

variable {R : σ → σ → Prop} [IsPreorder σ R] {p q : Stage β × σ}

theorem Host.Keeping.turn (h : host.Keeping R) (hturn : host.Turn p q) : R p.2 q.2 := by
  cases hturn with
  | cancels => exact refl_of R _
  | completes => exact refl_of R _
  | pauses unrequested _ returns _ => exact h.invoke _ _ _ _ _ unrequested returns
  | proceeds unrequested _ returns _ => exact h.invoke _ _ _ _ _ unrequested returns
  | breaks unrequested _ faults _ => exact h.invoke _ _ _ _ _ unrequested faults
  | strands unrequested _ faults _ asked =>
    exact trans_of R (h.invoke _ _ _ _ _ unrequested faults) (h.chainFor _ _ _ _ _ _ asked)
  | diverts unrequested _ faults _ asked =>
    exact trans_of R (h.invoke _ _ _ _ _ unrequested faults) (h.chainFor _ _ _ _ _ _ asked)

theorem Host.Keeping.turns (h : host.Keeping R) (hturns : host.Turns p q) : R p.2 q.2 := by
  induction hturns with
  | refl => exact refl_of R _
  | tail _ hturn ih => exact trans_of R ih (h.turn hturn)

theorem Host.Keeping.begins (h : host.Keeping R) {call : Call β} {first : Stage β}
    (hbegins : call.Begins host (x, s) (first, t)) : R s t := by
  cases hbegins with
  | run _ asked => exact h.chainFor _ _ _ _ _ _ asked
  | unresolved _ asked => exact h.chainFor _ _ _ _ _ _ asked
  | runChain => exact refl_of R _
  | resume => exact refl_of R _

end ExchangePipeline
