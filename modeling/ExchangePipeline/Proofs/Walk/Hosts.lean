/-
  ExchangePipeline/Proofs/Walk/Hosts.lean
  =======================================
  **Hosts: what a walk may expect of them, and how they are observed.**

  A lawful host answers with chains of the flow that it is asked for, and its
  handlers do to an exchange what anyone may do: they write its payload, its
  properties and its pause flag (`Exchange.Touched`), and leave alone where it
  stands.

  A walk deals with its host in two ways: it asks for chains and it has handlers
  invoked.  An observed host writes both down in a log and otherwise is the host
  that it was (`Host.mirror_observed`): without the log, every call is what it would
  have been unobserved (`mirrors_perform`).  So what is proved of the log is proved
  of the calls.
-/
import ExchangePipeline.Proofs.Keeping
import ExchangePipeline.Proofs.Mirroring

namespace ExchangePipeline

variable {σ τ α β γ ω : Type}

/-! ### Lawful hosts -/

namespace Exchange

/-- What anyone may do to an exchange. -/
def Touched (x y : Exchange β) : Prop :=
  y = { x with payload := y.payload, properties := y.properties, paused := y.paused }

variable {x y z : Exchange β}

theorem Touched.trans (h : x.Touched y) (h' : y.Touched z) : x.Touched z := by
  unfold Touched at *
  rw [h', h]

theorem Touched.id_eq (h : x.Touched y) : y.id = x.id := by rw [h]

theorem Touched.service_eq (h : x.Touched y) : y.service = x.service := by rw [h]

theorem Touched.operation_eq (h : x.Touched y) : y.operation = x.operation := by rw [h]

theorem Touched.state_eq (h : x.Touched y) : y.state = x.state := by rw [h]

theorem Touched.cursor_eq (h : x.Touched y) : y.cursor = x.cursor := by rw [h]

theorem Touched.activeFlow_eq (h : x.Touched y) : y.activeFlow = x.activeFlow := by rw [h]

theorem Touched.chain_eq (h : x.Touched y) : y.chain = x.chain := by rw [h]

/-- Behind the next handler stand the others. -/
theorem Touched.remaining_next (h : x.Touched y) {link : Link β} {rest : List (Link β)}
    (hrest : x.remaining = link :: rest) : (y.moveTo (x.cursor + 1)).remaining = rest := by
  unfold remaining moveTo at *
  rw [h.chain_eq]
  cases hchain : x.chain with
  | none =>
    simp only [hchain] at hrest
    cases hrest
  | some chain =>
    simp only [hchain] at hrest ⊢
    rw [← List.tail_drop, hrest, List.tail_cons]

end Exchange

/-- What a walk may expect of its host in the states of the host that are good. -/
structure Host.Lawful (Good : σ → Prop) (host : Host σ β) : Prop where
  chainFor : ∀ {service operation flow s answer t}, Good s →
    (host.chainFor service operation flow).run s = .ok (answer, t) →
    Good t ∧ ∀ chain, answer = .ok chain → chain.flow = flow
  invoke : ∀ {link x s outcome y t}, Good s → x.state = .running →
    (host.invoke link x).run s = .ok ((outcome, y), t) → Good t ∧ x.Touched y

/-! ### Observed hosts -/

/-- A computation whose result is written down in a log beside its state. -/
def noting (note : α → List ω) (act : Act σ α) : Act (List ω × σ) α :=
  fun p => (act.run p.2).map fun result => (result.1, p.1 ++ note result.1, result.2)

theorem noting_ok {note : α → List ω} {act : Act σ α} {p q : List ω × σ} {a : α} :
    (noting note act).run p = .ok (a, q) ↔
      ∃ t, act.run p.2 = .ok (a, t) ∧ q = (p.1 ++ note a, t) := by
  have hrun : (noting note act).run p =
      (act.run p.2).map fun result => (result.1, p.1 ++ note result.1, result.2) := rfl
  rw [hrun]
  cases act.run p.2 with
  | error halt => simp [Except.map]
  | ok result =>
    obtain ⟨a', t⟩ := result
    constructor
    · intro h
      cases h
      exact ⟨t, rfl, rfl⟩
    · rintro ⟨t', h, rfl⟩
      cases h
      rfl

/-- What is written down of the dealings between a walk and its host. -/
structure Observer (β ω : Type) where
  answered : String → String → Flow → Except ConfigError (Chain β) → List ω
  invoked : Link β → Exchange β → Outcome × Exchange β → List ω

/-- A host whose dealings are written down. -/
def Host.observed (host : Host σ β) (observer : Observer β ω) : Host (List ω × σ) β where
  chainFor service operation flow :=
    noting (observer.answered service operation flow) (host.chainFor service operation flow)
  invoke link x := noting (observer.invoked link x) (host.invoke link x)
  cancelRequested id p := host.cancelRequested id p.2
  requestCancel id p := (p.1, host.requestCancel id p.2)

section

variable {Good : σ → Prop} {host : Host σ β} {observer : Observer β ω} {p q : List ω × σ}

theorem Host.Lawful.chainFor_observed (h : host.Lawful Good) (hp : Good p.2)
    {service operation : String} {flow : Flow} {answer : Except ConfigError (Chain β)}
    (hrun : ((host.observed observer).chainFor service operation flow).run p = .ok (answer, q)) :
    ∃ t, Good t ∧ (∀ chain, answer = .ok chain → chain.flow = flow) ∧
      q = (p.1 ++ observer.answered service operation flow answer, t) := by
  obtain ⟨t, hanswer, rfl⟩ := noting_ok.1 hrun
  obtain ⟨ht, hflow⟩ := h.chainFor hp hanswer
  exact ⟨t, ht, hflow, rfl⟩

theorem Host.Lawful.invoke_observed (h : host.Lawful Good) (hp : Good p.2) {link : Link β}
    {x y : Exchange β} (hx : x.state = .running) {outcome : Outcome}
    (hrun : ((host.observed observer).invoke link x).run p = .ok ((outcome, y), q)) :
    ∃ t, Good t ∧ x.Touched y ∧ q = (p.1 ++ observer.invoked link x (outcome, y), t) := by
  obtain ⟨t, hinvoke, rfl⟩ := noting_ok.1 hrun
  obtain ⟨ht, hy⟩ := h.invoke hp hx hinvoke
  exact ⟨t, ht, hy, rfl⟩

theorem Host.Lawful.observed (h : host.Lawful Good) (observer : Observer β ω) :
    (host.observed observer).Lawful fun p => Good p.2 where
  chainFor hp hrun := by
    obtain ⟨t, ht, hflow, rfl⟩ := h.chainFor_observed hp hrun
    exact ⟨ht, hflow⟩
  invoke hp hx hrun := by
    obtain ⟨t, ht, hy, rfl⟩ := h.invoke_observed hp hx hrun
    exact ⟨ht, hy⟩

end

/-! ### Without the log -/

theorem mirrors_noting (note : α → List ω) (act : Act σ α) :
    Mirrors Prod.snd (noting note act) act := by
  intro p
  have hrun : (noting note act).run p =
      (act.run p.2).map fun result => (result.1, p.1 ++ note result.1, result.2) := rfl
  rw [hrun]
  cases act.run p.2 <;> rfl

/-- An observed host mirrors the one that is observed. -/
theorem Host.mirror_observed (host : Host σ β) (observer : Observer β ω) :
    (host.observed observer).Mirror Prod.snd host where
  chainFor _ _ _ := mirrors_noting _ _
  invoke _ _ := mirrors_noting _ _
  cancelRequested _ _ := rfl
  requestCancel _ _ := rfl

/-- The calls that drive an exchange. -/
inductive Call (β : Type) where
  | run
  | runChain (chain : Chain β)
  | resume

def Call.perform (host : Host σ β) : Call β → Exchange β → Act σ (Driven β)
  | .run, x => host.run x
  | .runChain chain, x => host.runChain chain x
  | .resume, x => host.resume x

theorem Host.Mirror.perform {drop : τ → σ} {rich : Host τ β} {poor : Host σ β}
    (h : rich.Mirror drop poor) (call : Call β) (x : Exchange β) :
    Mirrors drop (call.perform rich x) (call.perform poor x) := by
  cases call with
  | run => exact h.run x
  | runChain chain => exact h.runChain chain x
  | resume => exact h.resume x

/-- **Being observed changes nothing**, whichever way an exchange is driven. -/
theorem mirrors_perform {host : Host σ β} {observer : Observer β ω} (call : Call β)
    (x : Exchange β) :
    Mirrors Prod.snd (call.perform (host.observed observer) x) (call.perform host x) :=
  (host.mirror_observed observer).perform call x

/-! ### Calls from inside

An exchange that is under way cannot be driven by anybody else. -/

section

variable {host : Host σ β} {x : Exchange β}

theorem run_of_running (hx : x.state = .running) :
    host.run x = pure (.error (.invalidState x.id x.state .run), x) :=
  if_neg (by simp [hx])

theorem runChain_of_running (hx : x.state = .running) (chain : Chain β) :
    host.runChain chain x = pure (.error (.invalidState x.id x.state .run), x) :=
  if_neg (by simp [hx])

theorem resume_of_running (hx : x.state = .running) :
    host.resume x = pure (.error (.invalidState x.id x.state .resume), x) :=
  if_neg (by simp [hx])

theorem cancel_of_running (hx : x.state = .running) :
    host.cancel x = pure (.error (.invalidState x.id x.state .cancel), x) :=
  if_neg (by simp [hx])

end

/-! ### A scripted host -/

/-- A host whose handlers are what they answer, and whether they ask for a pause. -/
def scripted (links : Flow → List (Link (Outcome × Bool))) : Host Unit (Outcome × Bool) where
  chainFor _ _ flow := pure (.ok ⟨flow, [⟨"all", links flow⟩]⟩)
  invoke link x := pure (link.body.1, if link.body.2 then x.requestPause else x)
  cancelRequested _ _ := false
  requestCancel _ s := s

theorem lawful_scripted (links : Flow → List (Link (Outcome × Bool))) :
    (scripted links).Lawful fun _ => True where
  chainFor _ hrun := by
    cases hrun
    exact ⟨trivial, fun chain hchain => by cases hchain; rfl⟩
  invoke := by
    intro link x s outcome y t _ _ hrun
    cases hrun
    refine ⟨trivial, ?_⟩
    split <;> rfl

/-- Orders are checked and charged for; what goes wrong there is refunded and reported. -/
def orderLinks : Flow → List (Link (Outcome × Bool))
  | .inFault => [⟨{ name := "refund", phase := "all" }, .ok .pause, false⟩,
      ⟨{ name := "report", phase := "all" }, .ok .proceed, false⟩]
  | _ => [⟨{ name := "check", phase := "all" }, .ok .proceed, true⟩,
      ⟨{ name := "charge", phase := "all" }, .error (.rejected "no funds"), true⟩,
      ⟨{ name := "store", phase := "all" }, .ok .proceed, false⟩]

end ExchangePipeline
