/-
  ExchangePipeline/Proofs/Session/Past.lean
  =========================================
  **The past does not matter.**

  A session keeps a journal of what it does, and nothing that it does depends on what
  the journal has told before (`Unaware`).  This is known of all that requests are
  made of, so it holds of every program, by induction on the levels
  (`unaware_nested`), and of every request (`unaware_perform`).
-/
import ExchangePipeline.Proofs.Mirroring
import ExchangePipeline.Proofs.Session.Requests

namespace ExchangePipeline

namespace Session

/-- A computation that does the same whatever the journal has told before. -/
def Unaware {α : Type} (act : Doing α) : Prop :=
  ∀ old, Mirrors (after old) act act

variable {α β : Type} {inner : Inner} {s t u : Session} {x : Exchange Handler}

theorem Unaware.pure (a : α) : Unaware (pure a) :=
  fun _ => .pure _ a

theorem Unaware.bind {act : Doing α} {next : α → Doing β} (h : Unaware act)
    (hnext : ∀ a, Unaware (next a)) : Unaware (act >>= next) :=
  fun old => .bind (h old) fun a => hnext a old

theorem Unaware.look {next : Session → Doing β} (hnext : ∀ s, Unaware (next s))
    (hsame : ∀ s old, next (s.after old) = next s) : Unaware (get >>= next) := by
  intro old
  refine .get_bind fun s => ?_
  rw [hsame]
  exact hnext s old

theorem Unaware.modify {f : Session → Session} (h : ∀ s old, (f s).after old = f (s.after old)) :
    Unaware (modify f) :=
  fun old => .modify fun s => h s old

theorem unaware_record (event : Event) : Unaware (modify (record event)) :=
  .modify fun _ _ => rfl

theorem unaware_take (step : Deployment → α × Deployment) : Unaware (take step) :=
  fun _ _ => rfl

theorem unaware_change (step : Deployment → Except ConfigError (α × Deployment)) :
    Unaware (change step) := by
  intro old
  refine .get_bind fun s => ?_
  have hsame : (s.after old).deployment = s.deployment := rfl
  simp only [hsame]
  cases step s.deployment with
  | error error => exact .pure _ _
  | ok result => exact .bind (.set rfl) fun _ => .pure _ _

theorem unaware_initModule (h : ∀ procedure, Unaware (inner.carryOut procedure)) (name : String) :
    Unaware (initModule inner name) := by
  refine .look (fun s => ?_) fun _ _ => rfl
  cases s.deployment.module? name with
  | none => exact .pure _
  | some m =>
    dsimp only
    cases m.status with
    | ready => exact .pure _
    | running => exact fun old => .throw _ _
    | pending =>
      refine .bind (.modify fun _ _ => rfl) fun _ => .bind (unaware_record _) fun _ => ?_
      refine .bind (h _) ?_
      rintro (cause | done)
      · exact .bind (.modify fun _ _ => rfl) fun _ => .bind (unaware_record _) fun _ => .pure _
      · exact .bind (.modify fun _ _ => rfl) fun _ => .bind (unaware_record _) fun _ => .pure _

theorem unaware_engage (h : ∀ procedure, Unaware (inner.carryOut procedure)) (module : String)
    (scope : Scope) : Unaware (engage inner module scope) := by
  refine .look (fun s => ?_) fun _ _ => rfl
  dsimp only
  split
  · exact .pure _
  cases s.deployment.tree.scopeNode scope with
  | error error => exact .pure _
  | ok id =>
    refine .bind (unaware_initModule h module) ?_
    rintro (error | done)
    · exact .pure _
    · exact .bind (unaware_take _) fun _ => .pure _

/-! ### Exchanges -/

theorem mirror_host (hinvoke : ∀ link x, Unaware (inner.invoke link x)) (old : List Event) :
    (host inner).Mirror (after old) (host inner) where
  chainFor service operation flow := by
    refine .get_bind fun s => ?_
    have hsource : (s.after old).source = s.source := rfl
    simp only [hsource]
    cases s.source with
    | deployed => exact unaware_change _ old
    | fixed order handlers =>
      dsimp only
      cases handlers.lookup flow with
      | none => exact .pure _ _
      | some links => exact .pure _ _
  invoke link x := hinvoke link x old
  cancelRequested _ _ := rfl
  requestCancel _ _ := rfl

theorem unaware_performOn (h : ∀ link x, Unaware (inner.invoke link x)) (op : ExchangeOp)
    (x : Exchange Handler) : Unaware (performOn inner op x) := by
  cases op with
  | view => exact .look (fun _ => .pure _) fun _ _ => rfl
  | property key => exact .pure _
  | setProperty key value => exact .pure _
  | removeProperty key => exact .pure _
  | setPayload content => exact .pure _
  | takePayload => exact .pure _
  | pause => exact .pure _
  | trip => exact .bind (.modify fun _ _ => rfl) fun _ => .pure _
  | run => exact .bind (fun old => (mirror_host h old).run x) fun _ => .pure _
  | resume => exact .bind (fun old => (mirror_host h old).resume x) fun _ => .pure _
  | cancel =>
    refine .bind (fun old => (mirror_host h old).cancel x) ?_
    rintro ⟨_ | _, y⟩
    · exact .pure _
    · exact .pure _
  | runChain choice =>
    refine .look (fun s => ?_) fun s old => ?_
    · cases s.chosenChain? x choice with
      | none => exact .pure _
      | some chain => exact .bind (fun old => (mirror_host h old).runChain chain x) fun _ => .pure _
    · cases choice <;> rfl

theorem unaware_withExchange (name : String)
    {operation : Exchange Handler → Doing (Reply × Exchange Handler)}
    (h : ∀ x, Unaware (operation x)) : Unaware (withExchange name operation) := by
  intro old
  refine .get_bind fun s => ?_
  have hsame : (s.after old).exchanges = s.exchanges := rfl
  simp only [hsame]
  cases Dict.find? name s.exchanges with
  | none => exact .pure _ _
  | some x =>
    refine .bind (.set rfl) fun _ => .bind (h x old) fun result => ?_
    exact .bind (.modify fun _ => rfl) fun _ => .pure _ _

theorem unaware_startOrResume (h : ∀ link x, Unaware (inner.invoke link x))
    (x : Exchange Handler) : Unaware (startOrResume inner x) :=
  fun old => .ite ((mirror_host h old).resume x) ((mirror_host h old).run x)

theorem unaware_behind (h : ∀ link x, Unaware (inner.invoke link x)) (gate : Gate)
    (x : Exchange Handler) : Unaware (behind inner gate x) := by
  have hdriving : Unaware (driving inner x) :=
    .bind (unaware_startOrResume h x) fun _ => .pure _
  cases gate with
  | direct => exact hdriving
  | pipeline => exact .bind hdriving fun _ => .bind (.modify fun _ _ => rfl) fun _ => .pure _

theorem unaware_dispatch (h : ∀ link x, Unaware (inner.invoke link x)) (gate : Gate)
    (x : Exchange Handler) : Unaware (dispatch inner gate x) := by
  refine .look (fun s => ?_) fun _ _ => rfl
  cases s.permits gate with
  | zero => exact .bind (.modify fun _ _ => rfl) fun _ => .bind (unaware_record _) fun _ => .pure _
  | succ free =>
    refine .bind (.modify fun _ _ => rfl) fun _ => .bind (unaware_record _) fun _ => ?_
    refine .bind (unaware_behind h gate x) fun handed => ?_
    exact .bind (.modify fun _ _ => rfl) fun _ => .bind (unaware_record _) fun _ => .pure _

theorem unaware_dispatchNamed (h : ∀ link x, Unaware (inner.invoke link x)) (gate : Gate)
    (name : String) : Unaware (dispatchNamed inner gate name) := by
  refine unaware_withExchange name fun x => .bind (unaware_dispatch h gate x) fun handed => ?_
  exact .look (fun _ => .pure _) fun _ _ => rfl

/-! ### Everything -/

/-- All that requests are made of is unaware of the past, if programs are. -/
theorem pervades_unaware (hinvoke : ∀ link x, Unaware (inner.invoke link x))
    (hcarryOut : ∀ procedure, Unaware (inner.carryOut procedure)) :
    PervadesAll fun _ act => Unaware (act inner) where
  pure := .pure
  bind := .bind
  look hnext hsame := .look hnext fun s old => congrFun (hsame s old) inner
  notes _ := unaware_record _
  trips _ := .modify fun _ _ => rfl
  opens _ _ _ _ _ _ := .modify fun _ _ => rfl
  holds _ _ := .modify fun _ _ => rfl
  asks _ := unaware_change _
  changes _ := unaware_change _
  declares _ _ _ := unaware_take _
  registers _ := unaware_take _
  connects _ _ := .modify fun _ _ => rfl
  resolvesAll := unaware_take _
  setsUp := unaware_initModule hcarryOut
  engages := unaware_engage hcarryOut
  carriesOut := hcarryOut
  operates name op := unaware_withExchange name (unaware_performOn hinvoke op)
  dispatches := unaware_dispatchNamed hinvoke

/-- **Programs are unaware of the past**, however deep they are nested. -/
theorem unaware_nested (depth : Nat) :
    (∀ link x, Unaware ((nested depth).invoke link x)) ∧
      ∀ procedure, Unaware ((nested depth).carryOut procedure) := by
  induction depth with
  | zero => exact ⟨fun _ _ _ => .throw _ _, fun _ _ => .throw _ _⟩
  | succ depth ih =>
    obtain ⟨hinvoke, hcarryOut⟩ := ih
    have hperform := (pervades_unaware hinvoke hcarryOut).perform
    refine ⟨fun link x => .bind (unaware_record _) fun _ old => ?_, fun procedure old => ?_⟩
    · refine .program_beside (fun ask y => ?_) link.body x
      cases ask with
      | own op => exact unaware_performOn hinvoke op y old
      | request request => exact .bind (hperform request old) fun _ => .pure _ _
    · exact .program (fun request => hperform request old) procedure

/-- **Requests** are unaware of the past. -/
theorem unaware_perform (depth : Nat) (request : Request) :
    Unaware (perform (nested depth) request) := by
  obtain ⟨hinvoke, hcarryOut⟩ := unaware_nested depth
  exact (pervades_unaware hinvoke hcarryOut).perform request

theorem Unaware.run_ok {act : Doing α} (h : Unaware act) {a : α}
    (hrun : act.run s = .ok (a, t)) (old : List Event) :
    act.run (s.after old) = .ok (a, t.after old) := by
  rw [← h old s, hrun]
  rfl

/-- A session with another past tells the same from then on. -/
theorem Unaware.run_after {act : Doing α} (h : Unaware act) (s : Session) (old : List Event) :
    act.run { s with journal := old } =
      (act.run { s with journal := [] }).map fun result => (result.1, result.2.after old) :=
  (h old { s with journal := [] }).symm

end Session

end ExchangePipeline
