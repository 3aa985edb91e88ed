/-
  ExchangePipeline/Proofs/Session/Histories.lean
  ==============================================
  **What is called in the life of a deployment.**

  Two moments in the life of a deployment are joined by what has been called between
  them (`History`): calls return with their replies, setups of modules begin and end,
  so that what their programs call stands between, and whoever walks an exchange asks
  for its chains.

  One call either counts and then raises the generation by one, or it extends the
  deployment and leaves the chains alone (`called_of_perform`).  So the generation
  tells how often chains may have changed (`History.generation_eq`), and where nothing
  counts they have not (`History.extends`).
-/
import ExchangePipeline.Proofs.Deployment.Extension
import ExchangePipeline.Proofs.Session.Refusals

namespace ExchangePipeline

open Session

/-- The calls that count as changes: a module is engaged that was not, or engaged no longer, a
    handler or the phases are declared. -/
def countsAsChange : Request × Reply → Bool
  | (.engage _ _, .flag added) => added
  | (.disengage _ _, .flag removed) => removed
  | (.addHandler _ _ _, .done) => true
  | (.declarePhases _, .done) => true
  | _ => false

namespace Deployment

variable {d e f : Deployment}

/-! ### Histories -/

/-- What has been called between two moments, in the order in which the calls returned.  A call
    stands at the moment when it does its work, after the setup that it may have caused; so at that
    moment it runs no outside code. -/
inductive History (d : Deployment) : List (Request × Reply) → Deployment → Prop where
  | now : History d [] d
  | called {calls : List (Request × Reply)} {s t : Session} {request : Request} {reply : Reply}
      (earlier : History d calls s.deployment) (configures : request.isConfiguration = true)
      (performs : (perform (nested 0) request).run s = .ok (reply, t)) :
      History d (calls ++ [(request, reply)]) t.deployment
  /-- An engagement is refused before it is tried, because of its names or because the setup that
      it has caused has failed. -/
  | refuses {calls : List (Request × Reply)} {e : Deployment} (earlier : History d calls e)
      (module : String) (scope : Scope) (refusal : Refusal) :
      History d (calls ++ [(.engage module scope, .refused refusal)]) e
  /-- A request that configures nothing has done what it has to do. -/
  | returns {calls : List (Request × Reply)} {e : Deployment} {request : Request}
      (earlier : History d calls e) (other : request.isConfiguration = false) (reply : Reply) :
      History d (calls ++ [(request, reply)]) e
  | setupBegins {calls : List (Request × Reply)} {e : Deployment} {name : String}
      {m : RegisteredModule} (earlier : History d calls e)
      (registered : e.module? name = some m) (pending : m.status = .pending) :
      History d calls (e.beginInit name)
  | setupEnds {calls : List (Request × Reply)} {e : Deployment} {name : String}
      {m : RegisteredModule} (earlier : History d calls e) (status : ModuleStatus)
      (registered : e.module? name = some m) (running : m.status = .running) :
      History d calls (e.endInit name status)
  /-- A walk is given a chain, or all chains are brought into the cache. -/
  | asks {calls : List (Request × Reply)} {e f : Deployment} {key : ChainKey}
      {chain : Chain Handler} (earlier : History d calls e)
      (answered : e.chain key = .ok (chain, f)) : History d calls f
  /-- A side of a transport is registered. -/
  | connects {calls : List (Request × Reply)} {e : Deployment} (earlier : History d calls e)
      (role : TransportRole) (t : RegisteredTransport) :
      History d calls (e.registerTransport role t)

theorem History.trans {calls more : List (Request × Reply)} (h : History d calls e)
    (h' : History e more f) : History d (calls ++ more) f := by
  induction h' with
  | now =>
    rw [List.append_nil]
    exact h
  | called _ configures performs ih =>
    rw [← List.append_assoc]
    exact .called ih configures performs
  | refuses _ module scope refusal ih =>
    rw [← List.append_assoc]
    exact .refuses ih module scope refusal
  | returns _ other reply ih =>
    rw [← List.append_assoc]
    exact .returns ih other reply
  | setupBegins _ registered pending ih => exact .setupBegins ih registered pending
  | setupEnds _ status registered running ih => exact .setupEnds ih status registered running
  | asks _ answered ih => exact .asks ih answered
  | connects _ role t ih => exact .connects ih role t

/-! ### One call -/

/-- What a call makes of a deployment: it counts and raises the generation, or it extends it. -/
structure Called (call : Request × Reply) (d e : Deployment) : Prop where
  counted : countsAsChange call = true → e.generation = d.generation + 1
  uncounted : countsAsChange call = false → d.Extends e

theorem Called.of_extends {call : Request × Reply} (hcall : countsAsChange call = false)
    (h : d.Extends e) : Called call d e where
  counted hcounts := by
    rw [hcall] at hcounts
    cases hcounts
  uncounted _ := h

theorem Called.of_counts {call : Request × Reply} (hcall : countsAsChange call = true)
    (h : e.generation = d.generation + 1) : Called call d e where
  counted _ := h
  uncounted hcounts := by
    rw [hcall] at hcounts
    cases hcounts

variable {s t : Session} {request : Request} {reply : Reply}

/-- A step that is refused extends the deployment, being none. -/
theorem called_of_change {α : Type} {step : Deployment → Except ConfigError (α × Deployment)}
    {answer : α → Reply} {result : Except ConfigError α}
    (hchange : (change step).run s = .ok (result, t))
    (hrefused : ∀ error, countsAsChange (request, .refused (.config error)) = false)
    (hstep : ∀ a e, step s.deployment = .ok (a, e) → Called (request, answer a) s.deployment e) :
    Called (request, Session.reply answer result) s.deployment t.deployment := by
  obtain ⟨error, rfl, rfl⟩ | ⟨a, e, rfl, hok, rfl⟩ := change_cases hchange
  · exact .of_extends (hrefused error) (.refl _)
  · exact hstep a e hok

theorem called_of_changeOnly {step : Deployment → Except ConfigError Deployment}
    {result : Except ConfigError Unit} (hchange : (changeOnly step).run s = .ok (result, t))
    (hrefused : ∀ error, countsAsChange (request, .refused (.config error)) = false)
    (hstep : ∀ e, step s.deployment = .ok e → Called (request, .done) s.deployment e) :
    Called (request, Session.reply (fun _ => .done) result) s.deployment t.deployment := by
  refine called_of_change hchange hrefused fun _ e hmapped => ?_
  have hmap : (step s.deployment).map (fun d => ((), d)) = .ok ((), e) := hmapped
  cases hresult : step s.deployment with
  | error error =>
    rw [hresult] at hmap
    cases hmap
  | ok e' =>
    rw [hresult] at hmap
    cases hmap
    exact hstep e hresult

theorem called_engage {module : String} {scope : Scope}
    (hrun : (perform (nested 0) (.engage module scope)).run s = .ok (reply, t)) :
    Called (.engage module scope, reply) s.deployment t.deployment := by
  obtain ⟨result, _, hengage, hreply⟩ := run_bind_ok.1 hrun
  cases hreply
  -- no setup can have been run, so the session is as it was before the engagement is tried
  have hsetup : ∀ {outcome u}, (initModule (nested 0) module).run s = .ok (outcome, u) → u = s := by
    intro outcome u hinit
    obtain ⟨-, -, rfl⟩ | ⟨-, -, rfl⟩ | ⟨verdict, ⟨m, u, -, -, hcarry, -⟩, -⟩ :=
      initModule_cases hinit
    · rfl
    · rfl
    · cases hcarry
  obtain ⟨⟨error, rfl⟩, rfl | ⟨error', hinit⟩⟩ | ⟨u, answer, e, hinit, htried, rfl, rfl⟩ :=
    engage_cases hengage
  · exact .of_extends rfl (.refl _)
  · rw [hsetup hinit]
    exact .of_extends rfl (.refl _)
  · obtain rfl := hsetup hinit
    cases answer with
    | error error =>
      rw [engage_error htried]
      exact .of_extends rfl (.refl _)
    | ok added =>
      obtain ⟨id, -, ⟨rfl, rfl, -⟩ | ⟨rfl, tree, -, -, rfl⟩⟩ := engage_ok htried
      · exact .of_extends rfl (.refl _)
      · exact .of_counts rfl rfl

/-- **One call** counts, or leaves alone what chains are made of. -/
theorem called_of_perform (hd : s.deployment.Coherent)
    (hconfigures : request.isConfiguration = true)
    (hrun : (perform (nested 0) request).run s = .ok (reply, t)) :
    Called (request, reply) s.deployment t.deployment := by
  obtain ⟨root, hroot, hkind⟩ := hd.tree.root_kind
  cases request with
  | addService name =>
    obtain ⟨result, _, hchange, hreply⟩ := run_bind_ok.1 hrun
    cases hreply
    refine called_of_change hchange (fun _ => rfl) fun id e hstep => ?_
    obtain ⟨⟨node, tree⟩, hadd, hstep⟩ := except_bind_ok.1 hstep
    cases hstep
    exact .of_extends rfl (.attach hadd rfl rfl (fun _ _ hm => hm) rfl rfl)
  | addOperation service name =>
    obtain ⟨result, _, hchange, hreply⟩ := run_bind_ok.1 hrun
    cases hreply
    refine called_of_change hchange (fun _ => rfl) fun id e hstep => ?_
    obtain ⟨⟨node, tree⟩, hadd, hstep⟩ := except_bind_ok.1 hstep
    cases hstep
    exact .of_extends rfl (.addOperation hadd)
  | addTransport name =>
    obtain ⟨result, _, hchange, hreply⟩ := run_bind_ok.1 hrun
    cases hreply
    refine called_of_change hchange (fun _ => rfl) fun id e hstep => ?_
    obtain ⟨⟨node, tree⟩, hadd, hstep⟩ := except_bind_ok.1 hstep
    cases hstep
    exact .of_extends rfl (.attach hadd rfl rfl (fun _ _ hm => hm) rfl rfl)
  | addParameter node parameter =>
    obtain ⟨result, _, hchange, hreply⟩ := run_bind_ok.1 hrun
    cases hreply
    refine called_of_changeOnly hchange (fun _ => rfl) fun e hstep => ?_
    cases hadd : s.deployment.tree.addParameter node parameter with
    | error error =>
      rw [hadd] at hstep
      cases hstep
    | ok tree =>
      rw [hadd] at hstep
      cases hstep
      exact .of_extends rfl (.addParameter hadd)
  | registerModule module =>
    obtain ⟨result, _, hregister, hreply⟩ := run_bind_ok.1 hrun
    cases hreply
    obtain ⟨answer, _, htake, hnotes⟩ := run_bind_ok.1 hregister
    obtain ⟨e, hstep, rfl⟩ := take_ok htake
    cases answer with
    | error error =>
      cases hnotes
      exact .of_extends rfl (.registerModule hstep)
    | ok id =>
      cases hnotes
      exact .of_extends rfl (.registerModule hstep)
  | engage module scope => exact called_engage hrun
  | disengage module scope =>
    obtain ⟨result, _, hchange, hreply⟩ := run_bind_ok.1 hrun
    cases hreply
    refine called_of_change hchange (fun _ => rfl) fun removed e hstep => ?_
    obtain ⟨id, -, ⟨rfl, rfl, -⟩ | ⟨rfl, tree, -, rfl⟩⟩ := disengage_ok hstep
    · exact .of_extends rfl (.refl _)
    · exact .of_counts rfl rfl
  | addHandler scope flow link =>
    obtain ⟨result, _, htake, hreply⟩ := run_bind_ok.1 hrun
    cases hreply
    obtain ⟨e, hstep, rfl⟩ := take_ok htake
    cases result with
    | error error =>
      refine .of_extends rfl ?_
      rw [addHandler_error hd.declared_nonempty hstep]
      exact .refl _
    | ok done =>
      obtain ⟨id, -, -, rfl⟩ := addHandler_ok hstep
      exact .of_counts rfl rfl
  | declarePhases order =>
    obtain ⟨result, _, hchange, hreply⟩ := run_bind_ok.1 hrun
    cases hreply
    refine called_of_changeOnly hchange (fun _ => rfl) fun e hstep => ?_
    obtain ⟨-, rfl⟩ := declarePhases_ok hstep
    exact .of_counts rfl rfl
  | chain service operation flow =>
    obtain ⟨result, _, hchange, hreply⟩ := run_bind_ok.1 hrun
    cases hreply
    exact called_of_change hchange (fun _ => rfl) fun chain e hstep =>
      .of_extends rfl (.chain hstep)
  | resolveAll =>
    obtain ⟨result, _, htake, hreply⟩ := run_bind_ok.1 hrun
    cases hreply
    have huncounted : countsAsChange (.resolveAll, Session.reply .count result) = false := by
      cases result <;> rfl
    obtain ⟨e, hstep, rfl⟩ := take_ok htake
    cases hstep
    exact .of_extends huncounted (.cacheAll _ _)
  | scopeNode => cases hrun; exact .of_extends rfl (.refl _)
  | moduleNode => cases hrun; exact .of_extends rfl (.refl _)
  | services => cases hrun; exact .of_extends rfl (.refl _)
  | operations => cases hrun; exact .of_extends rfl (.refl _)
  | parameter => cases hrun; exact .of_extends rfl (.refl _)
  | isLocked => cases hrun; exact .of_extends rfl (.refl _)
  | engaged => cases hrun; exact .of_extends rfl (.refl _)
  | phaseOrder => cases hrun; exact .of_extends rfl (.refl _)
  | cachedChain => cases hrun; exact .of_extends rfl (.refl _)
  | _ => cases hconfigures

/-! ### Histories of calls -/

variable {calls : List (Request × Reply)}

/-- Requests that configure nothing do not count. -/
theorem countsAsChange_of_other (hother : request.isConfiguration = false) (reply : Reply) :
    countsAsChange (request, reply) = false := by
  cases request with
  | engage module scope => cases hother
  | disengage module scope => cases hother
  | addHandler scope flow link => cases hother
  | declarePhases order => cases hother
  | _ => rfl

/-- What happens in a history are steps. -/
theorem History.steps (h : History d calls e) : Relation.ReflTransGen Step d e := by
  induction h with
  | now => exact .refl
  | @called _ s t request reply _ _ performs ih =>
    exact ih.trans (keeps_perform (keeping_nested 0) request s reply t performs).moves.steps
  | refuses _ _ _ _ ih => exact ih
  | returns _ _ _ ih => exact ih
  | setupBegins _ registered pending ih => exact ih.tail (.initBegins registered pending)
  | setupEnds _ status registered running ih => exact ih.tail (.initEnds status registered running)
  | asks _ answered ih => exact ih.tail (.chain answered)
  | connects _ role t ih => exact ih.tail (.registerTransport role t)

theorem ofNat_countP_concat (call : Request × Reply) (calls : List (Request × Reply)) :
    UInt64.ofNat ((calls ++ [call]).countP countsAsChange) =
      UInt64.ofNat (calls.countP countsAsChange) + if countsAsChange call then 1 else 0 := by
  rw [List.countP_append, List.countP_singleton]
  split
  · exact UInt64.ofNat_add _ _
  · simp

theorem ofNat_countP_concat_uncounted {call : Request × Reply} (h : countsAsChange call = false)
    (calls : List (Request × Reply)) :
    UInt64.ofNat ((calls ++ [call]).countP countsAsChange) =
      UInt64.ofNat (calls.countP countsAsChange) := by
  rw [ofNat_countP_concat, h, if_neg Bool.false_ne_true, UInt64.add_zero]

/-- **The generation counts changes**: it is raised by one with each call that counts. -/
theorem History.generation_eq (h : History d calls e) (hd : d.Coherent) :
    e.generation = d.generation + UInt64.ofNat (calls.countP countsAsChange) := by
  induction h with
  | now => simp
  | @called calls s t request reply earlier configures performs ih =>
    have hcalled := called_of_perform (hd.steps earlier.steps) configures performs
    cases hcounts : countsAsChange (request, reply) with
    | true =>
      rw [ofNat_countP_concat, hcalled.counted hcounts, ih, UInt64.add_assoc, hcounts, if_pos rfl]
    | false =>
      rw [ofNat_countP_concat_uncounted hcounts, (hcalled.uncounted hcounts).generation_eq, ih]
  | refuses _ _ _ _ ih => rw [ofNat_countP_concat_uncounted rfl, ih]
  | returns _ other reply ih =>
    rw [ofNat_countP_concat_uncounted (countsAsChange_of_other other reply), ih]
  | setupBegins _ _ _ ih => exact ih
  | setupEnds _ _ _ _ ih => exact ih
  | asks _ answered ih => rw [(Extends.chain answered).generation_eq, ih]
  | @connects calls e _ role t ih => rw [(Extends.registerTransport e role t).generation_eq, ih]

/-- **Where nothing counts**, nothing that chains are made of has changed. -/
theorem History.extends (h : History d calls e) (hd : d.Coherent)
    (hnone : calls.countP countsAsChange = 0) : d.Extends e := by
  induction h with
  | now => exact .refl d
  | @called calls s t request reply earlier configures performs ih =>
    rw [List.countP_append, Nat.add_eq_zero_iff, List.countP_singleton] at hnone
    have huncounted : countsAsChange (request, reply) = false := by simpa using hnone.2
    have hcalled := called_of_perform (hd.steps earlier.steps) configures performs
    exact (ih hnone.1).trans (hcalled.uncounted huncounted)
  | refuses _ _ _ _ ih =>
    rw [List.countP_append, Nat.add_eq_zero_iff] at hnone
    exact ih hnone.1
  | returns _ _ _ ih =>
    rw [List.countP_append, Nat.add_eq_zero_iff] at hnone
    exact ih hnone.1
  | setupBegins _ _ _ ih => exact (ih hnone).trans (.updateModule _ _ fun _ => rfl)
  | setupEnds _ _ _ _ ih => exact (ih hnone).trans (.updateModule _ _ fun _ => rfl)
  | asks _ answered ih => exact (ih hnone).trans (.chain answered)
  | connects _ role t ih => exact (ih hnone).trans (.registerTransport _ role t)

/-! ### The stamp -/

/-- The generation is a version stamp for two moments with these calls between them. -/
structure Stamped (d : Deployment) (calls : List (Request × Reply)) (e : Deployment) : Prop where
  /-- It has grown, modulo 2^64, by the number of the calls that count as changes. -/
  counts : e.generation - d.generation = UInt64.ofNat (calls.countP countsAsChange)
  /-- If there are none, no chain is another one. -/
  keepsChains : calls.countP countsAsChange = 0 → d.KeepsChains e

theorem History.stamped (h : History d calls e) (hd : d.Coherent) : Stamped d calls e where
  counts := by rw [h.generation_eq hd, UInt64.add_comm, UInt64.add_sub_cancel]
  keepsChains hnone := (h.extends hd hnone).keepsChains hd (hd.steps h.steps)

end Deployment

end ExchangePipeline
