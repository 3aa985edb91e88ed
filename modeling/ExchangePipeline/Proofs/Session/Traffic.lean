/-
  ExchangePipeline/Proofs/Session/Traffic.lean
  ============================================
  **Calls on the exchanges of one session, in turns.**

  Calls on several exchanges are made through one session, which turns from one to
  another between any two strides.  Each thing that is done is about the exchange of
  a name: a call begins, the call that is under way goes on, or cancellation is
  requested (`Traffic.act`).  An exchange is at rest in the session, or it is taken
  out and the call on it stands somewhere (`Traffic.Place`).

  Where all handlers are inward, what is done about a name takes place there
  (`Traffic.Shifts`), and depends on nothing but that place, the configuration, and
  whether cancellation of this exchange has been requested
  (`Traffic.Secluded.act`).
-/
import ExchangePipeline.Proofs.Session.Strides

namespace ExchangePipeline

open Session

/-! ### Traffic -/

/-- A session, and where the calls stand that are under way on its exchanges. -/
structure Traffic where
  session : Session
  underWay : Dict Standing

/-- What can be done about the exchange of a name. -/
inductive Deed where
  /-- An operation on it begins. -/
  | call (op : ExchangeOp)
  /-- The call that is under way on it goes on by a stride. -/
  | goOn
  /-- Its cancellation is requested. -/
  | trip

namespace Session

def withExchanges (exchanges : Dict (Exchange Handler)) (s : Session) : Session :=
  { s with exchanges }

/-- The exchange that an operation is performed on, if it comes to that.  A chain that is not held
    is missed first. -/
def called? (s : Session) (name : String) : ExchangeOp → Option (Exchange Handler)
  | .runChain (.held chain) =>
    if (Dict.find? chain s.heldChains).isNone then none else Dict.find? name s.exchanges
  | _ => Dict.find? name s.exchanges

end Session

namespace Traffic

/-- A request that is performed at once. -/
def ask (depth : Nat) (request : Request) (p : Traffic) : Except Halt (Option Reply × Traffic) :=
  ((perform (nested (depth + 1)) request).run p.session).map fun result =>
    (some result.1, { p with session := result.2 })

/-- Keeps where the call on the exchange of a name stands.  If it is over, it is answered, and the
    exchange is put back. -/
def settle (name : String) (underWay : Dict Standing) (s : Session) :
    Standing → Option Reply × Traffic
  | .finished reply x =>
    (some reply, ⟨s.withExchanges (Dict.insert name x s.exchanges), Dict.erase name underWay⟩)
  | standing => (none, ⟨s, Dict.insert name standing underWay⟩)

/-- Does something about the exchange of a name, with handlers nested to a depth.  While a call on
    it is under way, the exchange is taken out. -/
def act (depth : Nat) (name : String) (deed : Deed) (p : Traffic) :
    Except Halt (Option Reply × Traffic) :=
  match deed with
  | .call op =>
    match p.session.called? name op with
    | none => p.ask depth (.exchange name op)
    | some x =>
      ((Standing.begin depth op x).run
        (p.session.withExchanges (Dict.erase name p.session.exchanges))).map fun result =>
          settle name p.underWay result.2 result.1
  | .goOn =>
    match Dict.find? name p.underWay with
    | none => .ok (none, p)
    | some standing =>
      ((standing.goOn depth).run p.session).map fun result =>
        settle name p.underWay result.2 result.1
  | .trip => p.ask depth (.trip name)

/-- Does one thing after the other, and gathers the answers with the names that they are about. -/
def run (depth : Nat) : List (String × Deed) → Traffic →
    Except Halt (List (String × Reply) × Traffic)
  | [], p => .ok ([], p)
  | (name, deed) :: rest, p => do
    let (reply, q) ← p.act depth name deed
    let (talk, r) ← run depth rest q
    return ((reply.map (name, ·)).toList ++ talk, r)

/-! ### Places -/

/-- Where the exchange of a name is: at rest, under way, or neither. -/
structure Place where
  resting : Option (Exchange Handler)
  underWay : Option Standing

def placeOf (p : Traffic) (name : String) : Place :=
  ⟨Dict.find? name p.session.exchanges, Dict.find? name p.underWay⟩

/-- Where the exchange is when a call on it stands somewhere. -/
def placeWhen (resting : Option (Exchange Handler)) : Standing → Place
  | .finished _ x => ⟨some x, none⟩
  | standing => ⟨resting, some standing⟩

/-- The exchange at a place is that of a number, and its handlers are inward. -/
structure Place.Fits (id : Nat) (place : Place) : Prop where
  resting : ∀ x, place.resting = some x → x.id = id ∧ InwardExchange x
  underWay : ∀ standing, place.underWay = some standing → standing.Fits id

/-- **The exchanges keep to themselves**: all handlers are inward, and names share no exchange. -/
structure Secluded (p : Traffic) : Prop where
  serving : p.session.Serving
  placed : ∀ name id, Dict.find? name p.session.handles = some id → (p.placeOf name).Fits id
  absent : ∀ name, Dict.find? name p.session.handles = none → p.placeOf name = ⟨none, none⟩
  apart : ∀ name other id, Dict.find? name p.session.handles = some id →
    Dict.find? other p.session.handles = some id → name = other
  fresh : ∀ name id, Dict.find? name p.session.handles = some id → id < p.session.nextExchange

/-- Two traffics with the same exchange in the same place, under the same configuration.  What
    their caches hold, and what there is beside that exchange, may be anything. -/
structure AlikeFor (name : String) (id : Nat) (p p' : Traffic) : Prop where
  secluded : p.Secluded
  secluded' : p'.Secluded
  handle : Dict.find? name p.session.handles = some id
  handle' : Dict.find? name p'.session.handles = some id
  place : p'.placeOf name = p.placeOf name
  session : p.session.Alike id p'.session

variable {depth id : Nat} {name other : String} {deed : Deed} {effect : Effect} {place : Place}
  {p p' q q' : Traffic} {s t : Session}

theorem AlikeFor.refl (h : p.Secluded) (hid : Dict.find? name p.session.handles = some id) :
    p.AlikeFor name id p :=
  ⟨h, h, hid, hid, rfl, .refl h.serving id⟩

/-! ### What a deed does -/

/-- What has been done took place at a name, with an effect on the exchange of its number. -/
structure Shifts (name : String) (id : Nat) (effect : Effect) (place : Place) (p q : Traffic) :
    Prop where
  session : (p.session.withExchanges q.session.exchanges).Affected id effect q.session
  here : q.placeOf name = place
  elsewhere : ∀ other, other ≠ name → q.placeOf other = p.placeOf other

theorem serving_withExchanges (h : s.Serving) (exchanges : Dict (Exchange Handler)) :
    (s.withExchanges exchanges).Serving :=
  ⟨h.deployed, h.coherent, h.inward, h.held⟩

theorem affected_withExchanges (h : s.Affected id effect t) (exchanges : Dict (Exchange Handler)) :
    (s.withExchanges exchanges).Affected id effect (t.withExchanges exchanges) where
  source := h.source
  coherent := h.coherent
  configuration := h.configuration
  exchanges := rfl
  handles := h.handles
  nextExchange := h.nextExchange
  heldChains := h.heldChains
  tripped := h.tripped
  invoked := h.invoked

theorem alike_withExchanges (h : s.Alike id t) (exchanges exchanges' : Dict (Exchange Handler)) :
    (s.withExchanges exchanges).Alike id (t.withExchanges exchanges') :=
  ⟨serving_withExchanges h.serving _, serving_withExchanges h.serving' _, h.configuration,
    h.heldChains, h.tripped⟩

theorem Shifts.stays (name : String) (id : Nat) (p : Traffic) :
    p.Shifts name id {} (p.placeOf name) p :=
  ⟨.refl id _, rfl, fun _ _ => rfl⟩

theorem Shifts.handles (h : p.Shifts name id effect place q) :
    q.session.handles = p.session.handles :=
  h.session.handles

theorem Shifts.secluded (h : p.Shifts name id effect place q) (hp : p.Secluded)
    (hid : Dict.find? name p.session.handles = some id) (hplace : place.Fits id) : q.Secluded where
  serving := h.session.serving (serving_withExchanges hp.serving _)
  placed := by
    intro other j hj
    rw [h.handles] at hj
    by_cases hother : other = name
    · subst hother
      cases hj.symm.trans hid
      exact h.here ▸ hplace
    · exact h.elsewhere other hother ▸ hp.placed other j hj
  absent := by
    intro other hnone
    rw [h.handles] at hnone
    have hother : other ≠ name := by
      rintro rfl
      cases hnone.symm.trans hid
    exact (h.elsewhere other hother).trans (hp.absent other hnone)
  apart := h.handles ▸ hp.apart
  fresh := by
    intro other j hj
    rw [h.handles] at hj
    rw [h.session.nextExchange]
    exact hp.fresh other j hj

/-- The same shift leaves traffics alike that were alike. -/
theorem AlikeFor.shifts (h : p.AlikeFor name id p') (hplace : place.Fits id)
    (hq : p.Shifts name id effect place q) (hq' : p'.Shifts name id effect place q') :
    q.AlikeFor name id q' where
  secluded := hq.secluded h.secluded h.handle hplace
  secluded' := hq'.secluded h.secluded' h.handle' hplace
  handle := hq.handles ▸ h.handle
  handle' := hq'.handles ▸ h.handle'
  place := hq'.here.trans hq.here.symm
  session := (alike_withExchanges h.session _ _).affected hq.session hq'.session

theorem AlikeFor.id_ne {j : Nat} (h : p.AlikeFor name id p') (hother : name ≠ other)
    (hj : Dict.find? other p.session.handles = some j) : id ≠ j := by
  rintro rfl
  exact hother (h.secluded.apart name other id h.handle hj)

/-- A shift at another name makes no difference. -/
theorem AlikeFor.shiftsElsewhere {j : Nat} (h : p.AlikeFor name id p') (hother : name ≠ other)
    (hj : Dict.find? other p.session.handles = some j) (hplace : place.Fits j)
    (hq : p.Shifts other j effect place q) : q.AlikeFor name id p' where
  secluded := hq.secluded h.secluded hj hplace
  secluded' := h.secluded'
  handle := hq.handles ▸ h.handle
  handle' := h.handle'
  place := h.place.trans (hq.elsewhere name hother).symm
  session :=
    { serving := (hq.secluded h.secluded hj hplace).serving
      serving' := h.session.serving'
      configuration := hq.session.configuration.symm.trans h.session.configuration
      heldChains := h.session.heldChains.trans hq.session.heldChains.symm
      tripped := by
        have hflag := hq.session.tripped id
        rw [decide_eq_false (h.id_ne hother hj), Bool.and_false, Bool.or_false] at hflag
        exact h.session.tripped.trans hflag.symm }

theorem Shifts.invokedOn (h : p.Shifts name id effect place q) (j : Nat) :
    q.session.invokedOn j = p.session.invokedOn j ++ if j = id then effect.invoked else [] :=
  h.session.invoked j

theorem fits_placeWhen {resting : Option (Exchange Handler)} {standing : Standing}
    (hresting : ∀ x, resting = some x → x.id = id ∧ InwardExchange x)
    (hstanding : standing.Fits id) : (placeWhen resting standing).Fits id := by
  cases standing with
  | finished reply x =>
    exact ⟨fun y hy => by cases hy; exact hstanding, fun _ hnone => by cases hnone⟩
  | _ => exact ⟨hresting, fun other hother => by cases hother; exact hstanding⟩

theorem fits_nowhere (id : Nat) : Place.Fits id ⟨none, none⟩ :=
  ⟨fun _ hnone => (by cases hnone), fun _ hnone => (by cases hnone)⟩

/-- Keeping where a call stands is a shift, if the call has affected its exchange only. -/
theorem shifts_settle {exchanges : Dict (Exchange Handler)}
    (helsewhere : ∀ other, other ≠ name →
      Dict.find? other exchanges = Dict.find? other p.session.exchanges)
    (ht : (p.session.withExchanges exchanges).Affected id effect t) (standing : Standing) :
    p.Shifts name id effect (placeWhen (Dict.find? name exchanges) standing)
      (settle name p.underWay t standing).2 := by
  have hexchanges : t.exchanges = exchanges := ht.exchanges
  have hkept : p.Shifts name id effect ⟨Dict.find? name exchanges, some standing⟩
      ⟨t, Dict.insert name standing p.underWay⟩ := by
    refine ⟨?_, ?_, fun other hother => ?_⟩
    · rw [hexchanges]
      exact ht
    · rw [placeOf, hexchanges, Dict.find?_insert_self]
    · rw [placeOf, hexchanges, helsewhere other hother, Dict.find?_insert_of_ne hother]
      rfl
  cases standing with
  | finished reply x =>
    refine ⟨affected_withExchanges ht _, ?_, fun other hother => ?_⟩
    · rw [settle, placeOf, withExchanges, Dict.find?_insert_self, Dict.find?_erase_self]
      rfl
    · rw [settle, placeOf, withExchanges, Dict.find?_insert_of_ne hother, hexchanges,
        helsewhere other hother, Dict.find?_erase_of_ne hother]
      rfl
  | walking x => exact hkept
  | handling x link left y => exact hkept

/-! ### Deeds -/

theorem called?_eq (hheld : t.heldChains = s.heldChains)
    (hresting : Dict.find? name t.exchanges = Dict.find? name s.exchanges) (op : ExchangeOp) :
    t.called? name op = s.called? name op := by
  cases op with
  | runChain choice =>
    cases choice with
    | bound => exact hresting
    | held chain => rw [called?, called?, hheld, hresting]
  | _ => exact hresting

theorem find?_of_called? {op : ExchangeOp} {x : Exchange Handler}
    (h : s.called? name op = some x) : Dict.find? name s.exchanges = some x := by
  cases op with
  | runChain choice =>
    cases choice with
    | bound => exact h
    | held chain =>
      rw [called?] at h
      split at h
      · cases h
      · exact h
  | _ => exact h

theorem run_withExchange {x : Exchange Handler} (h : Dict.find? name s.exchanges = some x)
    (operation : Exchange Handler → Doing (Reply × Exchange Handler)) :
    (withExchange name operation).run s =
      ((operation x).run (s.withExchanges (Dict.erase name s.exchanges))).map fun result =>
        (result.1.1,
          result.2.withExchanges (Dict.insert name result.1.2 result.2.exchanges)) :=
  run_withExchange_resting h operation

/-- A chain that is not held is missed before the exchange is looked for. -/
theorem run_performOnNamed_held {inner : Inner} {chain : String} :
    (performOnNamed inner name (.runChain (.held chain))).run s =
      if (Dict.find? chain s.heldChains).isNone then .ok (.refused .noChain, s)
      else (withExchange name (performOn inner (.runChain (.held chain)))).run s := by
  simp only [performOnNamed, StateT.run_bind, StateT.run_get, pure_bind]
  split
  · rfl
  · rfl

theorem run_perform_of_called? {inner : Inner} {op : ExchangeOp} {x : Exchange Handler}
    (h : s.called? name op = some x) :
    (perform inner (.exchange name op)).run s = (withExchange name (performOn inner op)).run s := by
  cases op with
  | runChain choice =>
    cases choice with
    | bound => rfl
    | held chain =>
      rw [called?] at h
      split at h
      · cases h
      · rename_i hheld
        exact run_performOnNamed_held.trans (if_neg hheld)
  | _ => rfl

/-- An operation that no exchange is found for does nothing but say so. -/
theorem exists_reply_of_called?_none {op : ExchangeOp} (h : s.called? name op = none) :
    ∃ reply, ∀ {inner : Inner} {t : Session}, t.heldChains = s.heldChains →
      Dict.find? name t.exchanges = Dict.find? name s.exchanges →
      (perform inner (.exchange name op)).run t = .ok (reply, t) := by
  cases op with
  | runChain choice =>
    cases choice with
    | bound => exact ⟨_, fun _ hresting => run_withExchange_absent (hresting.trans h) _⟩
    | held chain =>
      rw [called?] at h
      split at h
      · rename_i hheld
        refine ⟨.refused .noChain, fun heq _ => run_performOnNamed_held.trans (if_pos ?_)⟩
        rwa [heq]
      · rename_i hheld
        refine ⟨.refused .noExchange, fun heq hresting => run_performOnNamed_held.trans ?_⟩
        rw [heq, if_neg hheld]
        exact run_withExchange_absent (hresting.trans h) _
  | _ => exact ⟨_, fun _ hresting => run_withExchange_absent (hresting.trans h) _⟩

/-- What a deed about a name comes to is the same in all traffics that are alike for it, and takes
    place there. -/
def ActsAlike (depth : Nat) (name : String) (id : Nat) (deed : Deed) (p : Traffic) : Prop :=
  ∃ reply effect place, place.Fits id ∧ ∀ p', p.AlikeFor name id p' →
    ∃ q', p'.act depth name deed = .ok (reply, q') ∧ p'.Shifts name id effect place q'

theorem settle_fst (name : String) (underWay underWay' : Dict Standing) (s s' : Session)
    (standing : Standing) :
    (settle name underWay s standing).1 = (settle name underWay' s' standing).1 := by
  cases standing <;> rfl

theorem actsAlike_call (h : p.Secluded) (hid : Dict.find? name p.session.handles = some id)
    (depth : Nat) (op : ExchangeOp) : p.ActsAlike depth name id (.call op) := by
  have hfits : (p.placeOf name).Fits id := h.placed name id hid
  have hresting : ∀ {p'}, p.AlikeFor name id p' →
      Dict.find? name p'.session.exchanges = Dict.find? name p.session.exchanges := fun hp' =>
    congrArg Place.resting hp'.place
  have hcalled : ∀ {p'}, p.AlikeFor name id p' →
      p'.session.called? name op = p.session.called? name op := fun hp' =>
    called?_eq hp'.session.heldChains (hresting hp') op
  cases hx : p.session.called? name op with
  | none =>
    obtain ⟨reply, hrun⟩ := exists_reply_of_called?_none hx
    refine ⟨some reply, {}, p.placeOf name, hfits, fun p' hp' => ⟨p', ?_, ?_⟩⟩
    · rw [Traffic.act, hcalled hp', hx, ask, hrun hp'.session.heldChains (hresting hp')]
      rfl
    · exact hp'.place ▸ .stays name id p'
  | some x =>
    obtain ⟨hxid, hinward⟩ := hfits.resting x (find?_of_called? hx)
    have hconfined := Standing.confined_begin depth op hinward
    rw [hxid] at hconfined
    obtain ⟨standing, effect, hstanding, hall⟩ := hconfined
      (p.session.withExchanges (Dict.erase name p.session.exchanges))
      (serving_withExchanges h.serving _)
    have hplace : (placeWhen none standing).Fits id :=
      fits_placeWhen (fits_nowhere id).resting hstanding
    refine ⟨(settle name [] p.session standing).1, effect, placeWhen none standing, hplace,
      fun p' hp' => ?_⟩
    obtain ⟨t, hrun, ht⟩ := hall _ (alike_withExchanges hp'.session _
      (Dict.erase name p'.session.exchanges))
    refine ⟨(settle name p'.underWay t standing).2, ?_, ?_⟩
    · rw [Traffic.act, hcalled hp', hx]
      dsimp only
      rw [hrun, settle_fst name [] p'.underWay p.session t]
      rfl
    · have hshifts :=
        shifts_settle (fun other hother => Dict.find?_erase_of_ne hother _) ht standing
      rwa [Dict.find?_erase_self] at hshifts

theorem actsAlike_goOn (h : p.Secluded) (hid : Dict.find? name p.session.handles = some id)
    (depth : Nat) : p.ActsAlike depth name id .goOn := by
  have hfits : (p.placeOf name).Fits id := h.placed name id hid
  have hunderWay : ∀ {p'}, p.AlikeFor name id p' →
      Dict.find? name p'.underWay = Dict.find? name p.underWay := fun hp' =>
    congrArg Place.underWay hp'.place
  cases hstanding : Dict.find? name p.underWay with
  | none =>
    refine ⟨none, {}, p.placeOf name, hfits, fun p' hp' => ⟨p', ?_, ?_⟩⟩
    · rw [Traffic.act, hunderWay hp', hstanding]
    · exact hp'.place ▸ .stays name id p'
  | some standing =>
    obtain ⟨next, effect, hnext, hall⟩ :=
      Standing.confined_goOn depth (hfits.underWay standing hstanding) p.session h.serving
    refine ⟨(settle name [] p.session next).1, effect,
      placeWhen (Dict.find? name p.session.exchanges) next, fits_placeWhen hfits.resting hnext,
      fun p' hp' => ?_⟩
    obtain ⟨t, hrun, ht⟩ := hall _ hp'.session
    refine ⟨(settle name p'.underWay t next).2, ?_, ?_⟩
    · rw [Traffic.act, hunderWay hp', hstanding]
      dsimp only
      rw [hrun, settle_fst name [] p'.underWay p.session t]
      rfl
    · have hresting : Dict.find? name p'.session.exchanges = Dict.find? name p.session.exchanges :=
        congrArg Place.resting hp'.place
      rw [← hresting]
      exact shifts_settle (fun _ _ => rfl) ht next

theorem actsAlike_trip (h : p.Secluded) (hid : Dict.find? name p.session.handles = some id)
    (depth : Nat) : p.ActsAlike depth name id .trip := by
  refine ⟨some .done, { trips := true }, p.placeOf name, h.placed name id hid, fun p' hp' =>
    ⟨{ p' with session := p'.session.trip id }, ?_, ?_⟩⟩
  · have hrun : (perform (nested (depth + 1)) (.trip name)).run p'.session =
        .ok (.done, p'.session.trip id) := by
      simp only [perform, StateT.run_bind, StateT.run_get, pure_bind, hp'.handle']
      rfl
    rw [Traffic.act, ask, hrun]
    rfl
  · exact ⟨affected_trip id _, hp'.place, fun _ _ => rfl⟩

/-- **What is done about a name** takes place there, and is the same in all traffics that are alike
    for it. -/
theorem Secluded.act (h : p.Secluded) (hid : Dict.find? name p.session.handles = some id)
    (depth : Nat) (deed : Deed) : p.ActsAlike depth name id deed := by
  cases deed with
  | call op => exact actsAlike_call h hid depth op
  | goOn => exact actsAlike_goOn h hid depth
  | trip => exact actsAlike_trip h hid depth

/-- About a name that there is no exchange of, nothing can be done. -/
theorem Secluded.act_absent (h : p.Secluded) (hnone : Dict.find? name p.session.handles = none)
    (depth : Nat) (deed : Deed) : ∃ reply, p.act depth name deed = .ok (reply, p) := by
  have hplace := h.absent name hnone
  have hresting : Dict.find? name p.session.exchanges = none := congrArg Place.resting hplace
  have hunderWay : Dict.find? name p.underWay = none := congrArg Place.underWay hplace
  cases deed with
  | call op =>
    have hcalled : p.session.called? name op = none := by
      cases hx : p.session.called? name op with
      | none => rfl
      | some x => cases hresting.symm.trans (find?_of_called? hx)
    obtain ⟨reply, hrun⟩ := exists_reply_of_called?_none hcalled
    refine ⟨some reply, ?_⟩
    rw [Traffic.act, hcalled, ask, hrun rfl rfl]
    rfl
  | goOn =>
    refine ⟨none, ?_⟩
    rw [Traffic.act, hunderWay]
  | trip =>
    have hrun : (perform (nested (depth + 1)) (.trip name)).run p.session =
        .ok (.refused .noExchange, p.session) := by
      simp only [perform, StateT.run_bind, StateT.run_get, pure_bind, hnone]
      rfl
    refine ⟨some (.refused .noExchange), ?_⟩
    rw [Traffic.act, ask, hrun]
    rfl

end Traffic

end ExchangePipeline
