/-
  ExchangePipeline/Proofs/Session/Independence.lean
  =================================================
  **Exchanges of one session do not interfere.**

  What is done about one name comes to the same in traffics that are alike for it, and
  makes no difference to any other name (`Traffic.Secluded.act_same`).  So a whole
  course of deeds comes to the same for a name as the deeds about it alone, whatever
  the cache holds (`Traffic.exchanges_independent`), by induction on what is done.

  A call that nobody comes between is the request for its operation
  (`Traffic.Secluded.exists_run_call`).  Exchanges that are opened on a deployment
  with inward handlers keep to themselves (`Traffic.Secluded.opened`).
-/
import ExchangePipeline.Proofs.Session.Traffic

namespace ExchangePipeline

open Session

namespace Dict

variable {α : Type}

theorem erase_insert (key : String) (value : α) (d : Dict α) :
    erase key (insert key value d) = erase key d := by
  induction d with
  | nil => simp [insert, erase]
  | cons pair rest ih =>
    obtain ⟨k, v⟩ := pair
    by_cases heq : key = k
    · simp [insert, erase, heq]
    · by_cases hlt : key < k
      · simp [insert, erase, heq, hlt]
      · simpa [insert, erase, heq, hlt, Ne.symm heq] using ih

theorem erase_of_absent {key : String} {d : Dict α} (h : find? key d = none) : erase key d = d := by
  induction d with
  | nil => rfl
  | cons pair rest ih =>
    obtain ⟨k, v⟩ := pair
    by_cases hk : k = key
    · simp [find?, hk] at h
    · simpa [erase, hk] using ih (by simpa [find?, hk] using h)

/-- What is stored under a key, and nothing else. -/
def only (key : String) (d : Dict α) : Dict α :=
  d.filter fun pair => pair.1 = key

theorem find?_only (key other : String) (d : Dict α) :
    find? other (only key d) = if other = key then find? key d else none := by
  induction d with
  | nil => simp [only]
  | cons pair rest ih =>
    obtain ⟨k, v⟩ := pair
    by_cases hk : k = key
    · subst hk
      by_cases hother : k = other
      · simp [only, find?, hother]
      · simpa [only, find?, hother, Ne.symm hother] using ih
    · simpa [only, find?, hk] using ih

end Dict

namespace Traffic

variable {depth id : Nat} {name other : String} {p p' q q' : Traffic} {s t : Session}

/-! ### One deed after the other -/

/-- Two courses that have come to the same for the exchange of a name, which had the same handlers
    invoked on it. -/
structure SameFor (name : String) (id : Nat) (p p' q q' : Traffic) : Prop where
  alike : q.AlikeFor name id q'
  invoked : ∃ links, q.session.invokedOn id = p.session.invokedOn id ++ links ∧
    q'.session.invokedOn id = p'.session.invokedOn id ++ links

theorem SameFor.refl (h : p.AlikeFor name id p') : SameFor name id p p' p p' :=
  ⟨h, [], (List.append_nil _).symm, (List.append_nil _).symm⟩

theorem SameFor.trans {r r' : Traffic} (h : SameFor name id p p' q q')
    (h' : SameFor name id q q' r r') : SameFor name id p p' r r' := by
  obtain ⟨links, hq, hq'⟩ := h.invoked
  obtain ⟨more, hr, hr'⟩ := h'.invoked
  refine ⟨h'.alike, links ++ more, ?_, ?_⟩
  · rw [hr, hq, List.append_assoc]
  · rw [hr', hq', List.append_assoc]

/-- **One deed.**  For the name that it is about it comes to the same in every traffic that is
    alike, and for all other names it may as well not be done. -/
theorem Secluded.act_same (h : p.Secluded) (depth : Nat) (name : String) (deed : Deed) :
    ∃ reply q, p.act depth name deed = .ok (reply, q) ∧ q.Secluded ∧
      (∀ id p', p.AlikeFor name id p' →
        ∃ q', p'.act depth name deed = .ok (reply, q') ∧ SameFor name id p p' q q') ∧
      ∀ other id p', other ≠ name → p.AlikeFor other id p' → SameFor other id p p' q p' := by
  cases hid : Dict.find? name p.session.handles with
  | none =>
    obtain ⟨reply, hact⟩ := h.act_absent hid depth deed
    refine ⟨reply, p, hact, h, fun id p' hp' => ?_, fun other id p' _ hp' => .refl hp'⟩
    cases hid.symm.trans hp'.handle
  | some j =>
    obtain ⟨reply, effect, place, hplace, hall⟩ := h.act hid depth deed
    obtain ⟨q, hact, hq⟩ := hall p (.refl h hid)
    refine ⟨reply, q, hact, hq.secluded h hid hplace, ?_, ?_⟩
    · intro id p' hp'
      cases hid.symm.trans hp'.handle
      obtain ⟨q', hact', hq'⟩ := hall p' hp'
      refine ⟨q', hact', hp'.shifts hplace hq hq', effect.invoked, ?_, ?_⟩
      · rw [hq.invokedOn, if_pos rfl]
      · rw [hq'.invokedOn, if_pos rfl]
    · intro other id p' hother hp'
      refine ⟨hp'.shiftsElsewhere hother hid hplace hq, [], ?_, (List.append_nil _).symm⟩
      rw [hq.invokedOn, if_neg (hp'.id_ne hother hid)]

theorem run_cons {reply : Option Reply} {deeds : List (String × Deed)}
    {talk : List (String × Reply)} (hact : p.act depth name deed = .ok (reply, q))
    {r : Traffic} (hrun : q.run depth deeds = .ok (talk, r)) :
    p.run depth ((name, deed) :: deeds) = .ok ((reply.map (name, ·)).toList ++ talk, r) := by
  rw [run, hact]
  show q.run depth deeds >>= _ = _
  rw [hrun]
  rfl

/-- **A whole course of deeds.** -/
theorem Secluded.run_same (h : p.Secluded) (depth : Nat) (deeds : List (String × Deed)) :
    ∃ talk q, p.run depth deeds = .ok (talk, q) ∧
      ∀ name id p', p.AlikeFor name id p' →
        ∃ q', p'.run depth (deeds.filter (·.1 = name)) = .ok (talk.filter (·.1 = name), q') ∧
          SameFor name id p p' q q' := by
  induction deeds generalizing p with
  | nil => exact ⟨[], p, rfl, fun name id p' hp' => ⟨p', rfl, .refl hp'⟩⟩
  | cons head rest ih =>
    obtain ⟨subject, deed⟩ := head
    obtain ⟨reply, q, hact, hq, hhere, helsewhere⟩ := h.act_same depth subject deed
    obtain ⟨talk, r, hrun, hrest⟩ := ih hq
    refine ⟨_, r, run_cons hact hrun, fun name id p' hp' => ?_⟩
    by_cases hname : subject = name
    · subst hname
      obtain ⟨q', hact', hsame⟩ := hhere id p' hp'
      obtain ⟨r', hrun', hsame'⟩ := hrest _ id q' hsame.alike
      refine ⟨r', ?_, hsame.trans hsame'⟩
      rw [List.filter_cons_of_pos (by simp), run_cons hact' hrun']
      cases reply <;> simp
    · have hsame := helsewhere name id p' (Ne.symm hname) hp'
      obtain ⟨r', hrun', hsame'⟩ := hrest name id p' hsame.alike
      refine ⟨r', ?_, hsame.trans hsame'⟩
      rw [List.filter_cons_of_neg (by simpa using hname), hrun']
      cases reply <;> simp [hname]

/-! ### Deeds that nobody comes between -/

theorem act_goOn {first next : Standing} {u : Session} {underWay : Dict Standing}
    (hstride : Standing.Stride depth (first, s) (next, u)) :
    act depth name .goOn ⟨s, Dict.insert name first underWay⟩ =
      .ok (settle name (Dict.insert name first underWay) u next) := by
  have hrun : (first.goOn depth).run s = .ok (next, u) := hstride
  rw [act, Dict.find?_insert_self]
  dsimp only
  rw [hrun]
  rfl

/-- The strides of a call, taken one after the other. -/
theorem exists_run_of_strides {first : Standing} {reply : Reply} {y : Exchange Handler}
    (hstrides : Standing.Strides depth (first, s) (.finished reply y, t))
    (underWay : Dict Standing) :
    ∃ n talk, run depth (List.replicate n (name, .goOn)) (settle name underWay s first).2 =
        .ok (talk, ⟨t.withExchanges (Dict.insert name y t.exchanges), Dict.erase name underWay⟩) ∧
      ((settle name underWay s first).1.map (name, ·)).toList ++ talk = [(name, reply)] := by
  generalize hp : (first, s) = p at hstrides
  induction hstrides using Relation.ReflTransGen.head_induction_on
    generalizing first s underWay with
  | refl =>
    cases hp
    exact ⟨0, [], rfl, rfl⟩
  | @head p q hstride hrest ih =>
    subst hp
    obtain ⟨next, u⟩ := q
    cases first with
    | finished answer x =>
      -- a call that is over goes on to where it is
      cases hstride
      exact ih underWay rfl
    | _ =>
      obtain ⟨n, talk, hrun, htalk⟩ := ih (Dict.insert name _ underWay) rfl
      rw [Dict.erase_insert] at hrun
      exact ⟨n + 1, _, run_cons (act_goOn hstride) hrun, htalk⟩

/-- **A call that nobody comes between** is the request for the operation. -/
theorem Secluded.exists_run_call (h : p.Secluded) (hfree : Dict.find? name p.underWay = none)
    (depth : Nat) (op : ExchangeOp) :
    ∃ reply t n, (perform (nested (depth + 1)) (.exchange name op)).run p.session = .ok (reply, t) ∧
      p.run depth ((name, .call op) :: List.replicate n (name, .goOn)) =
        .ok ([(name, reply)], { p with session := t }) := by
  cases hx : p.session.called? name op with
  | none =>
    obtain ⟨reply, hrun⟩ := exists_reply_of_called?_none hx
    have hact : p.act depth name (.call op) = .ok (some reply, p) := by
      rw [Traffic.act, hx, ask, hrun rfl rfl]
      rfl
    exact ⟨reply, p.session, 0, hrun rfl rfl, run_cons hact rfl⟩
  | some x =>
    have hresting := find?_of_called? hx
    have hinward : InwardExchange x := by
      cases hid : Dict.find? name p.session.handles with
      | none => cases hresting.symm.trans (congrArg Place.resting (h.absent name hid))
      | some id => exact ((h.placed name id hid).resting x hresting).2
    have hconfined := @confined_performOn depth x hinward op
    obtain ⟨⟨reply, y⟩, t, hrun⟩ := hconfined.exists_run
      (serving_withExchanges h.serving (Dict.erase name p.session.exchanges))
    obtain ⟨first, u, hbegin, hstrides⟩ := Standing.performOn_strides hrun
    obtain ⟨n, talk, hgoOn, htalk⟩ := exists_run_of_strides hstrides p.underWay
    refine ⟨reply, t.withExchanges (Dict.insert name y t.exchanges), n, ?_, ?_⟩
    · rw [run_perform_of_called? hx, run_withExchange hresting, hrun]
      rfl
    · rw [Dict.erase_of_absent hfree] at hgoOn
      rw [← htalk]
      refine run_cons ?_ hgoOn
      rw [Traffic.act, hx]
      dsimp only
      rw [hbegin]
      rfl

/-! ### Exchanges alone -/

/-- The exchange of a name alone, on a deployment. -/
def alone (name : String) (e : Deployment) (p : Traffic) : Traffic where
  session := { p.session with deployment := e, exchanges := Dict.only name p.session.exchanges }
  underWay := Dict.only name p.underWay

theorem placeOf_alone (name other : String) (e : Deployment) (p : Traffic) :
    (p.alone name e).placeOf other = if other = name then p.placeOf name else ⟨none, none⟩ := by
  rw [placeOf, alone, Dict.find?_only, Dict.find?_only]
  split <;> rfl

theorem Secluded.alone (h : p.Secluded) (name : String) {e : Deployment} (he : e.Coherent)
    (hsame : p.session.deployment.SameConfiguration e) : (p.alone name e).Secluded where
  serving := ⟨h.serving.deployed, he, hsame.inwardHandlers h.serving.inward, h.serving.held⟩
  placed := by
    intro other id hid
    rw [placeOf_alone]
    split
    · rename_i hother
      exact h.placed name id (hother ▸ hid)
    · exact fits_nowhere id
  absent := by
    intro other hnone
    rw [placeOf_alone]
    split
    · rename_i hother
      exact h.absent name (hother ▸ hnone)
    · rfl
  apart := h.apart
  fresh := h.fresh

theorem Secluded.alikeFor_alone (h : p.Secluded)
    (hid : Dict.find? name p.session.handles = some id) {e : Deployment} (he : e.Coherent)
    (hsame : p.session.deployment.SameConfiguration e) : p.AlikeFor name id (p.alone name e) where
  secluded := h
  secluded' := h.alone name he hsame
  handle := hid
  handle' := hid
  place := (placeOf_alone name name e p).trans (if_pos rfl)
  session := ⟨h.serving, (h.alone name he hsame).serving, hsame, rfl, rfl⟩

/-! ### Exchanges that are opened -/

theorem secluded_create {d : Deployment} (hd : d.Coherent) (hinward : d.InwardHandlers) :
    Secluded ⟨create .deployed d, []⟩ where
  serving := ⟨rfl, hd, hinward, fun _ _ hheld => by cases hheld⟩
  placed _ _ hid := by cases hid
  absent _ _ := rfl
  apart _ _ _ hid := by cases hid
  fresh _ _ hid := by cases hid

/-- An exchange is opened under a name. -/
def opened (name service operation : String) (direction : Flow) (payload : Option (List UInt8))
    (transport : Option TransportBinding) (p : Traffic) : Traffic :=
  { p with session := p.session.openExchange name service operation direction payload transport }

section

variable {service operation : String} {direction : Flow} {payload : Option (List UInt8)}
  {transport : Option TransportBinding}

theorem handle_opened (other : String) :
    Dict.find? other (p.opened name service operation direction payload transport).session.handles =
      if other = name then some p.session.nextExchange
      else Dict.find? other p.session.handles :=
  Dict.find?_insert name other _ _

theorem placeOf_opened_of_ne (hother : other ≠ name) :
    (p.opened name service operation direction payload transport).placeOf other =
      p.placeOf other :=
  congrArg (Place.mk · _) (Dict.find?_insert_of_ne hother _ _)

theorem placeOf_opened_self (hfree : Dict.find? name p.underWay = none) :
    (p.opened name service operation direction payload transport).placeOf name =
      ⟨some (.create p.session.nextExchange service operation direction payload transport),
        none⟩ := by
  have hresting := Dict.find?_insert_self name
    (.create p.session.nextExchange service operation direction payload transport)
    p.session.exchanges
  exact congr (congrArg Place.mk hresting) hfree

/-- Opening an exchange, also in place of one that is at rest, leaves all to themselves. -/
theorem Secluded.opened (h : p.Secluded) (hfree : Dict.find? name p.underWay = none) :
    (p.opened name service operation direction payload transport).Secluded where
  serving := ⟨h.serving.deployed, h.serving.coherent, h.serving.inward, h.serving.held⟩
  placed := by
    intro other id hid
    rw [handle_opened] at hid
    split at hid
    · rename_i hother
      subst hother
      cases hid
      rw [placeOf_opened_self hfree]
      refine ⟨fun x hx => ?_, (fits_nowhere _).underWay⟩
      cases hx
      exact ⟨rfl, fun chain hchain => by cases hchain⟩
    · rename_i hother
      rw [placeOf_opened_of_ne hother]
      exact h.placed other id hid
  absent := by
    intro other hnone
    rw [handle_opened] at hnone
    split at hnone
    · cases hnone
    · rename_i hother
      rw [placeOf_opened_of_ne hother]
      exact h.absent other hnone
  apart := by
    intro a b id ha hb
    rw [handle_opened] at ha hb
    split at ha <;> split at hb
    · rename_i ha' hb'
      exact ha'.trans hb'.symm
    · cases ha
      exact absurd (h.fresh b _ hb) (Nat.lt_irrefl _)
    · cases hb
      exact absurd (h.fresh a _ ha) (Nat.lt_irrefl _)
    · exact h.apart a b id ha hb
  fresh := by
    intro other id hid
    rw [handle_opened] at hid
    split at hid
    · cases hid
      exact Nat.lt_succ_self _
    · exact Nat.lt_succ_of_lt (h.fresh other id hid)

end

/-! ### Independence -/

/-- **Exchanges do not interfere.**  Each call on the exchange of a name comes to an end if it goes
    on for long enough, and is then the request that the session performs.  However calls on many
    exchanges follow each other, stride by stride, each name is answered as if its own calls were
    made alone in the same order, on the same configuration with any cache that is right for it:
    the same handlers are invoked on its exchange in the same order, and its exchange is the same in
    the end. -/
theorem exchanges_independent (h : p.Secluded) (depth : Nat) :
    (∀ name op, Dict.find? name p.underWay = none →
      ∃ reply t n,
        (perform (nested (depth + 1)) (.exchange name op)).run p.session = .ok (reply, t) ∧
        p.run depth ((name, .call op) :: List.replicate n (name, .goOn)) =
          .ok ([(name, reply)], { p with session := t })) ∧
    ∀ deeds : List (String × Deed), ∃ talk q, p.run depth deeds = .ok (talk, q) ∧
      ∀ name id e, Dict.find? name p.session.handles = some id → e.Coherent →
        p.session.deployment.SameConfiguration e →
        ∃ q', (p.alone name e).run depth (deeds.filter (·.1 = name)) =
            .ok (talk.filter (·.1 = name), q') ∧
          q'.placeOf name = q.placeOf name ∧
          q'.session.invokedOn id = q.session.invokedOn id ∧
          q'.session.isTripped id = q.session.isTripped id := by
  refine ⟨fun name op hfree => h.exists_run_call hfree depth op, fun deeds => ?_⟩
  obtain ⟨talk, q, hrun, hall⟩ := h.run_same depth deeds
  refine ⟨talk, q, hrun, fun name id e hid he hsame => ?_⟩
  obtain ⟨q', hrun', ⟨halike, links, hinvoked, hinvoked'⟩⟩ :=
    hall name id _ (h.alikeFor_alone hid he hsame)
  exact ⟨q', hrun', halike.place, hinvoked'.trans hinvoked.symm, halike.session.tripped⟩

/-- A handler that leaves a mark and asks for a pause. -/
def marker : Link Handler :=
  ⟨{ name := "mark", phase := "Dispatch" },
    .ask (.own (.setProperty "marked" (.bool true))) fun _ => .done (.ok .pause)⟩

/-- Every exchange meets the marker. -/
def markedRequests : List Request := [
  .addService "orders", .addOperation "orders" "place", .addHandler .everywhere .inbound marker]

/-- What requests make of a new deployment. -/
def deployedBy (requests : List Request) : Deployment :=
  match (build (nested 1) requests).run (.create .deployed (.empty {})) with
  | .ok (_, s) => s.deployment
  | .error _ => .empty {}

/-- Two exchanges on a deployment that has its chain in the cache. -/
def markedTraffic : Traffic :=
  (opened "second" "orders" "place" .inbound none none
    (opened "first" "orders" "place" .inbound none none
      ⟨create .deployed (deployedBy (markedRequests ++ [.chain "orders" "place" .inbound])), []⟩))

/-- Both are run, one is resumed and the other one cancelled, while the calls take turns. -/
def markedDeeds : List (String × Deed) := [
  ("first", .call .run), ("second", .call .run), ("second", .goOn), ("first", .goOn),
  ("second", .goOn), ("first", .goOn), ("second", .trip), ("first", .goOn), ("second", .goOn),
  ("first", .call .pause), ("second", .call .resume), ("first", .call .resume), ("second", .goOn),
  ("first", .goOn)]

theorem coherent_deployedBy (requests : List Request) : (deployedBy requests).Coherent := by
  rw [deployedBy]
  split
  · rename_i hbuild
    exact Deployment.Reachable.coherent (.build (.now _) hbuild)
  · exact Deployment.coherent_empty {}

theorem secluded_markedTraffic : markedTraffic.Secluded := by
  have hmarker : InwardLinks [marker] := by
    intro link hlink
    cases List.mem_singleton.1 hlink
    exact .ask fun _ => .done _
  have hinward :
      (deployedBy (markedRequests ++ [.chain "orders" "place" .inbound])).InwardHandlers := by
    refine ⟨fun entry hentry => ?_, fun m hm => by cases hm⟩
    cases List.mem_singleton.1 (show entry ∈ [((rootId, Flow.inbound), [marker])] from hentry)
    exact hmarker
  have hcreated := secluded_create (coherent_deployedBy _) hinward
  have hfirst : (opened "first" "orders" "place" .inbound none none _).Secluded :=
    hcreated.opened rfl
  exact hfirst.opened rfl

/-- The first exchange is paused and completed, alone and without anything in the cache as well as
    in between the calls on the second one, which is cancelled meanwhile. -/
theorem exchanges_independent_marked :
    (markedTraffic.session.deployment.cache.length = 1 ∧
      (deployedBy markedRequests).cache.length = 0) ∧
    ∃ talk q q', markedTraffic.run 0 markedDeeds = .ok (talk, q) ∧
      talk = [("second", .done), ("first", .status .paused), ("second", .status .paused),
        ("first", .done), ("second", .refused (.execution (.cancelled 1))),
        ("first", .status .completed)] ∧
      (markedTraffic.alone "first" (deployedBy markedRequests)).run 0
          (markedDeeds.filter (·.1 = "first")) =
        .ok ([("first", .status .paused), ("first", .done), ("first", .status .completed)], q') ∧
      q'.placeOf "first" = q.placeOf "first" ∧ q'.session.invokedOn 0 = [marker] := by
  refine ⟨⟨rfl, rfl⟩, ?_⟩
  obtain ⟨talk, q, hrun, hall⟩ := (exchanges_independent secluded_markedTraffic 0).2 markedDeeds
  obtain ⟨q', hrun', hplace, hinvoked, -⟩ := hall "first" 0 (deployedBy markedRequests) rfl
    (coherent_deployedBy _) ⟨rfl, rfl, rfl, rfl⟩
  obtain ⟨r, hcomputed, hlinks⟩ : ∃ r, markedTraffic.run 0 markedDeeds = .ok ([("second", .done),
      ("first", .status .paused), ("second", .status .paused), ("first", .done),
      ("second", .refused (.execution (.cancelled 1))), ("first", .status .completed)], r) ∧
        r.session.invokedOn 0 = [marker] :=
    ⟨_, rfl, rfl⟩
  cases hrun.symm.trans hcomputed
  exact ⟨_, q, q', hrun, rfl, hrun', hplace, hinvoked.trans hlinks⟩

end Traffic

end ExchangePipeline
