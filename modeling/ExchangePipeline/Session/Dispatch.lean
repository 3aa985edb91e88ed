/-
  ExchangePipeline/Session/Dispatch.lean
  ======================================
  **Dispatch**: letting exchanges in through a gate, up to a number at once.

  A dispatch goes through services that stand one behind the other.  The outermost
  one takes a permit for as long as the walk lasts; if none is free, the exchange is
  turned away as it came, and nothing waits.  The innermost one has the exchange
  driven.
-/
import ExchangePipeline.Session.Driving

namespace ExchangePipeline

namespace Session

/-- What exchanges are handed to.  They come back in any case. -/
abbrev Service := Exchange Handler → Doing Dispatched

/-- What a dispatch of an exchange would be. -/
def admissionOf (x : Exchange Handler) : Admission :=
  if x.state = .paused then .resume else .new

/-- Starts an exchange, or goes on with it if it is paused. -/
def startOrResume (inner : Inner) (x : Exchange Handler) : Doing (Driven Handler) :=
  if x.state = .paused then (host inner).resume x else (host inner).run x

/-- The service that has exchanges driven. -/
def driving (inner : Inner) : Service := fun x => do
  let (result, x) ← startOrResume inner x
  return (result.mapError .failed, x)

/-- What a dispatch counts as. -/
def outcomeOf : Dispatched → DispatchOutcome
  | (.ok .paused, _) => .paused
  | (.ok .completed, x) => if x.fault?.isSome then .faultHandled else .completed
  | (.error .overloaded, _) => .overloaded
  | (.error (.failed (.cancelled _)), _) => .cancelled
  | (.error (.failed (.invalidState ..)), _) => .invalidState
  | (.error (.failed (.unrecoverable ..)), _) => .unrecoverable
  | (.error (.failed (.resolution _)), _) => .resolutionError

/-- Counts what becomes of exchanges behind this service. -/
def measured (service : Service) : Service := fun x => do
  let handed ← service x
  modify (sample [.outcome (outcomeOf handed), .duration])
  return handed

/-- Lets an exchange through to a service if a permit is free, and turns it away otherwise.  The
    permit is back as soon as the service hands the exchange back, also when that has paused. -/
def limited (gate : Gate) (service : Service) : Service := fun x => do
  match (← get).permits gate with
  | 0 =>
    modify (sample [.shed (admissionOf x)])
    modify (record (.turnedAway gate x))
    return (.error .overloaded, x)
  | free + 1 =>
    modify (setPermits gate free)
    modify (record (.entered gate x))
    let handed ← service x
    modify fun s => s.setPermits gate (s.permits gate + 1)
    modify (record (.left gate x handed))
    return handed

/-- The service behind a gate. -/
def behind (inner : Inner) : Gate → Service
  | .pipeline => measured (driving inner)
  | .direct => driving inner

/-- Dispatches an exchange. -/
def dispatch (inner : Inner) (gate : Gate) : Service :=
  limited gate (behind inner gate)

/-- Dispatches the exchange of a name.  At the direct gate the free permits are told as well. -/
def dispatchNamed (inner : Inner) (gate : Gate) (name : String) : Doing Reply :=
  withExchange name fun x => do
    let (result, x) ← dispatch inner gate x
    let free := (← get).permits .direct
    return (.dispatched result (if gate = .direct then some free else none), x)

end Session

end ExchangePipeline
