import InternPool.World.Route

namespace InternPool

inductive Action where
  | create (options : Options)
  | drop (number : Nat)
  | ask (table : TableName) (request : Request)
  | useShared
  | configure (options : Options)
  | construct (route : Route)
  | foreignNew (memory : Bytes)
  | foreignFromBytes (memory : Option Bytes) (length : Nat)
deriving Repr, DecidableEq

inductive Result where
  | created (number : Nat)
  | dropped (existed : Bool)
  | missing
  | response (response : Response Handle)
  | shared (stats : Stats)
  | configured (stats : Stats)
  | refused (refusal : Refusal)
  | handle (handle : Handle)
  | rejected (rejection : Rejection)
  | foreign (value : ForeignValue)
deriving Repr, DecidableEq

namespace World

variable [ContentHash]

def act (world : World) : Action → Outcome Result
  | .create options =>
    let outcome := world.create options
    match outcome.answer with
    | .ok number => ⟨.created number, outcome.world⟩
    | .error refusal => ⟨.refused refusal, outcome.world⟩
  | .drop number =>
    let outcome := world.drop number
    match outcome.answer with
    | some existed => ⟨.dropped existed, outcome.world⟩
    | none => ⟨.missing, outcome.world⟩
  | .ask table request =>
    let outcome := world.ask table request
    match outcome.answer with
    | some response => ⟨.response response, outcome.world⟩
    | none => ⟨.missing, outcome.world⟩
  | .useShared =>
    let world := world.useShared
    ⟨.shared world.sharedTable.stats, world⟩
  | .configure options =>
    let outcome := world.configure options
    match outcome.answer with
    | .ok () => ⟨.configured outcome.world.sharedTable.stats, outcome.world⟩
    | .error refusal => ⟨.refused refusal, outcome.world⟩
  | .construct route =>
    let outcome := world.construct route
    match outcome.answer with
    | .ok handle => ⟨.handle handle, outcome.world⟩
    | .error rejection => ⟨.rejected rejection, outcome.world⟩
  | .foreignNew memory =>
    let outcome := world.foreignNew memory
    ⟨.foreign outcome.answer, outcome.world⟩
  | .foreignFromBytes memory length =>
    let outcome := world.foreignFromBytes memory length
    ⟨.foreign outcome.answer, outcome.world⟩

def run (world : World) : List Action → Outcome (List Result)
  | [] => ⟨[], world⟩
  | action :: rest =>
    let first := world.act action
    let others := first.world.run rest
    ⟨first.answer :: others.answer, others.world⟩

end World

end InternPool
