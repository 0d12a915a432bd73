import InternPool.World.Action

namespace InternPool

def Action.table? : Action → Option TableName
  | .ask table _ => some table
  | .construct _ | .foreignNew _ | .foreignFromBytes _ _ => some .shared
  | .create _ | .drop _ | .useShared | .configure _ => none

def Result.handles : Result → List Handle
  | .handle given => [given]
  | .response (.handle found) => found.toList
  | .response (.entries all) => all
  | _ => []

namespace World

def shownBy (action : Action) (result : Result) : List (TableName × Handle) :=
  match action.table? with
  | some table => result.handles.map fun handle => (table, handle)
  | none => []

def shown [ContentHash] (world : World) (actions : List Action) : List (TableName × Handle) :=
  (actions.zip (world.run actions).answer).flatMap fun (action, result) => shownBy action result

end World

end InternPool
