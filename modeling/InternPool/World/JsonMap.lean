import InternPool.Json.Writer
import InternPool.Keyed.OrderedMap
import InternPool.World.Route

namespace InternPool

def Handle.toJson (handle : Handle) : Bytes :=
  Json.writeText handle.content

namespace OrderedMap

def toJson {place : Placement} (map : OrderedMap place Handle) : Bytes :=
  Json.writeObject (map.toList.map fun (key, value) => (key.content, value.content))

end OrderedMap

namespace World

variable [ContentHash]

def internAll (world : World) : List Bytes → Outcome (List Handle)
  | [] => ⟨[], world⟩
  | content :: rest =>
    let first := world.internShared content
    let others := first.world.internAll rest
    ⟨first.answer :: others.answer, others.world⟩

-- Each string is interned as it is read, so those before a fault are in the table.
def readMap (world : World) (place : Placement) (source : Bytes) :
    Outcome (Except Rejection (OrderedMap place Handle)) :=
  let read := Json.expectObject source
  let interned := world.internAll read.texts
  { answer :=
      match read.ended with
      | .error error => .error (.ofJson error)
      | .ok rest =>
        if Json.isOver rest then .ok (.ofPairs place (Json.inPairs interned.answer))
        else .error .malformed
    world := interned.world }

end World

end InternPool
