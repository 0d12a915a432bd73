import Std.Data.TreeMap
import InternPool.Handle

namespace InternPool

abbrev OrderedMap (place : Placement) (α : Type) := Std.TreeMap Handle α (Handle.compare place)

namespace OrderedMap

variable {α : Type}

-- Of equal keys the last one's value stays.
def ofPairs (place : Placement) (pairs : List (Handle × α)) : OrderedMap place α :=
  pairs.foldl (fun map (key, value) => map.insert key value) {}

end OrderedMap

namespace Handle

def sort (place : Placement) (handles : List Handle) : List Handle :=
  handles.mergeSort fun left right => Handle.compare place left right != .gt

def distinct (place : Placement) (handles : List Handle) : List Handle :=
  (OrderedMap.ofPairs place (handles.map fun handle => (handle, ()))).keys

end Handle

end InternPool
