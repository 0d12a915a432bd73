import InternPool.Handle

namespace InternPool

structure HandleMap (α : Type) where
  pairs : List (Handle × α) := []

namespace HandleMap

variable {α : Type}

def keyHash (key : Handle) : UInt64 :=
  (({} : PassThroughHasher).writeAll key.writes).finish

def hits (stored key : Handle) : Bool :=
  stored.same key && keyHash stored == keyHash key

def size (map : HandleMap α) : Nat :=
  map.pairs.length

def get? (map : HandleMap α) (key : Handle) : Option α :=
  (map.pairs.find? fun pair => hits pair.1 key).map (·.2)

def contains (map : HandleMap α) (key : Handle) : Bool :=
  (map.get? key).isSome

def insert (map : HandleMap α) (key : Handle) (value : α) : HandleMap α :=
  if map.contains key then
    ⟨map.pairs.map fun pair => if hits pair.1 key then (pair.1, value) else pair⟩
  else ⟨(key, value) :: map.pairs⟩

def erase (map : HandleMap α) (key : Handle) : HandleMap α :=
  ⟨map.pairs.filter fun pair => !hits pair.1 key⟩

end HandleMap

abbrev HandleSet := HandleMap Unit

end InternPool
