import InternPool.Foreign
import InternPool.Json.Document
import InternPool.Table.Request

namespace InternPool

-- `tables` has the tables by number, with `none` for one that was dropped.
structure World where
  process : Process := {}
  tables : List (Option Table) := []
  shared : Option Table := none

inductive TableName where
  | numbered (number : Nat)
  | shared
deriving Repr, DecidableEq

structure Outcome (α : Type) where
  answer : α
  world : World

namespace World

variable [ContentHash]

def find? (world : World) : TableName → Option Table
  | .numbered number => (world.tables[number]?).join
  | .shared => world.shared

def install (world : World) (options : Options) : World :=
  { world with
    shared := some (Table.build options)
    process := world.process.record (Table.creation options) }

def useShared (world : World) : World :=
  match world.shared with
  | some _ => world
  | none => { world with process := world.process.record .initializing }.install {}

def ready (world : World) : TableName → World
  | .numbered _ => world
  | .shared => world.useShared

def put (world : World) (name : TableName) (table : Table) : World :=
  match name with
  | .numbered number => { world with tables := world.tables.set number (some table) }
  | .shared => { world with shared := some table }

def create (world : World) (options : Options) : Outcome (Except Refusal Nat) :=
  match Table.withOptions options with
  | .error refusal => ⟨.error refusal, world⟩
  | .ok table =>
    { answer := .ok world.tables.length
      world :=
        { world with
          tables := world.tables ++ [some table]
          process := world.process.record (Table.creation options) } }

-- Answers whether the table was still there; `none` if there never was one of that number. Its
-- buffers stay in the store.
def drop (world : World) (number : Nat) : Outcome (Option Bool) :=
  match world.tables[number]? with
  | none => ⟨none, world⟩
  | some none => ⟨some false, world⟩
  | some (some _) => ⟨some true, { world with tables := world.tables.set number none }⟩

def ask (world : World) (name : TableName) (request : Request) :
    Outcome (Option (Response Handle)) :=
  let world := world.ready name
  match world.find? name with
  | none => ⟨none, world⟩
  | some table =>
    let answered := table.answer world.process request
    { answer := some answered.response
      world := { world.put name answered.table with process := answered.process } }

-- The options are looked at before it is asked whether the shared table exists.
def configure (world : World) (options : Options) : Outcome (Except Refusal Unit) :=
  match options.validate with
  | .error refusal => ⟨.error refusal, world⟩
  | .ok () =>
    match world.shared with
    | some _ => ⟨.error .alreadyInitialized, world⟩
    | none =>
      let world := world.install options
      ⟨.ok (), { world with process := world.process.record (.configured options) }⟩

def sharedTable (world : World) : Table :=
  world.shared.getD (Table.build {})

def internShared (world : World) (content : Bytes) : Outcome Handle :=
  let world := world.useShared
  let entered := world.sharedTable.internContent world.process content
  { answer := entered.handle
    world := { world with shared := some entered.table, process := entered.process } }

end World

end InternPool
