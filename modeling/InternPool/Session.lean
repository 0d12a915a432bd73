import Std.Data.TreeMap
import InternPool.Concurrent.TableSections
import InternPool.Hash.Xxh3
import InternPool.Keyed.HandleMap
import InternPool.Keyed.OrderedMap
import InternPool.World.Action

namespace InternPool

structure Session where
  world : World := {}
  steps : Nat := 0
  handles : List (Nat × Handle) := []
  foreign : List (Nat × ForeignValue) := []
  shown : Std.TreeMap Nat Nat := {}
  map : HandleMap Int := {}
  set : HandleSet := {}

inductive Command where
  | act (action : Action)
  | internAgain (table : TableName) (step : Nat)
  | internRange (table : TableName) (before after : String) (first last : Nat)
  | internThreads (table : TableName) (threads : Nat) (texts : List String)
  | hashWith (table : TableName) (bytes : Bytes)
  | inspect (table : TableName)
  | measure (table : TableName)
  | entries (table : TableName)
  | read (step : Nat)
  | compare (left right : Nat)
  | foreignOf (step : Nat)
  | foreignCompare (left right : Nat)
  | mapInsert (step : Nat) (value : Int)
  | mapAdd (step : Nat)
  | mapGet (step : Nat)
  | mapRemove (step : Nat)
  | mapEntries
  | setInsert (step : Nat)
  | setRemove (step : Nat)
  | setContains (step : Nat)
deriving Repr, DecidableEq

-- A number that comes with a handle is the number of its buffer.
inductive Reply where
  | result (result : Result)
  | brief (number : Nat) (handle : Handle)
  | foreign (number : Nat) (value : ForeignValue)
  | full (handle : Handle)
  | noSuchHandle
  | compared (left right : Handle) (order : Ordering)
  | foreignCompared (same : Bool)
  | range (canonicalized found length : Nat) (xor : UInt64)
  | threads (canonicalized : Nat) (agree : Bool) (length : Nat)
  | hashed (hasher : ContentHasher) (hash : UInt64)
  | inspected (text : String)
  | measured (length : Nat) (isEmpty : Bool)
  | entries (entries : List (Nat × Handle))
  | mapChanged (old : Option Int) (size : Nat)
  | mapCount (count : Int)
  | mapValue (value : Option Int)
  | mapEntries (entries : List (Handle × Nat × Int))
  | setChanged (changed : Bool) (size : Nat)
  | setHas (has : Bool)
deriving Repr, DecidableEq

structure Session.Replied where
  reply : Reply
  session : Session

structure Session.Stepped where
  reply : Reply
  events : List Event
  session : Session

namespace Session

def place : Placement := id

def reveal (session : Session) (buffer : Buffer) : Nat × Session :=
  match session.shown.get? buffer.number with
  | some number => (number, session)
  | none =>
    let number := session.shown.size
    (number, { session with shown := session.shown.insert buffer.number number })

def revealAll (session : Session) : List Handle → List (Nat × Handle) × Session
  | [] => ([], session)
  | handle :: rest =>
    let first := session.reveal handle.buffer
    let others := first.2.revealAll rest
    ((first.1, handle) :: others.1, others.2)

def give (session : Session) (handle : Handle) : Replied :=
  let shown := session.reveal handle.buffer
  { reply := .brief shown.1 handle
    session := { shown.2 with handles := (session.steps, handle) :: shown.2.handles } }

def giveForeign (session : Session) (value : ForeignValue) : Replied :=
  let shown := session.reveal value.pointer
  { reply := .foreign shown.1 value
    session := { shown.2 with foreign := (session.steps, value) :: shown.2.foreign } }

def act (session : Session) (action : Action) : Replied :=
  let outcome := session.world.act action
  let session := { session with world := outcome.world }
  match outcome.answer with
  | .handle handle => session.give handle
  | .response (.handle (some handle)) => session.give handle
  | .foreign value => session.giveForeign value
  | result => ⟨.result result, session⟩

def withTable (session : Session) (name : TableName)
    (use : Table → Process → Reply × Table × Process) : Replied :=
  let world := session.world.ready name
  match world.find? name with
  | none => ⟨.result .missing, { session with world }⟩
  | some table =>
    let (reply, table, process) := use table world.process
    ⟨reply, { session with world := { world.put name table with process } }⟩

def withHandle (session : Session) (step : Nat) (use : Handle → Replied) : Replied :=
  match session.handles.lookup step with
  | none => ⟨.noSuchHandle, session⟩
  | some handle => use handle

def withForeign (session : Session) (step : Nat) (use : ForeignValue → Replied) : Replied :=
  match session.foreign.lookup step with
  | none => ⟨.noSuchHandle, session⟩
  | some value => use value

def internRange (table : Table) (process : Process) (before after : String) (first last : Nat) :
    Reply × Table × Process :=
  let texts := (List.range' first (last - first)).map fun n => before ++ toString n ++ after
  let entered := texts.foldl
    (fun (handles, table, process) text =>
      let entered := Table.internText table process text
      (entered.handle :: handles, entered.table, entered.process))
    (([] : List Handle), table, process)
  let handles := entered.1.reverse
  let final := entered.2.1
  let found := (texts.zip handles).countP fun (text, handle) =>
    (final.getText text).any handle.same
  let xor := handles.foldl (fun xor handle => xor ^^^ handle.hash) 0
  (.range (final.length - table.length) found final.length xor, entered.2)

-- Each thread begins at another of the texts.
def internThreads (table : Table) (process : Process) (threads : Nat) (texts : List String) :
    Reply × Table × Process :=
  let calls := (List.range threads).map fun number =>
    (texts.rotateLeft number).map Call.internText
  let finished := table.callInTurns process calls
  let final := finished.shared.table
  let agree := finished.ended.all fun ended =>
    match ended.call, ended.answer with
    | .call call, .handle (some handle) => (final.getContent call.content).any handle.same
    | _, _ => false
  (.threads (final.length - table.length) (finished.isOver && agree) final.length, final,
    finished.shared.process)

def mapEntries (session : Session) : Replied :=
  let shown := session.map.pairs.foldl
    (fun (rows, session) (key, value) =>
      let shown := Session.reveal session key.buffer
      ((key, shown.1, value) :: rows, shown.2))
    (([] : List (Handle × Nat × Int)), session)
  let rows := shown.1.mergeSort fun left right =>
    ((Ord.compare left.1.content right.1.content).then (Ord.compare left.2.1 right.2.1)) != .gt
  ⟨.mapEntries rows, shown.2⟩

def perform (session : Session) : Command → Replied
  | .act action => session.act action
  | .internAgain table step =>
    session.withHandle step fun handle => session.act (.ask table (.call (.intern handle.content)))
  | .internRange table before after first last =>
    session.withTable table fun table process =>
      internRange table process before after first last
  | .internThreads table threads texts =>
    session.withTable table fun table process => internThreads table process threads texts
  | .hashWith table bytes =>
    session.withTable table fun table process =>
      (.hashed table.hasher (table.hasher.hash bytes), table, process)
  | .inspect table =>
    session.withTable table fun table process => (.inspected table.inspect, table, process)
  | .measure table =>
    session.withTable table fun table process =>
      (.measured table.length table.isEmpty, table, process)
  | .entries table =>
    let asked := session.act (.ask table .entries)
    match asked.reply with
    | .result (.response (.entries entries)) =>
      let shown := asked.session.revealAll (Handle.sort place entries)
      ⟨.entries shown.1, shown.2⟩
    | _ => asked
  | .read step => session.withHandle step fun handle => ⟨.full handle, session⟩
  | .compare left right =>
    session.withHandle left fun left =>
      session.withHandle right fun right =>
        ⟨.compared left right (Handle.compare place left right), session⟩
  | .foreignOf step => session.withHandle step fun handle => session.giveForeign (.ofHandle handle)
  | .foreignCompare left right =>
    session.withForeign left fun left =>
      session.withForeign right fun right => ⟨.foreignCompared (left.same right), session⟩
  | .mapInsert step value =>
    session.withHandle step fun handle =>
      let map := session.map.insert handle value
      ⟨.mapChanged (session.map.get? handle) map.size, { session with map }⟩
  | .mapAdd step =>
    session.withHandle step fun handle =>
      let count := (session.map.get? handle).getD 0 + 1
      ⟨.mapCount count, { session with map := session.map.insert handle count }⟩
  | .mapGet step =>
    session.withHandle step fun handle => ⟨.mapValue (session.map.get? handle), session⟩
  | .mapRemove step =>
    session.withHandle step fun handle =>
      let map := session.map.erase handle
      ⟨.mapChanged (session.map.get? handle) map.size, { session with map }⟩
  | .mapEntries => session.mapEntries
  | .setInsert step =>
    session.withHandle step fun handle =>
      let set := session.set.insert handle ()
      ⟨.setChanged (!session.set.contains handle) set.size, { session with set }⟩
  | .setRemove step =>
    session.withHandle step fun handle =>
      let set := session.set.erase handle
      ⟨.setChanged (session.set.contains handle) set.size, { session with set }⟩
  | .setContains step =>
    session.withHandle step fun handle => ⟨.setHas (session.set.contains handle), session⟩

def step (session : Session) (command : Command) : Stepped :=
  let world := { session.world with process := session.world.process.quiet }
  let replied := { session with world }.perform command
  { reply := replied.reply
    events := replied.session.world.process.log.reverse
    session := { replied.session with steps := session.steps + 1 } }

end Session

end InternPool
