import InternPool.Concurrent.Interleaving
import InternPool.Table.Request

namespace InternPool

structure Site where
  table : Table
  process : Process

-- A content that was looked for and missed, or a walk that has seen some shards, the latest first.
inductive Unfinished where
  | missed (hash : UInt64) (content : Bytes)
  | walking (request : Request) (seen : List Shard)

def Request.observe (seen : List Shard) : Request → Response Handle
  | .call _ => .handle none
  | .length => .count (Shards.length seen)
  | .isEmpty => .flag (Shards.length seen == 0)
  | .stats => .stats (Shards.stats seen)
  | .shardLengths => .lengths (Shards.lengths seen)
  | .entries => .entries (Shards.entries seen)

namespace Site

variable [ContentHash]

def look (site : Site) (call : Call) : Section.Left Site Unfinished (Response Handle) :=
  let hash := site.table.hasher.hash call.content
  let found := site.table.probe hash call.content
  { shared := site
    progress :=
      if call.interns && found.isNone then .pending (.missed hash call.content)
      else .ended (.handle found) }

def enter (site : Site) (hash : UInt64) (content : Bytes) :
    Section.Left Site Unfinished (Response Handle) :=
  let entered := site.table.enter site.process hash content
  { shared := ⟨entered.table, entered.process⟩
    progress := .ended (.handle (some entered.handle)) }

-- An observer visits one shard in each section, so what it says is put together from shards at
-- different times.
def visit (site : Site) (request : Request) (seen : List Shard) :
    Section.Left Site Unfinished (Response Handle) :=
  let seen := site.table.shard seen.length :: seen
  { shared := site
    progress :=
      if seen.length < site.table.shards.length then .pending (.walking request seen)
      else .ended (request.observe seen.reverse) }

end Site

variable [ContentHash]

def Table.sections : Sections Site Request Unfinished (Response Handle) where
  first site request :=
    match request with
    | .call call => site.look call
    | observer => site.visit observer []
  later site unfinished :=
    match unfinished with
    | .missed hash content => site.enter hash content
    | .walking request seen => site.visit request seen

def Table.threads (table : Table) (process : Process) (requests : List (List Request)) :
    Threads Site Request Unfinished (Response Handle) :=
  Threads.start ⟨table, process⟩ requests

-- A call has two sections at most, so two rounds for each call are enough.
def Table.callInTurns (table : Table) (process : Process) (calls : List (List Call)) :
    Threads Site Request Unfinished (Response Handle) :=
  let longest := calls.foldl (fun longest todo => max longest todo.length) 0
  (table.threads process (calls.map fun todo => todo.map Request.call)).run Table.sections
    (List.replicate (2 * longest) (List.range calls.length)).flatten

end InternPool
