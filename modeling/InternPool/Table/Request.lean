import InternPool.Table.Observe

namespace InternPool

inductive Request where
  | call (call : Call)
  | length
  | isEmpty
  | stats
  | shardLengths
  | entries
deriving Repr, DecidableEq

-- `α` stands for what a string is known by.
inductive Response (α : Type) where
  | handle (found : Option α)
  | count (count : Nat)
  | flag (flag : Bool)
  | stats (stats : Stats)
  | lengths (lengths : List Nat)
  | entries (entries : List α)
deriving Repr, DecidableEq

structure Table.Answered where
  response : Response Handle
  table : Table
  process : Process

def Table.answer [ContentHash] (table : Table) (process : Process) : Request → Table.Answered
  | .call call =>
    let called := table.call process call
    ⟨.handle called.handle, called.table, called.process⟩
  | .length => ⟨.count table.length, table, process⟩
  | .isEmpty => ⟨.flag table.isEmpty, table, process⟩
  | .stats => ⟨.stats table.stats, table, process⟩
  | .shardLengths => ⟨.lengths table.shardLengths, table, process⟩
  | .entries => ⟨.entries table.entries, table, process⟩

structure Table.Ran where
  responses : List (Response Handle)
  table : Table
  process : Process

def Table.answerAll [ContentHash] (table : Table) (process : Process) : List Request → Table.Ran
  | [] => ⟨[], table, process⟩
  | request :: rest =>
    let first := table.answer process request
    let others := first.table.answerAll first.process rest
    ⟨first.response :: others.responses, others.table, others.process⟩

end InternPool
