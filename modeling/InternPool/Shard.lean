import Std.Data.TreeMap
import InternPool.Process

namespace InternPool

structure Shard where
  entries : List Handle
  index : Std.TreeMap UInt64 (List Handle)
  contentBytes : Nat
  index_exact : ∀ hash, index.getD hash [] = entries.filter (·.hash == hash)

structure Shard.Entered where
  handle : Handle
  shard : Shard
  process : Process

namespace Shard

def empty : Shard where
  entries := []
  index := {}
  contentBytes := 0
  index_exact hash := by simp

instance : Inhabited Shard := ⟨empty⟩

def find? (shard : Shard) (hash : UInt64) (content : Bytes) : Option Handle :=
  (shard.index.getD hash []).find? (·.content == content)

def add (shard : Shard) (handle : Handle) : Shard where
  entries := handle :: shard.entries
  index := shard.index.insert handle.hash (handle :: shard.index.getD handle.hash [])
  contentBytes := shard.contentBytes + handle.buffer.bytes.length
  index_exact hash := by
    rw [Std.TreeMap.getD_insert, List.filter_cons]
    by_cases same : handle.hash = hash
    · subst same
      simp [shard.index_exact]
    · simp [same, shard.index_exact]

-- The content is looked for again: it may have come in since it was missed.
def enter (shard : Shard) (process : Process) (number : Nat) (hash : UInt64) (content : Bytes) :
    Entered :=
  match shard.find? hash content with
  | some winner => ⟨winner, shard, process⟩
  | none =>
    let handle : Handle := ⟨process.buffer content, hash⟩
    { handle
      shard := shard.add handle
      process :=
        (process.allocated content).record (.canonicalized content.length hash number) }

theorem find?_exact (shard : Shard) (hash : UInt64) (content : Bytes) :
    shard.find? hash content = shard.entries.find? (·.holds hash content) := by
  rw [find?, shard.index_exact, List.find?_filter]
  congr 1
  funext handle
  rw [Handle.holds, Bool.eq_iff_iff, decide_eq_true_iff, Bool.and_eq_true]

theorem enter_known {shard : Shard} {hash : UInt64} {content : Bytes} {winner : Handle}
    (known : shard.find? hash content = some winner) (process : Process) (number : Nat) :
    shard.enter process number hash content = ⟨winner, shard, process⟩ := by
  simp only [enter, known]

theorem enter_fresh {shard : Shard} {hash : UInt64} {content : Bytes}
    (missing : shard.find? hash content = none) (process : Process) (number : Nat) :
    shard.enter process number hash content =
      { handle := ⟨process.buffer content, hash⟩
        shard := shard.add ⟨process.buffer content, hash⟩
        process :=
          (process.allocated content).record (.canonicalized content.length hash number) } := by
  simp only [enter, missing]

end Shard

end InternPool
