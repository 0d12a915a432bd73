import InternPool.Table.Request

namespace InternPool

structure Item where
  content : Bytes
  buffer : Nat
deriving Repr, DecidableEq

structure Catalog where
  items : List Item := []
  next : Nat := 0
deriving Repr, DecidableEq

structure Catalog.Answered where
  response : Response Item
  catalog : Catalog

namespace Catalog

def find? (catalog : Catalog) (content : Bytes) : Option Item :=
  catalog.items.find? (·.content == content)

def intern (catalog : Catalog) (content : Bytes) : Item × Catalog :=
  match catalog.find? content with
  | some item => (item, catalog)
  | none =>
    let item : Item := ⟨content, catalog.next⟩
    (item, ⟨catalog.items ++ [item], catalog.next + 1⟩)

-- A catalog is all in one shard.
def stats (catalog : Catalog) : Stats :=
  ⟨catalog.items.length, total (catalog.items.map (·.content.length + 1)), 1⟩

def answer (catalog : Catalog) : Request → Answered
  | .call call =>
    if call.interns then
      let interned := catalog.intern call.content
      ⟨.handle (some interned.1), interned.2⟩
    else ⟨.handle (catalog.find? call.content), catalog⟩
  | .length => ⟨.count catalog.items.length, catalog⟩
  | .isEmpty => ⟨.flag catalog.items.isEmpty, catalog⟩
  | .stats => ⟨.stats catalog.stats, catalog⟩
  | .shardLengths => ⟨.lengths [catalog.items.length], catalog⟩
  | .entries => ⟨.entries catalog.items, catalog⟩

def answerAll (catalog : Catalog) : List Request → List (Response Item) × Catalog
  | [] => ([], catalog)
  | request :: rest =>
    let first := catalog.answer request
    let others := first.catalog.answerAll rest
    (first.response :: others.1, others.2)

theorem intern_known {catalog : Catalog} {content : Bytes} {item : Item}
    (known : catalog.find? content = some item) : catalog.intern content = (item, catalog) := by
  simp only [intern, known]

theorem intern_fresh {catalog : Catalog} {content : Bytes}
    (missing : catalog.find? content = none) :
    catalog.intern content =
      (⟨content, catalog.next⟩,
        ⟨catalog.items ++ [⟨content, catalog.next⟩], catalog.next + 1⟩) := by
  simp only [intern, missing]

end Catalog

def Handle.item (handle : Handle) : Item :=
  ⟨handle.content, handle.buffer.number⟩

-- A catalog leaves out hashes, how contents are spread over shards, and the order of entries.
def Response.Agrees : Response Handle → Response Item → Prop
  | .handle left, .handle right => left.map Handle.item = right
  | .count left, .count right => left = right
  | .flag left, .flag right => left = right
  | .stats left, .stats right =>
    left.entries = right.entries ∧ left.contentBytes = right.contentBytes
  | .lengths left, .lengths right => total left = total right
  | .entries left, .entries right => (left.map Handle.item).Perm right
  | _, _ => False

end InternPool
