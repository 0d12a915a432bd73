import InternPool.Concurrent.Interleaving
import InternPool.Table

namespace InternPool

-- A table is built before it is known whether the cell will take it, so several may be built; each is
-- known by its place in the order of building.
structure Built where
  number : Nat
  options : Options
deriving Repr, DecidableEq

def Built.table (built : Built) : Table :=
  Table.build built.options

-- `use` is any call that needs the shared table: a constructor, a look-up, or the table itself.
inductive CellCall where
  | configure (options : Options)
  | use
deriving Repr, DecidableEq

inductive Configuring where
  | valid (options : Options)
  | vacant (options : Options)
  | built (built : Built)
  | filled
deriving Repr, DecidableEq

structure SharedCell where
  content : Option Built := none
  count : Nat := 0
deriving Repr, DecidableEq

namespace SharedCell

abbrev Answer := Except Refusal Built

def useOrFill (cell : SharedCell) : Section.Left SharedCell Configuring Answer :=
  match cell.content with
  | some built => ⟨cell, .ended (.ok built)⟩
  | none =>
    let built : Built := ⟨cell.count, {}⟩
    ⟨⟨some built, cell.count + 1⟩, .ended (.ok built)⟩

def check (cell : SharedCell) (options : Options) : Section.Left SharedCell Configuring Answer :=
  match cell.content with
  | some _ => ⟨cell, .ended (.error .alreadyInitialized)⟩
  | none => ⟨cell, .pending (.vacant options)⟩

def build (cell : SharedCell) (options : Options) : Section.Left SharedCell Configuring Answer :=
  ⟨⟨cell.content, cell.count + 1⟩, .pending (.built ⟨cell.count, options⟩)⟩

def fill (cell : SharedCell) (built : Built) : Section.Left SharedCell Configuring Answer :=
  match cell.content with
  | some _ => ⟨cell, .ended (.error .alreadyInitialized)⟩
  | none => ⟨⟨some built, cell.count⟩, .pending .filled⟩

-- A configuration that filled the cell takes its answer from the cell, as any other use does.
def sections : Sections SharedCell CellCall Configuring Answer where
  first cell call :=
    match call with
    | .use => cell.useOrFill
    | .configure options =>
      match options.validate with
      | .error refusal => ⟨cell, .ended (.error refusal)⟩
      | .ok () => ⟨cell, .pending (.valid options)⟩
  later cell configuring :=
    match configuring with
    | .valid options => cell.check options
    | .vacant options => cell.build options
    | .built built => cell.fill built
    | .filled => cell.useOrFill

end SharedCell

end InternPool
