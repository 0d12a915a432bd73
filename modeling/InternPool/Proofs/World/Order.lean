import InternPool.Proofs.Utf8.Order
import InternPool.Proofs.World.Identity

namespace InternPool

namespace Handle

variable {place : Placement} {left right : Handle}

theorem compare_eq_iff :
    compare place left right = .eq ↔
      left.content = right.content ∧ place left.buffer.number = place right.buffer.number := by
  rw [compare, Ordering.then_eq_eq, Std.LawfulEqCmp.compare_eq_iff_eq,
    Std.LawfulEqCmp.compare_eq_iff_eq]

theorem compare_contents (differ : left.content ≠ right.content) :
    compare place left right = Ord.compare left.content right.content := by
  rw [compare]
  cases order : Ord.compare left.content right.content with
  | lt | gt => rfl
  | eq => exact absurd (Std.LawfulEqCmp.compare_eq_iff_eq.mp order) differ

theorem compare_trans {order : Ordering} {middle : Handle}
    (first : compare place left middle = order) (second : compare place middle right = order) :
    compare place left right = order := by
  cases order with
  | lt => exact Std.TransCmp.lt_trans first second
  | eq => exact Std.TransCmp.eq_trans first second
  | gt => exact Std.TransCmp.gt_trans first second

end Handle

namespace World

-- How a handle of one table stands to a handle of another, or of the same.
structure Ranks (place : Placement) (one other : TableName × Handle) : Prop where
  equal : Handle.compare place one.2 other.2 = .eq ↔ one.2.same other.2 = true
  reversed : Handle.compare place other.2 one.2 = (Handle.compare place one.2 other.2).swap
  decided : Handle.compare? place one.2 other.2 = some (Handle.compare place one.2 other.2)
  byBytes : one.2.content ≠ other.2.content →
    Handle.compare place one.2 other.2 = compare one.2.content other.2.content
  byScalars : ∃ left right : List Char, Utf8.encode left = one.2.content ∧
    Utf8.encode right = other.2.content ∧
    compare one.2.content other.2.content = compare (left.map Char.toNat) (right.map Char.toNat)
  inTable : one.1 = other.1 →
    Handle.compare place one.2 other.2 = compare one.2.content other.2.content

section
variable [ContentHash] {world : World} {ledger : List (TableName × Handle)}
  {one other : TableName × Handle} {place : Placement}

theorem Keeps.compare_eq_iff (keeps : world.Keeps ledger) (first : one ∈ ledger)
    (second : other ∈ ledger)
    (apart : place one.2.buffer.number = place other.2.buffer.number →
      one.2.buffer.number = other.2.buffer.number) :
    Handle.compare place one.2 other.2 = .eq ↔ one.2.same other.2 = true := by
  rw [Handle.compare_eq_iff]
  constructor
  · intro equal
    exact beq_iff_eq.mpr (apart equal.2)
  · intro same
    rw [keeps.entry first second same]
    exact ⟨rfl, rfl⟩

-- In one table, equal contents are the same handle, so places are never asked.
theorem Keeps.compare_table (keeps : world.Keeps ledger) (first : one ∈ ledger)
    (second : other ∈ ledger) (table : one.1 = other.1) :
    Handle.compare place one.2 other.2 = Ord.compare one.2.content other.2.content := by
  by_cases equal : one.2.content = other.2.content
  · have same := (keeps.same_iff first second).mpr ⟨table, equal⟩
    rw [keeps.entry first second same, Std.compare_self]
    exact Std.ReflCmp.compare_self
  · exact Handle.compare_contents equal

theorem Keeps.wellFormed (keeps : world.Keeps ledger) (member : one ∈ ledger) :
    Utf8.WellFormed one.2.content := by
  obtain ⟨_, canonical⟩ := keeps.canonical one member
  exact canonical.wellFormed

theorem Keeps.ranks (keeps : world.Keeps ledger) (first : one ∈ ledger) (second : other ∈ ledger)
    (apart : place one.2.buffer.number = place other.2.buffer.number →
      one.2.buffer.number = other.2.buffer.number) : Ranks place one other := by
  obtain ⟨left, leftSpelled⟩ := keeps.wellFormed first
  obtain ⟨right, rightSpelled⟩ := keeps.wellFormed second
  have scalars := Utf8.compare_encode left right
  rw [leftSpelled, rightSpelled] at scalars
  exact
    { equal := keeps.compare_eq_iff first second apart
      reversed := Std.OrientedCmp.eq_swap
      decided := rfl
      byBytes := Handle.compare_contents
      byScalars := ⟨left, right, leftSpelled, rightSpelled, scalars⟩
      inTable := keeps.compare_table first second }

theorem order_exact (actions : List Action) (place : Placement)
    (apart : ∀ one ∈ World.shown {} actions, ∀ other ∈ World.shown {} actions,
      place one.2.buffer.number = place other.2.buffer.number →
        one.2.buffer.number = other.2.buffer.number) :
    (∀ one ∈ World.shown {} actions, ∀ other ∈ World.shown {} actions, Ranks place one other) ∧
    ∀ one other third : Handle,
      ((Handle.compare place one other).isLE = true → (Handle.compare place other third).isLE = true →
        (Handle.compare place one third).isLE = true) ∧
      ∀ order, Handle.compare place one other = order → Handle.compare place other third = order →
        Handle.compare place one third = order := by
  obtain ⟨ledger, keeps, shown⟩ := run_keeps actions
  constructor
  · intro one first other second
    exact keeps.ranks (shown first) (shown second) (apart one first other second)
  · intro one other third
    refine ⟨Std.TransCmp.isLE_trans, ?_⟩
    intro order
    exact Handle.compare_trans

end

-- The buffers lie in the opposite order of their making, and two tables hold one content.
theorem order_exact_descending :
    let actions : List Action :=
      [.create {}, .ask (.numbered 0) (.call (.internText "é")), .drop 0,
        .construct (.text .plain "é"), .construct (.text .plain "z")]
    let place : Placement := fun number => 1000 - number
    let dropped : Handle := ⟨⟨0, [0xC3, 0xA9, 0]⟩, ContentHasher.hash {} [0xC3, 0xA9]⟩
    let shared : Handle := ⟨⟨1, [0xC3, 0xA9, 0]⟩, ContentHasher.hash {} [0xC3, 0xA9]⟩
    (∀ one ∈ World.shown {} actions, ∀ other ∈ World.shown {} actions,
      place one.2.buffer.number = place other.2.buffer.number →
        one.2.buffer.number = other.2.buffer.number) ∧
      (.numbered 0, dropped) ∈ World.shown {} actions ∧
      (.shared, shared) ∈ World.shown {} actions ∧
      Ranks place (.numbered 0, dropped) (.shared, shared) ∧
      ((Handle.compare place dropped shared).isLE = true →
        (Handle.compare place shared dropped).isLE = true →
        (Handle.compare place dropped dropped).isLE = true) := by
  intro actions place dropped shared
  have apart : ∀ one ∈ World.shown {} actions, ∀ other ∈ World.shown {} actions,
      place one.2.buffer.number = place other.2.buffer.number →
        one.2.buffer.number = other.2.buffer.number := by decide +kernel
  have first : (TableName.numbered 0, dropped) ∈ World.shown {} actions := by decide +kernel
  have second : (TableName.shared, shared) ∈ World.shown {} actions := by decide +kernel
  obtain ⟨ranks, transitive⟩ := order_exact actions place apart
  exact ⟨apart, first, second, ranks _ first _ second, (transitive dropped shared dropped).1⟩

end World

end InternPool
