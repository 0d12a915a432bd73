import InternPool.Proofs.Json.Writing
import InternPool.Proofs.World.Meeting
import InternPool.World.JsonMap

namespace InternPool

open Json (IsText Blank)

namespace Route

def Spelled (scalars : List Char) (route : Route) : Prop :=
  ∃ source, route = .json source ∧ IsText source scalars

theorem reaches_json {source content : Bytes} :
    (Route.json source).Reaches content ↔
      ∃ scalars, IsText source scalars ∧ content = Utf8.encode scalars := by
  simp only [Json.isText_iff]
  rw [Reaches, Route.content, isWhole]
  constructor
  · rintro ⟨arrives, whole⟩
    cases read : Json.expectText source with
    | error error =>
      rw [read] at arrives
      cases arrives
    | ok found =>
      rw [read] at arrives whole
      cases arrives
      obtain ⟨scalars, same⟩ := Json.expectText_wellFormed read
      exact ⟨scalars, ⟨found.2, by rw [same], whole⟩, same.symm⟩
  · rintro ⟨scalars, ⟨rest, read, ended⟩, rfl⟩
    rw [read]
    exact ⟨rfl, ended⟩

theorem Spelled.reaches {scalars : List Char} {route : Route} (spelled : route.Spelled scalars) :
    route.Reaches (Utf8.encode scalars) := by
  obtain ⟨source, rfl, isText⟩ := spelled
  exact reaches_json.mpr ⟨scalars, isText, rfl⟩

end Route

theorem Handle.toJson_isText {handle : Handle} {scalars : List Char}
    (content : Utf8.encode scalars = handle.content) : IsText handle.toJson scalars := by
  rw [toJson, ← content]
  exact Json.writeText_isText scalars

namespace World

section
variable [ContentHash] {world : World} {ledger : List (TableName × Handle)} {handle : Handle}

theorem construct_ok_iff {route : Route} :
    (∃ handle, (world.construct route).answer = .ok handle) ↔
      ∃ content, route.Reaches content := by
  rw [construct_content]
  cases arrives : route.content with
  | error rejection => simp [Route.Reaches, arrives]
  | ok content => cases whole : route.isWhole <;> simp [Route.Reaches, arrives, whole]

structure Exchanges (world : World) (handles : Handle → Prop) : Prop where
  returns : ∀ handle, handles handle → world.construct (.json handle.toJson) = ⟨.ok handle, world⟩
  meets : ∀ scalars, ∃ handle later, handle.content = Utf8.encode scalars ∧
    world.Meets (Route.Spelled scalars) handle later
  accepted : ∀ source, (∃ handle, (world.construct (.json source)).answer = .ok handle) ↔
    ∃ scalars, IsText source scalars
  same_iff : ∀ {left right one other}, IsText left one → IsText right other →
    ((world.construct (.json left)).answer = (world.construct (.json right)).answer ↔ one = other)
  refused : ∀ {before : Bytes} {start : UInt8}, Blank before → ¬ Blank [start] → start ≠ 0x22 →
    ∀ rest, ∃ rejection,
      world.construct (.json (before ++ start :: rest)) = ⟨.error rejection, world⟩

theorem Keeps.returns (keeps : world.Keeps ledger) (known : (.shared, handle) ∈ ledger) :
    world.construct (.json handle.toJson) = ⟨.ok handle, world⟩ := by
  obtain ⟨hasher, canonical⟩ := keeps.canonical _ known
  obtain ⟨scalars, spelled⟩ := canonical.wellFormed
  obtain ⟨table, recalls⟩ := keeps.shared_recalls known
  obtain ⟨arrives, whole⟩ :=
    Route.Spelled.reaches ⟨_, rfl, Handle.toJson_isText spelled⟩
  rw [spelled] at arrives
  rw [recalls.constructed rfl _ arrives, whole]
  rfl

theorem Keeps.spelled_meets (keeps : world.Keeps ledger) (scalars : List Char) :
    ∃ handle later, handle.content = Utf8.encode scalars ∧
      world.Meets (Route.Spelled scalars) handle later := by
  obtain ⟨handle, later, content, meets⟩ := keeps.meets ⟨scalars, rfl⟩
  exact ⟨handle, later, content, meets.only fun route spelled => spelled.reaches⟩

theorem Keeps.exchanges (keeps : world.Keeps ledger) {handles : Handle → Prop}
    (listed : ∀ handle, handles handle → (.shared, handle) ∈ ledger) :
    world.Exchanges handles where
  returns handle member := keeps.returns (listed handle member)
  meets := keeps.spelled_meets
  accepted source := by
    simp only [construct_ok_iff, Route.reaches_json]
    constructor
    · rintro ⟨content, scalars, isText, _⟩
      exact ⟨scalars, isText⟩
    · rintro ⟨scalars, isText⟩
      exact ⟨_, scalars, isText, rfl⟩
  same_iff := by
    intro left right one other first second
    obtain ⟨former, _, content, meets⟩ := keeps.spelled_meets one
    obtain ⟨latter, _, also, joins⟩ := keeps.spelled_meets other
    have arrived := meets.first _ ⟨left, rfl, first⟩
    rw [arrived, joins.first _ ⟨right, rfl, second⟩]
    constructor
    · intro same
      cases same
      exact Utf8.encode_injective (content.symm.trans also)
    · rintro rfl
      rw [joins.first _ ⟨left, rfl, first⟩] at arrived
      exact (congrArg Outcome.answer arrived).symm
  refused := by
    intro before start blank visible unquoted rest
    obtain ⟨error, read⟩ := Json.expectText_other blank visible unquoted rest
    rw [World.construct, constructJson, read]
    exact ⟨_, rfl⟩

theorem documents_exchange (actions : List Action) :
    (World.run {} actions).world.Exchanges fun handle =>
      (.shared, handle) ∈ World.shown {} actions ∨
        ∃ table, (World.run {} actions).world.shared = some table ∧ handle ∈ table.entries := by
  obtain ⟨ledger, keeps, listed⟩ := run_keeps actions
  apply keeps.exchanges
  rintro handle (member | ⟨table, found, member⟩)
  · exact listed member
  · have there : (World.run {} actions).world.find? .shared = some table := found
    exact (keeps.listed there handle).mp member

end

-- A quote, a backslash, two control characters, DEL, U+FFFD and a scalar value above U+FFFF, each as an
-- escape in a document between blanks, and as they are written; what starts as a list is refused.
theorem documents_exchange_spellings :
    let scalars := ['"', '\\', '\x01', '\x00', '\x7F', '\uFFFD', '😀']
    let source := Utf8.ofText " \"\\u0022\\\\\\u0001\\u0000\\u007F\\ufffd\\uD83D\\uDE00\"\n"
    let world := (World.run {} [.construct (.json source)]).world
    ∃ handle, handle.content = Utf8.encode scalars ∧
      (World.construct {} (.json source)).answer = .ok handle ∧
      handle.toJson = Utf8.ofText "\"\\\"\\\\\\u0001\\u0000\x7F\uFFFD😀\"" ∧
      world.construct (.json handle.toJson) = ⟨.ok handle, world⟩ ∧
      world.construct (.json source) = ⟨.ok handle, world⟩ ∧
      ∃ rejection, world.construct (.json (0x20 :: 0x5B :: source)) = ⟨.error rejection, world⟩ := by
  intro scalars source world
  have isText : IsText source scalars :=
    Json.isText_iff.mpr ⟨[0x0A], by decide +kernel, by decide +kernel⟩
  obtain ⟨handle, later, content, meets⟩ := (documents_exchange []).meets scalars
  have exchanges := documents_exchange [.construct (.json source)]
  have arrived : World.construct {} (.json source) = ⟨.ok handle, later⟩ :=
    meets.first _ ⟨source, rfl, isText⟩
  have reached : world = later := by
    change (World.act {} (.construct (.json source))).world = later
    rw [act, arrived]
  have shown : (.shared, handle) ∈ World.shown {} [.construct (.json source)] := by
    simp [World.shown, World.run, act, arrived, shownBy, Action.table?, Result.handles]
  have blank : Blank [0x20] := List.forall_mem_singleton.mpr (.inl rfl)
  have list : ¬ Blank [0x5B] := by simp [Blank]
  refine ⟨handle, content, congrArg Outcome.answer arrived, ?_,
    exchanges.returns handle (.inl shown), ?_, exchanges.refused blank list (by decide) source⟩
  · rw [Handle.toJson, content]
    decide +kernel
  · rw [reached]
    exact meets.again [] _ ⟨source, rfl, isText⟩

end World

end InternPool
