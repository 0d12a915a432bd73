import InternPool.Proofs.Utf8.Projection
import InternPool.Proofs.World.Permanence

namespace InternPool

theorem Utf8.text_ofText (string : String) : Utf8.text (Utf8.ofText string) = string := by
  have spelled : Utf8.ofText string = Utf8.encode string.toList := by
    rw [← Utf8.ofText_ofList, String.ofList_toList]
  rw [Utf8.text, spelled, Utf8.decode_encode, String.ofList_toList]

def Value.isText : Value → Bool
  | .text _ _ | .scalar _ | .bytes _ _ => true
  | _ => false

theorem Value.content_mismatch {value : Value} (other : value.isText = false) :
    ∃ found, value.content = .error ⟨found, .text⟩ := by
  cases value with
  | text | scalar | bytes => cases other
  | sequence | map | unit | boolean | integer | floating | optional | wrapped | enumerated =>
    exact ⟨_, rfl⟩

namespace Route

variable {route : Route} {text : String} {bytes : Bytes}

inductive Carries (text : String) : Route → Prop where
  | text (form : TextForm) : Carries text (.text form text)
  | lenient (form : BytesForm) : Carries text (.lenient form (Utf8.ofText text))
  | strict : Carries text (.strict (Utf8.ofText text))
  | value (form : ValueForm) : Carries text (.value (.text form text))
  | scalar {scalar : Char} (alone : text = .ofList [scalar]) :
      Carries text (.value (.scalar scalar))
  | bytes (form : ValueForm) : Carries text (.value (.bytes form (Utf8.ofText text)))

inductive Mends (bytes : Bytes) : Route → Prop where
  | lenient (form : BytesForm) : Mends bytes (.lenient form bytes)
  | value (form : ValueForm) : Mends bytes (.value (.bytes form bytes))

-- Nothing stops the route from interning the content.
def Reaches (content : Bytes) (route : Route) : Prop :=
  route.content = .ok content ∧ route.isWhole = true

theorem Mends.reaches (mends : route.Mends bytes) : route.Reaches (Utf8.repair bytes).value := by
  cases mends with
  | lenient | value => exact ⟨rfl, rfl⟩

theorem content_strict (bytes : Bytes) :
    (Route.strict bytes).content =
      match Utf8.validate bytes with
      | .ok () => .ok (Utf8.repair bytes).value
      | .error error => .error (.illFormed error) := by
  rw [content]
  cases accepted : Utf8.validate bytes with
  | ok _ =>
    rw [Utf8.repair_eq_kept_iff.mpr accepted]
    rfl
  | error error => rfl

theorem Carries.reaches (carries : route.Carries text) : route.Reaches (Utf8.ofText text) := by
  have wellFormed := Utf8.ofText_wellFormed text
  have kept := Utf8.repair_kept wellFormed
  have mended : ∀ {route : Route}, route.Mends (Utf8.ofText text) →
      route.Reaches (Utf8.ofText text) := by
    intro route mends
    simpa [kept] using mends.reaches
  cases carries with
  | text | value => exact ⟨rfl, rfl⟩
  | lenient form => exact mended (.lenient form)
  | bytes form => exact mended (.value form)
  | strict =>
    refine ⟨?_, rfl⟩
    rw [content_strict, Utf8.validate_ok_iff.mpr wellFormed, kept]
  | scalar alone =>
    rw [alone, Utf8.ofText_ofList]
    exact ⟨congrArg Except.ok (List.append_nil _).symm, rfl⟩

end Route

namespace World

section
variable [ContentHash] {world later : World} {ledger : List (TableName × Handle)} {content : Bytes}
  {routes : Route → Prop} {handle : Handle}

-- The routes all give the handle and leave the same world; whatever is done to that world, they give
-- the handle again and change nothing.
structure Meets (world : World) (routes : Route → Prop) (handle : Handle) (later : World) :
    Prop where
  first : ∀ route, routes route → world.construct route = ⟨.ok handle, later⟩
  again : ∀ (actions : List Action) (route : Route), routes route →
    (later.run actions).world.construct route = ⟨.ok handle, (later.run actions).world⟩

theorem Meets.only {fewer : Route → Prop} (meets : world.Meets routes handle later)
    (among : ∀ route, fewer route → routes route) : world.Meets fewer handle later where
  first route member := meets.first route (among route member)
  again actions route member := meets.again actions route (among route member)

theorem Keeps.meets (keeps : world.Keeps ledger) (wellFormed : Utf8.WellFormed content) :
    ∃ handle later, handle.content = content ∧ world.Meets (Route.Reaches content) handle later := by
  obtain ⟨⟨listed, _, kept, shows⟩, same⟩ := keeps.internShared wellFormed
  have member := (List.cons_subset.mp shows).1
  refine ⟨_, (world.internShared content).world, same, ?_, ?_⟩
  · rintro route ⟨arrives, whole⟩
    rw [construct_content, arrives, whole]
    rfl
  · rintro actions route ⟨arrives, whole⟩
    obtain ⟨last, goes, held, _⟩ := kept.run actions
    obtain ⟨table, recalls⟩ := held.shared_recalls (goes member)
    rw [recalls.constructed rfl route (by rw [arrives, same]), whole]
    rfl

theorem construct_strict (world : World) (bytes : Bytes) :
    world.construct (.strict bytes) =
      match Utf8.validate bytes with
      | .ok () => world.construct (.lenient .plain bytes)
      | .error error => ⟨.error (.illFormed error), world⟩ := by
  rw [construct_content, Route.content_strict]
  cases Utf8.validate bytes <;> rfl

-- What the routes to a text and to bytes do in a world, the strict one and those from a value that
-- is no string among them.
structure Gathers (world : World) : Prop where
  texts : ∀ text, ∃ handle later, handle.content = Utf8.ofText text ∧ handle.text = text ∧
    world.Meets (Route.Carries text) handle later
  bytes : ∀ bytes, ∃ handle later, handle.content = (Utf8.repair bytes).value ∧
    world.Meets (fun route => route.Mends bytes ∨ route.Carries (Utf8.repairText bytes).value)
      handle later
  accepted : ∀ bytes, Utf8.validate bytes = .ok () ↔
    ∃ handle, (world.construct (.strict bytes)).answer = .ok handle
  strict : ∀ bytes, Utf8.validate bytes = .ok () →
    world.construct (.strict bytes) = world.construct (.lenient .plain bytes)
  refused : ∀ bytes error, Utf8.validate bytes = .error error →
    world.construct (.strict bytes) = ⟨.error (.illFormed error), world⟩
  mismatched : ∀ value : Value, value.isText = false →
    ∃ found, world.construct (.value value) = ⟨.error (.mismatch ⟨found, .text⟩), world⟩

theorem Keeps.gathers (keeps : world.Keeps ledger) : world.Gathers where
  texts text := by
    obtain ⟨handle, later, content, meets⟩ := keeps.meets (Utf8.ofText_wellFormed text)
    refine ⟨handle, later, content, ?_, meets.only fun route carries => carries.reaches⟩
    rw [Handle.text, content, Utf8.text_ofText]
  bytes bytes := by
    obtain ⟨handle, later, content, meets⟩ := keeps.meets (Utf8.repair_wellFormed bytes)
    refine ⟨handle, later, content, meets.only ?_⟩
    rintro route (mends | carries)
    · exact mends.reaches
    · have reaches := carries.reaches
      rwa [Utf8.repairText_value, Utf8.ofText_text (Utf8.repair_wellFormed bytes)] at reaches
  accepted bytes := by
    rw [world.construct_strict bytes]
    cases Utf8.validate bytes with
    | ok _ => exact iff_of_true rfl ⟨_, rfl⟩
    | error error => exact iff_of_false nofun nofun
  strict bytes accepted := by
    rw [construct_strict, accepted]
  refused bytes error refused := by
    rw [construct_strict, refused]
  mismatched value other := by
    obtain ⟨found, mismatch⟩ := Value.content_mismatch other
    refine ⟨found, ?_⟩
    rw [World.construct, mismatch]

theorem routes_gather (actions : List Action) : (World.run {} actions).world.Gathers := by
  obtain ⟨ledger, keeps, _⟩ := run_keeps actions
  exact keeps.gathers

end

-- The shared table does not exist yet, as the one route so far was refused; "é" arrives as a text, as
-- a scalar value and as bytes, and stays what it is while other strings come in.
theorem routes_gather_first :
    let actions : List Action := [.construct (.strict [0xC3]), .create {}, .drop 0]
    let world := (World.run {} actions).world
    let more : List Action := [.construct (.text .boxed "z"), .configure {}]
    world.shared.isNone = true ∧ Value.isText .optional = false ∧
      world.construct (.strict [0xC3]) = ⟨.error (.illFormed (.incomplete 0)), world⟩ ∧
      (∃ found, world.construct (.value .optional) =
        ⟨.error (.mismatch ⟨found, .text⟩), world⟩) ∧
      ∃ handle later, handle.text = "é" ∧
        world.construct (.text .literal "é") = ⟨.ok handle, later⟩ ∧
        world.construct (.strict (Utf8.ofText "é")) = ⟨.ok handle, later⟩ ∧
        (later.run more).world.construct (.value (.scalar 'é')) =
          ⟨.ok handle, (later.run more).world⟩ := by
  intro actions world more
  have gathers := routes_gather actions
  have absent : world.shared.isNone = true := by decide +kernel
  have refused : Utf8.validate [0xC3] = .error (.incomplete 0) := by decide +kernel
  obtain ⟨handle, later, _, text, meets⟩ := gathers.texts "é"
  exact ⟨absent, rfl, gathers.refused _ _ refused, gathers.mismatched .optional rfl, handle, later,
    text, meets.first _ (.text .literal), meets.first _ .strict, meets.again more _ (.scalar rfl)⟩

end World

end InternPool
