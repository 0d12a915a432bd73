import InternPool.Proofs.Json.Reading
import InternPool.Proofs.Utf8.Decoding
import InternPool.World.Route

namespace InternPool

theorem Value.content_wellFormed {value : Value} {content : Bytes}
    (read : value.content = .ok content) : Utf8.WellFormed content := by
  cases value with
  | text form string =>
    cases read
    exact Utf8.ofText_wellFormed string
  | scalar scalar =>
    cases read
    exact ⟨[scalar], List.append_nil _⟩
  | bytes form input =>
    cases read
    exact Utf8.repair_wellFormed input
  | sequence | map | unit | boolean | integer | floating | optional | wrapped | enumerated =>
    cases read

namespace Route

def content : Route → Except Rejection Bytes
  | .empty => .ok []
  | .text _ string => .ok (Utf8.ofText string)
  | .lenient _ bytes => .ok (Utf8.repair bytes).value
  | .strict bytes => ((Utf8.validate bytes).map fun () => bytes).mapError .illFormed
  | .cString memory => .ok (Utf8.repair (cutAtNul memory)).value
  | .value read => read.content.mapError .mismatch
  | .json source => ((Json.expectText source).map (·.1)).mapError .ofJson

-- Whether nothing is wrong with what comes after the content: only a document has something there.
def isWhole : Route → Bool
  | .json source =>
    match Json.expectText source with
    | .ok (_, rest) => Json.isOver rest
    | .error _ => true
  | _ => true

theorem content_wellFormed {route : Route} {content : Bytes} (arrives : route.content = .ok content) :
    Utf8.WellFormed content := by
  cases route with
  | empty =>
    cases arrives
    exact Utf8.WellFormed.nil
  | text form string =>
    cases arrives
    exact Utf8.ofText_wellFormed string
  | lenient form bytes =>
    cases arrives
    exact Utf8.repair_wellFormed bytes
  | strict bytes =>
    rw [Route.content] at arrives
    cases accepted : Utf8.validate bytes with
    | ok _ =>
      rw [accepted] at arrives
      cases arrives
      exact Utf8.validate_ok_iff.mp accepted
    | error error =>
      rw [accepted] at arrives
      cases arrives
  | cString memory =>
    cases arrives
    exact Utf8.repair_wellFormed _
  | value value =>
    rw [Route.content] at arrives
    cases read : value.content with
    | ok content =>
      rw [read] at arrives
      cases arrives
      exact Value.content_wellFormed read
    | error mismatch =>
      rw [read] at arrives
      cases arrives
  | json source =>
    rw [Route.content] at arrives
    cases read : Json.expectText source with
    | ok found =>
      rw [read] at arrives
      cases arrives
      exact Json.expectText_wellFormed read
    | error error =>
      rw [read] at arrives
      cases arrives

end Route

-- All routes are one: they get at a content and intern it. A document that fails after its string
-- has interned it all the same.
theorem World.construct_content [ContentHash] (world : World) (route : Route) :
    world.construct route =
      match route.content with
      | .error rejection => ⟨.error rejection, world⟩
      | .ok content =>
        { answer :=
            if route.isWhole then .ok (world.internShared content).answer else .error .malformed
          world := (world.internShared content).world } := by
  cases route with
  | empty | text | lenient | cString => rfl
  | strict bytes =>
    rw [construct, Route.content]
    cases Utf8.validate bytes <;> rfl
  | value value =>
    rw [construct, Route.content]
    cases value.content <;> rfl
  | json source =>
    rw [construct, constructJson, Route.content, Route.isWhole]
    cases Json.expectText source <;> rfl

end InternPool
