import Abacus.Fault
import Abacus.Json

set_option autoImplicit false

/-!
# Faults as JSON values

A span is an object with two positions. A fault is an object with one member, whose key tells the
form of the fault; no other key may stand beside it. A diagnostic without a hint is written with an
empty hint, and read also without one.

## Main definitions

* `Abacus.Span.toJson`, `Abacus.Span.ofJson?` — spans.
* `Abacus.FaultKind.toJson`, `Abacus.FaultKind.ofJson?` — the reasons for refusals.
* `Abacus.Fault.toJson`, `Abacus.Fault.ofJson?` — faults.
* `Abacus.Diagnostic.toJson`, `Abacus.Diagnostic.ofJson?` — diagnostics.
-/

namespace Abacus

namespace Span

/-- The value of a span. -/
def toJson (s : Span) : Json := .object [("start", .ofNat s.start), ("end", .ofNat s.stop)]

/-- The span of a value. -/
def ofJson? (j : Json) : Option Span := do
  let start ← (j.member? "start").bind Json.word?
  let stop ← (j.member? "end").bind Json.word?
  return ⟨start, stop⟩

end Span

namespace FaultKind

/-- The value of a reason. -/
def toJson (kind : FaultKind) : Json := .string kind.name

/-- The reason of a value. -/
def ofJson? (j : Json) : Option FaultKind := (j.choice? .alone).bind ofName?

end FaultKind

namespace Fault

/-- The value of a fault. -/
def toJson : Fault → Json
  | undefinedName name span =>
    .object [("Reference", .object [("name", .string name), ("span", span.toJson)])]
  | refused kind span snippet =>
    .object [("Parse", .object
      [("kind", kind.toJson), ("span", span.toJson), ("snippet", .string snippet)])]

/-- The fault of a value. -/
def ofJson? : Json → Option Fault
  | .object [(key, body)] => do
    if key = "Reference" then
      let name ← body.text? "name"
      let span ← (body.member? "span").bind Span.ofJson?
      return undefinedName name span
    else if key = "Parse" then
      let kind ← (body.member? "kind").bind FaultKind.ofJson?
      let span ← (body.member? "span").bind Span.ofJson?
      let snippet ← body.text? "snippet"
      return refused kind span snippet
    else none
  | _ => none

end Fault

namespace Diagnostic

/-- The value of a hint, empty where there is none. -/
def hintJson : Option String → Json
  | some hint => .string hint
  | none => .null

/-- The hint of a member that may be missing or empty. -/
def readHint? : Option Json → Option (Option String)
  | none | some .null => some none
  | some (.string hint) => some (some hint)
  | some _ => none

/-- The value of a diagnostic. -/
def toJson (d : Diagnostic) : Json :=
  .object [("message", .string d.message), ("span", d.span.toJson), ("hint", hintJson d.hint?)]

/-- The diagnostic of a value. -/
def ofJson? (j : Json) : Option Diagnostic := do
  let message ← j.text? "message"
  let span ← (j.member? "span").bind Span.ofJson?
  let hint? ← readHint? (j.member? "hint")
  return ⟨message, span, hint?⟩

end Diagnostic

end Abacus
