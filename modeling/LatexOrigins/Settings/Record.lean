import LatexOrigins.Json.Basic
import LatexOrigins.Settings.Basic

/-!
# Settings in written form

Settings are written with all their keys.
-/

namespace LatexOrigins

def Json.texts (l : List String) : Json := .array (l.map .string)

def CommandRule.toJson (r : CommandRule) : Json :=
  .object [("name", .string r.name), ("arguments", .nat r.arguments),
    ("keep", r.keep.elim .null .nat)]

def Flat.Options.toJson (o : Flat.Options) : Json :=
  .object [("include-commands", .texts o.includeCommands), ("pause-marker", .string o.pauseMarker),
    ("continue-marker", .string o.continueMarker),
    ("command-rules", .array (o.commandRules.map CommandRule.toJson))]

def Plain.Options.toJson (o : Plain.Options) : Json :=
  .object [("math-placeholder", .string o.mathPlaceholder),
    ("reference-placeholder", .string o.referencePlaceholder),
    ("citation-placeholder", .string o.citationPlaceholder),
    ("skip-environments", .texts o.skipEnvironments),
    ("math-environments", .texts o.mathEnvironments)]

def Settings.toJson (s : Settings) : Json :=
  .object [("flatten", s.flatten.toJson), ("detex", s.plain.toJson),
    ("max-origin-span", .nat s.spanLimit)]

end LatexOrigins
