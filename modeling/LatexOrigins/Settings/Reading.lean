import LatexOrigins.Json.Basic
import LatexOrigins.Settings.Basic
import LatexOrigins.Toml.Reader

/-!
# Reading settings

Settings are read from structured data, TOML or JSON. Every key has a default,
except the name and the number of arguments of a command rule; unknown keys are
passed over, and a value of the wrong kind spoils the whole. A structure may
also be given as an array of its fields in order.
-/

namespace LatexOrigins

structure DataView (α : Type) where
  /-- The fields with some names, in their order; nothing if it has no fields. -/
  fields? : List String → α → Option (List (Option α))
  text? : α → Option String
  count? : α → Option Nat
  items? : α → Option (List α)
  isNull : α → Bool

namespace DataView

/-- The first items of an array for a number of fields; missing ones are absent. -/
def padded {α : Type} (count : Nat) (items : List α) : List (Option α) :=
  (List.range count).map fun i => items[i]?

/-- JSON data. An array has no more items than there are fields. -/
def json : DataView Json where
  fields? names
    | .object members => some (names.map (Json.member? members))
    | .array items =>
      if items.length ≤ names.length then some (padded names.length items) else none
    | _ => none
  text? := Json.toString?
  count? := Json.toNat?
  items?
    | .array items => some items
    | _ => none
  isNull
    | .null => true
    | _ => false

/-- TOML data. A date counts as a structure none of whose fields is known. -/
def toml : DataView Toml.Value where
  fields? names
    | .table entries => some (names.map fun name => (entries.find? (·.1 = name)).map (·.2))
    | .array items => some (padded names.length items)
    | .datetime _ => some (names.map fun _ => none)
    | _ => none
  text?
    | .string text => some text
    | _ => none
  count?
    | .integer (.ofNat n) => some n
    | _ => none
  items?
    | .array items => some items
    | _ => none
  isNull _ := false

variable {α : Type} (view : DataView α)

def withDefault {β : Type} (read : α → Option β) (default : β) : Option α → Option β
  | none => some default
  | some value => read value

def texts? (value : α) : Option (List String) := do (← view.items? value).mapM view.text?

def rule? (value : α) : Option CommandRule := do
  match ← view.fields? ["name", "arguments", "keep"] value with
  | [some name, some arguments, keep] =>
    let keep ← withDefault (fun v => if view.isNull v then some none else some <$> view.count? v)
      none keep
    pure ⟨← view.text? name, ← view.count? arguments, keep⟩
  | _ => none

def flatOptions? (value : α) : Option Flat.Options := do
  let standard := Flat.Options.standard
  match ← view.fields? ["include-commands", "pause-marker", "continue-marker", "command-rules"]
      value with
  | [includes, pause, resume, rules] =>
    pure {
      includeCommands := ← withDefault view.texts? standard.includeCommands includes
      pauseMarker := ← withDefault view.text? standard.pauseMarker pause
      continueMarker := ← withDefault view.text? standard.continueMarker resume
      commandRules := ← withDefault (fun v => do (← view.items? v).mapM view.rule?)
        standard.commandRules rules }
  | _ => none

def plainOptions? (value : α) : Option Plain.Options := do
  let standard := Plain.Options.standard
  match ← view.fields? ["math-placeholder", "reference-placeholder", "citation-placeholder",
      "skip-environments", "math-environments"] value with
  | [math, reference, citation, skipped, formulas] =>
    pure {
      mathPlaceholder := ← withDefault view.text? standard.mathPlaceholder math
      referencePlaceholder := ← withDefault view.text? standard.referencePlaceholder reference
      citationPlaceholder := ← withDefault view.text? standard.citationPlaceholder citation
      skipEnvironments := ← withDefault view.texts? standard.skipEnvironments skipped
      mathEnvironments := ← withDefault view.texts? standard.mathEnvironments formulas }
  | _ => none

def settings? (value : α) : Option Settings := do
  let standard := Settings.standard
  match ← view.fields? ["flatten", "detex", "max-origin-span"] value with
  | [flatten, plain, limit] =>
    pure {
      flatten := ← withDefault view.flatOptions? standard.flatten flatten
      plain := ← withDefault view.plainOptions? standard.plain plain
      spanLimit := ← withDefault view.count? standard.spanLimit limit }
  | _ => none

end DataView

namespace Settings

def ofJson? (value : Json) : Option Settings := DataView.json.settings? value

def ofToml? (text : String) : Option Settings :=
  (Toml.ofText text).toOption.bind DataView.toml.settings?

end Settings

end LatexOrigins
