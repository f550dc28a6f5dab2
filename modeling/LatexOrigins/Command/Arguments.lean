import LatexOrigins.Command.Basic

/-!
# Arguments

The arguments of the program name a command and its operands. The options
`--root` and `--config` take a value, in the same argument after `=` or in the
next one, and may stand before and after the name of the command, at most once
each; the one after it counts. A value is not empty, and in an argument of its
own it does not start with a dash, unless it is a dash alone. After `--` every
argument is an operand, and so it is after `help`. Arguments are looked at one by
one, and the first that asks for something else than a command, or does not fit,
ends it.
-/

namespace LatexOrigins

inductive Stop where
  | misuse
  | version
  | help
  deriving DecidableEq, Repr

inductive Argument where
  | separator
  | option (name : String) (value? : Option String)
  /-- Options of one letter each; here the first one. -/
  | letter (first : Char)
  | operand (text : String)
  deriving DecidableEq, Repr

def Argument.ofText (text : String) : Argument :=
  match text.toList with
  | ['-', '-'] => separator
  | '-' :: '-' :: rest =>
    match Path.pieces '=' rest with
    | [] | [_] => option (String.ofList rest) none
    | name :: _ => option (String.ofList name) (some (String.ofList (rest.drop (name.length + 1))))
  | '-' :: first :: _ => letter first
  | _ => operand text

inductive OptionName where
  | root
  | config
  deriving DecidableEq, Repr

def OptionName.ofText? : String → Option OptionName
  | "root" => some root
  | "config" => some config
  | _ => none

structure OptionValues where
  root? : Option String
  config? : Option String
  deriving DecidableEq, Repr

namespace OptionValues

def none : OptionValues := ⟨.none, .none⟩

def get? (values : OptionValues) : OptionName → Option String
  | .root => values.root?
  | .config => values.config?

def give (values : OptionValues) (name : OptionName) (text : String) :
    Except Stop OptionValues :=
  if text = "" ∨ (values.get? name).isSome then .error .misuse
  else
    match name with
    | .root => .ok { values with root? := text }
    | .config => .ok { values with config? := text }

/-- The values of one sequence of options, and for the others those of another. -/
def orElse (values others : OptionValues) : OptionValues :=
  ⟨values.root? <|> others.root?, values.config? <|> others.config?⟩

end OptionValues

inductive CommandName where
  | print (view : View)
  | find
  | help
  deriving DecidableEq, Repr

namespace CommandName

def ofText? : String → Option CommandName
  | "flatten" => some (print .flatSource)
  | "text" => some (print .plainText)
  | "files" => some (print .files)
  | "dump" => some (print .record)
  | "find" => some find
  | "help" => some help
  | _ => none

/-- Whether a further operand fits after those that a command has. The main file
comes first; help is given on one command. -/
def accepts (name : CommandName) (operands : List String) (text : String) : Bool :=
  match name, operands with
  | print _, [] => text ≠ ""
  | print _, _ => false
  | find, [] => text ≠ ""
  | find, operands => operands.length < 2
  | help, [] => (ofText? text).isSome
  | help, _ => false

end CommandName

structure ArgumentState where
  name? : Option CommandName
  before : OptionValues
  after : OptionValues
  awaited? : Option OptionName
  operands : List String
  inSource : Bool
  literal : Bool
  deriving DecidableEq, Repr

namespace ArgumentState

def start : ArgumentState := ⟨none, .none, .none, none, [], false, false⟩

def value (state : ArgumentState) (name : OptionName) (text : String) :
    Except Stop ArgumentState := do
  match state.name? with
  | none => pure { state with before := ← state.before.give name text, awaited? := none }
  | some _ => pure { state with after := ← state.after.give name text, awaited? := none }

/-- Take an operand. The first one, before any `--`, names the command; behind `help`
there are operands only. -/
def operand (state : ArgumentState) (text : String) : Except Stop ArgumentState :=
  match state.name? with
  | none =>
    match CommandName.ofText? text with
    | some name =>
      if state.literal then .error .misuse
      else .ok { state with name? := some name, literal := name = .help }
    | none => .error .misuse
  | some name =>
    if name.accepts state.operands text then
      .ok { state with operands := state.operands ++ [text] }
    else .error .misuse

def option (state : ArgumentState) (name : String) (value? : Option String) :
    Except Stop ArgumentState :=
  match OptionName.ofText? name, value? with
  | some name, some text => state.value name text
  | some name, none => .ok { state with awaited? := some name }
  | none, some _ => .error .misuse
  | none, none =>
    if name = "help" then .error .help
    else if name = "version" ∧ state.name? = none then .error .version
    else if name = "source" ∧ state.name? = some .find ∧ state.inSource = false then
      .ok { state with inSource := true }
    else .error .misuse

/-- Take options of one letter. The first one decides. -/
def letter (state : ArgumentState) (first : Char) : Except Stop ArgumentState :=
  if first = 'h' then .error .help
  else if first = 'V' ∧ state.name? = none then .error .version
  else .error .misuse

def take (state : ArgumentState) (text : String) : Except Stop ArgumentState :=
  if state.literal then state.operand text
  else
    match state.awaited?, Argument.ofText text with
    | some name, .operand text => state.value name text
    | some _, _ => .error .misuse
    | none, .separator => .ok { state with literal := true }
    | none, .option name value? => state.option name value?
    | none, .letter first => state.letter first
    | none, .operand text => state.operand text

def finish (state : ArgumentState) : Except Stop Invocation :=
  let values := state.after.orElse state.before
  let invoke (command : Command) (main : String) : Except Stop Invocation :=
    .ok ⟨command, main, values.root?, values.config?⟩
  match state.awaited?, state.name?, state.operands with
  | none, some .help, _ => .error .help
  | none, some (.print view), [main] => invoke (.print view) main
  | none, some .find, [main, pattern] =>
    invoke (.find pattern (if state.inSource then .source else .text)) main
  | _, _, _ => .error .misuse

end ArgumentState

def Invocation.ofArguments (arguments : List String) : Except Stop Invocation := do
  let state ← arguments.foldlM ArgumentState.take ArgumentState.start
  state.finish

end LatexOrigins
