import LiveTemplate.Text.Blank
import LiveTemplate.Value.Description
import LiveTemplate.Watch.World
/-!
# Sessions

In a session somebody types lines and reads answers.  A line that starts with a command is
carried out, and any other line is a template whose value is described.  Lines are trimmed, and
empty ones are passed over.

A session has one root scope, and keeps the templates that it was asked to watch.  After each
line that sets a name all of them are shown again with their values.
-/

set_option autoImplicit false

namespace LiveTemplate

/-- What a line asks for. -/
inductive Command where
  | help
  | environment
  | set (arguments : List Char)
  | get (name : List Char)
  | watch (template : List Char)
  | debug (template : List Char)
  | quit
  | evaluate (template : List Char)
deriving Repr, DecidableEq

namespace Command

/-- What stands before the first blank and what stands after it. -/
def cut? : List Char → Option (List Char × List Char)
  | [] => none
  | ' ' :: rest => some ([], rest)
  | c :: rest => (cut? rest).map fun (before, after) => (c :: before, after)

/-- The command in a line that is trimmed and not empty. -/
def ofLine (line : List Char) : Command :=
  let (word, rest) := (cut? line).getD (line, [])
  match String.ofList word with
  | ":help" => .help
  | ":env" => .environment
  | ":set" => .set rest
  | ":get" => .get (Text.trim rest)
  | ":watch" => .watch rest
  | ":debug" => .debug rest
  | ":quit" => .quit
  | ":exit" => .quit
  | _ => .evaluate line

end Command

/-- A session. -/
structure Session where
  scope : ScopeId
  /-- The templates that are watched, in the order in which they were asked for. -/
  watches : List (String × WatchId)

namespace Session

/-- What is shown first. -/
def banner : List String := [
  "APL data-binding REPL v0.1.0",
  "Type a template such as $\x7b1 + 2\x7d to evaluate it, or :help for commands.",
  ""]

/-- What is shown last. -/
def farewell : String := "Goodbye!"

/-- What a session asks with. -/
def prompt : String := "apl> "

/-- The help. -/
def help : List String := [
  "Commands:",
  "  :help                   - Show this help message",
  "  :env                    - Show the bindings of the root context",
  "  :get <name>             - Show the current value of a binding",
  "  :set <name> <template>  - Evaluate a template and store it in a writeable binding",
  "  :watch <template>       - Track a template; it is re-shown after every :set",
  "  :debug <template>       - Show the parsed expression tree",
  "  :quit, :exit            - Exit",
  "",
  "Examples:",
  "  $\x7bviewport.width > 500 ? 'wide' : 'narrow'\x7d",
  "  :set count $\x7b3\x7d",
  "  You have $\x7bcount\x7d item$\x7bcount == 1 ? '' : 's'\x7d",
  "  $\x7bMath.max(count, 10) * 2dp\x7d",
  "  $\x7bTime.year(utcTime)\x7d"]

/-- A message about what went wrong. -/
def problem (message : String) : String := "Error: " ++ message

/-- Text with blanks after it, up to a width in characters. -/
def column (width : Nat) (s : String) : String :=
  s ++ String.ofList (List.replicate (width - s.length) ' ')

/-- The name of a kind of binding. -/
def kindName : BindingKind → String
  | .constant => "Constant"
  | .user => "UserWriteable"
  | .system => "SystemWriteable"

/-- A line for a name that a scope sees. -/
def environmentLine (store : Store) (scope : ScopeId) (name : String) : String :=
  let kind := match store.binding? scope name with
    | some binding => kindName binding.kind
    | none => ""
  "  " ++ column 12 name ++ " " ++ column 16 kind ++ " " ++ (store.get scope name).describe store

/-- A session in a new root scope. -/
def start (viewport : Viewport) (agent : Agent) : Action Session := do
  return ⟨← Action.newRoot viewport agent, []⟩

/-- The description of the present value of a template. -/
def showTemplate (scope : ScopeId) (template : String) : Action String := do
  let value ← Action.compute fun store => Template.evaluate store scope template
  return value.describe (← Action.store)

/-- Set a name to the value of a template.  A name that nobody binds becomes one that the user
can write. -/
def setName (scope : ScopeId) (name template : String) : Action (List String) := do
  let value ← Action.compute fun store => Template.evaluate store scope template
  if (← Action.store).has scope name then
    if ← Action.userWrite scope name value then return []
    else return [problem ("'" ++ name ++ "' is not user writeable")]
  else
    Action.put scope name .user value
    return []

/-- The values of all watches. -/
def watchLines : List (String × WatchId) → Action (List String)
  | [] => pure []
  | (template, id) :: rest => do
    let text := match (← get).watches[id]? with
      | some watch => watch.value.toText
      | none => ""
    return ("  " ++ template ++ " => " ++ text) :: (← watchLines rest)

/-- Carry out a command.  Nothing more is done after the command to quit. -/
def carryOut (session : Session) : Command → Action (Session × List String)
  | .help => pure (session, help)
  | .environment => do
    let store ← Action.store
    return (session, (store.names session.scope).map (environmentLine store session.scope))
  | .set arguments => do
    let lines ← match Command.cut? (Text.trim arguments) with
      | none => pure ["Usage: :set <name> <template>"]
      | some (name, template) =>
        setName session.scope (String.ofList name) (String.ofList (Text.trim template))
    return (session, lines ++ (← watchLines session.watches))
  | .get name => do
    match (← Action.store).require session.scope (String.ofList name) with
    | .ok value =>
      let value ← Action.compute fun store => value.eval store
      return (session, [value.describe (← Action.store)])
    | .error e => return (session, [problem e.message])
  | .watch template => do
    let template := String.ofList template
    match ← Action.watch session.scope template with
    | .error e => return (session, [problem e.report])
    | .ok id =>
      let text := match (← get).watches[id]? with
        | some watch => watch.value.toText
        | none => ""
      return ({ session with watches := session.watches ++ [(template, id)] }, [text])
  | .debug template => do
    match ← Action.compute fun store => Template.read store session.scope (String.ofList template) with
    | .error e => return (session, [problem e.report])
    | .ok value => return (session, [value.describe (← Action.store)])
  | .quit => pure (session, [])
  | .evaluate template => do
    return (session, [← showTemplate session.scope (String.ofList template)])

/-- What comes of a line. -/
inductive Reply where
  /-- The session goes on, with these lines shown. -/
  | lines (session : Session) (shown : List String)
  /-- The session is over. -/
  | over

/-- Answer a line. -/
def answer (session : Session) (line : String) : Action Reply := do
  let line := Text.trim line.toList
  if line.isEmpty then return .lines session []
  match Command.ofLine line with
  | .quit => return .over
  | command =>
    let (session, lines) ← session.carryOut command
    return .lines session lines

/-- What is shown in answer to lines, up to the end of the session or of the lines. -/
def transcript (session : Session) : List String → Action (List String)
  | [] => pure [farewell]
  | line :: rest => do
    match ← session.answer line with
    | .over => return [farewell]
    | .lines session shown => return shown ++ (← session.transcript rest)

end Session

end LiveTemplate
