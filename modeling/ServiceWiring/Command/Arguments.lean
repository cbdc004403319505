/-!
# Command lines

The arguments of an invocation.  They are taken one by one from the left, and the first one that
does not fit decides the error.  An option that still waits for its value, and a project path,
are settled only when something known follows or the line ends.

* `Command` — what an invocation asks for;
* `Command.parse` — reads arguments; no command at all is none.
-/

namespace ServiceWiring

/-- Why an invocation asks for no command. -/
inductive UsageError where
  | unknownCommand
  | unknownArgument
  /-- A value that is missing or empty. -/
  | invalidValue
  /-- An option or switch that is given twice. -/
  | repeatedArgument
  /-- A value behind a switch. -/
  | unexpectedValue
  /-- The help is asked for. -/
  | help
  /-- The version is asked for. -/
  | version
  deriving DecidableEq, Repr

/-- The exit code of an invocation that asks for no command. -/
def UsageError.exitCode : UsageError → Nat
  | .help => 0
  | .version => 0
  | _ => 2

/-- The arguments that all commands on a project share. -/
structure ProjectArguments where
  /-- The directory of the project. -/
  path : String := "."
  /-- The name of the generated file, in place of the configured one. -/
  outputFile : Option String := none
  verbose : Bool := false
  deriving DecidableEq, Repr

/-- What an invocation asks for. -/
inductive Command where
  | generate (project : ProjectArguments) (force dryRun : Bool)
  | check (project : ProjectArguments)
  | clean (project : ProjectArguments)
  | init
  deriving DecidableEq, Repr

/-- The arguments on the project, for commands on one. -/
def Command.project? : Command → Option ProjectArguments
  | .generate project _ _ => some project
  | .check project => some project
  | .clean project => some project
  | .init => none

/-- Whether a command asks for more output. -/
def Command.isVerbose (command : Command) : Bool :=
  command.project?.any (·.verbose)

namespace CommandLine

/-- The names of the commands. -/
inductive CommandName where
  | generate
  | check
  | clean
  | init
  deriving DecidableEq, Repr

/-- The command of a name. -/
def CommandName.ofText? (text : String) : Option CommandName :=
  if text = "generate" then some .generate
  else if text = "check" then some .check
  else if text = "clean" then some .clean
  else if text = "init" then some .init
  else none

/-- Whether a command works on a project. -/
def CommandName.takesProject : CommandName → Bool
  | .init => false
  | _ => true

/-- An option without a value. -/
inductive Switch where
  | verbose
  | force
  | dryRun
  | help
  deriving DecidableEq, Repr

/-- The switch of a long name. -/
def Switch.ofLong? (name : String) : Option Switch :=
  if name = "verbose" then some .verbose
  else if name = "force" then some .force
  else if name = "dry-run" then some .dryRun
  else if name = "help" then some .help
  else none

/-- The switch of a letter. -/
def Switch.ofLetter? (c : Char) : Option Switch :=
  if c = 'v' then some .verbose else if c = 'h' then some .help else none

/-- Whether a command has a switch. -/
def CommandName.has (command : CommandName) : Switch → Bool
  | .help => true
  | .verbose => command.takesProject
  | .force => command == .generate
  | .dryRun => command == .generate

/-- The shapes of an argument. -/
inductive Shape where
  /-- Two hyphens: everything behind them is plain. -/
  | separator
  | long (name : String) (value : Option String)
  | letters (cs : List Char)
  | plain
  deriving DecidableEq, Repr

/-- The shape of an argument. -/
def Shape.of (argument : String) : Shape :=
  match argument.toList with
  | ['-', '-'] => .separator
  | '-' :: '-' :: rest =>
      let name := String.ofList (rest.takeWhile (· != '='))
      match rest.dropWhile (· != '=') with
      | _ :: value => .long name (some (String.ofList value))
      | [] => .long name none
  | '-' :: c :: rest => .letters (c :: rest)
  | _ => .plain

/-- What is not settled yet. -/
inductive Pending where
  | nothing
  /-- The output file option, with its value once that has come. -/
  | outputFile (value : Option String)
  | path (value : String)
  deriving DecidableEq, Repr

/-- The arguments of a command read so far. -/
structure Draft where
  path : Option String := none
  outputFile : Option String := none
  switches : List Switch := []
  pending : Pending := .nothing
  /-- Whether a path has come, settled or not. -/
  hasPath : Bool := false
  /-- Whether all further arguments are plain. -/
  plainOnly : Bool := false
  deriving DecidableEq, Repr

namespace Draft

/-- Settles what is pending. -/
def settle (d : Draft) : Except UsageError Draft :=
  match d.pending with
  | .nothing => .ok d
  | .outputFile none => .error .invalidValue
  | .outputFile (some value) =>
      if d.outputFile.isSome then .error .repeatedArgument
      else .ok { d with outputFile := some value, pending := .nothing }
  | .path value =>
      if value.isEmpty then .error .invalidValue
      else .ok { d with path := some value, pending := .nothing }

/-- Takes a switch. -/
def press (command : CommandName) (d : Draft) (switch : Switch) : Except UsageError Draft :=
  if command.has switch then do
    let d ← d.settle
    if switch = .help then throw .help
    if d.switches.contains switch then throw .repeatedArgument
    return { d with switches := switch :: d.switches }
  else .error .unknownArgument

/-- Takes switches given by letters. -/
def pressLetters (command : CommandName) : Draft → List Char → Except UsageError Draft
  | d, [] => .ok d
  | d, c :: rest =>
      match Switch.ofLetter? c with
      | none => .error .unknownArgument
      | some switch => do pressLetters command (← d.press command switch) rest

/-- Takes an option or switch with a long name. -/
def takeLong (command : CommandName) (d : Draft) (name : String) (value : Option String) :
    Except UsageError Draft :=
  if name = "output-file" && command.takesProject then do
    let d := { ← d.settle with pending := .outputFile value }
    if value.isSome then d.settle else return d
  else
    match Switch.ofLong? name with
    | none => .error .unknownArgument
    | some switch =>
        if command.has switch && value.isSome then .error .unexpectedValue
        else d.press command switch

/-- Takes an argument that is no option. -/
def takePlain (command : CommandName) (d : Draft) (argument : String) : Except UsageError Draft :=
  if command.takesProject && !d.hasPath then do
    return { ← d.settle with pending := .path argument, hasPath := true }
  else .error .unknownArgument

/-- Takes one argument. -/
def take (command : CommandName) (d : Draft) (argument : String) : Except UsageError Draft :=
  if d.plainOnly then d.takePlain command argument
  else
    match Shape.of argument with
    | .separator => .ok { d with plainOnly := true }
    | .long name value => d.takeLong command name value
    | .letters cs => d.pressLetters command cs
    | .plain =>
        if d.pending = .outputFile none then
          .ok { d with pending := .outputFile (some argument) }
        else d.takePlain command argument

/-- The arguments on the project. -/
def project (d : Draft) : ProjectArguments where
  path := d.path.getD "."
  outputFile := d.outputFile
  verbose := d.switches.contains .verbose

end Draft

/-- Reads the arguments of a command. -/
def parseCommand (name : CommandName) (arguments : List String) : Except UsageError Command := do
  let d ← (← arguments.foldlM (Draft.take name) {}).settle
  match name with
  | .generate =>
      return .generate d.project (d.switches.contains .force) (d.switches.contains .dryRun)
  | .check => return .check d.project
  | .clean => return .clean d.project
  | .init => return .init

/-- Whether a text names a command, the help included. -/
def isCommandName (text : String) : Bool :=
  text = "help" || (CommandName.ofText? text).isSome

/-- What asking for help on some names gives. -/
def helpOn : List String → UsageError
  | [] => .help
  | [name] => if isCommandName name then .help else .unknownCommand
  | _ => .unknownCommand

/-- What an option in front of the command gives. -/
def leadingOption : Shape → UsageError
  | .long name value =>
      if name = "help" || name = "version" then
        if value.isSome then .unexpectedValue
        else if name = "help" then .help
        else .version
      else .unknownArgument
  | .letters ('h' :: _) => .help
  | .letters ('V' :: _) => .version
  | .letters _ => .unknownArgument
  | _ => .unknownCommand

end CommandLine

open CommandLine in
/-- Reads the arguments of an invocation. -/
def Command.parse : List String → Except UsageError (Option Command)
  | [] => .ok none
  | first :: rest =>
      match CommandName.ofText? first with
      | some name => (parseCommand name rest).map some
      | none =>
          if first = "help" then .error (helpOn rest)
          else if first = "--" then
            match rest with
            | [] => .ok none
            | name :: _ => .error (if isCommandName name then .unknownArgument else .unknownCommand)
          else .error (leadingOption (Shape.of first))

end ServiceWiring
