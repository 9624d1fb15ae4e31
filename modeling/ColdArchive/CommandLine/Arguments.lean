import ColdArchive.Service.Config

/-!
The arguments of the program: options in long and short form, subcommands and their positional
arguments.

Arguments are read from left to right, and the first that cannot be read, or that asks for help or
for the version, decides. What is missing or contradictory is found at the end. Some options are
common to all subcommands and may stand before or behind the name of one; the one behind counts.
-/

namespace ColdArchive.CommandLine

/-- What the value of an option or argument may be. -/
inductive ValueKind where
  | text
  /-- A text that is not empty. -/
  | path
  /-- A natural number below `2 ^ 64`. -/
  | natural
  | address
  deriving DecidableEq, Repr

/-- The number that digits stand for, behind a plus sign or nothing, if it is below `2 ^ 64`. -/
def natural? (s : String) : Option Nat :=
  let digits := match s.toList with
    | '+' :: rest => rest
    | all => all
  SocketAddress.number? 10 (wordLimit - 1) (String.ofList digits)

namespace ValueKind

/-- A text that can be read as a value of the kind. -/
def accepts (kind : ValueKind) (s : String) : Bool :=
  match kind with
  | text => true
  | path => s ≠ ""
  | natural => (natural? s).isSome
  | address => (SocketAddress.ofText? s).isSome

end ValueKind

/-- What an option does. -/
inductive OptionKind where
  | flag
  | valued (kind : ValueKind) (placeholder : String) (default : Option String)
  | help
  | version
  deriving DecidableEq, Repr

/-- An option. -/
structure OptionSpec where
  name : String
  short : Option Char
  kind : OptionKind
  about : String
  deriving DecidableEq, Repr

/-- A positional argument. -/
structure ArgumentSpec where
  name : String
  kind : ValueKind
  about : String
  deriving DecidableEq, Repr

/-- The program or one of its subcommands. -/
structure Level where
  name : String
  about : String
  options : List OptionSpec
  arguments : List ArgumentSpec
  subcommands : List (String × String)
  deriving DecidableEq, Repr

/-- Why arguments do not lead to a command. -/
inductive Stop where
  | help (usage : String)
  | version
  | refused
  deriving DecidableEq, Repr

/-! ### Levels -/

def helpOption : OptionSpec := ⟨"help", some 'h', .help, "Print help"⟩

/-- The options that every level has. -/
def commonOptions : List OptionSpec :=
  [⟨"endpoint", some 'e', .valued .text "ENDPOINT" (some "127.0.0.1:8545"),
      "Server endpoint (host:port)"⟩,
    ⟨"namespace", some 'n', .valued .text "NAMESPACE" (some protocol.defaultNamespace),
      "Method namespace"⟩,
    ⟨"timeout-ms", none, .valued .natural "TIMEOUT_MS" (some "30000"),
      "Per-call timeout in milliseconds"⟩,
    ⟨"verbose", some 'v', .flag, "Enable verbose output"⟩]

/-- The subcommands. -/
def subcommands : List Level :=
  [⟨"serve", "Serve an ancient store over JSON-RPC",
      [⟨"dir", some 'd', .valued .path "DIR" none, "Freezer directory (created if missing)"⟩,
        ⟨"memory", some 'm', .flag, "Serve an ephemeral in-memory store instead"⟩,
        ⟨"bind", some 'b', .valued .address "BIND" (some "127.0.0.1:8545"),
          "Address to listen on"⟩,
        ⟨"max-connections", none, .valued .natural "MAX_CONNECTIONS" (some "256"),
          "Maximum concurrent connections"⟩] ++ commonOptions ++ [helpOption], [], []⟩,
    ⟨"ping", "Run the handshake and print the server status", commonOptions ++ [helpOption], [],
      []⟩,
    ⟨"inspect", "Display frozen count and category sizes",
      [⟨"dir", some 'd', .valued .path "DIR" none,
          "Inspect a local freezer directory instead of a server"⟩,
        ⟨"format", some 'f', .valued .text "FORMAT" (some "text"), "Output format (text, json)"⟩]
        ++ commonOptions ++ [helpOption], [], []⟩,
    ⟨"get", "Print one blob as a hex envelope", commonOptions ++ [helpOption],
      [⟨"CATEGORY", .text, "Category (hash, header, body, receipts, td)"⟩,
        ⟨"NUMBER", .natural, "Sequence number"⟩], []⟩,
    ⟨"truncate", "Discard every item at or above TARGET", commonOptions ++ [helpOption],
      [⟨"TARGET", .natural, "New frozen count"⟩], []⟩]

def programName : String := "ancient"

def programVersion : String := "0.3.0"

/-- The level before any subcommand. -/
def program : Level where
  name := programName
  about := "Command-line tools for serving and inspecting ancient stores"
  options := commonOptions ++ [helpOption, ⟨"version", some 'V', .version, "Print version"⟩]
  arguments := []
  subcommands := (subcommands.map fun l => (l.name, l.about))
    ++ [("help", "Print this message or the help of the given subcommand(s)")]

/-! ### Usage -/

/-- A text in a column. -/
def column (width : Nat) (s : String) : String :=
  s ++ String.ofList (List.replicate (width - s.length) ' ')

/-- Rows of two columns under a heading; nothing for no rows. -/
def table (heading : String) (rows : List (String × String)) : String :=
  let width := rows.foldl (fun w row => max w row.1.length) 0
  if rows.isEmpty then ""
  else "\n" ++ heading ++ ":\n"
    ++ String.join (rows.map fun row => "  " ++ column width row.1 ++ "  " ++ row.2 ++ "\n")

/-- An option and what it does. -/
def OptionSpec.row (o : OptionSpec) : String × String :=
  let short := match o.short with
    | some c => "-" ++ String.ofList [c] ++ ", "
    | none => "    "
  match o.kind with
  | .valued _ placeholder default =>
    let shown := match default with
      | some d => " [default: " ++ d ++ "]"
      | none => ""
    (short ++ "--" ++ o.name ++ " <" ++ placeholder ++ ">", o.about ++ shown)
  | _ => (short ++ "--" ++ o.name, o.about)

/-- How a level is used. -/
def Level.usage (l : Level) : String :=
  let called := if l.name = programName then programName else programName ++ " " ++ l.name
  let follows := if l.subcommands.isEmpty then
      String.join (l.arguments.map fun a => " <" ++ a.name ++ ">")
    else " <COMMAND>"
  l.about ++ "\n\nUsage: " ++ called ++ " [OPTIONS]" ++ follows ++ "\n"
    ++ table "Commands" l.subcommands
    ++ table "Arguments" (l.arguments.map fun a => ("<" ++ a.name ++ ">", a.about))
    ++ table "Options" (l.options.map OptionSpec.row)

/-! ### Reading -/

/-- What was given at a level: options with their values, and positional arguments. -/
structure Given where
  options : List (String × String)
  arguments : List String
  deriving DecidableEq, Repr

/-- Notes an option; each may be given once, with a value that it accepts. -/
def Given.addOption (g : Given) (o : OptionSpec) (value : String) : Except Stop Given :=
  let fits := match o.kind with
    | .valued kind _ _ => kind.accepts value
    | _ => true
  if fits && (g.options.lookup o.name).isNone then
    .ok { g with options := (o.name, value) :: g.options }
  else .error .refused

/-- Notes a positional argument, if one more is expected and it fits. -/
def Given.addArgument (g : Given) (l : Level) (value : String) : Except Stop Given :=
  match l.arguments[g.arguments.length]? with
  | some a =>
    if a.kind.accepts value then .ok { g with arguments := g.arguments ++ [value] }
    else .error .refused
  | none => .error .refused

/-- Does what an option without a value does. -/
def Given.raise (g : Given) (l : Level) (o : OptionSpec) : Except Stop Given :=
  match o.kind with
  | .help => .error (.help l.usage)
  | .version => .error .version
  | _ => g.addOption o ""

def OptionSpec.takesValue (o : OptionSpec) : Bool :=
  match o.kind with
  | .valued .. => true
  | _ => false

/-- Reads short options written together. An option that takes a value takes the rest, without an
equals sign before it; if there is no rest, that option still wants a value. -/
def readCluster (l : Level) (g : Given) : List Char → Except Stop (Given × Option OptionSpec)
  | [] => .ok (g, none)
  | c :: rest =>
    match l.options.find? fun o => o.short = some c with
    | none => .error .refused
    | some o =>
      if o.takesValue then
        match rest with
        | [] => .ok (g, some o)
        | '=' :: value => (g.addOption o (String.ofList value)).map fun g => (g, none)
        | value => (g.addOption o (String.ofList value)).map fun g => (g, none)
      else
        match g.raise l o with
        | .ok g => readCluster l g rest
        | .error stop => .error stop

/-- Reads a long option, without the dashes. -/
def readLong (l : Level) (g : Given) (body : List Char) :
    Except Stop (Given × Option OptionSpec) :=
  let name := String.ofList (body.takeWhile fun c => c ≠ '=')
  match l.options.find? fun o => o.name = name with
  | none => .error .refused
  | some o =>
    match body.dropWhile (fun c => c ≠ '='), o.takesValue with
    | [], true => .ok (g, some o)
    | [], false => (g.raise l o).map fun g => (g, none)
    | _ :: value, true => (g.addOption o (String.ofList value)).map fun g => (g, none)
    | _ :: _, false => .error .refused

/-- A text that can stand as the value of the option before it. -/
def standsAlone (s : String) : Bool :=
  match s.toList with
  | '-' :: _ :: _ => false
  | _ => true

/-- Reads the arguments of a level, up to the name of a subcommand if it has any. `wanting` is the
option that wants the next argument as its value. Gives the name and what follows it. -/
def readLevel (l : Level) (g : Given) (wanting : Option OptionSpec) :
    List String → Except Stop (Given × Option (String × List String))
  | [] => if wanting.isSome then .error .refused else .ok (g, none)
  | s :: rest =>
    match wanting with
    | some o =>
      if standsAlone s then
        match g.addOption o s with
        | .ok g => readLevel l g none rest
        | .error stop => .error stop
      else .error .refused
    | none =>
      match s.toList with
      | '-' :: '-' :: [] =>
        match rest.foldlM (fun g s => g.addArgument l s) g with
        | .ok g => .ok (g, none)
        | .error stop => .error stop
      | '-' :: '-' :: body =>
        match readLong l g body with
        | .ok (g, wanting) => readLevel l g wanting rest
        | .error stop => .error stop
      | '-' :: c :: cs =>
        match readCluster l g (c :: cs) with
        | .ok (g, wanting) => readLevel l g wanting rest
        | .error stop => .error stop
      | _ =>
        if l.subcommands.isEmpty then
          match g.addArgument l s with
          | .ok g => readLevel l g none rest
          | .error stop => .error stop
        else if (l.subcommands.lookup s).isSome then .ok (g, some (s, rest))
        else .error .refused

/-! ### Commands -/

/-- What the program is asked to do. -/
inductive Command where
  /-- Serve the archive of a directory, or an empty one in memory. -/
  | serve (directory : Option String) (bind : SocketAddress) (maxConnections : Nat)
  | ping
  /-- Report on the archive of a directory, or on a remote one. -/
  | inspect (directory : Option String) (format : String)
  | get (category : String) (number : Nat)
  | truncate (target : Nat)
  deriving DecidableEq, Repr

/-- A command and the options common to all. -/
structure Invocation where
  endpoint : String
  ns : String
  timeout : Duration
  command : Command
  deriving DecidableEq, Repr

/-- The value of an option: given at the level of the subcommand, or before it, or the default. -/
def valueOf (l : Level) (outer inner : Given) (name : String) : Option String :=
  let default := (l.options.find? fun o => o.name = name).bind fun o =>
    match o.kind with
    | .valued _ _ d => d
    | _ => none
  (inner.options.lookup name).or ((outer.options.lookup name).or default)

/-- The command of a level, from the values of its options and its positional arguments. -/
def commandOf (l : Level) (value : String → Option String) (arguments : List String) :
    Option Command :=
  match l.name, arguments with
  | "serve", [] => do
    let address ← (value "bind").bind SocketAddress.ofText?
    let limit ← (value "max-connections").bind natural?
    match value "dir", value "memory" with
    | some _, some _ => none
    | none, none => none
    | directory, _ => return .serve directory address limit
  | "ping", [] => some .ping
  | "inspect", [] => some (.inspect (value "dir") ((value "format").getD ""))
  | "get", [category, number] => (natural? number).map fun n => .get category n
  | "truncate", [target] => (natural? target).map .truncate
  | _, _ => none

/-- The usage asked for by the names behind `help`. -/
def readHelp : List String → Stop
  | [] => .help program.usage
  | ["help"] => .help program.usage
  | [name] =>
    match subcommands.find? fun l => l.name = name with
    | some l => .help l.usage
    | none => .refused
  | _ => .refused

/-- What the arguments ask for. -/
def read (arguments : List String) : Except Stop Invocation := do
  let (outer, called) ← readLevel program ⟨[], []⟩ none arguments
  match called with
  | none => .error .refused
  | some ("help", names) => .error (readHelp names)
  | some (name, rest) =>
    match subcommands.find? fun l => l.name = name with
    | none => .error .refused
    | some l =>
      let (inner, _) ← readLevel l ⟨[], []⟩ none rest
      let value := valueOf l outer inner
      match commandOf l value inner.arguments, (value "timeout-ms").bind natural? with
      | some command, some millis =>
        return ⟨(value "endpoint").getD "", (value "namespace").getD "",
          Duration.ofMillis millis, command⟩
      | _, _ => .error .refused

end ColdArchive.CommandLine
