import LuaBytecode.Render

/-!
# Arguments

Arguments are taken from left to right.  A request for help or for the version
is granted where it stands, so only what comes before it must be right.  A
subcommand is told only before any other argument; later its name is a path.

**Contents.**
* `Request`: what a command line asks for.
* `Request.ofArguments?`: the request of a list of arguments, if it is one.
-/

namespace LuaBytecode

/-- A shell for which completions can be written. -/
inductive Shell where
  | bash
  | elvish
  | fish
  | powershell
  | zsh
  deriving DecidableEq

/-- The shell with the given name. -/
def Shell.ofName? :
    String → Option Shell
  | "bash" => some .bash
  | "elvish" => some .elvish
  | "fish" => some .fish
  | "powershell" => some .powershell
  | "zsh" => some .zsh
  | _ => none

/-- The mode with the given name on the command line. -/
def Mode.ofArgument? :
    String → Option Mode
  | "pseudo" => some .pseudo
  | "disasm" => some .disasm
  | "json" => some .json
  | _ => none

/-- What a command line asks for. -/
inductive Request where
  | help
  | version
  | completion (shell : Shell)
  | render (input : String) (output : String) (options : Options)
  deriving DecidableEq

/-- What was said before the next argument. -/
structure Settings where
  paths : List String
  mode : Option Mode
  listConstants : Bool
  verbose : Bool
  deriving DecidableEq

namespace Settings

/-- Nothing was said yet. -/
def initial : Settings where
  paths := []
  mode := none
  listConstants := false
  verbose := false

/-- Adds a path; there are at most two, and none is empty. -/
def addPath?
    (settings : Settings)
    (path : String) : Option Settings :=
  if path = "" ∨ 2 ≤ settings.paths.length then
    none
  else
    some { settings with paths := settings.paths ++ [path] }

/-- Sets the mode, which may be said once. -/
def setMode?
    (settings : Settings)
    (name : String) : Option Settings :=
  match settings.mode with
  | some _ => none
  | none => do
      let mode ← Mode.ofArgument? name
      return { settings with mode := some mode }

/-- Asks for constants, which may be said once. -/
def setConstants?
    (settings : Settings) : Option Settings :=
  if settings.listConstants then
    none
  else
    some { settings with listConstants := true }

/-- Asks for progress reports, which may be said once. -/
def setVerbose?
    (settings : Settings) : Option Settings :=
  if settings.verbose then
    none
  else
    some { settings with verbose := true }

/-- What the arguments ask for if no more follow; without two paths, that is help. -/
def request
    (settings : Settings) : Request :=
  match settings.paths with
  | [input, output] =>
      .render input output
        { mode := settings.mode.getD .pseudo
          listConstants := settings.listConstants }
  | _ => .help

end Settings

namespace Request

/-- The effect of an option: it answers at once, or it adds to the settings. -/
inductive Effect where
  | answer (request : Request)
  | goOn (settings : Settings)

/-- Whether an argument is an option; a minus sign alone is a path. -/
def isOption
    (argument : String) : Bool :=
  argument.toList.head? == some '-' && argument != "-"

/-- The effect of the letters of a short option. -/
def ofLetters?
    (settings : Settings) :
    List Char → Option Effect
  | [] => some (.goOn settings)
  | 'h' :: _ => some (.answer .help)
  | 'V' :: _ => some (.answer .version)
  | 'v' :: rest => do ofLetters? (← settings.setVerbose?) rest
  | _ :: _ => none

/-- What stands before the value of an option that brings its value along. -/
def modeAssignment : List Char := "--mode=".toList

/-- The effect of an option that takes no further argument. -/
def ofOption?
    (settings : Settings)
    (argument : String) : Option Effect :=
  if argument = "--help" then
    some (.answer .help)
  else if argument = "--version" then
    some (.answer .version)
  else if argument = "--constants" then
    .goOn <$> settings.setConstants?
  else if argument = "--verbose" then
    .goOn <$> settings.setVerbose?
  else if modeAssignment.isPrefixOf argument.toList then
    .goOn <$> settings.setMode? (String.ofList (argument.toList.drop modeAssignment.length))
  else
    match argument.toList with
    | '-' :: '-' :: _ => none
    | _ :: letters => ofLetters? settings letters
    | [] => none

/-- Arguments after the mark that ends the options: all are paths. -/
def ofPaths?
    (settings : Settings) :
    List String → Option Request
  | [] => some settings.request
  | path :: rest => do ofPaths? (← settings.addPath? path) rest

/-- Arguments of which none is a subcommand. -/
def ofOptions?
    (settings : Settings) :
    List String → Option Request
  | [] => some settings.request
  | "--" :: rest => ofPaths? settings rest
  | "--mode" :: name :: rest =>
      if isOption name then
        none
      else do
        ofOptions? (← settings.setMode? name) rest
  | argument :: rest =>
      if isOption argument then
        match ofOption? settings argument with
        | some (.answer request) => some request
        | some (.goOn settings) => ofOptions? settings rest
        | none => none
      else do
        ofOptions? (← settings.addPath? argument) rest

/-- The arguments of a request for completions once the options have ended. -/
def ofShellNames?
    (shell : Option Shell) :
    List String → Option Request
  | [] => .completion <$> shell
  | name :: rest =>
      match shell with
      | some _ => none
      | none => do ofShellNames? (some (← Shell.ofName? name)) rest

/-- The arguments of a request for completions: one shell. -/
def ofCompletion?
    (shell : Option Shell) :
    List String → Option Request
  | [] => .completion <$> shell
  | "--" :: rest => ofShellNames? shell rest
  | name :: rest =>
      if name = "--help" ∨ ['-', 'h'].isPrefixOf name.toList then
        some .help
      else
        match shell with
        | some _ => none
        | none => do ofCompletion? (some (← Shell.ofName? name)) rest

/-- The arguments of a request for help: nothing, or a subcommand. -/
def ofHelp? :
    List String → Option Request
  | [] => some .help
  | [name] => if name = "completion" ∨ name = "help" then some .help else none
  | _ => none

/-- The request of a list of arguments. -/
def ofArguments? :
    List String → Option Request
  | "completion" :: rest => ofCompletion? none rest
  | "help" :: rest => ofHelp? rest
  | arguments => ofOptions? .initial arguments

end Request
end LuaBytecode
