/-!
# Command lines

What the arguments of the program ask for. Options stand before the command, each
one at most once, and what belongs to a command stands behind it. A command line
that does not fit asks for nothing.
-/

namespace Montage

inductive Command
  /-- Carry out the job that a file describes. -/
  | compose (job : String)
  /-- Show what is known of a media file. -/
  | probe (file : String)
  | showConfig
  deriving DecidableEq, Repr

structure Options where
  config : Option String := none
  jsonLogs : Bool := false
  metrics : Bool := false
  deriving DecidableEq, Repr

inductive CommandLine
  | invoke (options : Options) (command : Command)
  | version
  | help
  deriving DecidableEq, Repr

namespace CommandLine

/-- Whether an argument is taken for an option. A dash alone is a name. -/
def isOption (arg : String) : Bool := arg.toList.head? = some '-' && arg != "-"

def isFile (arg : String) : Bool := arg != "" && !isOption arg

/-- The value that is written right behind an option. -/
def attached? (option arg : String) : Option String :=
  if option.toList.isPrefixOf arg.toList then
    some (String.ofList (arg.toList.drop option.length))
  else none

def helpFlags : List String := ["--help", "-h"]

/-! ## Commands -/

def readCompose (o : Options) : Option String → List String → Option CommandLine
  | none, [] => none
  | some job, [] => some (.invoke o (.compose job))
  | some job, ["--"] => some (.invoke o (.compose job))
  | none, "--job" :: file :: rest => if isFile file then readCompose o (some file) rest else none
  | job, arg :: rest =>
    if helpFlags.contains arg then some .help
    else
      match job, attached? "--job=" arg with
      | none, some file => if file = "" then none else readCompose o (some file) rest
      | _, _ => none

def readProbe (o : Options) : Option String → List String → Option CommandLine
  | none, [] => none
  | some file, [] => some (.invoke o (.probe file))
  | some file, ["--"] => some (.invoke o (.probe file))
  | none, ["--", file] => if file = "" then none else some (.invoke o (.probe file))
  | file, arg :: rest =>
    if helpFlags.contains arg then some .help
    else if file.isNone && isFile arg then readProbe o (some arg) rest
    else none

def commandNames : List String := ["compose", "probe", "show-config", "help"]

def readCommand (o : Options) : List String → Option CommandLine
  | "compose" :: rest => readCompose o none rest
  | "probe" :: rest => readProbe o none rest
  | ["show-config"] | ["show-config", "--"] => some (.invoke o .showConfig)
  | ["show-config", flag] => if helpFlags.contains flag then some .help else none
  | ["help"] => some .help
  | ["help", name] => if commandNames.contains name then some .help else none
  | _ => none

/-! ## Options -/

/-- Names a file with settings, if none was named before. -/
def setConfig (o : Options) (file : String) : Option Options :=
  if o.config.isSome || file = "" then none else some { o with config := some file }

def attachedConfig? (arg : String) : Option String :=
  match attached? "--config=" arg, attached? "-c" arg with
  | some file, _ => some file
  | none, some "" => none
  | none, some file => some ((attached? "=" file).getD file)
  | none, none => none

/-- The options and what follows them. `fallback` is the file with settings that counts when
the arguments name none. -/
def readOptions (fallback : Option String) (o : Options) : List String → Option CommandLine
  | [] => none
  | "--json-logs" :: rest =>
    if o.jsonLogs then none else readOptions fallback { o with jsonLogs := true } rest
  | "--metrics" :: rest =>
    if o.metrics then none else readOptions fallback { o with metrics := true } rest
  | "--config" :: file :: rest | "-c" :: file :: rest =>
    if isFile file then (setConfig o file).bind fun o => readOptions fallback o rest else none
  | arg :: rest =>
    if arg = "--version" || (attached? "-V" arg).isSome then some .version
    else if arg = "--help" || (attached? "-h" arg).isSome then some .help
    else
      match attachedConfig? arg with
      | some file => (setConfig o file).bind fun o => readOptions fallback o rest
      | none =>
        match o.config, fallback with
        | none, some "" => none
        | config, fallback => readCommand { o with config := config <|> fallback } (arg :: rest)

def configVariable : String := "REELSMITH_CONFIG"

def read (env : List (String × String)) (args : List String) : Option CommandLine :=
  readOptions (env.lookup configVariable) {} args

/-! ## Texts -/

def versionText : String := "reelsmith 0.1.0\n"

def helpText : String := "\n".intercalate [
  "Composes short-form videos from remote sources",
  "",
  "Usage: reelsmith [OPTIONS] <COMMAND>",
  "",
  "Commands:",
  "  compose      Run one scenario request and print the prepared video record",
  "  probe        Print stream information for a media file",
  "  show-config  Print the effective configuration",
  "  help         Print this message or the help of the given subcommand(s)",
  "",
  "Options:",
  "  -c, --config <CONFIG>  Configuration file; built-in defaults are used when omitted [env: REELSMITH_CONFIG=]",
  "      --json-logs        Emit logs as JSON lines",
  "      --metrics          Write a Prometheus text snapshot of the run's metrics to stderr on exit",
  "  -h, --help             Print help",
  "  -V, --version          Print version",
  ""]

def usageMessage : String := "error: unexpected or missing arguments, try '--help'"

end CommandLine

end Montage
