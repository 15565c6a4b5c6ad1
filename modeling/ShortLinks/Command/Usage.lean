import ShortLinks.Command.Program

/-!
# What a run says at its end

A run that is not carried out ends with the words of the libraries that read the command line and
the settings. Nothing is decided by them, so they are a parameter. The program itself says what its
name and version are, which settings file is missing, and what a command failed with.

The brief words are those for the kind of a refusal, without the part of the command line that it is
about.
-/

namespace ShortLinks

/-- The name of the program. -/
def programName : String := "tinylink"

/-- The version of the program. -/
def programVersion : String := "0.3.0"

/-- The words of the libraries: about a command line that is refused or asks for help, and about
settings that are malformed or of a wrong kind. -/
structure Wording where
  refusal : Program → Arguments.Refusal → String
  loadFault : Program → FileSystem → Settings.LoadFault → String

namespace Wording

variable (w : Wording)

/-- What is said about settings that cannot be loaded. -/
def settingsText (p : Program) (files : FileSystem) : Settings.LoadFault → String
  | .missing message => message
  | fault => w.loadFault p files fault

/-- What a run says at its end. -/
def text (p : Program) (files : FileSystem) : Program.Ending → String
  | .done => ""
  | .refused .version => programName ++ " " ++ programVersion ++ "\n"
  | .refused r => w.refusal p r
  | .notLoaded fault => "Failed to load configuration: " ++ w.settingsText p files fault ++ "\n"
  | .failed fault => fault.banner p.color ++ "\n"

end Wording

namespace Arguments

/-- The commands, and what they do. -/
def commandLines : List (String × String) :=
  [("add", "Shorten a URL"), ("batch", "Shorten every URL in a JSON file"),
    ("get", "Resolve a short code"), ("list", "List the owner's URLs, deleted ones included"),
    ("delete", "Delete short codes (Ctrl-C stops the remaining ones)"),
    ("stats", "Show record and owner counts"),
    ("ping", "Check that the storage backend is reachable"), ("config", "Manage configuration"),
    (Place.helpWord, "Print this message or the help of the given subcommand(s)")]

/-- What an option is for. -/
def Flag.purpose : Flag → String
  | config => "Configuration file (default: config.toml when present)"
  | journal => "Journal file for the memory backend; empty disables persistence"
  | database => "Database URL (sqlite://, mysql://, postgres://)"
  | level => "Log filter, e.g. \"info\" or \"tinylink=debug\""
  | owner => "Owner identity the command acts as"

/-- What stands for the value of an option. -/
def Flag.valueName : Flag → String
  | owner => "OWNER"
  | f => f.variableName

/-- The line for an option. -/
def Flag.usageLine (f : Flag) : String :=
  "-" ++ String.singleton f.letter ++ ", --" ++ f.word ++ " <" ++ f.valueName ++ ">  " ++
    f.purpose ++ " [env: " ++ f.variableName ++ "=]"

/-- How the program is called. -/
def callLine : String := "Usage: " ++ programName ++ " [OPTIONS] <COMMAND>\n"

/-- How the program is used. -/
def usage : String :=
  "Shorten, resolve and manage URLs per owner\n\n" ++ callLine ++ "\nCommands:\n" ++
    String.join (commandLines.map fun (name, purpose) => "  " ++ name ++ "  " ++ purpose ++ "\n") ++
    "\nOptions:\n" ++ String.join (Flag.all.map fun flag => "  " ++ flag.usageLine ++ "\n") ++
    "  -h, --help  Print help\n  -V, --version  Print version\n"

/-- The sentence for a kind of refusal. Help needs none. -/
def Refusal.sentence? : Refusal → Option String
  | help | version | nothingGiven => none
  | missingOperand => some "one or more required arguments were not provided"
  | missingCommand => some "a subcommand is required but one was not provided"
  | unknownWord => some "unexpected argument found"
  | unknownCommand => some "unrecognized subcommand"
  | missingValue => some "one of the values isn't valid for an argument"
  | needlessValue => some "unexpected value for an argument found"
  | repeatedOption =>
    some "an argument cannot be used with one or more of the other specified arguments"

end Arguments

/-- Brief words. -/
def Wording.brief : Wording where
  refusal _ r :=
    match r.sentence? with
    | none => Arguments.usage
    | some sentence => "error: " ++ sentence ++ "\n\n" ++ Arguments.callLine ++
        "\nFor more information, try '--help'.\n"
  loadFault _ _
    | .missing message => message
    | .malformed => "the configuration file cannot be parsed"
    | .invalid _ => "a value is invalid for its key"

end ShortLinks
