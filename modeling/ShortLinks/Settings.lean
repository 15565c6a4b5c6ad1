import ShortLinks.Code
import ShortLinks.Database.Connect
import ShortLinks.Journal
import ShortLinks.Settings.Source

/-!
# Settings

What can be set, in five sections, each value with a default. Settings are loaded from a file and
from the environment, which counts more; values from the command line count most and are put in
afterwards.
-/

namespace ShortLinks

namespace Settings

/-- Where the memory store keeps its journal, and when it writes it. -/
structure StorageSection where
  journalPath : Option String := some "short-url-db.json"
  journalMode : JournalMode := .standard
  deriving DecidableEq, Repr

/-- Which database is used, and its limits. -/
structure DatabaseSection where
  url : Option String := none
  poolSize : Nat := 10
  limits : Database.Limits := {}
  deriving DecidableEq, Repr

/-- How codes are derived. -/
structure ShortenerSection where
  scheme : Scheme := .standard
  deriving DecidableEq, Repr

/-- How many deletions may run at once. Where it is not set, there are as many as processors. -/
structure DeletionSection where
  workers : Option Nat := none
  deriving DecidableEq, Repr

/-- What is logged, and where. -/
structure LoggingSection where
  level : String := "info"
  format : String := "text"
  file : Option String := none
  maxBackups : Nat := 5
  rotation : Bool := true
  deriving DecidableEq, Repr

end Settings

/-- All settings. -/
structure Settings where
  storage : Settings.StorageSection := {}
  database : Settings.DatabaseSection := {}
  shortener : Settings.ShortenerSection := {}
  deletion : Settings.DeletionSection := {}
  logging : Settings.LoggingSection := {}
  deriving DecidableEq, Repr

namespace Settings

/-- The fields of a section as a source gives them: by position or by name. -/
abbrev Fields := Nat → String → Option Value

/-- The fields of a section. A table gives them by name, a list by position. -/
def fieldsOf : Option Value → Except Refusal Fields
  | none => .ok fun _ _ => none
  | some (.table entries) => .ok fun _ name => lookup? name entries
  | some (.list items) => .ok fun i _ => items[i]?
  | some _ => .error .notSection

/-- Read a field, or take its default where it is not given. -/
def field {α : Type} (fields : Fields) (i : Nat) (name : String)
    (read : Value → Except Refusal α) (default : α) : Except Refusal α :=
  match fields i name with
  | none => .ok default
  | some v => read v

/-- The bound of a number of 32 bits. -/
def bound32 : Nat := Decimal.twoTo 32

/-- The bound of a number of 64 bits. -/
def bound64 : Nat := Decimal.twoTo 64

/-- Read the section `storage`. -/
def readStorage (f : Fields) : Except Refusal StorageSection := do
  let d : StorageSection := {}
  return {
    journalPath := ← field f 0 "file_storage_path" (Value.asOptional Value.asText) d.journalPath
    journalMode := ← field f 1 "journal_mode" (Value.asChoice JournalMode.ofName?) d.journalMode }

/-- Read the section `database`. -/
def readDatabase (f : Fields) : Except Refusal DatabaseSection := do
  let d : DatabaseSection := {}
  let url ← field f 0 "database_url" (Value.asOptional Value.asText) d.url
  let poolSize ← field f 1 "pool_size" (Value.asCount bound32) d.poolSize
  let connectSeconds ←
    field f 2 "connect_timeout_secs" (Value.asCount bound64) d.limits.connectSeconds
  let operationMillis ← field f 3 "op_timeout_ms" (Value.asCount bound64) d.limits.operationMillis
  return { url, poolSize, limits := { connectSeconds, operationMillis } }

/-- Read the section `shortener`. -/
def readShortener (f : Fields) : Except Refusal ShortenerSection := do
  let d : ShortenerSection := {}
  return { scheme := ← field f 0 "code_scheme" (Value.asChoice Scheme.ofName?) d.scheme }

/-- Read the section `deletion`. -/
def readDeletion (f : Fields) : Except Refusal DeletionSection := do
  let d : DeletionSection := {}
  return { workers := ← field f 0 "workers" (fun v => (v.asCount bound64).map some) d.workers }

/-- Read the section `logging`. -/
def readLogging (f : Fields) : Except Refusal LoggingSection := do
  let d : LoggingSection := {}
  return {
    level := ← field f 0 "level" Value.asText d.level
    format := ← field f 1 "format" Value.asText d.format
    file := ← field f 2 "file" (Value.asOptional Value.asText) d.file
    maxBackups := ← field f 3 "max_backups" (Value.asCount bound32) d.maxBackups
    rotation := ← field f 4 "enable_rotation" Value.asFlag d.rotation }

/-- Read settings from a tree. -/
def read (tree : Value) : Except Refusal Settings := do
  let sections ← fieldsOf (some tree)
  return {
    storage := ← readStorage (← fieldsOf (sections 0 "storage"))
    database := ← readDatabase (← fieldsOf (sections 1 "database"))
    shortener := ← readShortener (← fieldsOf (sections 2 "shortener"))
    deletion := ← readDeletion (← fieldsOf (sections 3 "deletion"))
    logging := ← readLogging (← fieldsOf (sections 4 "logging")) }

/-- Why settings cannot be loaded. -/
inductive LoadFault
  | missing (message : String)
  | malformed
  | invalid (refusal : Refusal)
  deriving DecidableEq, Repr

/-- The file that is read where none is named. -/
def defaultPath : String := "config.toml"

/-- The endings that can be left out of the name of a file. -/
def endings : List String := [".toml", ".json"]

/-- What stands behind the last dot of a file name, if anything stands before it. -/
def extension? (path : String) : Option String :=
  let parts := ((Path.lastName? path).getD "").toList.splitOn '.'
  if parts.length < 2 || (parts.length = 2 && parts.head? == some []) then none
  else parts.getLast?.map String.ofList

/-- The formats of a settings file, by extension. -/
def formats : List String := ["toml", "json", "yaml", "yml", "ini", "ron", "json5"]

/-- A path without what stands behind its last name. -/
def dropTail (path : String) : String :=
  let parts := (path.toList.splitOn '/').reverse.dropWhile fun part => part == [] || part == ['.']
  String.ofList (['/'].intercalate parts.reverse)

/-- What a name has in front of the ending that was left out. Slashes and dots behind a name without
an extension count for nothing; a name with one names a directory when a slash stands behind it, and
the file in it has no name of its own. -/
def stem? (name : String) : Option String :=
  if (Path.lastName? name).isNone then none
  else if (extension? name).isNone then some (dropTail name)
  else if Path.endsInSlash name then some (name ++ ".dummy")
  else some name

/-- The paths that a name means when no file stands at the name itself. -/
def completions (name : String) : List String :=
  match stem? name with
  | none => []
  | some stem => endings.map (stem ++ ·)

/-- The path of the file that a name means: the name itself, or the name with an ending. -/
def locate (fs : FileSystem) (name : String) : Except LoadFault String :=
  let refuse (what : String) : Except LoadFault String :=
    .error (.missing ("configuration file \"" ++ name ++ "\" " ++ what))
  if fs.isFile name then
    if (extension? name).any formats.contains then .ok name
    else refuse "is not of a registered file format"
  else
    match (completions name).find? fs.isFile with
    | some path => .ok path
    | none => refuse "not found"

/-- The text of a settings file. A mark of the octet order in front is no part of it, and what is no
text is replaced. -/
def textOf (bytes : Bytes) : String :=
  Text.decodeLossy (match bytes with
    | 0xEF :: 0xBB :: 0xBF :: rest => rest
    | bytes => bytes)

/-- The path of the file that a name means, and its text. -/
def contentOf (fs : FileSystem) (name : String) : Except LoadFault (String × String) := do
  let path ← locate fs name
  match ((Disk.readBytes path).run fs).1 with
  | .ok bytes => return (path, textOf bytes)
  | .error e => throw (.missing e.text)

/-- The entries that a file gives. Where no file is named, the usual one may be missing. -/
def fileEntries (fs : FileSystem) (name : Option String) :
    Except LoadFault (List (String × Value)) :=
  match name, contentOf fs (name.getD defaultPath) with
  | none, .error _ => .ok []
  | some _, .error fault => .error fault
  | _, .ok (path, content) =>
    match ofFile? path content with
    | some entries => .ok entries
    | none => .error .malformed

/-- Load settings from a file and from the environment, which counts more. -/
def load (fs : FileSystem) (env : Environment) (name : Option String) :
    Except LoadFault Settings := do
  let entries ← fileEntries fs name
  match read (merge [entries, ofEnvironment env]) with
  | .ok settings => return settings
  | .error refusal => throw (.invalid refusal)

/-- Values from the command line. -/
structure Overrides where
  journalPath : Option String := none
  databaseUrl : Option String := none
  logLevel : Option String := none
  deriving DecidableEq, Repr

/-- Put the values from the command line in. -/
def override (s : Settings) (o : Overrides) : Settings where
  storage := { s.storage with journalPath := o.journalPath.or s.storage.journalPath }
  database := { s.database with url := o.databaseUrl.or s.database.url }
  shortener := s.shortener
  deletion := s.deletion
  logging := { s.logging with level := o.logLevel.getD s.logging.level }

/-- A text between double quotes. -/
def quoted (s : String) : String := "\"" ++ s ++ "\""

/-- A field in a file, where it has a value. -/
def line (name : String) (value : Option String) : String :=
  (value.map fun v => name ++ " = " ++ v ++ "\n").getD ""

/-- Settings as a file, on a machine with that many processors. The texts in it hold nothing that
needs an escape. -/
def render (s : Settings) (processors : Nat) : String :=
  "[storage]\n" ++
    line "file_storage_path" (s.storage.journalPath.map quoted) ++
    line "journal_mode" (some (quoted s.storage.journalMode.name)) ++
  "\n[database]\n" ++
    line "database_url" (s.database.url.map quoted) ++
    line "pool_size" (some (toString s.database.poolSize)) ++
    line "connect_timeout_secs" (some (toString s.database.limits.connectSeconds)) ++
    line "op_timeout_ms" (some (toString s.database.limits.operationMillis)) ++
  "\n[shortener]\n" ++
    line "code_scheme" (some (quoted s.shortener.scheme.name)) ++
  "\n[deletion]\n" ++
    line "workers" (some (toString (s.deletion.workers.getD processors))) ++
  "\n[logging]\n" ++
    line "level" (some (quoted s.logging.level)) ++
    line "format" (some (quoted s.logging.format)) ++
    line "file" (s.logging.file.map quoted) ++
    line "max_backups" (some (toString s.logging.maxBackups)) ++
    line "enable_rotation" (some (if s.logging.rotation then "true" else "false"))

/-- An example of a settings file: all defaults. -/
def sample (processors : Nat) : String := render {} processors

end Settings

end ShortLinks
