import ShortLinks.Command

/-!
# Arguments of the command line

A command line names a command, and perhaps a command of that command, with options anywhere
between. Each command on the way is a level of its own: an option may be given once on every level,
and the value that is given deepest counts. What no level gives comes from a variable of the
environment, if there is one.

Words are taken one by one, and the first thing wrong is reported. An option with its value, and
the operands of a command, wait in `pending` until the next word shows that they are complete, so
a word that is unknown is reported before an option that came twice.
-/

namespace ShortLinks.Arguments

/-- An option with a value, which every command takes. -/
inductive Flag
  | config
  | journal
  | database
  | level
  | owner
  deriving DecidableEq, Repr

namespace Flag

/-- All options with a value. -/
def all : List Flag := [config, journal, database, level, owner]

/-- The letter of an option. -/
def letter : Flag → Char
  | config => 'c'
  | journal => 'f'
  | database => 'd'
  | level => 'l'
  | owner => 'u'

/-- The word of an option. -/
def word : Flag → String
  | config => "config"
  | journal => "file-storage-path"
  | database => "database-dsn"
  | level => "log-level"
  | owner => "owner"

/-- The variable of the environment that stands in for an option. -/
def variableName : Flag → String
  | config => "CONFIG"
  | journal => "FILE_STORAGE_PATH"
  | database => "DATABASE_DSN"
  | level => "LOG_LEVEL"
  | owner => "TINYLINK_OWNER"

end Flag

/-- A place in the tree of commands. -/
inductive Place
  | root
  | add
  | batch
  | get
  | list
  | delete
  | stats
  | ping
  | config
  | generate
  deriving DecidableEq, Repr

/-- How many operands a command takes. -/
inductive Arity
  | none
  | optional
  | one
  | some
  deriving DecidableEq, Repr

namespace Place

/-- The commands below a place. -/
def below : Place → List (String × Place)
  | root => [("add", add), ("batch", batch), ("get", get), ("list", list), ("delete", delete),
      ("stats", stats), ("ping", ping), ("config", config)]
  | config => [("generate", generate)]
  | _ => []

/-- The word for help on commands. -/
def helpWord : String := "help"

/-- A word names a command below a place. Help is a command wherever there are others. -/
def hasCommand (p : Place) (word : String) : Bool :=
  !p.below.isEmpty && (word == helpWord || (p.below.lookup word).isSome)

/-- How many operands the command at a place takes. -/
def arity : Place → Arity
  | add | batch | get => .one
  | delete => .some
  | generate => .optional
  | _ => .none

end Place

/-- Why a command line is not carried out. -/
inductive Refusal
  | help
  | version
  | missingOperand
  | missingCommand
  | nothingGiven
  | unknownWord
  | unknownCommand
  | missingValue
  | needlessValue
  | repeatedOption
  deriving DecidableEq, Repr

namespace Refusal

/-- Help and version are answers, not mistakes. -/
def isAnswer : Refusal → Bool
  | help | version => true
  | _ => false

/-- The exit status of a refusal. -/
def status (r : Refusal) : Nat := if r.isAnswer then 0 else 2

end Refusal

/-- What waits for the next word. -/
inductive Pending
  | value (flag : Flag) (given : Option String)
  | operands (words : List String)
  deriving DecidableEq, Repr

/-- What was given at one level. -/
structure Level where
  place : Place
  values : List (Flag × String) := []
  force : Bool := false
  operands : List String := []
  pending : Option Pending := none
  deriving DecidableEq, Repr

namespace Level

/-- Give an option its value. -/
def give (l : Level) (flag : Flag) (value : String) : Except Refusal Level :=
  if (l.values.lookup flag).isSome then .error .repeatedOption
  else .ok { l with values := l.values ++ [(flag, value)] }

/-- Take what waits. -/
def settle (l : Level) : Except Refusal Level :=
  let settled := { l with pending := none }
  match l.pending with
  | none => .ok settled
  | some (.operands words) => .ok { settled with operands := l.operands ++ words }
  | some (.value _ none) => .error .missingValue
  | some (.value flag (some value)) => settled.give flag value

/-- The option that waits for its value. -/
def awaiting (l : Level) : Option Flag :=
  match l.pending with
  | some (.value flag none) => some flag
  | _ => none

/-- Take an option. Without a value in the same word, it waits for the next one. -/
def takeFlag (l : Level) (flag : Flag) (value : Option String) : Except Refusal Level := do
  let l ← l.settle
  match value with
  | some value => l.give flag value
  | none => return { l with pending := some (.value flag none) }

/-- Take the option to overwrite. -/
def takeForce (l : Level) : Except Refusal Level := do
  let l ← l.settle
  if l.force then throw .repeatedOption else return { l with force := true }

/-- Stop with an answer. -/
def stop (l : Level) (answer : Refusal) : Except Refusal Level := do
  let _ ← l.settle
  throw answer

/-- Take a word that begins with two dashes. -/
def takeLong (l : Level) (word : String) (value : Option String) : Except Refusal Level :=
  match Flag.all.find? fun flag => flag.word == word with
  | some flag => l.takeFlag flag value
  | none =>
    let plain (take : Except Refusal Level) : Except Refusal Level :=
      if value.isSome then .error .needlessValue else take
    if word = "help" then plain (l.stop .help)
    else if word = "version" ∧ l.place = .root then plain (l.stop .version)
    else if word = "force" ∧ l.place = .generate then plain l.takeForce
    else .error .unknownWord

/-- The value behind the letter of an option, in the same word. -/
def attached : List Char → Option String
  | [] => none
  | '=' :: rest => some (String.ofList rest)
  | rest => some (String.ofList rest)

/-- Take a word that begins with one dash and the given letter. -/
def takeShort (l : Level) (letter : Char) (rest : List Char) : Except Refusal Level :=
  match Flag.all.find? fun flag => flag.letter == letter with
  | some flag => l.takeFlag flag (attached rest)
  | none =>
    if letter = 'h' then l.stop .help
    else if letter = 'V' ∧ l.place = .root then l.stop .version
    else .error .unknownWord

/-- Operands that were taken or wait. -/
def hasOperand (l : Level) : Bool :=
  !l.operands.isEmpty || match l.pending with
    | some (.operands _) => true
    | _ => false

/-- Why a word is no operand. -/
def strayWord (l : Level) (trailing : Bool) (word : String) : Refusal :=
  if l.place.below.isEmpty || (trailing && l.place.hasCommand word) then .unknownWord
  else .unknownCommand

/-- Take an operand. -/
def takeOperand (l : Level) (trailing : Bool) (word : String) : Except Refusal Level :=
  let isFull := match l.place.arity with
    | .none => true
    | .optional | .one => l.hasOperand
    | .some => false
  if isFull then .error (l.strayWord trailing word)
  else
    match l.pending with
    | some (.operands words) => .ok { l with pending := some (.operands (words ++ [word])) }
    | _ => do
      let l ← l.settle
      return { l with pending := some (.operands [word]) }

/-- Take a word that names no command. -/
def take (l : Level) (trailing : Bool) (word : String) : Except Refusal Level :=
  if trailing then l.takeOperand true word
  else
    match word.toList with
    | '-' :: '-' :: rest =>
      let (name, value) := Text.splitFirst '=' rest
      l.takeLong (String.ofList name) (value.map String.ofList)
    | '-' :: letter :: rest => l.takeShort letter rest
    | _ =>
      match l.awaiting with
      | some flag => .ok { l with pending := some (.value flag (some word)) }
      | none => l.takeOperand false word

/-- Check a level at its end. `isInner` says that a command below was given. -/
def finish (l : Level) (env : Environment) (isInner : Bool) : Except Refusal Level := do
  let l ← l.settle
  let isSet (flag : Flag) : Bool := (env.lookup flag.variableName).isSome
  if !l.place.below.isEmpty && !isInner then
    throw (if l.values.isEmpty && !Flag.all.any isSet then .nothingGiven else .missingCommand)
  let isShort := match l.place.arity with
    | .one | .some => l.operands.isEmpty
    | .none | .optional => false
  if isShort then throw .missingOperand else return l

end Level

/-- Answer a call for help on the command that some words name. -/
def helpOn : Place → List String → Refusal
  | _, [] => .help
  | p, word :: rest =>
    match p.below.lookup word with
    | some inner => helpOn inner rest
    | none => if p.hasCommand word && rest.isEmpty then .help else .unknownCommand

/-- Read words at a level. The levels come back from the outermost on. -/
def readLevels (env : Environment) (l : Level) (trailing : Bool) :
    List String → Except Refusal (List Level)
  | [] => do return [← l.finish env false]
  | word :: rest =>
    if !trailing && l.awaiting.isNone && l.place.hasCommand word then
      match l.place.below.lookup word with
      | none => .error (helpOn l.place rest)
      | some inner => do
        let levels ← readLevels env { place := inner } false rest
        return (← l.finish env true) :: levels
    else if !trailing && word == "--" then readLevels env l true rest
    else do readLevels env (← l.take trailing word) trailing rest

/-- The value of an option: the one given deepest, or that of its variable. -/
def valueOf (env : Environment) (levels : List Level) (flag : Flag) :
    Option String :=
  ((levels.filterMap fun l => l.values.lookup flag).getLast?).or (env.lookup flag.variableName)

/-- The command that the innermost level means. -/
def commandOf (l : Level) : Option Command :=
  match l.place, l.operands with
  | .add, [url] => some (.add url)
  | .batch, [path] => some (.batch path)
  | .get, [code] => some (.get code)
  | .list, [] => some .list
  | .delete, codes => some (.delete codes)
  | .stats, [] => some .stats
  | .ping, [] => some .ping
  | .generate, operands => some (.generateConfig operands.head? l.force)
  | _, _ => none

/-- The owner where none is named. -/
def standardOwner : String := "cli"

/-- Read the words of a command line. -/
def read (env : Environment) (words : List String) :
    Except Refusal Invocation := do
  let levels ← readLevels env { place := .root } false words
  let value := valueOf env levels
  match levels.getLast?.bind commandOf with
  | none => throw .missingCommand
  | some command =>
    return {
      command
      owner := (value .owner).getD standardOwner
      settingsFile := value .config
      overrides := ⟨value .journal, value .database, value .level⟩ }

end ShortLinks.Arguments
