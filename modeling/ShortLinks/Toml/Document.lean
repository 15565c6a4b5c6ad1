import ShortLinks.Keyed
import ShortLinks.Toml.Lexeme

/-!
# TOML documents

A document is a table. Its lines are headers, which say where the next lines belong, and keys with
values. Nothing may be defined twice: a table has one header, an inline table is complete as it
stands, and a dotted key adds only to tables that have no header and are not inline.
-/

namespace ShortLinks.Toml

/-- How a table came to be: by its header, on the way to another header, by a dotted key, or
inline. -/
inductive Origin
  | header
  | implied
  | dotted
  | inline
  deriving DecidableEq, Repr

/-- A value in a document. -/
inductive Value
  | text (s : String)
  | flag (b : Bool)
  | whole (i : Int)
  | float (x : Float)
  | moment (s : String)
  | list (items : List Value)
  /-- The tables of one double header. -/
  | tables (items : List Value)
  | table (origin : Origin) (entries : List (String × Value))

/-- The entries of a table. -/
abbrev Entries := List (String × Value)

/-- The value of a bare word. -/
def Word.value : Word → Value
  | .flag b => .flag b
  | .whole i => .whole i
  | .float x => .float x
  | .moment s => .moment s

/-- Change the last of some tables. -/
def changeLast? (change : Entries → Option Entries) : List Value → Option (List Value)
  | [] => none
  | [.table origin entries] => do return [.table origin (← change entries)]
  | item :: rest => do return item :: (← changeLast? change rest)

/-- Put a value at a dotted key. `isOpen` says whether the table with these entries takes further
entries; a table with a header takes none, and neither does one of a double header, but there may be
tables in the latter that do. The table that takes the value cannot get a header any more. -/
def put? (isOpen : Bool) : List String → Value → Entries → Option Entries
  | [], _, _ => none
  | [key], value, entries =>
    if isOpen && (lookup? key entries).isNone then some (entries ++ [(key, value)]) else none
  | key :: rest, value, entries =>
    match lookup? key entries with
    | none => do
      let inside ← put? true rest value []
      return entries ++ [(key, .table .dotted inside)]
    | some (.table origin inside) => do
      if origin == .header || origin == .inline then none
      let origin := if rest.length = 1 then .dotted else origin
      return assign key (.table origin (← put? true rest value inside)) entries
    | some (.tables items) => do
      return assign key (.tables (← changeLast? (put? false rest value) items)) entries
    | some _ => none

/-- Put a value at a key of the table at hand. -/
def putHere? (path : List String) (value : Value) (entries : Entries) : Option Entries :=
  put? true path value entries

/-- Change the table at a path that headers have laid, with new tables on the way where nothing
stands. -/
def within? (change : Option Value → Option Value) : List String → Entries → Option Entries
  | [], _ => none
  | [key], entries => do return assign key (← change (lookup? key entries)) entries
  | key :: rest, entries =>
    match lookup? key entries with
    | none => do return entries ++ [(key, .table .implied (← within? change rest []))]
    | some (.table origin inside) => do
      if origin == .inline then none
      return assign key (.table origin (← within? change rest inside)) entries
    | some (.tables items) => do
      return assign key (.tables (← changeLast? (within? change rest) items)) entries
    | some _ => none

/-- What a header makes of what stands at its place. -/
def openTable? : Option Value → Option Value
  | none => some (.table .header [])
  | some (.table .implied entries) => some (.table .header entries)
  | some _ => none

/-- What a double header makes of what stands at its place. -/
def openItem? : Option Value → Option Value
  | none => some (.tables [.table .header []])
  | some (.tables items) => some (.tables (items ++ [.table .header []]))
  | some _ => none

/-- Put a value at a key of the table that the last header opened. -/
def putUnder? (header path : List String) (value : Value) (entries : Entries) : Option Entries :=
  if header.isEmpty then putHere? path value entries
  else
    within? (fun
      | some (.table origin inside) => (putHere? path value inside).map (.table origin)
      | some (.tables items) => (changeLast? (putHere? path value) items).map .tables
      | _ => none) header entries

/-- What `readPart?` reads at a time. -/
inductive Part
  | value
  | items (read : List Value)
  | members (read : Entries)

/-- Read a value that is no bracket. -/
def scalarValue? (cs : List Char) : Option (Value × List Char) :=
  match cs with
  | '"' :: _ | '\x27' :: _ => (quoted? cs).map fun (s, rest) => (.text s, rest)
  | _ => (word? cs).map fun (word, rest) => (word.value, rest)

/-- Read a part of a value. `depth` brackets may still open. Inside a bracket, the text stands where a
further item or member may come. -/
def readPart? : Nat → Nat → Part → List Char → Option (Value × List Char)
  | 0, _, _, _ => none
  | fuel + 1, depth, .value, cs =>
    match depth, cs with
    | 0, '[' :: _ | 0, '\x7b' :: _ => none
    | depth + 1, '[' :: rest => readPart? fuel depth (.items []) rest
    | depth + 1, '\x7b' :: rest => readPart? fuel depth (.members []) rest
    | _, cs => scalarValue? cs
  | fuel + 1, depth, .items read, cs => do
    match ← skipFiller? fuel cs with
    | ']' :: rest => some (.list read.reverse, rest)
    | cs =>
      let (item, rest) ← readPart? fuel depth .value cs
      match ← skipFiller? fuel rest with
      | ',' :: rest => readPart? fuel depth (.items (item :: read)) rest
      | ']' :: rest => some (.list (item :: read).reverse, rest)
      | _ => none
  | fuel + 1, depth, .members read, cs => do
    match ← skipFiller? fuel cs with
    | '\x7d' :: rest => some (.table .inline read, rest)
    | cs =>
      let (path, rest) ← key? cs
      let '=' :: rest := rest | none
      let (value, rest) ← readPart? fuel depth .value (skipBlank rest)
      let read ← putHere? path value read
      match ← skipFiller? fuel rest with
      | ',' :: rest => readPart? fuel depth (.members read) rest
      | '\x7d' :: rest => some (.table .inline read, rest)
      | _ => none

/-- Read a value. -/
def readValue? (cs : List Char) : Option (Value × List Char) :=
  readPart? (2 * cs.length + 2) maxDepth .value cs

/-- A document in part: its entries and the path of the last header. -/
structure Draft where
  header : List String := []
  entries : Entries := []

/-- Read a header, behind its first bracket. -/
def header? (d : Draft) (cs : List Char) : Option (Draft × List Char) :=
  match cs with
  | '[' :: rest => do
    let (path, rest) ← key? rest
    let ']' :: ']' :: rest := rest | none
    return (⟨path, ← within? openItem? path d.entries⟩, rest)
  | rest => do
    let (path, rest) ← key? rest
    let ']' :: rest := rest | none
    return (⟨path, ← within? openTable? path d.entries⟩, rest)

/-- Read a key and its value. -/
def binding? (d : Draft) (cs : List Char) : Option (Draft × List Char) := do
  let (path, rest) ← key? cs
  let '=' :: rest := rest | none
  let (value, rest) ← readValue? (skipBlank rest)
  return ({ d with entries := ← putUnder? d.header path value d.entries }, rest)

/-- Read the lines of a document. -/
def readLines? : Nat → Draft → List Char → Option Entries
  | 0, _, _ => none
  | fuel + 1, d, cs => do
    match ← skipFiller? fuel cs with
    | [] => some d.entries
    | '[' :: rest =>
      let (d, rest) ← header? d rest
      readLines? fuel d (← lineEnd? rest)
    | cs =>
      let (d, rest) ← binding? d cs
      readLines? fuel d (← lineEnd? rest)

/-- Read a document. -/
def document? (s : String) : Option Entries :=
  let cs := match s.toList with
    | '\uFEFF' :: rest => rest
    | cs => cs
  readLines? (cs.length + 1) {} cs

end ShortLinks.Toml
