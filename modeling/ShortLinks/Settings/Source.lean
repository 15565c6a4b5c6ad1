import ShortLinks.Json.Value
import ShortLinks.Settings.Value
import ShortLinks.Toml.Document

/-!
# Sources of settings

A file in TOML or JSON gives a table. The environment gives one value per variable whose name
begins with `TL__`: the rest of the name, in lower case and with two underscores for each dot, is
its key. A value from the environment is a flag, a number or a text, whichever it can be read as
first.
-/

namespace ShortLinks

/-- The variables of the environment and their values. -/
abbrev Environment := List (String × String)

namespace Settings

/-- A number as a value of settings. A whole number that does not fit 64 bits with a sign is a
float. -/
def ofNumeric : Json.Numeric → Value
  | .int i => if i < Decimal.twoTo 63 then .whole i else .float i.toNat.toUInt64.toFloat
  | .float x => .float x

mutual
/-- A JSON value as a value of settings. Of two members with one name the later counts. -/
def ofJson : Json.Value → Value
  | .null => .null
  | .bool b => .flag b
  | .number n => ofNumeric n
  | .text s => .text s
  | .list items => .list (ofJsonItems items)
  | .object members => .table (ofJsonMembers [] members)

/-- JSON values as values of settings. -/
def ofJsonItems : List Json.Value → List Value
  | [] => []
  | item :: rest => ofJson item :: ofJsonItems rest

/-- The members of a JSON object as entries, after some that were read before. -/
def ofJsonMembers (before : List (String × Value)) :
    List (String × Json.Value) → List (String × Value)
  | [] => before
  | (name, value) :: rest => ofJsonMembers (assign name (ofJson value) before) rest
end

mutual
/-- A TOML value as a value of settings. A point in time is a text. -/
def ofToml : Toml.Value → Value
  | .text s => .text s
  | .flag b => .flag b
  | .whole i => .whole i
  | .float x => .float x
  | .moment s => .text s
  | .list items => .list (ofTomlItems items)
  | .tables items => .list (ofTomlItems items)
  | .table _ entries => .table (ofTomlEntries entries)

/-- TOML values as values of settings. -/
def ofTomlItems : List Toml.Value → List Value
  | [] => []
  | item :: rest => ofToml item :: ofTomlItems rest

/-- The entries of a TOML table as entries of settings. -/
def ofTomlEntries : List (String × Toml.Value) → List (String × Value)
  | [] => []
  | (name, value) :: rest => (name, ofToml value) :: ofTomlEntries rest
end

/-- The entries that a file gives. A name that ends in `.json` means JSON, any other TOML. -/
def ofFile? (name content : String) : Option (List (String × Value)) :=
  if name.endsWith ".json" then
    match Json.readDocument content with
    | .ok (.object members) => some (ofJsonMembers [] members)
    | _ => none
  else (Toml.document? content).map ofTomlEntries

/-- What a text from the environment stands for. -/
def ofWord (s : String) : Value :=
  let word := Text.lower s
  if word = "true" then .flag true
  else if word = "false" then .flag false
  else
    let whole : Option Int :=
      (Decimal.readInt? s).filter fun i =>
        decide (-(Decimal.twoTo 63 : Int) ≤ i) && decide (i < Decimal.twoTo 63)
    match whole with
    | some i => .whole i
    | none =>
      match Decimal.read? s with
      | some x => .float x
      | none => .text s

/-- How the names of the variables begin that hold settings. -/
def variableMark : String := "tl__"

/-- A text with a dot for each two underscores, which are counted from its front. -/
def dotted : List Char → List Char
  | '_' :: '_' :: rest => '.' :: dotted rest
  | c :: rest => c :: dotted rest
  | [] => []

/-- The key that a variable sets, if it sets one. -/
def keyOfVariable? (name : String) : Option String :=
  let name := (Text.lower name).toList
  if variableMark.toList.isPrefixOf name then
    some (String.ofList (dotted (name.drop variableMark.length)))
  else none

/-- The keys and values that the environment gives. -/
def ofEnvironment (env : Environment) : List (String × Value) :=
  env.filterMap fun (name, value) => (keyOfVariable? name).map fun key => (key, ofWord value)

/-- Lay the entries of sources over each other, the first at the bottom. -/
def merge (sources : List (List (String × Value))) : Value :=
  sources.flatten.foldl (fun tree entry => tree.layAt entry.1 entry.2) (.table [])

end Settings

end ShortLinks
