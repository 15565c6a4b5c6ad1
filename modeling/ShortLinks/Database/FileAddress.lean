import ShortLinks.Database.Backend
import ShortLinks.Text.Percent
import ShortLinks.Text.Visible

/-!
# Addresses of database files

The address of a database file is a path, percent-encoded, with parameters behind a question mark.
The engine gets it as a name of its own: the path, or, where the parameters ask for something that
only the name can say, a text with the scheme `file:`.
-/

namespace ShortLinks.Database

/-- Where a database file is, and how it is opened. -/
structure FileAddress where
  path : String
  /-- The database lies in memory, whatever its path. -/
  inMemory : Bool := false
  /-- The file is only read. -/
  readOnly : Bool := false
  /-- Nobody else changes the file, so it is not changed here either. -/
  immutable : Bool := false
  /-- The way to the files of the system, if one is named. -/
  access : Option String := none
  deriving DecidableEq, Repr

namespace FileAddress

/-- Say that a parameter has no such value. -/
def badValue (name value : String) : String :=
  "unknown value " ++ Text.visible value ++ " for `" ++ name ++ "`"

/-- Take one parameter into account. -/
def set (a : FileAddress) (name value : String) : Except String FileAddress :=
  match name with
  | "mode" =>
    match value with
    | "ro" => .ok { a with readOnly := true }
    | "rw" | "rwc" => .ok a
    | "memory" => .ok { a with inMemory := true }
    | _ => .error (badValue name value)
  | "cache" => if value = "private" ∨ value = "shared" then .ok a else .error (badValue name value)
  | "immutable" =>
    match value with
    | "true" | "1" => .ok { a with immutable := true }
    | "false" | "0" => .ok { a with immutable := false }
    | _ => .error (badValue name value)
  | "vfs" => .ok { a with access := some value }
  | _ => .error ("unknown query parameter `" ++ name ++ "` while parsing connection URL")

/-- Take parameters into account, one after another. -/
def setAll (a : FileAddress) : List (String × String) → Except String FileAddress
  | [] => .ok a
  | (name, value) :: rest => do (← a.set name value).setAll rest

/-- Drop a word from the front as often as it stands there. -/
def dropAll (word : List Char) (cs : List Char) : List Char :=
  if word.length = 0 ∨ ¬ word.isPrefixOf cs then cs
  else dropAll word (cs.drop word.length)
termination_by cs.length
decreasing_by
  rename_i h
  have hlen : word.length ≤ cs.length :=
    (List.isPrefixOf_iff_prefix.1 (by simpa using fun e => h (Or.inr e))).length_le
  have hpos : word.length ≠ 0 := fun e => h (Or.inl e)
  simp only [List.length_drop]
  omega

/-- The path of a database that has no name and lies in memory. -/
def memoryPath : String := ":memory:"

/-- Read the address of a database file. -/
def read (url : String) : Except String FileAddress := do
  let cs := dropAll "//".toList (dropAll "sqlite:".toList url.toList)
  let (place, query) := Text.splitFirst '?' cs
  let place := String.ofList place
  let address : FileAddress ←
    if place = memoryPath then pure { path := place, inMemory := true }
    else do pure { path := ← Text.decodeOrExplain (Text.percentDecode (Text.encode place)) }
  match query with
  | none => return address
  | some query => address.setAll (Text.queryPairs (String.ofList query))

/-- The parameters that only the name of the file can give to the engine. -/
def nameParameters (a : FileAddress) : List (String × String) :=
  (if a.immutable then [("immutable", "true")] else []) ++
    (a.access.map fun way => ("vfs", way)).toList

/-- The name by which the engine knows the file. -/
def fileName (a : FileAddress) : String :=
  if a.nameParameters.isEmpty then a.path
  else "file:" ++ Text.percentEncode a.path ++ "?" ++ "&".intercalate
    (a.nameParameters.map fun (name, value) => name ++ "=" ++ Text.encodeQueryWord value)

end FileAddress

end ShortLinks.Database
