import ShortLinks.Fault
import ShortLinks.Keyed
import ShortLinks.Store.Table
import ShortLinks.Text.Bytes

/-!
# A file system

Names stand for directories and files. A file has an identity of its own, so a handle keeps its
file when the name is removed or given to another file. Paths are read from the working directory
step by step, and every step starts in a directory that exists, also a step to itself or back.

Operations are total and report what they could not do. Besides the errors that the names cause, a
fault plan can make any operation fail: it is asked with the number of the operation in the run and
with its kind. Under `noFaults` only the names decide.
-/

namespace ShortLinks

/-- Why an operation on files fails. -/
inductive IoError
  | notFound
  | notDirectory
  | isDirectory
  | alreadyExists
  | tooLarge
  | nameTooLong
  | nulInName
  | notText
  deriving DecidableEq, Repr

/-- The text of an error. -/
def IoError.text : IoError → String
  | notFound => "No such file or directory (os error 2)"
  | notDirectory => "Not a directory (os error 20)"
  | isDirectory => "Is a directory (os error 21)"
  | alreadyExists => "File exists (os error 17)"
  | tooLarge => "File too large (os error 27)"
  | nameTooLong => "File name too long (os error 36)"
  | nulInName => "file name contained an unexpected NUL byte"
  | notText => "stream did not contain valid UTF-8"

/-- Directory names from the working directory on. A place outside it begins with `..` or `/`. -/
abbrev Place := List String

/-- The identity of a file. -/
abbrev FileId := Nat

/-- What a name stands for. -/
inductive Node
  | directory
  | file (id : FileId)
  deriving DecidableEq, Repr

/-- What a file holds: octets, or a database. -/
inductive Content
  | octets (bytes : Bytes)
  | database (table : Table)
  deriving DecidableEq, Repr

/-- The kinds of operation that a fault plan tells apart. -/
inductive Operation
  | makeDirectory
  | create
  | openAppend
  | write
  | sync
  | rename
  deriving DecidableEq, Repr

/-- Which operations fail, by their number in the run and their kind. -/
abbrev FaultPlan := Nat → Operation → Option IoError

/-- Nothing fails. -/
def noFaults : FaultPlan := fun _ _ => none

/-- Every write of data fails; creating, syncing and renaming work. -/
def refuseWrites : FaultPlan := fun _ op => if op = .write then some .tooLarge else none

/-- Names, the contents of all files that ever were, and the fault plan. -/
structure FileSystem where
  names : Keyed Place Node := .empty
  contents : List Content := []
  performed : Nat := 0
  faults : FaultPlan := noFaults
  /-- How long the path of the working directory is, from the root on, with a slash at its end. -/
  homeSize : Nat := 16

instance : Inhabited FileSystem := ⟨{}⟩

/-- An operation on files: what it did stays done when it fails later. -/
abbrev Disk := ExceptT IoError (StateM FileSystem)

/-- An operation on files that reports faults. -/
abbrev Stored := ExceptT Fault (StateM FileSystem)

/-- Report errors as faults. -/
def Disk.orFault {α : Type} (x : Disk α) (fault : IoError → Fault) : Stored α :=
  ExceptT.adapt fault x

/-- Report an error by its text alone. -/
def IoError.toFault (e : IoError) : Fault := ⟨.fileOperation, e.text⟩

namespace Path

/-- The path begins at the root. -/
def isRooted (path : String) : Bool := path.toList.head? == some '/'

/-- The steps that a path takes, from name to name. Empty names are no steps. -/
def steps (path : String) : List String :=
  ((path.toList.splitOn '/').filter fun name => !name.isEmpty).map String.ofList

/-- The path can only mean a directory, since a slash stands at its end. -/
def endsInSlash (path : String) : Bool := path.toList.getLast? == some '/'

/-- The names that make a path up. A dot is one only at the beginning. -/
def names (path : String) : List String :=
  match steps path with
  | "." :: rest => (if isRooted path then [] else ["."]) ++ rest.filter (· != ".")
  | steps => steps.filter (· != ".")

/-- The last step of a path gives something a name: it is none that only says where it is. -/
def nameOf? (path : String) : Option String :=
  (steps path).getLast?.filter fun name => name != "." && name != ".."

/-- The last name of a path, unless it says no more than where it is. -/
def lastName? (path : String) : Option String :=
  (names path).getLast?.filter fun name => name != "." && name != ".."

/-- The path that names spell. -/
def ofNames (isRooted : Bool) (names : List String) : String :=
  (if isRooted then "/" else "") ++ "/".intercalate names

/-- The path without its last name. -/
def around (path : String) : String := ofNames (isRooted path) (names path).dropLast

/-- The paths around a path, the innermost first. -/
def allAround (path : String) : List String :=
  let names := names path
  ((List.range names.length).drop 1).reverse.map fun n => ofNames (isRooted path) (names.take n)

/-- Where a path begins. -/
def start (path : String) : Place := if isRooted path then ["/"] else []

/-- The path of a place, from the working directory on or from the root. -/
def ofPlace : Place → String
  | "/" :: names => "/" ++ "/".intercalate names
  | names => "/".intercalate names

/-- The place around a place. -/
def parent (p : Place) : Place :=
  match p.getLast? with
  | none | some ".." => p ++ [".."]
  | some "/" => p
  | some _ => p.dropLast

/-- Take one step in a path, whatever stands at the place. -/
def follow (p : Place) (step : String) : Place :=
  if step = "." then p else if step = ".." then parent p else p ++ [step]

/-- The place that a path spells, whatever stands on the way. -/
def settle (path : String) : Place := (steps path).foldl follow (start path)

end Path

namespace FileSystem

/-- What stands at a place. The working directory and those around it always exist. -/
def node? (fs : FileSystem) (p : Place) : Option Node :=
  if p.all (fun c => c == ".." || c == "/") then some .directory else fs.names.find? p

/-- Take one step from a place, which must be a directory. -/
def enter (fs : FileSystem) (p : Place) (name : String) : Except IoError Place :=
  match fs.node? p with
  | none => .error .notFound
  | some (.file _) => .error .notDirectory
  | some .directory =>
    if name = "." then .ok p
    else if name = ".." then .ok (Path.parent p)
    else if 255 < name.utf8ByteSize then .error .nameTooLong
    else .ok (p ++ [name])

/-- The directory in which a path takes its last step. All directories on the way exist. -/
def approach (fs : FileSystem) (path : String) : Except IoError Place := do
  if path = "" then throw .notFound
  else if path.toList.contains '\x00' then throw .nulInName
  else if 4095 < path.utf8ByteSize then throw .nameTooLong
  else fs.enter (← (Path.steps path).dropLast.foldlM fs.enter (Path.start path)) "."

/-- The place that a path names. It need not exist itself. -/
def locate (fs : FileSystem) (path : String) : Except IoError Place := do
  fs.enter (← fs.approach path) ((Path.steps path).getLast?.getD ".")

/-- The place where a path can have a file: its last step is a name, and no slash stands behind. -/
def slot (fs : FileSystem) (path : String) : Except IoError Place := do
  let around ← fs.approach path
  match Path.nameOf? path, Path.endsInSlash path with
  | some name, false => fs.enter around name
  | _, _ => throw .isDirectory

/-- What stands at a path. -/
def find? (fs : FileSystem) (path : String) : Except IoError Node := do
  match fs.node? (← fs.locate path) with
  | none => .error .notFound
  | some .directory => return .directory
  | some (.file id) =>
    if Path.endsInSlash path then .error .notDirectory else return .file id

/-- Something stands at a path. -/
def holds (fs : FileSystem) (path : String) : Bool := (fs.find? path).isOk

/-- A directory stands at a path. -/
def isDirectory (fs : FileSystem) (path : String) : Bool :=
  match fs.find? path with
  | .ok .directory => true
  | _ => false

/-- A file stands at a path. -/
def isFile (fs : FileSystem) (path : String) : Bool :=
  match fs.find? path with
  | .ok (.file _) => true
  | _ => false

/-- The content of a file. -/
def content (fs : FileSystem) (id : FileId) : Content := fs.contents[id]?.getD (.octets [])

/-- The octets that a content is read as. A database begins with its signature, which is no text a
journal could hold. -/
def Content.bytes : Content → Bytes
  | .octets bytes => bytes
  | .database _ => Text.encode "SQLite format 3\x00" ++ [0xFF]

/-- The octets of a file. -/
def bytes (fs : FileSystem) (id : FileId) : Bytes := Content.bytes (fs.content id)

/-- Put a content into its place, behind empty files where there are none yet. -/
def placeContent (c : Content) : FileId → List Content → List Content
  | 0, [] => [c]
  | 0, _ :: rest => c :: rest
  | id + 1, [] => .octets [] :: placeContent c id []
  | id + 1, first :: rest => first :: placeContent c id rest

/-- Give a file a content. -/
def setContent (fs : FileSystem) (id : FileId) (c : Content) : FileSystem :=
  { fs with contents := placeContent c id fs.contents }

/-- Make a file that no name stands for yet. -/
def fresh (fs : FileSystem) (c : Content) : FileId × FileSystem :=
  (fs.contents.length, { fs with contents := fs.contents ++ [c] })

/-- Let a place stand for a node. -/
def bind (fs : FileSystem) (p : Place) (n : Node) : FileSystem :=
  { fs with names := fs.names.insert p n }

/-- Take a name away. -/
def unbind (fs : FileSystem) (p : Place) : FileSystem :=
  { fs with names := fs.names.erase p }

/-- The paths below the working directory, directories with a slash behind them, in order. -/
def paths (fs : FileSystem) : List String :=
  let inside := fs.names.entries.filter fun (p, _) =>
    match p.head? with
    | some name => name != ".." && name != "/"
    | none => false
  (inside.map fun (p, node) =>
    "/".intercalate p ++ if node = .directory then "/" else "").mergeSort

end FileSystem

namespace Disk

/-- Ask the fault plan about the next operation. -/
def attempt (op : Operation) : Disk Unit := do
  let fs ← get
  set { fs with performed := fs.performed + 1 }
  match fs.faults fs.performed op with
  | some e => throw e
  | none => return ()

/-- Use an answer that depends on the names alone. -/
def ask {α : Type} (question : FileSystem → Except IoError α) : Disk α := do
  match question (← get) with
  | .ok a => return a
  | .error e => throw e

/-- The file at a path, made empty if there is none. -/
def obtain (path : String) : Disk FileId := do
  let place ← ask fun fs => fs.slot path
  match (← get).node? place with
  | some .directory => throw .isDirectory
  | some (.file id) => return id
  | none =>
    let (id, fs) := (← get).fresh (.octets [])
    set (fs.bind place (.file id))
    return id

/-- Open a file for appending, and make it if there is none. -/
def openAppend (path : String) : Disk FileId := do
  attempt .openAppend
  obtain path

/-- Open a file for writing from its beginning: it is empty afterwards. -/
def create (path : String) : Disk FileId := do
  attempt .create
  let id ← obtain path
  modify fun fs => fs.setContent id (.octets [])
  return id

/-- Add octets at the end of a file. Where there are none, nothing is asked of the file. -/
def append (id : FileId) (bytes : Bytes) : Disk Unit := do
  if bytes.isEmpty then return ()
  attempt .write
  modify fun fs => fs.setContent id (.octets (fs.bytes id ++ bytes))

/-- Make the content of a file safe. -/
def sync (_ : FileId) : Disk Unit := attempt .sync

/-- Let the path `to` stand for the file at the path `from`, and for nothing else any more. -/
def rename (source target : String) : Disk Unit := do
  attempt .rename
  let node ← ask fun fs => fs.find? source
  let old ← ask fun fs => fs.locate source
  let new ← ask fun fs => fs.slot target
  if (← get).node? new = some .directory then throw .isDirectory
  modify fun fs => (fs.unbind old).bind new node

/-- Make a directory. The one around it must exist. -/
def makeDirectory (path : String) : Disk Unit := do
  let around ← ask fun fs => fs.approach path
  match Path.nameOf? path with
  | none => throw .alreadyExists
  | some name =>
    let place ← ask fun fs => fs.enter around name
    if ((← get).node? place).isSome then throw .alreadyExists
    attempt .makeDirectory
    modify fun fs => fs.bind place .directory

/-- Look at how some work ends. -/
def outcome {α : Type} (work : Disk α) : Disk (Except IoError α) := do
  let (result, fs) := work.run (← get)
  set fs
  return result

/-- Make a directory, unless it is there already. -/
def ensureDirectory (path : String) : Disk Unit := do
  match ← outcome (makeDirectory path) with
  | .ok () => return ()
  | .error e => if !(← get).isDirectory path then throw e

/-- Make a directory and those around it, innermost first, as far as they are missing. -/
def makeDirectoriesFrom : List String → Disk Unit
  | [] => return ()
  | path :: around => do
    match ← outcome (makeDirectory path) with
    | .ok () => return ()
    | .error .notFound => do
      makeDirectoriesFrom around
      ensureDirectory path
    | .error e => if !(← get).isDirectory path then throw e

/-- Make the directory at a path and those around it, as far as they are missing. -/
def makeDirectories (path : String) : Disk Unit :=
  if path = "" then return () else makeDirectoriesFrom (path :: Path.allAround path)

/-- Make the directories that should hold a path, unless something stands there already. -/
def makeParents (path : String) : Disk Unit := do
  let around := Path.around path
  if !(← get).holds around then makeDirectories around

/-- Read the octets at a path. -/
def readBytes (path : String) : Disk Bytes := do
  match ← ask fun fs => fs.find? path with
  | .directory => throw .isDirectory
  | .file id => return (← get).bytes id

/-- Read the text at a path. -/
def readText (path : String) : Disk String := do
  match Text.decode? (← readBytes path) with
  | some s => return s
  | none => throw .notText

/-- Write a file from its beginning. -/
def writeBytes (path : String) (bytes : Bytes) : Disk Unit := do
  append (← create path) bytes

/-- Remove the file at a path. -/
def remove (path : String) : Disk Unit := do
  match ← ask fun fs => fs.find? path with
  | .directory => throw .isDirectory
  | .file _ =>
    let place ← ask fun fs => fs.locate path
    modify fun fs => fs.unbind place

end Disk

end ShortLinks
