import ShortLinks.Command.Program
import ShortLinks.Database.Image

/-!
# What a run needs

The files that a run of the program may look at or change, so that they can be put into a file
system before it and taken out of it afterwards. Which files the settings name is only known once
the settings are read.
-/

namespace ShortLinks

namespace Program

/-- The paths at which settings may be. -/
def settingsPaths (i : Invocation) : List String :=
  let name := i.settingsFile.getD Settings.defaultPath
  name :: Settings.completions name

/-- The paths that a command names. -/
def commandPaths : Command → List String
  | .batch path => [path]
  | .generateConfig path _ => [path.getD Terminal.samplePath]
  | _ => []

/-- The path of the database file at a URL, if it is one. -/
def databasePath? (url : String) : Option String :=
  match Backend.infer url, Database.fileAddress url >>= Database.fileName with
  | .ok .sqlite, .ok name =>
    if name.isInMemory then none else some (Path.ofPlace (Path.settle name.path))
  | _, _ => none

/-- The paths that a command uses under some settings. -/
def paths (i : Invocation) (s : Settings) : List String :=
  let s := s.override i.overrides
  commandPaths i.command ++ (Startup.nonblank s.storage.journalPath).toList ++
    ((Startup.nonblank s.database.url).bind databasePath?).toList

end Program

namespace FileSystem

/-- Put a file with the given octets at a path, with the directories on the way. An image of a
database is a database. -/
def put (fs : FileSystem) (path : String) (bytes : Bytes) : FileSystem :=
  let place : Disk Unit := do
    Disk.makeParents path
    let id ← Disk.obtain path
    let content := match Database.ofImage? bytes with
      | some table => .database table
      | none => .octets bytes
    modify fun fs => fs.setContent id content
  (place.run fs).2

/-- Put a directory at a path. -/
def putDirectory (fs : FileSystem) (path : String) : FileSystem :=
  ((Disk.makeDirectories path).run fs).2

/-- The octets that stand for a content. -/
def Content.image : Content → Bytes
  | .octets bytes => bytes
  | .database table => Database.image table

/-- The files that differ from what they were before, and their octets. -/
def changes (before after : FileSystem) : List (String × Bytes) :=
  after.names.entries.filterMap fun (place, node) =>
    match node with
    | .directory => none
    | .file id =>
      let bytes := Content.image (after.content id)
      let old := match before.names.find? place with
        | some (.file id) => some (Content.image (before.content id))
        | _ => none
      if old = some bytes then none else some (Path.ofPlace place, bytes)

end FileSystem

end ShortLinks
