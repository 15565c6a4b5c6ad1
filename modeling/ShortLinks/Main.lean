import ShortLinks.Command.Needs
import ShortLinks.Command.Usage

/-!
# The command line

Everything that a run decides is decided by `Program.run` on a file system that is a value. This
module fetches the files that the run needs, runs the program, prints what it printed and puts the
files that changed back, each by way of a second file that takes its place.
-/

namespace ShortLinks.Outer

/-- A directory stands at a path. -/
def isDirectory (path : String) : IO Bool := do
  try
    let _ ← IO.FS.realPath (path ++ "/.")
    return true
  catch _ => return false

/-- Fetch what stands at a path. -/
def fetch (files : FileSystem) (path : String) : IO FileSystem := do
  let around := "/".intercalate (path.splitOn "/").dropLast
  let files ← if !around.isEmpty && (← isDirectory around) then
    pure (files.putDirectory around) else pure files
  if ← isDirectory path then return files.putDirectory path
  try
    let bytes ← IO.FS.readBinFile path
    return files.put path bytes.data.toList
  catch _ => return files

/-- Put the octets of a file back. -/
def putBack (path : String) (bytes : Bytes) : IO Unit := do
  let around := "/".intercalate (path.splitOn "/").dropLast
  if !around.isEmpty then IO.FS.createDirAll around
  let second := path ++ ".new"
  IO.FS.writeBinFile second ⟨bytes.toArray⟩
  IO.FS.rename second path

/-- The variables of the environment, where the system lists them. -/
def environment : IO Environment := do
  try
    let bytes ← IO.FS.readBinFile "/proc/self/environ"
    let entries := (Text.decodeLossy bytes.data.toList).splitOn "\x00"
    return entries.filterMap fun entry =>
      match Text.splitFirst '=' entry.toList with
      | (name, some value) => some (String.ofList name, String.ofList value)
      | _ => none
  catch _ => return []

/-- The number of processors, where the system lists them. -/
def processors : IO Nat := do
  try
    let bytes ← IO.FS.readBinFile "/proc/cpuinfo"
    let lines := (Text.decodeLossy bytes.data.toList).splitOn "\n"
    return max 1 (lines.countP fun line => line.startsWith "processor")
  catch _ => return 1

/-- The files that a program needs. -/
def filesFor (p : Program) : IO FileSystem := do
  match Arguments.read p.env p.words with
  | .error _ => return {}
  | .ok i =>
    let home ← try IO.FS.realPath "." catch _ => pure ""
    let homeSize := home.toString.utf8ByteSize + 1
    let files ← (Program.settingsPaths i).foldlM fetch { homeSize }
    match Settings.load files p.env i.settingsFile with
    | .error _ => return files
    | .ok settings => (Program.paths i settings).foldlM fetch files

/-- Say how a run ended. What answers a question is printed, and what went wrong is reported. -/
def report (p : Program) (before : FileSystem) (ending : Program.Ending) : IO Unit :=
  let text := Wording.brief.text p before ending
  match ending with
  | .refused r => if r.isAnswer then IO.print text else IO.eprint text
  | _ => IO.eprint text

/-- Run the program. Where the user is asked, the question is printed before the answer is read. -/
def run (p : Program) : IO UInt32 := do
  let before ← filesFor p
  let asked := p.question? before
  let p ← match asked with
    | none => pure p
    | some question =>
      IO.print question
      (← IO.getStdout).flush
      pure { p with reply := ← (← IO.getStdin).getLine }
  let result := p.run before
  for (path, bytes) in before.changes result.files do
    putBack path bytes
  IO.print (String.ofList (result.printed.toList.drop (asked.getD "").length))
  report p before result.ending
  return result.ending.status.toUInt32

end ShortLinks.Outer

/-- Run the program on the words of the command line. -/
def main (words : List String) : IO UInt32 := do
  let color := (← (← IO.getStdout).isTty) && (← IO.getEnv "NO_COLOR").isNone
  ShortLinks.Outer.run
    { words, env := ← ShortLinks.Outer.environment, color,
      processors := ← ShortLinks.Outer.processors }
