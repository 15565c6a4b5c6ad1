import ShortLinks.Batch
import ShortLinks.Command
import ShortLinks.Command.Terminal
import ShortLinks.Deletion.Schedule
import ShortLinks.Service
import ShortLinks.Startup

/-!
# Carrying commands out

What each command does with the service, and what it prints.
-/

namespace ShortLinks

namespace Terminal

/-- Good news. -/
def tick : Text.Style := .strong .green

/-- Something to know. -/
def note : Text.Style := .strong .blue

/-- Bad news. -/
def cross : Text.Style := .strong .red

/-- A short code. -/
def codeStyle : Text.Style := .colored .cyan

/-- The URL of a link. -/
def urlStyle : Text.Style := { underline := true, color := some .blue }

/-- What is not there any more. -/
def faint : Text.Style := { dimmed := true }

end Terminal

open Terminal

/-- What commands work with: a store, how it is used, and for whom. -/
structure Context (σ : Type) where
  storage : Storage σ
  scheme : Scheme
  workers : Nat
  owner : String

namespace Context

variable {σ : Type}

/-- Shorten a URL. -/
def addLink (x : Context σ) (url : String) : Terminal σ Unit := do
  let paint ← painter
  match ← onStore (Service.add x.storage x.scheme url x.owner) with
  | .created code => printLine [paint tick "✓", " Added short link: ", paint codeStyle code, " -> ",
      paint urlStyle url]
  | .existing code => printLine [paint note "ℹ", " Already shortened: ", paint codeStyle code,
      " -> ", paint urlStyle url]

/-- Shorten the URLs in a file. -/
def addBatch (x : Context σ) (path : String) : Terminal σ Unit := do
  let paint ← painter
  let content ← onFiles (Disk.readText path) fun e => "Failed to read " ++ path ++ ": " ++ e.text
  match Batch.read content with
  | .error problem => throw (.unreadable problem.sentence)
  | .ok batch =>
    let codes ← onStore (Service.addBatch x.storage x.scheme batch x.owner)
    printLines (fun (id, code) => ["  ", paint (.colored .yellow) id, " -> ", paint codeStyle code])
      (codes.entries.mergeSort fun a b => decide (a.1 ≤ b.1))
    printLine [paint tick "✓", " Shortened ", paint (.colored .green) (toString codes.size),
      " URLs"]

/-- Show the URL behind a code. -/
def getLink (x : Context σ) (code : String) : Terminal σ Unit := do
  printLine [← onStore (x.storage.get code)]

/-- The line for a link in a list. -/
def linkLine (paint : Text.Style → String → String) (code : String) (link : Link) : List String :=
  if link.deleted then
    ["  ", paint faint code, " -> ", paint faint link.url, " ",
      paint { faint with color := some .red } "(deleted)"]
  else ["  ", paint codeStyle code, " -> ", paint urlStyle link.url]

/-- List the links of the owner. -/
def listLinks (x : Context σ) : Terminal σ Unit := do
  let paint ← painter
  match ← outcome (x.storage.getAll x.owner) with
  | .error fault =>
    if fault.kind = .notFound then
      printLine [paint note "ℹ", " No short links for ", paint codeStyle x.owner]
    else throw (.service fault)
  | .ok links =>
    printLine [paint tick "Short link list:"]
    printLine []
    printLines (fun (code, link) => linkLine paint code link)
      (links.entries.mergeSort fun a b => decide (a.1 ≤ b.1))
    printLine []
    let active := links.entries.countP fun (_, link) => !link.deleted
    printLine [paint note "ℹ", " Total ", paint (.colored .green) (toString links.size),
      " short links (", toString active, " active)"]

/-- Run the deletion pipeline on the store. -/
def deletions (x : Context σ) (codes : List String) : Action σ Deletion.Report := do
  let request : Deletion.Request := { codes, owner := x.owner, workers := x.workers }
  let (run, setting) := request.run x.storage (← get)
  set setting
  return run.report

/-- Delete links. -/
def deleteLinks (x : Context σ) (codes : List String) : Terminal σ Unit := do
  let paint ← painter
  let report ← onStore (deletions x codes)
  printLines (fun code => [paint tick "✓", " Deleted: ", paint codeStyle code]) report.deleted
  printLines (fun (f : Deletion.Failure) => [paint cross "✗", " Failed: ", paint codeStyle f.code,
    " (", paint (.colored .red) f.fault.line, ")"]) report.failed
  printLines (fun code => [paint faint "-", " Skipped: ", paint faint code]) report.skipped
  if !report.isComplete then
    throw (.failed (toString report.missed ++ " of " ++
      toString (report.attempted + report.skipped.length) ++ " deletions did not complete"))

/-- Show how much the store holds. -/
def showStats (x : Context σ) : Terminal σ Unit := do
  let paint ← painter
  let stats ← onStore x.storage.stats
  let name := x.storage.name (← get).setting.store
  printLine [paint tick "Storage Stats"]
  printLine ["  ", paint codeStyle "Backend", ":   ", name]
  printLine ["  ", paint codeStyle "URLs", ":      ", toString stats.links]
  printLine ["  ", paint codeStyle "Users", ":     ", toString stats.owners]

/-- Find out whether the store can be reached. -/
def pingStore (x : Context σ) : Terminal σ Unit := do
  let paint ← painter
  onStore x.storage.ping
  let name := x.storage.name (← get).setting.store
  printLine [paint tick "✓", " ", name, " storage is reachable"]

/-- Carry a command out on a store. -/
def run (x : Context σ) : Command → Terminal σ Unit
  | .add url => x.addLink url
  | .batch path => x.addBatch path
  | .get code => x.getLink code
  | .list => x.listLinks
  | .delete codes => x.deleteLinks codes
  | .stats => x.showStats
  | .ping => x.pingStore
  | .generateConfig _ _ => throw (.failed "config commands do not use storage")

end Context

namespace Terminal

variable {σ : Type}

/-- The file that is written where none is named. -/
def samplePath : String := "config.example.toml"

/-- Write a text to a file, with the directories on the way. -/
def writeFile (path content : String) : Disk Unit := do
  Disk.makeParents path
  Disk.writeBytes path (Text.encode content)

/-- The user is asked before a file is written: it is there already, and may not be overwritten
without a word. -/
def isAsked (files : FileSystem) (path : String) (force : Bool) : Bool := files.holds path && !force

/-- What the user is asked before a file is overwritten. -/
def question (paint : Text.Style → String → String) (path : String) : List String :=
  [paint (.colored .yellow) "File already exists:", " ", paint (.colored .blue) path, " ",
    paint (.colored .yellow) "Overwrite? [y/N] "]

/-- The reply of a user who agrees. Only its first line counts. -/
def isYes (reply : String) : Bool :=
  Text.lowerAscii (Text.trim (String.ofList (reply.toList.takeWhile (· != '\n')))) == "y"

/-- Write an example of a settings file. A file that is there already is only overwritten when
`force` is set or the user agrees; `reply` is what the user types when asked. -/
def writeSample (processors : Nat) (reply : String) (path : Option String) (force : Bool) :
    Terminal σ Unit := do
  let paint ← painter
  let path := path.getD samplePath
  if isAsked (← get).setting.files path force then
    print (question paint path)
    if !isYes reply then
      printLine [paint (.colored .red) "Aborted."]
      return
  printLine [paint (.colored .yellow) "Generating configuration file...", " ",
    paint (.colored .blue) path]
  onFiles (writeFile path (Settings.sample processors)) fun e =>
    "Unable to write configuration file: " ++ e.text
  printLine ["  ", paint (.colored .green) "Configuration file generated successfully", " ",
    paint (.colored .blue) path]
  printLine ["  ",
    paint faint "Values can also be set with TL__<SECTION>__<KEY> environment variables"]

end Terminal

end ShortLinks
