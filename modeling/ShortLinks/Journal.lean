import ShortLinks.FileSystem
import ShortLinks.Record
import ShortLinks.Text.Blank

/-!
# The journal

A journal is a file of record lines. Reading takes it line by line: blank lines count for nothing,
lines that are no record are skipped and reported by number, and a line that is no text ends the
reading with a fault. A journal in the mode `append` keeps its file open and adds a line for each
change; one in the mode `backup` is only ever written as a whole.

Writing it as a whole goes through a second file that takes the place of the first at the end, so
a journal is never seen half written. The records pass through a buffer. A fault of the buffer in
the middle of a record is a fault of writing the record; anywhere else it is a fault of the file.
-/

namespace ShortLinks

/-- When a journal is written: by a backup only, or at each change. -/
inductive JournalMode
  | backup
  | append
  deriving DecidableEq, Repr

namespace JournalMode

/-- The mode that is used where none is named. -/
def standard : JournalMode := .backup

/-- The word for a mode. -/
def name : JournalMode → String
  | backup => "backup"
  | append => "append"

/-- The mode that a word stands for. -/
def ofName? (word : String) : Option JournalMode :=
  if word = "backup" then some .backup else if word = "append" then some .append else none

/-- The word for a mode stands for it. -/
theorem ofName?_name (mode : JournalMode) : ofName? mode.name = some mode := by
  cases mode <;> decide

end JournalMode

/-- An open journal. It has a file at hand exactly when it is in the mode `append`. -/
structure Journal where
  path : String
  writer : Option FileId := none
  deriving DecidableEq, Repr

namespace Journal

/-- What a line of a journal is. -/
inductive Line
  | blank
  | record (r : Record)
  | malformed (report : Json.Report)
  | unreadable
  deriving DecidableEq, Repr

/-- Read a line. Blank characters around it do not matter. -/
def Line.ofBytes (line : Bytes) : Line :=
  match Text.decode? line with
  | none => .unreadable
  | some s =>
    let cs := Text.trimChars s.toList
    if cs.isEmpty then .blank
    else
      match Record.readLine cs with
      | .ok r => .record r
      | .error finding => .malformed (finding.report cs)

/-- A line that was skipped, and what is wrong with it. -/
structure Skipped where
  number : Nat
  report : Json.Report
  deriving DecidableEq, Repr

/-- The warning about a line of the journal at a path. -/
def Skipped.warning (s : Skipped) (path : String) : String :=
  "Skipping malformed journal line " ++ toString s.number ++ " in " ++ path ++ ": " ++
    s.report.sentence

/-- What reading a journal gives: its records in order, the lines that were skipped, and whether it
came to the end. -/
structure Reading where
  records : List Record := []
  skipped : List Skipped := []
  complete : Bool := true
  deriving DecidableEq, Repr

/-- Read lines, of which the first has the given number. -/
def Reading.ofLines (number : Nat) : List Line → Reading
  | [] => {}
  | .unreadable :: _ => { complete := false }
  | .blank :: rest => ofLines (number + 1) rest
  | .record r :: rest =>
    let later := ofLines (number + 1) rest
    { later with records := r :: later.records }
  | .malformed report :: rest =>
    let later := ofLines (number + 1) rest
    { later with skipped := ⟨number, report⟩ :: later.skipped }

/-- Read the content of a journal. -/
def read (content : Bytes) : Reading :=
  Reading.ofLines 1 ((Text.splitLines content).map Line.ofBytes)

/-- The mode of a journal. -/
def mode (j : Journal) : JournalMode := if j.writer.isSome then .append else .backup

/-- A fault of the file of a journal. -/
def pathFault (what path : String) (e : IoError) : Fault :=
  ⟨.fileOperation, what ++ " journal " ++ path ++ ": " ++ e.text⟩

/-- Open the file of a journal for appending. -/
def openFile (path : String) : Stored FileId :=
  (Disk.openAppend path).orFault (pathFault "Failed to open" path)

/-- Open a journal and the file to read its content from. Directories on the way and the file
itself are made where they are missing. -/
def attach (path : String) (mode : JournalMode) : Stored (Journal × FileId) := do
  (Disk.makeParents path).orFault IoError.toFault
  let file ← openFile path
  return ({ path, writer := if mode = .append then some file else none }, file)

/-- The octets of a record in a journal: its line and the end of the line. -/
def lineBytes (r : Record) : Bytes := Text.encode r.lineText ++ [10]

/-- Add a record at the end. In the mode `backup` this does nothing. -/
def append (j : Journal) (r : Record) : Stored Unit :=
  match j.writer with
  | none => return ()
  | some file =>
    (Disk.append file (lineBytes r)).orFault (pathFault "Failed to append to" j.path)

/-- The file that is written before it takes the place of the journal. -/
def scratch (j : Journal) : String := j.path ++ ".tmp"

/-- A buffer in front of a file. -/
structure Buffer where
  file : FileId
  held : Bytes := []

namespace Buffer

/-- How much a buffer holds at most. -/
def capacity : Nat := 8192

/-- Pass on what the buffer holds. -/
def flush (b : Buffer) : Disk Buffer := do
  Disk.append b.file b.held
  return { b with held := [] }

/-- Empty the buffer when octets do not fit. -/
def makeRoom (b : Buffer) (bytes : Bytes) : Disk Buffer :=
  if capacity < b.held.length + bytes.length then b.flush else return b

/-- Put octets into the buffer, which is emptied first when they do not fit. What is larger
than a whole buffer goes past it. -/
def put (b : Buffer) (bytes : Bytes) : Disk Buffer := do
  let b ← b.makeRoom bytes
  if capacity < bytes.length then
    Disk.append b.file bytes
    return b
  else return { b with held := b.held ++ bytes }

/-- Put the lines of records into the buffer. -/
def putRecords (b : Buffer) : List Record → Stored Buffer
  | [] => return b
  | r :: rest => do
    let b ← (b.put (Text.encode r.lineText)).orFault fun e => ⟨.serialization, e.text⟩
    let b ← (b.put [10]).orFault IoError.toFault
    b.putRecords rest

end Buffer

/-- Write records through the second file, which takes the place of the journal. -/
def renew (j : Journal) (records : List Record) : Stored FileId := do
  let file ← (Disk.create j.scratch).orFault IoError.toFault
  let buffer ← Buffer.putRecords { file } records
  let _ ← buffer.flush.orFault IoError.toFault
  (Disk.sync file).orFault IoError.toFault
  (Disk.rename j.scratch j.path).orFault (pathFault "Failed to replace" j.path)
  return file

/-- Take up the file that stands at the path now, if the journal has one at hand. -/
def takeUp (j : Journal) : Stored Journal := do
  match j.writer with
  | none => return j
  | some _ => return { j with writer := some (← openFile j.path) }

/-- Write a journal as a whole: exactly these records. -/
def replace (j : Journal) (records : List Record) : Stored Journal := do
  let _ ← j.renew records
  j.takeUp

end Journal

end ShortLinks
