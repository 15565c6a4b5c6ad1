import ShortLinks.Database.Backend
import ShortLinks.Store
import ShortLinks.Store.Table

/-!
# The relational store

The links of all owners in one table, in the file of a database or on a server. Texts in it are
compared as they are. A code or a URL that any row has is taken for everyone. A batch runs in one
transaction with a savepoint around each row: taken rows are skipped without a word, and any other
trouble undoes the whole batch.

Each operation has a time limit. An operation that waits for a lock runs into it, unless the engine
gives up first.
-/

namespace ShortLinks

/-- What keeps a table: a kind of database, what it says when it refuses a statement, and how many
milliseconds it waits for a lock. -/
structure Engine where
  backend : Backend
  text : SqlRefusal → String
  lockPatience : Nat

/-- The engine for database files. -/
def Engine.sqlite : Engine where
  backend := .sqlite
  text refusal := "error returned from database: " ++ match refusal with
    | .noTable => "(code: 1) no such table: urls"
    | .poisonedRow => "(code: 1811) poisoned row"
    | .busy => "(code: 5) database is locked"
    | .readOnly => "(code: 8) attempt to write a readonly database"
    | .duplicate => "(code: 2067) UNIQUE constraint failed"
  lockPatience := 5000

/-- A table in a file, how many milliseconds an operation may take, and what goes wrong on its own.
The file of a server is one that no path leads to. -/
structure Relational where
  file : FileId
  patience : Nat := 60000
  /-- The database was opened for reading only. -/
  readOnly : Bool := false
  faults : SqlFaults := .none
  engine : Engine := .sqlite

namespace Relational

/-- Why an operation stops: a fault, or nobody waits for it any more. -/
inductive Stop
  | fault (f : Fault)
  | abandoned
  deriving DecidableEq, Repr

/-- How an operation stops at a statement that the engine refuses. `what` says what was tried. -/
def refused (r : Relational) (what kind : String) (refusal : SqlRefusal) : Stop :=
  if refusal = .busy ∧ r.patience ≤ r.engine.lockPatience then .abandoned
  else .fault ⟨.databaseOperation, what ++ ": " ++ kind ++ " Error: " ++ r.engine.text refusal⟩

/-- The fault of an operation that took too long. -/
def tooLong (operation : String) (patience : Nat) (backend : Backend := .sqlite) : Fault :=
  ⟨.timeout,
    operation ++ " on " ++ backend.name ++ " exceeded " ++ toString patience ++ " ms"⟩

/-- Answer for an operation that stopped. -/
def Stop.answer (operation : String) (r : Relational) : Stop → Fault
  | .fault f => f
  | .abandoned => tooLong operation r.patience r.engine.backend

/-- The table in the file. A file that holds something else has no table. -/
def table (r : Relational) (fs : FileSystem) : Table :=
  match fs.content r.file with
  | .database t => t
  | .octets _ => { dropped := true }

/-- The result of an operation and the table after it. Without any time nothing is done. -/
def timed {α : Type} (r : Relational) (f : Relational → Table → Except Stop α × Table)
    (t : Table) : Except Stop α × Table :=
  if r.patience = 0 then (.error .abandoned, t) else f r t

/-- Run an operation on the table under the time limit. It gives a result and the table after it. -/
def run {α : Type} (operation : String) (f : Relational → Table → Except Stop α × Table) :
    Action Relational α := do
  let setting ← get
  let r := setting.store
  let (result, after) := r.timed f (r.table setting.files)
  set { setting with files := setting.files.setContent r.file (.database after) }
  match result with
  | .ok a => return a
  | .error stop => throw (stop.answer operation r)

/-- What is read from the rows, if the engine lets it. `what` says what was tried. -/
def readRows {α : Type} (r : Relational) (what : String) (read : List Record → Except Fault α)
    (t : Table) : Except Stop α :=
  match t.query read with
  | .error refusal => .error (r.refused what "Query" refusal)
  | .ok (.error fault) => .error (.fault fault)
  | .ok (.ok a) => .ok a

/-- Ask a question about the rows. -/
def query {α : Type} (operation what : String) (read : List Record → Except Fault α) :
    Action Relational α :=
  run operation fun r t => (readRows r what read t, t)

/-- Insert one row. -/
def insertOne (r : Relational) (t : Table) (owner code url : String) : Except Stop Unit × Table :=
  match t.change r.readOnly (t.insert t.rows { code, url, owner }) with
  | .ok rows => (.ok (), { t with rows })
  | .error .duplicate =>
    (.error (.fault ⟨.conflict, "short code " ++ code ++ " already exists"⟩), t)
  | .error refusal =>
    let what := "failed to insert short URL '" ++ code ++ "'"
    (.error (r.refused what "Query" refusal), t)

/-- Keep a URL under a code for an owner. -/
def add (code url owner : String) : Action Relational Unit :=
  run "add" fun r t => insertOne r t owner code url

/-- Work in a transaction: what it did is there until someone goes back. -/
abbrev Work := ExceptT Stop (StateM Transaction)

/-- Come to a step, which may fail on its own. -/
def Work.reach (faults : SqlFaults) (step : SqlStep) (what : String) : Work Unit := do
  let x ← get
  set { x with performed := x.performed + 1 }
  match faults x.performed step with
  | none => return ()
  | some .abandoned => throw .abandoned
  | some (.error text) => throw (.fault ⟨.databaseOperation, what ++ ": " ++ text⟩)

/-- Close the savepoint around a row after the engine answered its insert. `what` says what was
tried. -/
def settleRow (r : Relational) (what : String) : Except SqlRefusal (List Record) → Work Unit
  | .ok rows => do
    modify fun x => { x with rows }
    Work.reach r.faults .releaseSavepoint "failed to release savepoint"
    modify Transaction.release
  | .error .duplicate => do
    Work.reach r.faults .revertSavepoint "failed to roll back savepoint"
    modify Transaction.revert
  | .error refusal => throw (r.refused what "Query" refusal)

/-- Insert one row of a batch inside a savepoint. -/
def addRow (r : Relational) (t : Table) (owner code url : String) : Work Unit := do
  Work.reach r.faults .openSavepoint "failed to open savepoint"
  modify Transaction.save
  let what := "batch insert failed at '" ++ code ++ "'"
  Work.reach r.faults .insertRow what
  r.settleRow what (t.change r.readOnly (t.insert (← get).rows { code, url, owner }))

/-- Insert the rows of a batch in order. -/
def addRows (r : Relational) (t : Table) (owner : String) : List (String × String) → Work Unit
  | [] => return ()
  | (code, url) :: rest => do
    addRow r t owner code url
    addRows r t owner rest

/-- All the work of a batch, from the start of its transaction to the commit. -/
def batchWork (r : Relational) (t : Table) (owner : String) (entries : List (String × String)) :
    Work Unit := do
  Work.reach r.faults .start "failed to begin transaction"
  addRows r t owner entries
  Work.reach r.faults .commit "failed to commit transaction"

/-- Insert a batch in one transaction. If its work fails, the transaction is dropped. -/
def insertBatch (r : Relational) (t : Table) (owner : String) (entries : List (String × String)) :
    Except Stop Unit × Table :=
  let (result, x) := (batchWork r t owner entries).run (Transaction.start t.rows)
  match result with
  | .ok () => (.ok (), { t with rows := x.rows })
  | .error stop => (.error stop, { t with rows := x.dropped })

/-- Keep many URLs for an owner. An empty batch asks nothing of the database. -/
def addBatch (urls : Keyed String String) (owner : String) : Action Relational Unit :=
  if urls.entries.isEmpty then return ()
  else run "add_batch" fun r t => insertBatch r t owner urls.entries

/-- The URL in the row with a code. -/
def resolve (code : String) (rows : List Record) : Except Fault String :=
  match rows.find? fun row => row.code == code with
  | none => .error (.codeNotFound code)
  | some row => if row.deleted then .error (.codeDeleted code) else .ok row.url

/-- The links in the rows of an owner who has some. -/
def listing (owner : String) (rows : List Record) : Except Fault (Keyed String Link) :=
  let owned := rows.filter fun row => row.owner == owner
  if owned.isEmpty then .error (.ownerUnknown owner)
  else .ok (Keyed.ofList (owned.map fun row => (row.code, ⟨row.url, row.deleted⟩)))

/-- Set the tombstone of one row. -/
def buryOne (r : Relational) (t : Table) (code owner : String) : Except Stop Unit × Table :=
  match t.change r.readOnly (.ok (t.bury code owner)) with
  | .ok after => (.ok (), after)
  | .error refusal =>
    let what := "failed to delete short URL '" ++ code ++ "'"
    (.error (r.refused what "Execution" refusal), t)

/-- Mark the row with this code and owner as deleted. -/
def delete (code owner : String) : Action Relational Unit :=
  run "delete" fun r t => buryOne r t code owner

/-- Count rows and owners. -/
def stats : Action Relational Stats :=
  query "get_stats" "stats query failed" fun rows => .ok ⟨rows.length, (Table.owners rows).length⟩

/-- What the relational store offers. -/
def storage : Storage Relational where
  name r := r.engine.backend.name
  add := add
  addBatch := addBatch
  get code := query "get" ("failed to look up short code '" ++ code ++ "'") (resolve code)
  getAll owner := query "get_all" ("failed to list URLs of '" ++ owner ++ "'") (listing owner)
  delete := delete
  stats := stats
  backup := return ()
  ping := run "ping" fun _ t => (.ok (), t)

end Relational

end ShortLinks
