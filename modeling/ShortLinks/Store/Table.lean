import ShortLinks.Record

/-!
# The table of links

The relational side keeps every link of every owner in one table. No two rows share a code and no
two rows share a URL, whoever owns them. Statements run against the rows one at a time; a
transaction keeps the rows as they were at its start and at each of its savepoints, and what is
not committed never happened.

Three circumstances can be set from outside: the table can be dropped, single URLs can be poisoned
so that every insert of them is stopped, and another connection can hold the write lock. Besides,
who opened the database may be allowed to read only.
-/

namespace ShortLinks

/-- A database file with the table of links. -/
structure Table where
  rows : List Record := []
  dropped : Bool := false
  poisoned : List String := []
  locked : Bool := false
  /-- Changes go to a log of their own before they reach the file. -/
  logged : Bool := true
  deriving DecidableEq, Repr

/-- Why the engine refuses a statement. -/
inductive SqlRefusal
  | noTable
  | poisonedRow
  | duplicate
  | busy
  | readOnly
  deriving DecidableEq, Repr

namespace Table

/-- Some row has the code. -/
def hasCode (rows : List Record) (code : String) : Bool := rows.any fun r => r.code == code

/-- Some row has the URL. -/
def hasUrl (rows : List Record) (url : String) : Bool := rows.any fun r => r.url == url

/-- What keeps a statement from changing the table at all. -/
def barrier? (t : Table) (readOnly : Bool) : Option SqlRefusal :=
  if t.dropped then some .noTable
  else if readOnly then some .readOnly
  else if t.locked then some .busy
  else none

/-- Insert a row. A poisoned URL is stopped before the engine looks for duplicates. -/
def insert (t : Table) (rows : List Record) (r : Record) : Except SqlRefusal (List Record) :=
  if t.poisoned.contains r.url then .error .poisonedRow
  else if hasCode rows r.code || hasUrl rows r.url then .error .duplicate
  else .ok (rows ++ [r])

/-- Set the tombstone of the row with this code and owner. -/
def bury (t : Table) (code owner : String) : Table :=
  { t with rows := t.rows.map fun r =>
    if r.code = code ∧ r.owner = owner then { r with deleted := true } else r }

/-- Change the table, unless something keeps the statement from it. -/
def change {α : Type} (t : Table) (readOnly : Bool) (statement : Except SqlRefusal α) :
    Except SqlRefusal α :=
  match t.barrier? readOnly with
  | some refusal => .error refusal
  | none => statement

/-- Read from the rows; the write lock does not matter. -/
def query {α : Type} (t : Table) (read : List Record → α) : Except SqlRefusal α :=
  if t.dropped then .error .noTable else .ok (read t.rows)

/-- The distinct owners of some rows. -/
def owners (rows : List Record) : List String := (rows.map Record.owner).eraseDups

end Table

/-- The steps of a batch at which the database can fail on its own. -/
inductive SqlStep
  | start
  | openSavepoint
  | insertRow
  | releaseSavepoint
  | revertSavepoint
  | commit
  deriving DecidableEq, Repr

/-- How a step fails: with an error of the engine, or because nobody waits for it any more. -/
inductive SqlTrouble
  | error (text : String)
  | abandoned
  deriving DecidableEq, Repr

/-- Which steps of a batch fail, by their number in the batch and their kind. -/
abbrev SqlFaults := Nat → SqlStep → Option SqlTrouble

namespace SqlFaults

/-- Nothing fails. -/
def none : SqlFaults := fun _ _ => Option.none

end SqlFaults

/-- A transaction: the rows as it sees them, and as they were at its start and at each of its open
savepoints, innermost first. -/
structure Transaction where
  rows : List Record
  saved : List (List Record)
  performed : Nat := 0

namespace Transaction

/-- Start a transaction. -/
def start (rows : List Record) : Transaction := { rows, saved := [rows] }

/-- Open a savepoint: remember the rows. -/
def save (x : Transaction) : Transaction := { x with saved := x.rows :: x.saved }

/-- Release the innermost savepoint: forget the rows remembered last. -/
def release (x : Transaction) : Transaction := { x with saved := x.saved.tail }

/-- Go back to the innermost savepoint and close it. -/
def revert (x : Transaction) : Transaction :=
  { x with rows := x.saved.head?.getD x.rows, saved := x.saved.tail }

/-- The rows that remain when the transaction is dropped: those it started with. -/
def dropped (x : Transaction) : List Record := x.saved.getLast?.getD x.rows

end Transaction

end ShortLinks
