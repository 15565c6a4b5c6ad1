import ShortLinks.Fault
import ShortLinks.Text.Case

/-!
# Failures of a database

What a database reports when it fails. Whether a row was refused because another one is like it is
told by the text of the report, in the words of any of the three kinds of database.
-/

namespace ShortLinks.Database

/-- What a database reports. -/
inductive Failure
  | custom (message : String)
  | recordNotFound (message : String)
  | recordNotInserted
  | recordNotUpdated
  | badType (message : String)
  | badJson (message : String)
  | migration (message : String)
  deriving DecidableEq, Repr

namespace Failure

/-- The text of a report. -/
def text : Failure → String
  | custom m => "Custom Error: " ++ m
  | recordNotFound m => "RecordNotFound Error: " ++ m
  | recordNotInserted => "None of the records are inserted"
  | recordNotUpdated => "None of the records are updated"
  | badType m => "Type Error: " ++ m
  | badJson m => "Json Error: " ++ m
  | migration m => "Migration Error: " ++ m

/-- The words by which databases say that a row is like another one. -/
def duplicateWords : List String :=
  ["unique constraint failed", "duplicate entry", "duplicate key value violates unique constraint"]

/-- A row was refused because another one is like it. Case does not matter. -/
def isUniqueViolation (f : Failure) : Bool :=
  let report := (Text.lower f.text).toList
  duplicateWords.any fun words => Text.occursIn words.toList report

/-- Nothing was inserted, and nothing else was wrong. -/
def isNotInserted (f : Failure) : Bool := f = .recordNotInserted

/-- The fault that a report amounts to. -/
def toFault (f : Failure) : Fault := ⟨.databaseOperation, f.text⟩

end Failure

end ShortLinks.Database
