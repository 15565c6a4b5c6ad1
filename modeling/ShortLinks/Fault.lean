import ShortLinks.Text.Style

/-!
# Faults

What an operation of the shortener can report instead of an answer: one of eleven kinds and a
sentence that names the particulars. Every sentence that the memory store and the relational store
share is built here, so that both word it alike.
-/

namespace ShortLinks

/-- What went wrong, without the particulars. -/
inductive Fault.Kind
  | invalidUrl
  | conflict
  | notFound
  | deleted
  | databaseConfig
  | databaseConnection
  | databaseOperation
  | timeout
  | fileOperation
  | serialization
  | cancelled
  deriving DecidableEq, Repr

/-- A kind of fault with its particulars. -/
structure Fault where
  kind : Fault.Kind
  message : String
  deriving DecidableEq, Repr

namespace Fault

/-- The stable code of a kind. -/
def Kind.code : Kind → String
  | invalidUrl => "E001"
  | conflict => "E002"
  | notFound => "E003"
  | deleted => "E004"
  | databaseConfig => "E005"
  | databaseConnection => "E006"
  | databaseOperation => "E007"
  | timeout => "E008"
  | fileOperation => "E009"
  | serialization => "E010"
  | cancelled => "E011"

/-- The heading under which a kind is shown. -/
def Kind.title : Kind → String
  | invalidUrl => "Invalid URL"
  | conflict => "Already Exists"
  | notFound => "Resource Not Found"
  | deleted => "Resource Deleted"
  | databaseConfig => "Database Configuration Error"
  | databaseConnection => "Database Connection Error"
  | databaseOperation => "Database Operation Error"
  | timeout => "Operation Timed Out"
  | fileOperation => "File Operation Error"
  | serialization => "Serialization Error"
  | cancelled => "Operation Cancelled"

/-- The storage behind the shortener failed, as opposed to refusing or being stopped. -/
def Kind.isBackend : Kind → Bool
  | databaseConfig | databaseConnection | databaseOperation => true
  | timeout | fileOperation | serialization => true
  | invalidUrl | conflict | notFound | deleted | cancelled => false

/-- Two kinds never share a code. -/
theorem Kind.code_injective {a b : Kind} (h : a.code = b.code) : a = b := by
  cases a <;> cases b <;> first | rfl | exact absurd h (by decide)

/-- One line: the heading, then the particulars. -/
def line (f : Fault) : String := f.kind.title ++ ": " ++ f.message

/-- Two lines for a terminal: mark, code and heading, then the particulars. -/
def banner (f : Fault) (color : Bool) : String :=
  (Text.Style.strong .red).paint color "[ERROR]" ++ " " ++
    (Text.Style.colored .yellow).paint color f.kind.code ++ " " ++
    (Text.Style.colored .red).paint color f.kind.title ++ "\n  " ++
    (Text.Style.colored .white).paint color f.message

/-- No owner has the code. -/
def codeNotFound (code : String) : Fault :=
  ⟨.notFound, "short code " ++ code ++ " not found"⟩

/-- Every copy of the code is a tombstone. -/
def codeDeleted (code : String) : Fault :=
  ⟨.deleted, "short code " ++ code ++ " has been deleted"⟩

/-- The owner has no records. -/
def ownerUnknown (owner : String) : Fault :=
  ⟨.notFound, "no URLs stored for owner " ++ owner⟩

end Fault

end ShortLinks
