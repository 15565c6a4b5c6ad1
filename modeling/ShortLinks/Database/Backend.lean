import ShortLinks.Fault

/-!
# Kinds of database

The kind of a database shows in its URL: in the scheme, or in the ending of a plain file name. What
looks like a file counts first.
-/

namespace ShortLinks

/-- A kind of database. -/
inductive Backend
  | sqlite
  | mysql
  | postgres
  deriving DecidableEq, Repr

namespace Backend

/-- The name of a kind. -/
def name : Backend → String
  | sqlite => "sqlite"
  | mysql => "mysql"
  | postgres => "postgres"

/-- The name of a kind in capitals. -/
def heading : Backend → String
  | sqlite => "SQLITE"
  | mysql => "MYSQL"
  | postgres => "POSTGRES"

/-- The URL means a file, or a database in memory. -/
def meansFile (url : String) : Bool :=
  url.startsWith "sqlite://" || url.endsWith ".db" || url.endsWith ".sqlite" || url == ":memory:"

/-- The kind of database that a URL means. -/
def infer (url : String) : Except Fault Backend :=
  if meansFile url then .ok .sqlite
  else if url.startsWith "mysql://" || url.startsWith "mariadb://" then .ok .mysql
  else if url.startsWith "postgres://" || url.startsWith "postgresql://" then .ok .postgres
  else .error ⟨.databaseConfig, "cannot infer database type from URL: " ++ url ++
    ". Supported: sqlite://, mysql://, mariadb://, postgres://"⟩

/-- The usual name for a kind that goes by two names. -/
def normalName (name : String) : String :=
  if name = "mariadb" then "mysql" else if name = "postgresql" then "postgres" else name

end Backend

end ShortLinks
