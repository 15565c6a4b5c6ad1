import ShortLinks.Database.Backend
import ShortLinks.Database.ServerUrl
import ShortLinks.Text.Visible

/-!
# Servers

What the URL of a server asks for, and what can be wrong with it: texts that are no UTF-8, numbers
that are none, modes that do not exist. The words of a query are taken in order, and the first flaw
counts. Each kind of server has words of its own.
-/

namespace ShortLinks.Database

/-- Where a server is: at a host, or at a file of this machine. -/
structure Server where
  host : String := "localhost"
  /-- The file, without the name that some servers add to it. -/
  socket : Option String := none
  port : Nat
  /-- How many words of the query mean nothing to a server of this kind. -/
  ignored : Nat := 0
  deriving DecidableEq, Repr

/-- Reading what a URL asks for: a flaw, and the server as far as it is known. -/
abbrev Reading := ExceptT String (StateM Server)

namespace Server

/-- The words for the use of encryption. -/
def encryptionModes : Backend → List String
  | .mysql => ["disabled", "preferred", "required", "verify_ca", "verify_identity"]
  | .postgres => ["disable", "allow", "prefer", "require", "verify-ca", "verify-full"]
  | .sqlite => []

/-- The words of a query that need no more than to be known. -/
def knownWords : List String :=
  ["sslrootcert", "ssl-root-cert", "ssl-ca", "sslcert", "ssl-cert", "sslkey", "ssl-key", "dbname",
   "user", "password", "application_name", "options"]

/-- What configuration texts begin with. -/
def configurationHeading : String := "error with configuration: "

/-- Fail where a number is none. -/
def readCount (bound : Nat) (s : String) : Reading Nat :=
  match Decimal.count bound s with
  | .ok n => return n
  | .error flaw => throw flaw.text

/-- Fail where a percent-encoded text is no UTF-8. -/
def readText (s : String) : Reading String :=
  match Text.decodeOrExplain (Text.percentDecode (Text.encode s)) with
  | .ok text => return text
  | .error flaw => throw flaw

/-- Take a word for the use of encryption. Capitals of ASCII do not matter. -/
def readEncryption (backend : Backend) (s : String) : Reading Unit :=
  if (encryptionModes backend).contains (Text.lowerAscii s) then return ()
  else throw (configurationHeading ++ "unknown value " ++ Text.visible s ++ " for `ssl_mode`")

/-- The most that a size of this machine can be, and one more. -/
def sizeBound : Nat := Decimal.twoTo 64

/-- The most that a port can be, and one more. -/
def portBound : Nat := Decimal.twoTo 16

/-- Take a host or, where it begins with a slash, the file of a server. -/
def setHost (s : String) : Reading Unit :=
  modify fun server =>
    if s.startsWith "/" then { server with socket := some s } else { server with host := s }

/-- Take one word of a query into account. -/
def readWord (backend : Backend) (name value : String) : Reading Unit :=
  match backend, name with
  | _, "sslmode" | _, "ssl-mode" => readEncryption backend value
  | _, "statement-cache-capacity" => do let _ ← readCount sizeBound value
  | .mysql, "socket" => modify fun server => { server with socket := some value }
  | .postgres, "host" => setHost value
  | .postgres, "hostaddr" =>
    if (Host.octets? value).isSome || (Host.number? value).isSome then
      modify fun server => { server with host := value }
    else throw "invalid IP address syntax"
  | .postgres, "port" => do
    let port ← readCount portBound value
    modify fun server => { server with port }
  | .postgres, name =>
    if knownWords.contains name || name.startsWith "options[" then return ()
    else modify fun server => { server with ignored := server.ignored + 1 }
  | _, _ => return ()

/-- The text of a host. -/
def hostText : Host → String
  | .named name => name
  | .numbered groups =>
    "[" ++ ":".intercalate (groups.map fun n => String.ofList (Nat.toDigits 16 n)) ++ "]"

/-- Take the machine that a URL names into account. In percent form, the name can be the file of a
server. -/
def readHost (backend : Backend) (h : Host) : Reading Unit := do
  let s := hostText h
  if s = "" then return ()
  else if backend = .postgres && (Text.percentDecode (Text.encode s)).head? = some 47 then
    setHost (← readText s)
  else modify fun server => { server with host := s }

/-- Take all that a URL says into account. -/
def readUrl (backend : Backend) (u : ServerUrl) : Reading Unit := do
  readHost backend u.host
  let _ ← readText u.user
  let _ ← readText (u.password.getD "")
  let _ ← readText u.path
  for (name, value) in Text.queryPairs u.query do readWord backend name value

/-- The port of a server whose URL names none. -/
def usualPort : Backend → Nat
  | .postgres => 5432
  | _ => 3306

/-- The server that a URL asks for, as far as it is read, and a flaw if there is one. -/
def ofUrl (backend : Backend) (u : ServerUrl) : Except String Unit × Server :=
  (readUrl backend u).run { port := u.port.getD (usualPort backend) }

/-- The path of the file at which a server of some kind listens. -/
def socketPath (backend : Backend) (server : Server) : Option String :=
  server.socket.map fun path =>
    if backend = .postgres then path ++ "/.s.PGSQL." ++ toString server.port else path

end Server

end ShortLinks.Database
