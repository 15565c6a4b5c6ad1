import ShortLinks.Database.FileAddress
import ShortLinks.Database.FileName
import ShortLinks.Database.Network

/-!
# Connecting to a database

A database file is made where it is missing, and gets its table. A file that holds something else
is refused. A server is used if it can be called, and has or makes the table.

Where the way to the file allows it, the changes go to a log first. A file that may only be read
cannot be brought to that, and a file that is used so cannot be used in another way.

Connecting has a time limit. Without any time, what has to wait for someone fails, and what is
refused at once is still refused. An operation without any time always fails, and connecting ends
with one.
-/

namespace ShortLinks.Database

/-- Limits on the use of a database: seconds for connecting, milliseconds for one operation. -/
structure Limits where
  connectSeconds : Nat := 5
  operationMillis : Nat := 500
  deriving DecidableEq, Repr

/-- What the engine says. -/
def EngineError.report (e : EngineError) : String :=
  "error returned from database: (code: " ++ toString e.code ++ ") " ++ e.text

/-- The file cannot be opened. -/
def cannotOpen : EngineError := ⟨14, "unable to open database file"⟩

/-- The file cannot be written. -/
def cannotWrite : EngineError := ⟨8, "attempt to write a readonly database"⟩

/-- The file cannot be read. -/
def cannotRead : EngineError := ⟨266, "disk I/O error"⟩

/-- The permissions of another file cannot be found out. -/
def cannotCompare : EngineError := ⟨1802, "disk I/O error"⟩

/-- The file cannot be locked. -/
def cannotLock : EngineError := ⟨3850, "disk I/O error"⟩

/-- The file holds something else. -/
def noDatabase : EngineError := ⟨26, "file is not a database"⟩

/-- The fault of a database file that cannot be used. -/
def fileRefused (report : String) : Fault :=
  ⟨.databaseConnection, "cannot connect to SQLite: " ++ report⟩

/-- The fault of a database that does not get its table. -/
def tableRefused (e : EngineError) : Fault :=
  ⟨.databaseOperation, "migration failed: Execution Error: " ++ e.report⟩

/-- The longest path of a database file, from the root on. Names are added to it for other files. -/
def longestPath : Nat := 504

/-- The longest path on the way to that of a database file. -/
def longestWay : Nat := 511

/-- The longest name of a database file that leaves room for the endings of its other files. -/
def longestName : Nat := 247

/-- The longest name of a database file that leaves room for the ending of a lock beside it. -/
def longestMarked : Nat := 250

/-- The size of the path of a place, from the root on. -/
def pathSize (fs : FileSystem) (p : Place) : Nat :=
  (if p.head? = some "/" then 0 else fs.homeSize) + (Path.ofPlace p).utf8ByteSize

/-- Take one step in the path of a database file. A directory that is missing is no hindrance. -/
def settleStep (fs : FileSystem) (p : Place) (step : String) : Except EngineError Place :=
  let next := Path.follow p step
  if longestWay < pathSize fs next then .error cannotOpen
  else if step = "." || step = ".." then .ok next
  else
    match fs.enter p step with
    | .ok _ | .error .notFound => .ok next
    | .error _ => .error cannotOpen

/-- The place of a database file. Its path counts as it is spelled, so a step back undoes a step. -/
def settle (fs : FileSystem) (path : String) : Except EngineError Place := do
  let place ← (Path.steps path).foldlM (settleStep fs) (Path.start path)
  if place = ["/"] || longestPath < pathSize fs place then throw cannotOpen
  return place

/-- The file at the place of a database, made where it is missing if that may be. -/
def obtainFile (n : FileName) : Stored FileId := do
  let fs ← get
  let refuse (e : EngineError) : Stored FileId := throw (fileRefused e.report)
  match settle fs n.path with
  | .error e => refuse e
  | .ok place =>
    if n.modelPath.any fun path => !fs.holds path then refuse cannotCompare
    else match fs.node? place with
    | some .directory => refuse (if n.rights.right = some .read then cannotRead else cannotOpen)
    | some (.file id) => return id
    | none =>
      if n.rights.right = some .create then
        (Disk.obtain (Path.ofPlace place)).orFault fun _ => fileRefused cannotOpen.report
      else refuse cannotOpen

/-- Make sure that a file is a database with its table. An empty file becomes one, and a database
that is used with a log is changed to that. -/
def prepareFile (n : FileName) (file : FileId) : Stored Unit := do
  let fs ← get
  let size := ((Path.settle n.path).getLast?.getD "").utf8ByteSize
  let hasRoom := (size ≤ longestName : Bool)
  let put (t : Table) : Stored Unit := set (fs.setContent file (.database t))
  if n.hasMark && longestMarked < size then throw (fileRefused cannotLock.report)
  match fs.content file with
  | .octets [] =>
    if n.hasLog then
      if n.isReadOnly then throw (fileRefused cannotWrite.report)
      else if !hasRoom then throw (fileRefused cannotOpen.report)
      else put {}
    else if n.isReadOnly then throw (tableRefused cannotWrite)
    else if !hasRoom then throw (tableRefused cannotOpen)
    else put { logged := false }
  | .octets _ => throw (fileRefused noDatabase.report)
  | .database t =>
    if t.logged then
      if n.hasLog || n.immutable then return () else throw (fileRefused cannotOpen.report)
    else if n.hasLog then
      if n.isReadOnly then throw (fileRefused cannotWrite.report) else put { t with logged := true }

/-- Open the database with a name. One in memory lives as long as its user. -/
def openFile (n : FileName) : Stored FileId := do
  if n.isInMemory then
    if n.isReadOnly then throw (tableRefused cannotWrite)
    let (file, fs) := (← get).fresh (.database {})
    set fs
    return file
  else
    let file ← obtainFile n
    prepareFile n file
    return file

/-- Read the address of a database file, whose name must be one that the engine can be given. -/
def fileAddress (url : String) : Except Fault FileAddress :=
  match FileAddress.read url with
  | .error text =>
    .error ⟨.databaseConfig, "invalid SQLite URL: error with configuration: " ++ text⟩
  | .ok address =>
    if address.fileName.contains '\x00' then
      .error (fileRefused ("error communicating with database: " ++
        "filename passed to SQLite must not contain nul bytes"))
    else .ok address

/-- The name of a database file, as the engine understands it. -/
def fileName (address : FileAddress) : Except Fault FileName :=
  let right : Right := if address.readOnly then .read else .create
  match FileName.read ⟨some right, address.inMemory⟩ address.fileName with
  | .error e => .error (fileRefused e.report)
  | .ok name => .ok name

/-- Connecting took longer than it may. -/
def connectTooLong (backend : Backend) (seconds : Nat) : Fault :=
  ⟨.timeout, "connecting to " ++ backend.name ++ " took longer than " ++ toString seconds ++ "s"⟩

/-- How many seconds someone who has to be waited for is waited for at most. -/
def longestWait : Nat := 8

/-- The fault of a server that cannot be used. -/
def serverRefused (backend : Backend) (text : String) : Fault :=
  ⟨.databaseConnection, "cannot connect to " ++ backend.heading ++ ": Connection Error: " ++ text⟩

/-- The server that a URL means. -/
def serverAt (backend : Backend) (url : String) : Except Fault Server :=
  match ServerUrl.read? url with
  | none =>
    .error (serverRefused backend ("The connection string '" ++ url ++ "' cannot be parsed."))
  | some u =>
    if url.startsWith "mariadb:" then
      .error (serverRefused backend
        ("The connection string '" ++ url ++ "' has no supporting driver."))
    else
      match Server.ofUrl backend u with
      | (.error text, _) => .error (serverRefused backend (Server.configurationHeading ++ text))
      | (.ok (), server) => .ok server

/-- Why a server is not used that is not reached. -/
def notReached (backend : Backend) (limits : Limits) (why : Unreached) (delay : Delay) : Fault :=
  let tooLong := connectTooLong backend limits.connectSeconds
  let lost := serverRefused backend ("error communicating with database: " ++ why.text)
  match delay with
  | .atOnce => lost
  | .soon => if limits.connectSeconds = 0 then tooLong else lost
  | .never =>
    if limits.connectSeconds ≤ longestWait then tooLong
    else serverRefused backend "pool timed out while waiting for an open connection"

/-- A server was asked whether it is there, under the limit for one operation. -/
def pinged (backend : Backend) (limits : Limits) (echo : Echo) : Except Fault Unit :=
  let tooLong := Relational.tooLong "ping" limits.operationMillis backend
  if limits.operationMillis = 0 then .error tooLong
  else
    match echo with
    | .answer => .ok ()
    | .error text => .error ⟨.databaseConnection, backend.heading ++ " ping failed: " ++ text⟩
    | .silence => .error tooLong

/-- Call a server. Whoever has no time to wait for it does not learn what it says. -/
def contacted (backend : Backend) (limits : Limits) (contact : Contact) :
    Except Fault Relational := do
  let awaited {α : Type} (answer : Except Fault α) : Except Fault α :=
    if limits.connectSeconds = 0 then .error (connectTooLong backend 0) else answer
  match contact with
  | .unreached why delay => throw (notReached backend limits why delay)
  | .turnedAway text => awaited (throw (serverRefused backend text))
  | .noTable text => awaited (throw ⟨.databaseOperation, "migration failed: " ++ text⟩)
  | .unending => throw (connectTooLong backend limits.connectSeconds)
  | .ready store echo => awaited do
    pinged backend limits echo
    return { store with
      patience := limits.operationMillis, engine := { store.engine with backend } }

/-- The store on the server at a URL. -/
def serverStore (network : Network) (backend : Backend) (url : String) (limits : Limits)
    (fs : FileSystem) : Except Fault Relational := do
  contacted backend limits (network backend (← serverAt backend url) fs)

/-- Why the server at a URL cannot be used where there is no network. -/
def serverFault (backend : Backend) (url : String) (limits : Limits) (fs : FileSystem) : Fault :=
  match serverAt backend url with
  | .error fault => fault
  | .ok server =>
    let (why, delay) := server.reach backend fs
    notReached backend limits why delay

/-- Connect to the database at a URL, and find out that it answers. -/
def connect (url : String) (limits : Limits) (network : Network := .none) : Stored Relational := do
  match Backend.infer url with
  | .error fault => throw fault
  | .ok .sqlite =>
    let address ← ExceptT.mk (pure (fileAddress url))
    if limits.connectSeconds = 0 then throw (connectTooLong .sqlite 0)
    let name ← ExceptT.mk (pure (fileName address))
    let file ← openFile name
    if limits.operationMillis = 0 then throw (Relational.tooLong "ping" 0)
    return { file, patience := limits.operationMillis, readOnly := name.isReadOnly }
  | .ok backend => ExceptT.mk (return serverStore network backend url limits (← get))

/-- What is told about a URL when someone connects to it: each word that its server does not
know. -/
def warnings (url : String) : List String :=
  match Backend.infer url, ServerUrl.read? url with
  | .ok .postgres, some u =>
    List.replicate (Server.ofUrl .postgres u).2.ignored "ignoring unrecognized connect parameter"
  | _, _ => []

/-- Take the table out of the database at a path, behind the back of its users. -/
def dropTable (path : String) : Disk Unit := do
  match ← Disk.ask fun fs => fs.find? path with
  | .directory => throw .isDirectory
  | .file id =>
    match (← get).content id with
    | .octets _ => return ()
    | .database t => modify fun fs => fs.setContent id (.database { t with dropped := true })

end ShortLinks.Database
