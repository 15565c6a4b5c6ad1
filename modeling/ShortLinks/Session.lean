import ShortLinks.Deletion.Schedule
import ShortLinks.Service
import ShortLinks.Store.Either

/-!
# Sessions

A session keeps one store open and works on it step by step. Besides the calls of the service and
of the store, its steps rehearse trouble: files change behind the store's back, writes fail, the
table vanishes, is locked or refuses a URL. A fault is the answer of a step, and the session goes
on.
-/

namespace ShortLinks

/-- An open store, the scheme of its codes and the path where its journal lies. -/
structure Session where
  scheme : Scheme
  path : String
  setting : Setting Store

/-- A rehearsed run of the deletion pipeline. -/
structure Rehearsal where
  request : Deletion.Request
  /-- The codes whose deletion runs out of time. -/
  failing : List String := []

/-- The store of a rehearsal. -/
def Rehearsal.storage {σ : Type} (r : Rehearsal) (storage : Storage σ) : Storage σ :=
  { storage with delete := fun code owner =>
      if r.failing.contains code then throw ⟨.timeout, "delete " ++ code ++ " timed out"⟩
      else storage.delete code owner }

/-- What is known about an open store. -/
structure Session.Info where
  backend : String
  scheme : Scheme
  journal : Option Journal

namespace Session

/-- What a step does. -/
inductive Step
  | shorten (url owner : String)
  | shortenBatch (urls : Keyed String String) (owner : String)
  | encode (url : String)
  | validate (url : String)
  | add (code url owner : String)
  | addBatch (urls : Keyed String String) (owner : String)
  | get (code : String)
  | list (owner : String)
  | delete (code owner : String)
  | deleteMany (rehearsal : Rehearsal)
  | stats
  | ping
  | backup
  | info
  | reopen (mode : JournalMode) (patience : Option Nat)
  | showFile (path : Option String)
  | showLines (path : Option String)
  | writeFile (path : String) (bytes : Bytes)
  | appendFile (path : String) (bytes : Bytes)
  | removeFile (path : String)
  | makeDirectory (path : String)
  | poison (url : String)
  | dropTable
  | lock

/-- What a step answers when nothing is wrong. -/
inductive Reply
  | done
  | shortened (s : Shortened)
  | codes (codes : Keyed String String)
  | text (s : String)
  | links (links : Keyed String Link)
  | stats (s : Stats)
  | deletions (run : Deletion.Run) (calls : Nat) (workers : Nat)
  | info (i : Info)
  | opened (skipped : Option (List Journal.Skipped))
  | missing
  | lines (lines : List String)

/-- What a step answers. A journal that cannot be opened has lines to report too. -/
inductive Answer
  | reply (r : Reply)
  | fault (f : Fault)
  | notOpened (f : Fault) (skipped : Option (List Journal.Skipped))
  | trouble (e : IoError)

/-- The answer for how an action ended. -/
def Answer.ofResult {α : Type} (reply : α → Reply) : Except Fault α → Answer
  | .ok a => .reply (reply a)
  | .error f => .fault f

/-- Run a store action in a session. -/
def act {α : Type} (x : Action Store α) (reply : α → Reply) : StateM Session Answer := do
  let session ← get
  let (result, setting) := x.run session.setting
  set { session with setting }
  return .ofResult reply result

/-- Work on the files of a session. -/
def onFiles {α : Type} (x : Disk α) : StateM Session (Except IoError α) := do
  let session ← get
  let (result, files) := x.run session.setting.files
  set { session with setting := { session.setting with files } }
  return result

/-- Work on the files of a session, and answer whether it could be done. -/
def handle (x : Disk Unit) : StateM Session Answer := do
  match ← onFiles x with
  | .ok () => return .reply .done
  | .error e => return .trouble e

/-- Change the table of a session. A store without a table stays as it is. -/
def tamper (change : Table → Table) : StateM Session Answer := do
  let session ← get
  match session.setting.store with
  | .memory _ => return .reply .done
  | .relational r =>
    let files := session.setting.files
    let t := r.table files
    let files := files.setContent r.file (.database (change t))
    set { session with setting := { session.setting with files } }
    return .reply .done

/-- The fault plan for the time of a step. -/
def setFaults (faults : FaultPlan) : StateM Session Unit :=
  modify fun session =>
    { session with setting.files := { session.setting.files with faults } }

/-- Open the store of a session again. If that fails, the session keeps the one it has. -/
def reopen (mode : JournalMode) (patience : Option Nat) : StateM Session Answer := do
  let session ← get
  match session.setting.store with
  | .relational r =>
    let r := { r with patience := patience.getD r.patience }
    set { session with setting.store := .relational r }
    return .reply (.opened none)
  | .memory m =>
    match m.journal with
    | none =>
      set { session with setting.store := .memory {} }
      return .reply (.opened none)
    | some journal =>
      let (opened, files) := (Memory.open journal.path mode).run session.setting.files
      match opened.result with
      | .ok m =>
        set { session with setting := ⟨.memory m, files⟩ }
        return .reply (.opened (some opened.skipped))
      | .error fault =>
        set { session with setting.files := files }
        return .notOpened fault (some opened.skipped)

/-- Run a rehearsal of the deletion pipeline. -/
def deleteMany (r : Rehearsal) : StateM Session Answer := do
  let session ← get
  let (run, setting) := r.request.run (r.storage Store.storage) session.setting
  set { session with setting }
  return .reply (.deletions run run.report.attempted r.request.limit)

/-- Take a step. -/
def step : Step → StateM Session Answer
  | .shorten url owner => do
    act (Service.add Store.storage (← get).scheme url owner) .shortened
  | .shortenBatch urls owner => do
    act (Service.addBatch Store.storage (← get).scheme urls owner) .codes
  | .encode url => return .reply (.text ((← get).scheme.encode url))
  | .validate url => act (Action.answer fun _ => Url.validate url) fun _ => .done
  | .add code url owner => act (Store.storage.add code url owner) fun _ => .done
  | .addBatch urls owner => act (Store.storage.addBatch urls owner) fun _ => .done
  | .get code => act (Store.storage.get code) .text
  | .list owner => act (Store.storage.getAll owner) .links
  | .delete code owner => act (Store.storage.delete code owner) fun _ => .done
  | .deleteMany rehearsal => deleteMany rehearsal
  | .stats => act Store.storage.stats .stats
  | .ping => act Store.storage.ping fun _ => .done
  | .backup => act Store.storage.backup fun _ => .done
  | .info => do
    let session ← get
    let store := session.setting.store
    return .reply (.info ⟨Store.storage.name store, session.scheme, store.journal?⟩)
  | .reopen mode patience => reopen mode patience
  | .showFile path => do
    match ← onFiles (Disk.readBytes (path.getD (← get).path)) with
    | .ok bytes => return .reply (.text (Text.decodeLossy bytes))
    | .error _ => return .reply .missing
  | .showLines path => do
    match ← onFiles (Disk.readBytes (path.getD (← get).path)) with
    | .ok bytes => return .reply (.lines (Text.lines (Text.decodeLossy bytes)).mergeSort)
    | .error _ => return .reply .missing
  | .writeFile path bytes => handle (Disk.writeBytes path bytes)
  | .appendFile path bytes => handle do Disk.append (← Disk.openAppend path) bytes
  | .removeFile path => handle (Disk.remove path)
  | .makeDirectory path => handle (Disk.makeDirectories path)
  | .poison url => tamper fun t => { t with poisoned := url :: t.poisoned }
  | .dropTable => tamper fun t => { t with dropped := true }
  | .lock => tamper fun t => { t with locked := true }

/-- Take a step while the given faults happen. -/
def stepUnder (faults : FaultPlan) (s : Step) : StateM Session Answer := do
  setFaults faults
  let answer ← step s
  setFaults noFaults
  return answer

/-- How a session begins. -/
inductive Kind
  | memory
  | journal (mode : JournalMode)
  | relational (patience : Nat)

/-- Begin a session among the given files. -/
def begin (kind : Kind) (scheme : Scheme) (path : String) (files : FileSystem) :
    Answer × Option Session :=
  match kind with
  | .memory => (.reply (.opened none), some ⟨scheme, path, .memory {}, files⟩)
  | .relational patience =>
    let (file, files) := files.fresh (.database {})
    (.reply (.opened none), some ⟨scheme, path, .relational { file, patience }, files⟩)
  | .journal mode =>
    let (opened, files) := (Memory.open path mode).run files
    match opened.result with
    | .ok m => (.reply (.opened (some opened.skipped)), some ⟨scheme, path, .memory m, files⟩)
    | .error fault => (.notOpened fault (some opened.skipped), none)

end Session

end ShortLinks
