import ShortLinks.Journal
import ShortLinks.Store

/-!
# The memory store

The links of all owners in memory, with or without a journal. A code is taken for an owner when
that owner has a link under it, deleted or not; other owners do not matter. A change is written to
the journal before it is made, and is not made when that fails. In a batch each link stands for
itself: those that could be written are kept, and the rest are reported together.
-/

namespace ShortLinks

/-- Links in memory, and the journal they are written to. -/
structure Memory where
  owners : Owners := .empty
  journal : Option Journal := none

namespace Memory

/-- What opening a journal gives: a store or a fault, and the lines that were skipped. -/
structure Opened where
  result : Except Fault Memory
  skipped : List Journal.Skipped := []

/-- Open the journal at a path and take its records over. -/
def «open» (path : String) (mode : JournalMode) : StateM FileSystem Opened := do
  match ← (Journal.attach path mode).run with
  | .error fault => return { result := .error fault }
  | .ok (journal, file) =>
    let reading := Journal.read ((← get).bytes file)
    let result :=
      if reading.complete then
        .ok { owners := Owners.replay .empty reading.records, journal := some journal }
      else .error (IoError.toFault .notText)
    return { result, skipped := reading.skipped }

/-- Write a record to the journal, if there is one. -/
def log (m : Memory) (r : Record) : Stored Unit :=
  match m.journal with
  | none => return ()
  | some journal => journal.append r

/-- Write records to the journal, with an outcome for each. -/
def logAll (m : Memory) : List Record → StateM FileSystem (List (Record × Except Fault Unit))
  | [] => return []
  | r :: rest => do
    let outcome ← (m.log r).run
    return (r, outcome) :: (← m.logAll rest)

/-- Keep a URL under a code for an owner. -/
def add (code url owner : String) : Action Memory Unit := do
  let m ← Action.store
  if (m.owners.link? owner code).isSome then
    throw ⟨.conflict, "short code " ++ code ++ " already exists for owner " ++ owner⟩
  let record : Record := { code, url, owner }
  Action.onFiles (m.log record)
  Action.setStore { m with owners := m.owners.put record }

/-- The order of codes in a message. -/
def byCode (a b : String × Fault) : Bool := decide (a.1 ≤ b.1)

/-- The fault of a batch some of whose links could not be written. -/
def unwritten (owner : String) (failures : List (String × Fault)) : Fault :=
  let details := (failures.mergeSort byCode).map fun (code, fault) => code ++ ": " ++ fault.line
  ⟨.fileOperation, toString failures.length ++ " short code(s) for owner " ++ owner ++
    " were not persisted: " ++ "; ".intercalate details⟩

/-- The fault of a batch some of whose codes were taken. -/
def taken (owner : String) (codes : List String) : Fault :=
  ⟨.conflict, toString codes.length ++ " short code(s) already exist for owner " ++ owner ++ ": " ++
    ", ".intercalate codes.mergeSort⟩

/-- The records whose writing succeeded. -/
def written (outcomes : List (Record × Except Fault Unit)) : List Record :=
  outcomes.filterMap fun (r, outcome) => if outcome.isOk then some r else none

/-- The codes whose writing failed, and why. -/
def failures (outcomes : List (Record × Except Fault Unit)) : List (String × Fault) :=
  outcomes.filterMap fun (r, outcome) => match outcome with
    | .ok () => none
    | .error fault => some (r.code, fault)

/-- The codes of a batch under which its owner has a link already. -/
def known (m : Memory) (urls : Keyed String String) (owner : String) : List String :=
  (urls.entries.filter fun (code, _) => (m.owners.link? owner code).isSome).map Prod.fst

/-- The records of a batch under whose codes its owner has no link. -/
def fresh (m : Memory) (urls : Keyed String String) (owner : String) : List Record :=
  (urls.entries.filter fun (code, _) => !(m.owners.link? owner code).isSome).map
    fun (code, url) => { code, url, owner }

/-- How a batch ends: links that could not be written come before codes that were taken. -/
def verdict (owner : String) (known : List String) (failed : List (String × Fault)) :
    Except Fault Unit :=
  if !failed.isEmpty then .error (unwritten owner failed)
  else if !known.isEmpty then .error (taken owner known)
  else .ok ()

/-- Keep many URLs for an owner. Codes that are taken are left alone. -/
def addBatch (urls : Keyed String String) (owner : String) : Action Memory Unit := do
  let m ← Action.store
  let outcomes ← Action.outcomeOnFiles (m.logAll (m.fresh urls owner))
  Action.setStore { m with owners := m.owners.replay (written outcomes) }
  Action.answer fun _ => verdict owner (m.known urls owner) (failures outcomes)

/-- Mark a link as deleted. -/
def delete (code owner : String) : Action Memory Unit := do
  let m ← Action.store
  match m.owners.link? owner code with
  | none => return ()
  | some link =>
    if link.deleted then return ()
    let record : Record := { code, url := link.url, owner, deleted := true }
    Action.onFiles (m.log record)
    Action.setStore { m with owners := m.owners.put record }

/-- Write the journal anew from the links. -/
def backup : Action Memory Unit := do
  let m ← Action.store
  match m.journal with
  | none => return ()
  | some journal =>
    let journal ← Action.onFiles (journal.replace m.owners.snapshot)
    Action.setStore { m with journal := some journal }

/-- What the memory store offers. -/
def storage : Storage Memory where
  name _ := "memory"
  add := add
  addBatch := addBatch
  get code := Action.answer fun m => m.owners.resolve code
  getAll owner := Action.answer fun m => m.owners.listing owner
  delete := delete
  stats := Action.answer fun m => .ok m.owners.stats
  backup := backup
  ping := return ()

end Memory

end ShortLinks
