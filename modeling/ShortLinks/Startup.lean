import ShortLinks.Settings
import ShortLinks.Store.Either

/-!
# Starting up

A program starts with the database that its settings name, if one answers, and with the memory
store otherwise. That a database was passed over, or a line of the journal, is a warning and not a
fault. Shutting down makes the state of the store safe.
-/

namespace ShortLinks

/-- A started program: its store and how it works on it. -/
structure Started where
  store : Store
  scheme : Scheme
  workers : Nat

namespace Startup

/-- A setting that is blank counts as not set. -/
def nonblank (s : Option String) : Option String := (s.map Text.trim).filter (· != "")

/-- The memory store that settings describe, and the warnings on the way. -/
def createMemory (s : Settings.StorageSection) :
    StateM FileSystem (Except Fault Memory × List String) := do
  match nonblank s.journalPath with
  | none => return (.ok {}, [])
  | some path =>
    let opened ← Memory.open path s.journalMode
    return (opened.result, opened.skipped.map fun skipped => skipped.warning path)

/-- The warning that a database was passed over. -/
def passedOver (fault : Fault) : String :=
  "Database unavailable (" ++ fault.line ++ "), falling back to memory storage"

/-- The store that settings describe, and the warnings on the way. -/
def createStore (s : Settings) (network : Database.Network := .none) :
    StateM FileSystem (Except Fault Store × List String) := do
  let warnings ← match nonblank s.database.url with
    | none => pure []
    | some url =>
      let told := Database.warnings url
      match ← (Database.connect url s.database.limits network).run with
      | .ok r => return (.ok (.relational r), told)
      | .error fault => pure (told ++ [passedOver fault])
  let (result, more) ← createMemory s.storage
  return (result.map .memory, warnings ++ more)

/-- The message of a program that has no store. -/
def failure (fault : Fault) : String := "Failed to create storage backend: " ++ fault.line

/-- Start with the given settings. Without a setting there are `processors` workers; at least one
there always is. -/
def prepare (s : Settings) (processors : Nat) (network : Database.Network := .none) :
    StateM FileSystem (Except Fault Started × List String) := do
  let (result, warnings) ← createStore s network
  let workers := max (s.deletion.workers.getD processors) 1
  return (result.map fun store => ⟨store, s.shortener.scheme, workers⟩, warnings)

/-- Make the state of a store safe before the program ends. -/
def shutdown : Action Store Unit := Store.storage.backup

end Startup

end ShortLinks
