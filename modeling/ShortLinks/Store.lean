import ShortLinks.FileSystem
import ShortLinks.Store.Owners

/-!
# Stores

A store keeps links for owners. `Storage` names what every store offers; the memory store and the
relational store both offer it, each with rules of its own for what collides. An `Action` runs on a
store and the files around it, and what it did before a fault stays done.
-/

namespace ShortLinks

/-- A store and the files around it. -/
structure Setting (σ : Type) where
  store : σ
  files : FileSystem

/-- What is done with a store. -/
abbrev Action (σ α : Type) := ExceptT Fault (StateM (Setting σ)) α

namespace Action

variable {σ τ α : Type}

/-- The store. -/
def store : Action σ σ := return (← get).store

/-- Put another store in its place. -/
def setStore (s : σ) : Action σ Unit := modify fun setting => { setting with store := s }

/-- Do something with the files alone, and look at how it ended. -/
def outcomeOnFiles (x : StateM FileSystem α) : Action σ α := do
  let (a, files) := x (← get).files
  modify fun setting => { setting with files }
  return a

/-- Do something with the files alone. -/
def onFiles (x : Stored α) : Action σ α := do
  match ← outcomeOnFiles x.run with
  | .ok a => return a
  | .error fault => throw fault

/-- Take the answer of a question about the store. -/
def answer (question : σ → Except Fault α) : Action σ α := do
  match question (← store) with
  | .ok a => return a
  | .error fault => throw fault

/-- Do something and look at how it ended. -/
def outcome (x : Action σ α) : Action σ (Except Fault α) := do
  let (result, setting) := x.run (← get)
  set setting
  return result

/-- Do something with a store that is part of another one. -/
def inside (inner : τ) (wrap : τ → σ) (x : Action τ α) : Action σ α := do
  let (result, setting) := x.run ⟨inner, (← get).files⟩
  set (⟨wrap setting.store, setting.files⟩ : Setting σ)
  match result with
  | .ok a => return a
  | .error fault => throw fault

end Action

/-- What a store offers. -/
structure Storage (σ : Type) where
  /-- The name of the kind of store. -/
  name : σ → String
  /-- Keep a URL under a code for an owner. It is a conflict if the code is taken. -/
  add : (code url owner : String) → Action σ Unit
  /-- Keep many URLs, by code, for an owner. -/
  addBatch : (urls : Keyed String String) → (owner : String) → Action σ Unit
  /-- The URL under a code, whoever owns it. -/
  get : (code : String) → Action σ String
  /-- All links of an owner who has some. -/
  getAll : (owner : String) → Action σ (Keyed String Link)
  /-- Mark a link as deleted. A link that is not there, or deleted already, is none of its work. -/
  delete : (code owner : String) → Action σ Unit
  /-- Count links and owners. -/
  stats : Action σ Stats
  /-- Make the state safe. -/
  backup : Action σ Unit
  /-- Find out whether the store can be reached. -/
  ping : Action σ Unit

end ShortLinks
