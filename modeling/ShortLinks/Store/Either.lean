import ShortLinks.Store.Memory
import ShortLinks.Store.Relational

/-!
# One store of either kind

A program that decides at run time which store it uses keeps one of these. Everything it offers is
what the store inside offers.
-/

namespace ShortLinks

/-- A memory store or a relational store. -/
inductive Store
  | memory (m : Memory)
  | relational (r : Relational)

namespace Store

/-- Do with the store inside what its kind calls for. -/
def delegate {α : Type} (inMemory : Action Memory α) (inTable : Action Relational α) :
    Action Store α := do
  match ← Action.store with
  | .memory m => Action.inside m .memory inMemory
  | .relational r => Action.inside r .relational inTable

/-- What a store of either kind offers. -/
def storage : Storage Store where
  name
    | .memory m => Memory.storage.name m
    | .relational r => Relational.storage.name r
  add code url owner :=
    delegate (Memory.storage.add code url owner) (Relational.storage.add code url owner)
  addBatch urls owner :=
    delegate (Memory.storage.addBatch urls owner) (Relational.storage.addBatch urls owner)
  get code := delegate (Memory.storage.get code) (Relational.storage.get code)
  getAll owner := delegate (Memory.storage.getAll owner) (Relational.storage.getAll owner)
  delete code owner :=
    delegate (Memory.storage.delete code owner) (Relational.storage.delete code owner)
  stats := delegate Memory.storage.stats Relational.storage.stats
  backup := delegate Memory.storage.backup Relational.storage.backup
  ping := delegate Memory.storage.ping Relational.storage.ping

/-- The journal of a store, if it has one. -/
def journal? : Store → Option Journal
  | memory m => m.journal
  | relational _ => none

end Store

end ShortLinks
