import ShortLinks.Store.Memory

/-!
# Clients at once

Many clients call one memory store. A lock guards its links: one client holds it for writing, or any
number of them for reading. Whoever adds or deletes holds it for writing from before it looks at the
links until they are changed, with the writing of its records in between. A backup holds it for
reading until the journal is written anew. The journal has a lock of its own, which is taken behind
the first one, for one record at a time or for all the work of a backup.

`Call.work` says what a call does next, and `Clients.Moves` what can happen when clients are anywhere
in their calls. Nothing says whose turn it is: the lock is given to any client that may have it.
-/

namespace ShortLinks.Memory

/-- What a client asks of the store. -/
inductive Call
  | add (code url owner : String)
  | addBatch (urls : Keyed String String) (owner : String)
  | delete (code owner : String)
  | backup

/-- How far a call is. -/
inductive Stage
  /-- It has the lock and has not looked at anything. -/
  | entered
  /-- It has seen that these codes are taken. Its records are to be logged, and those before `rest`
  have been, or could not be. -/
  | logging (known : List String) (outcomes : List (Record × Except Fault Unit))
    (rest : List Record)
  /-- It has collected the records of all links. -/
  | collected (records : List Record)
  /-- It has the journal for itself, too. -/
  | holding (records : List Record)
  /-- It has put a new file in the place of the journal. -/
  | renewed
  /-- It knows how it ends. -/
  | ended (result : Except Fault Unit)

namespace Stage

/-- The next thing to do needs the journal, which another call may have for itself. -/
def needsJournal : Stage → Bool
  | logging _ _ (_ :: _) | collected _ => true
  | _ => false

/-- The call has the journal for itself. -/
def hasJournal : Stage → Bool
  | holding _ | renewed => true
  | _ => false

/-- How the call ends, if that is known. -/
def result? : Stage → Option (Except Fault Unit)
  | ended result => some result
  | _ => none

end Stage

namespace Call

/-- What a call does where no other one is there. -/
def alone : Call → Action Memory Unit
  | add code url owner => Memory.add code url owner
  | addBatch urls owner => Memory.addBatch urls owner
  | delete code owner => Memory.delete code owner
  | backup => Memory.backup

/-- The call leaves the links as they are, and the lock is taken for reading. -/
def isReading : Call → Bool
  | backup => true
  | _ => false

/-- What a call sees in the store: it is over, or there is something to write. -/
def look (m : Memory) : Call → Stage
  | add code url owner =>
    if (m.owners.link? owner code).isSome then
      .ended (.error
        ⟨.conflict, "short code " ++ code ++ " already exists for owner " ++ owner⟩)
    else .logging [] [] [{ code, url, owner }]
  | addBatch urls owner => .logging (m.known urls owner) [] (m.fresh urls owner)
  | delete code owner =>
    match m.owners.link? owner code with
    | none => .ended (.ok ())
    | some link =>
      if link.deleted then .ended (.ok ())
      else .logging [] [] [{ code, url := link.url, owner, deleted := true }]
  | backup => if m.journal.isSome then .collected m.owners.snapshot else .ended (.ok ())

/-- How a call ends whose records have all been logged, or could not be. -/
def conclude (known : List String) (outcomes : List (Record × Except Fault Unit)) :
    Call → Except Fault Unit
  | addBatch _ owner => verdict owner known (failures outcomes)
  | _ => (outcomes.head?.map Prod.snd).getD (.ok ())

/-- What a call does next. -/
def work (call : Call) (s : Setting Memory) : Stage → Stage × Setting Memory
  | .entered => (call.look s.store, s)
  | .logging known outcomes (r :: rest) =>
    let (outcome, files) := (s.store.log r).run s.files
    (.logging known (outcomes ++ [(r, outcome)]) rest, { s with files })
  | .logging known outcomes [] =>
    (.ended (call.conclude known outcomes),
      { s with store.owners := s.store.owners.replay (written outcomes) })
  | .collected records => (.holding records, s)
  | .holding records =>
    match s.store.journal with
    | none => (.ended (.ok ()), s)
    | some journal =>
      match (journal.renew records).run s.files with
      | (.ok _, files) => (.renewed, { s with files })
      | (.error fault, files) => (.ended (.error fault), { s with files })
  | .renewed =>
    match s.store.journal with
    | none => (.ended (.ok ()), s)
    | some journal =>
      match journal.takeUp.run s.files with
      | (.ok journal, files) => (.ended (.ok ()), ⟨{ s.store with journal := some journal }, files⟩)
      | (.error fault, files) => (.ended (.error fault), { s with files })
  | .ended result => (.ended result, s)

end Call

/-- Who holds the lock of the links. -/
inductive Lock
  | reading (holders : List Nat)
  | writing (holder : Nat)
  deriving DecidableEq

/-- The clients that hold a lock. -/
def Lock.holders : Lock → List Nat
  | reading holders => holders
  | writing holder => [holder]

/-- Nobody holds the lock for writing. -/
def Lock.isReading : Lock → Bool
  | reading _ => true
  | writing _ => false

/-- The lock when a client that held it has let go of it. -/
def Lock.without (i : Nat) : Lock → Lock
  | reading holders => reading (holders.erase i)
  | writing _ => reading []

/-- A client of a store. -/
structure Client where
  /-- The call for which it holds the lock, and how far this is. -/
  current : Option (Call × Stage) := none
  /-- The calls that are over, and how they ended. -/
  answers : List (Call × Except Fault Unit) := []

/-- The clients of one store. -/
structure Clients where
  setting : Setting Memory
  lock : Lock := .reading []
  /-- Who has the journal for itself. -/
  journal : Option Nat := none
  client : Nat → Client := fun _ => {}
  /-- The calls in the order in which they took the lock. -/
  entered : List (Nat × Call) := []

namespace Clients

/-- A client is somewhere else in its calls. -/
def set (s : Clients) (i : Nat) (c : Client) : Clients :=
  { s with client := fun j => if j = i then c else s.client j }

/-- A client takes the lock for a call. -/
def enter (s : Clients) (i : Nat) (call : Call) (lock : Lock) : Clients :=
  { s.set i { s.client i with current := some (call, .entered) } with
    lock, entered := s.entered ++ [(i, call)] }

/-- A client does what its call does next. -/
def work (s : Clients) (i : Nat) (call : Call) (stage : Stage) : Clients :=
  let worked := call.work s.setting stage
  { s.set i { s.client i with current := some (call, worked.1) } with
    setting := worked.2
    journal :=
      if worked.1.hasJournal then some i else if stage.hasJournal then none else s.journal }

/-- A client lets go of the lock, and its call is over. -/
def leave (s : Clients) (i : Nat) (call : Call) (result : Except Fault Unit) : Clients :=
  { s.set i { answers := (s.client i).answers ++ [(call, result)] } with
    lock := s.lock.without i }

/-- What can happen. -/
inductive Moves : Clients → Clients → Prop
  /-- A client that is in no call takes the lock for reading, unless another holds it for writing. -/
  | read {s : Clients} {i : Nat} {call : Call} {holders : List Nat}
      (hidle : (s.client i).current = none) (hcall : call.isReading)
      (hlock : s.lock = .reading holders) : Moves s (s.enter i call (.reading (holders ++ [i])))
  /-- A client that is in no call takes the lock for writing, unless another holds it. -/
  | write {s : Clients} {i : Nat} {call : Call} (hidle : (s.client i).current = none)
      (hcall : ¬call.isReading) (hlock : s.lock = .reading []) :
      Moves s (s.enter i call (.writing i))
  /-- A client does what is next, unless it needs the journal and another has it for itself. -/
  | work {s : Clients} {i : Nat} {call : Call} {stage : Stage}
      (hcurrent : (s.client i).current = some (call, stage)) (hgoing : stage.result? = none)
      (hjournal : stage.needsJournal → s.journal = none) : Moves s (s.work i call stage)
  /-- A client whose call has ended lets go of the lock. -/
  | leave {s : Clients} {i : Nat} {call : Call} {result : Except Fault Unit}
      (hcurrent : (s.client i).current = some (call, .ended result)) :
      Moves s (s.leave i call result)

/-- What can happen one after another. -/
inductive Runs (start : Clients) : Clients → Prop
  | refl : Runs start start
  | tail {s s' : Clients} (hrun : Runs start s) (hmove : Moves s s') : Runs start s'

/-- No client is in a call. -/
def atRest (setting : Setting Memory) : Clients := { setting }

end Clients

end ShortLinks.Memory
