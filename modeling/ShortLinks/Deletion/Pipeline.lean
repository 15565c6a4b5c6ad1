import ShortLinks.Deletion.Report
import ShortLinks.Store

/-!
# The deletion pipeline

Three parties delete a list of codes. A feeder puts the codes one after another into a channel
with one slot. A collector takes them out, starts a deletion for each while fewer than `workers`
are running, and gathers what the deletions answer in whatever order they finish. A token can be
cancelled at any time: the feeder may stop then, and the collector, once it looks at the token,
closes the channel and waits only for what is running.

`State.step` says what each event does and when it can happen; a run is any sequence of events
that can happen. `State.report` reads the report off a state: it is meant for the end, when the
collector has left and the feeder has stopped.
-/

namespace ShortLinks.Deletion

/-- A code at its position in the request. -/
structure Job where
  position : Nat
  code : String
  deriving DecidableEq, Repr

/-- The codes of a request as jobs. -/
def jobs (codes : List String) : List Job :=
  codes.zipIdx.map fun (code, position) => ⟨position, code⟩

/-- A job and what its deletion answered. -/
structure Outcome where
  job : Job
  result : Except Fault Unit

/-- Where the collector stands: before it looks at the token, ready to take what comes, or gone. -/
inductive Phase
  | looking
  | ready
  | gone
  deriving DecidableEq, Repr

/-- A pipeline at work. -/
structure State (σ : Type) where
  /-- What the feeder has still to put in. -/
  waiting : List Job
  /-- The feeder is at work. -/
  feeding : Bool := true
  /-- What is in the channel. -/
  slot : Option Job := none
  /-- The collector takes nothing from the channel any more. -/
  closed : Bool := false
  /-- The collector found the channel empty for good. -/
  drained : Bool := false
  /-- The token is cancelled. -/
  cancelled : Bool := false
  /-- The collector has seen that. -/
  noticed : Bool := false
  /-- Deletions that run, oldest first. -/
  running : List Job := []
  /-- Deletions that have answered. -/
  answered : List Outcome := []
  /-- Answers that the collector has gathered. -/
  gathered : List Outcome := []
  /-- The jobs that were started, in order. -/
  started : List Job := []
  phase : Phase := .looking
  setting : Setting σ

/-- What can happen. -/
inductive Event
  /-- The token is cancelled. -/
  | cancel
  /-- The feeder puts the next job into the channel. -/
  | feed
  /-- The feeder stops. -/
  | quit
  /-- The deletion at this position does its work and answers. -/
  | answer (position : Nat)
  /-- The collector sees that the token is cancelled. -/
  | notice
  /-- The collector sees that the token is not cancelled. -/
  | look
  /-- The collector gathers the answer at this position. -/
  | gather (position : Nat)
  /-- The collector takes a job out of the channel and starts its deletion. -/
  | start
  /-- The collector finds the channel empty for good. -/
  | drain
  /-- The collector leaves. -/
  | leave
  deriving DecidableEq, Repr

namespace State

variable {σ : Type}

/-- How many deletions were started and not gathered. -/
def inFlight (s : State σ) : Nat := s.running.length + s.answered.length

/-- The collector has nothing to wait for. -/
def isDone (s : State σ) : Bool := s.inFlight == 0 && (s.noticed || s.drained)

/-- The collector may take a job out of the channel. -/
def hasRoom (workers : Nat) (s : State σ) : Bool :=
  !s.drained && !s.noticed && s.inFlight < workers

/-- What an event does, if it can happen. -/
def step (storage : Storage σ) (owner : String) (workers : Nat) (s : State σ) :
    Event → Option (State σ)
  | .cancel => if s.cancelled then none else some { s with cancelled := true }
  | .feed =>
    match s.waiting, s.slot with
    | job :: waiting, none =>
      if s.feeding && !s.closed then some { s with waiting, slot := some job } else none
    | _, _ => none
  | .quit =>
    if s.feeding && (s.cancelled || s.closed || s.waiting.isEmpty) then
      some { s with feeding := false }
    else none
  | .answer position => do
    let job ← s.running.find? fun job => job.position == position
    let (result, setting) := (storage.delete job.code owner).run s.setting
    return { s with
      running := s.running.filter fun job => job.position != position
      answered := s.answered ++ [⟨job, result⟩]
      setting }
  | .notice =>
    if s.phase ≠ .gone ∧ s.cancelled ∧ !s.noticed then
      some { s with noticed := true, closed := true, phase := .looking }
    else none
  | .look =>
    if s.phase = .looking ∧ !s.isDone ∧ (!s.cancelled ∨ s.noticed) then
      some { s with phase := .ready }
    else none
  | .gather position => do
    let outcome ← s.answered.find? fun outcome => outcome.job.position == position
    if s.phase = .ready then
      return { s with
        answered := s.answered.filter fun outcome => outcome.job.position != position
        gathered := s.gathered ++ [outcome]
        phase := .looking }
    else none
  | .start => do
    let job ← s.slot
    if s.phase = .ready ∧ s.answered.isEmpty ∧ s.hasRoom workers then
      return { s with
        slot := none
        running := s.running ++ [job]
        started := s.started ++ [job]
        phase := .looking }
    else none
  | .drain =>
    if s.phase = .ready ∧ s.answered.isEmpty ∧ s.hasRoom workers ∧ s.slot.isNone ∧ !s.feeding then
      some { s with drained := true, phase := .looking }
    else none
  | .leave =>
    if s.phase = .looking ∧ s.isDone then some { s with closed := true, phase := .gone } else none

/-- The run is over: the collector has left and the feeder has stopped. -/
def isOver (s : State σ) : Bool := s.phase == .gone && !s.feeding

/-- A pipeline about to begin. -/
def initial (codes : List String) (cancelled : Bool) (setting : Setting σ) : State σ :=
  { waiting := jobs codes, cancelled, setting }

/-- The answers gathered, by position. -/
def outcomes (s : State σ) : List Outcome :=
  s.gathered.mergeSort fun a b => a.job.position ≤ b.job.position

/-- The jobs of a request that were never started. -/
def unstarted (s : State σ) (codes : List String) : List Job :=
  (jobs codes).filter fun job => !s.started.any fun other => other.position == job.position

/-- What became of each code. -/
def report (s : State σ) (codes : List String) : Report where
  deleted := s.outcomes.filterMap fun outcome =>
    if outcome.result.isOk then some outcome.job.code else none
  failed := s.outcomes.filterMap fun outcome => match outcome.result with
    | .ok () => none
    | .error fault => some ⟨outcome.job.code, fault⟩
  skipped := (s.unstarted codes).map Job.code

end State

end ShortLinks.Deletion
