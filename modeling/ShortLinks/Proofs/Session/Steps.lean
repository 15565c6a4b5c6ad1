import ShortLinks.Proofs.Run
import ShortLinks.Session

/-!
# Runs of a session

A session takes one step after another. A step that works on the store runs an operation of the
store inside and answers with how it ended; the scheme and the path stay.
-/

namespace ShortLinks

variable {α : Type}

/-- What is asked of a memory store is done with the memory store. -/
theorem Store.run_delegate_memory (inMemory : Action Memory α) (inTable : Action Relational α)
    (m : Memory) (fs : FileSystem) : (delegate inMemory inTable).run ⟨.memory m, fs⟩ =
      ((inMemory.run ⟨m, fs⟩).1,
        ⟨.memory (inMemory.run ⟨m, fs⟩).2.store, (inMemory.run ⟨m, fs⟩).2.files⟩) := by
  rw [delegate, run_bind, Action.run_store]
  exact Action.run_inside m Store.memory inMemory _

/-- What is asked of a relational store is done with the relational store. -/
theorem Store.run_delegate_relational (inMemory : Action Memory α) (inTable : Action Relational α)
    (r : Relational) (fs : FileSystem) : (delegate inMemory inTable).run ⟨.relational r, fs⟩ =
      ((inTable.run ⟨r, fs⟩).1,
        ⟨.relational (inTable.run ⟨r, fs⟩).2.store, (inTable.run ⟨r, fs⟩).2.files⟩) := by
  rw [delegate, run_bind, Action.run_store]
  exact Action.run_inside r Store.relational inTable _

namespace Session

/-- A step that runs an action of the store answers with its result. -/
theorem run_act (x : Action Store α) (reply : α → Reply) (s : Session) :
    (act x reply).run s =
      (.ofResult reply (x.run s.setting).1, { s with setting := (x.run s.setting).2 }) := rfl

/-- A step on a memory store answers with how its operation ended and keeps what it left. -/
theorem run_act_memory (inMemory : Action Memory α) (inTable : Action Relational α)
    (reply : α → Reply) (scheme : Scheme) (path : String) (m : Memory) (fs : FileSystem) :
    (act (Store.delegate inMemory inTable) reply).run ⟨scheme, path, .memory m, fs⟩ =
      (.ofResult reply (inMemory.run ⟨m, fs⟩).1,
        ⟨scheme, path, .memory (inMemory.run ⟨m, fs⟩).2.store,
          (inMemory.run ⟨m, fs⟩).2.files⟩) := by
  rw [run_act, Store.run_delegate_memory]

/-- A step on a memory store that does not answer with a fault had an operation that succeeded. -/
theorem run_act_memory_reply {inMemory : Action Memory α} {inTable : Action Relational α}
    {reply : α → Reply} {scheme : Scheme} {path : String} {m : Memory} {fs : FileSystem} {r : Reply}
    {s' : Session}
    (h : (act (Store.delegate inMemory inTable) reply).run ⟨scheme, path, .memory m, fs⟩ =
      (.reply r, s')) :
    ∃ a m' fs', inMemory.run ⟨m, fs⟩ = (.ok a, ⟨m', fs'⟩) ∧
      s' = ⟨scheme, path, .memory m', fs'⟩ := by
  rw [run_act_memory] at h
  rcases hrun : inMemory.run ⟨m, fs⟩ with ⟨fault | a, m', fs'⟩
  · rw [hrun] at h
    cases h
  · rw [hrun] at h
    cases h
    exact ⟨a, m', fs', rfl, rfl⟩

/-- A question to a memory store changes nothing. -/
theorem run_act_answer (question : Memory → Except Fault α) (inTable : Action Relational α)
    (reply : α → Reply) (scheme : Scheme) (path : String) (m : Memory) (fs : FileSystem) :
    (act (Store.delegate (Action.answer question) inTable) reply).run
        ⟨scheme, path, .memory m, fs⟩ =
      (.ofResult reply (question m), ⟨scheme, path, .memory m, fs⟩) := by
  rw [run_act_memory, Action.run_answer]

/-- Opening a journal again gives the store it says, or leaves the one that is there. -/
theorem run_reopen_memory (mode : JournalMode) (patience : Option Nat) (scheme : Scheme)
    (path : String) {m : Memory} {journal : Journal} (hjournal : m.journal = some journal)
    (fs : FileSystem) : (reopen mode patience).run ⟨scheme, path, .memory m, fs⟩ =
      let opened := (Memory.open journal.path mode).run fs
      match opened.1.result with
      | .ok m' => (.reply (.opened (some opened.1.skipped)), ⟨scheme, path, .memory m', opened.2⟩)
      | .error f =>
        (.notOpened f (some opened.1.skipped), ⟨scheme, path, .memory m, opened.2⟩) := by
  rw [reopen, runState_bind, runState_get]
  simp only [hjournal]
  rcases (Memory.open journal.path mode).run fs with ⟨⟨_ | _, _⟩, _⟩ <;> rfl

/-- A session takes steps, each with an answer that may be. -/
inductive Leads (may : Step → Answer → Prop) : Session → List (Step × Answer) → Session → Prop
  | nil (s : Session) : Leads may s [] s
  | cons {s next last : Session} {step : Step} {answer : Answer} {later : List (Step × Answer)}
      (hstep : (Session.step step).run s = (answer, next)) (hmay : may step answer)
      (hlater : Leads may next later last) : Leads may s ((step, answer) :: later) last

/-- A step that may have any answer can be taken. -/
theorem Leads.take {may : Step → Answer → Prop} {s last : Session} (step : Step)
    {later : List (Step × Answer)} (hmay : ∀ answer, may step answer)
    (hlater : Leads may ((Session.step step).run s).2 later last) :
    Leads may s ((step, ((Session.step step).run s).1) :: later) last :=
  .cons rfl (hmay _) hlater

end Session

end ShortLinks
