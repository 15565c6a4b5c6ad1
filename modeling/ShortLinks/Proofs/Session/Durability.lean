import ShortLinks.Proofs.Session.Steps
import ShortLinks.Proofs.Store.Durable

/-!
# What was acknowledged is in the journal

A session on a memory store whose journal is open for appending takes any steps, and any write may
fail. What it answers says how the links change: a step that reports a fault has not changed the
link it was about. After every step the file says exactly what is in memory, so closing at any
moment and opening again loses nothing that was acknowledged and brings nothing else.
-/

namespace ShortLinks.Session

variable {path : String} {m : Memory} {fs fs' : FileSystem} {file : FileId} {s s' : Session}

/-- The steps of a store that goes on. Backups and openings for appending are to succeed, and
everything else may fail. -/
def Undisturbed : Step → Answer → Prop
  | .add .., _ | .addBatch .., _ | .get _, _ | .list _, _ | .delete .., _ | .stats, _ => True
  | .backup, .reply _ | .reopen .append _, .reply _ => True
  | _, _ => False

/-- How a step that was answered so has changed the links. -/
def Acknowledges (before : Owners) : Step → Answer → Owners → Prop
  | .add code url owner, .reply _, after =>
    before.link? owner code = none ∧ after.Same (before.put { code, url, owner })
  | .delete code owner, .reply _, after => ∀ owner' code', after.link? owner' code' =
      if owner' = owner ∧ code' = code then
        (before.link? owner code).map fun link => { link with deleted := true }
      else before.link? owner' code'
  | .addBatch urls owner, answer, after => ∃ known failed,
      answer = .ofResult (fun _ => .done) (Memory.verdict owner known failed) ∧
      (∀ code, code ∈ known ↔ urls.contains code ∧ (before.link? owner code).isSome) ∧
      ∀ owner' code, after.link? owner' code =
        if owner' = owner ∧ before.link? owner code = none ∧ code ∉ failed.map Prod.fst then
          (urls.find? code).map fun url => ⟨url, false⟩
        else before.link? owner' code
  | _, _, after => after.Same before

/-- How steps that were answered so have changed the links, one after another. -/
inductive Acknowledged : Owners → List (Step × Answer) → Owners → Prop
  | nil (links : Owners) : Acknowledged links [] links
  | cons {before next after : Owners} {step : Step} {answer : Answer}
      {later : List (Step × Answer)} (hstep : Acknowledges before step answer next)
      (hlater : Acknowledged next later after) : Acknowledged before ((step, answer) :: later) after

/-- A link is there once its addition is acknowledged, and the links are as before otherwise. -/
theorem acknowledges_add (m : Memory) (fs : FileSystem) (code url owner : String) :
    Acknowledges m.owners (.add code url owner)
      (.ofResult (fun _ => .done) ((Memory.add code url owner).run ⟨m, fs⟩).1)
      ((Memory.add code url owner).run ⟨m, fs⟩).2.store.owners := by
  obtain ⟨-, -, ⟨hok, hfree, howners⟩ | ⟨f, herror, howners, -⟩⟩ :=
    Memory.add_cases m fs code url owner
  · rw [hok, howners]
    exact ⟨hfree, Owners.Same.refl _⟩
  · rw [herror, howners]
    exact Owners.Same.refl _

/-- A tombstone is there once its deletion is acknowledged, and the links are as before
otherwise. -/
theorem acknowledges_delete (m : Memory) (fs : FileSystem) (code owner : String) :
    Acknowledges m.owners (.delete code owner)
      (.ofResult (fun _ => .done) ((Memory.delete code owner).run ⟨m, fs⟩).1)
      ((Memory.delete code owner).run ⟨m, fs⟩).2.store.owners := by
  obtain ⟨-, -, ⟨hok, hlinks⟩ | ⟨f, herror, howners, -⟩⟩ := Memory.delete_cases m fs code owner
  · rw [hok]
    exact hlinks
  · rw [herror, howners]
    exact Owners.Same.refl _

/-- A batch adds those of its links that were not there, but for the ones that it reports as
failed. -/
theorem acknowledges_addBatch (m : Memory) (fs : FileSystem) (urls : Keyed String String)
    (owner : String) :
    Acknowledges m.owners (.addBatch urls owner)
      (.ofResult (fun _ => .done) ((Memory.addBatch urls owner).run ⟨m, fs⟩).1)
      ((Memory.addBatch urls owner).run ⟨m, fs⟩).2.store.owners := by
  rw [Memory.run_addBatch]
  exact ⟨m.known urls owner, _, rfl, fun _ => Memory.mem_known,
    Memory.link?_replay_written (Memory.map_fst_logAll m _ fs)⟩

/-- A session on a durable store. -/
structure Keeps (path : String) (m : Memory) (s : Session) : Prop where
  store : s.setting.store = .memory m
  durable : ∃ file, Memory.Durable path m s.setting.files file

/-- A step keeps the store durable, and its answer says how the links changed. -/
theorem Keeps.step {answer : Answer} (h : Keeps path m s) {st : Step}
    (hstep : (Session.step st).run s = (answer, s')) (hmay : Undisturbed st answer) :
    ∃ m', Keeps path m' s' ∧ Acknowledges m.owners st answer m'.owners := by
  obtain ⟨hstore, file, hdurable⟩ := h
  obtain ⟨scheme, place, ⟨store, fs⟩⟩ := s
  cases hstore
  cases st with
  | add code url owner =>
    rw [Session.step, Store.storage, run_act_memory] at hstep
    cases hstep
    exact ⟨_, ⟨rfl, file, hdurable.add code url owner⟩, acknowledges_add m fs code url owner⟩
  | addBatch urls owner =>
    rw [Session.step, Store.storage, run_act_memory] at hstep
    cases hstep
    exact ⟨_, ⟨rfl, file, hdurable.addBatch urls owner⟩, acknowledges_addBatch m fs urls owner⟩
  | delete code owner =>
    rw [Session.step, Store.storage, run_act_memory] at hstep
    cases hstep
    exact ⟨_, ⟨rfl, file, hdurable.delete code owner⟩, acknowledges_delete m fs code owner⟩
  | get code =>
    rw [Session.step, Store.storage, Memory.storage, run_act_answer] at hstep
    cases hstep
    exact ⟨m, ⟨rfl, file, hdurable⟩, Owners.Same.refl _⟩
  | list owner =>
    rw [Session.step, Store.storage, Memory.storage, run_act_answer] at hstep
    cases hstep
    exact ⟨m, ⟨rfl, file, hdurable⟩, Owners.Same.refl _⟩
  | stats =>
    rw [Session.step, Store.storage, Memory.storage, run_act_answer] at hstep
    cases hstep
    exact ⟨m, ⟨rfl, file, hdurable⟩, Owners.Same.refl _⟩
  | backup =>
    rw [Session.step, Store.storage, run_act_memory] at hstep
    rcases hbackup : Memory.storage.backup.run ⟨m, fs⟩ with ⟨fault | ⟨⟩, m', fs'⟩
    · rw [hbackup] at hstep
      cases hstep
      cases hmay
    · rw [hbackup] at hstep
      cases hstep
      obtain ⟨howners, hdurable'⟩ := hdurable.backup hbackup
      exact ⟨m', ⟨rfl, hdurable'⟩, howners ▸ Owners.Same.refl _⟩
  | reopen mode patience =>
    cases mode with
    | backup => cases hmay
    | append =>
      rw [Session.step, run_reopen_memory _ _ _ _ hdurable.journal, hdurable.run_open] at hstep
      cases hplan : fs.faults fs.performed .openAppend with
      | some e =>
        rw [hplan] at hstep
        cases hstep
        cases hmay
      | none =>
        rw [hplan] at hstep
        cases hstep
        exact ⟨_, ⟨rfl, file, hdurable.reopen⟩, hdurable.links⟩
  | _ => cases hmay

/-- A run keeps the store durable, and its answers say how the links changed. -/
theorem Keeps.run {history : List (Step × Answer)} (h : Keeps path m s)
    (hrun : Leads Undisturbed s history s') :
    ∃ m', Keeps path m' s' ∧ Acknowledged m.owners history m'.owners := by
  induction hrun generalizing m with
  | nil => exact ⟨m, h, .nil _⟩
  | cons hstep hmay _ ih =>
    obtain ⟨next, hnext, hchanged⟩ := h.step hstep hmay
    obtain ⟨last, hlast, hlater⟩ := ih hnext
    exact ⟨last, hlast, .cons hchanged hlater⟩

/-- After any run of a session that began with opening a journal for appending, the links in
memory are those that were acknowledged, the file at the path of the journal is read to its end
and gives the same links, and opening it again, in either mode and whenever it can be opened,
gives them too. -/
theorem acknowledged_in_journal {scheme : Scheme} {place : String} {files : FileSystem}
    {skipped : List Journal.Skipped} {history : List (Step × Answer)}
    (hopen : (Memory.open path .append).run files = ({ result := .ok m, skipped }, fs))
    (hterminated : ∀ file, m.journal = some { path, writer := some file } →
      Text.Terminated (files.bytes file))
    (hrun : Leads Undisturbed ⟨scheme, place, .memory m, fs⟩ history s) :
    ∃ m', s.setting.store = .memory m' ∧ Acknowledged m.owners history m'.owners ∧
      (∃ file, s.setting.files.find? path = .ok (.file file) ∧
        (Journal.read (s.setting.files.bytes file)).complete ∧
        (Owners.replay .empty (Journal.read (s.setting.files.bytes file)).records).Agree
          m'.owners) ∧
      ∀ mode, s.setting.files.faults s.setting.files.performed .openAppend = none →
        ∃ reopened skipped files', (Memory.open path mode).run s.setting.files =
            ({ result := .ok reopened, skipped }, files') ∧
          reopened.owners.Agree m'.owners := by
  obtain ⟨file, hdurable⟩ := Memory.durable_of_open hopen hterminated
  have hkeeps : Keeps path m ⟨scheme, place, .memory m, fs⟩ := ⟨rfl, file, hdurable⟩
  obtain ⟨m', ⟨hstore, file', hdurable'⟩, hacknowledged⟩ := hkeeps.run hrun
  have hagree : (Memory.linksIn s.setting.files file').Agree m'.owners :=
    hdurable'.links.agree (Memory.populated_linksIn _ _) hdurable'.populated
  refine ⟨m', hstore, hacknowledged,
    ⟨file', hdurable'.stands.find?, hdurable'.complete, hagree⟩, fun mode hplan => ?_⟩
  have hreopen := hdurable'.run_open mode
  rw [hplan] at hreopen
  exact ⟨_, _, _, hreopen, hagree⟩

/-- One link is kept, the next cannot be written, and the first is deleted. -/
theorem acknowledged_in_journal_refused : ∃ m skipped fs history s,
    (Memory.open "links" .append).run
        { faults := fun n _ => if n = 2 then some .tooLarge else none } =
      ({ result := .ok m, skipped }, fs) ∧
    history.map Prod.fst =
      [.add "a" "http://a/" "u", .add "b" "http://b/" "u", .delete "a" "u"] ∧
    Leads Undisturbed ⟨.digest, "links", .memory m, fs⟩ history s ∧
    ∃ m', s.setting.store = .memory m' ∧ Acknowledged m.owners history m'.owners ∧
      ∃ file, s.setting.files.find? "links" = .ok (.file file) ∧
        (Journal.read (s.setting.files.bytes file)).complete ∧
        (Owners.replay .empty (Journal.read (s.setting.files.bytes file)).records).Agree
          m'.owners := by
  let files : FileSystem := { faults := fun n _ => if n = 2 then some .tooLarge else none }
  have hok : ((Memory.open "links" .append).run files).1.result.isOk := by decide +kernel
  generalize hopen : (Memory.open "links" .append).run files = ended at hok
  obtain ⟨⟨fault | m, skipped⟩, fs⟩ := ended
  · cases hok
  · have hterminated : ∀ file, m.journal = some { path := "links", writer := some file } →
        Text.Terminated (files.bytes file) := fun _ _ => Text.terminated_nil
    have hrun : Leads Undisturbed ⟨.digest, "links", .memory m, fs⟩ _ _ :=
      .take (.add "a" "http://a/" "u") (fun _ => trivial) <|
      .take (.add "b" "http://b/" "u") (fun _ => trivial) <|
      .take (.delete "a" "u") (fun _ => trivial) <| .nil _
    obtain ⟨m', hstore, hacknowledged, hfile, -⟩ :=
      acknowledged_in_journal hopen hterminated hrun
    exact ⟨m, skipped, fs, _, _, rfl, rfl, hrun, m', hstore, hacknowledged, hfile⟩

end ShortLinks.Session
