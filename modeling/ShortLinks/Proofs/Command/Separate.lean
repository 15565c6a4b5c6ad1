import ShortLinks.Command.Program
import ShortLinks.Proofs.Command.Lockstep
import ShortLinks.Proofs.Store.Twins

/-!
# Separate runs and one session

A program can run once for each command: it opens the journal, carries the command out and writes
the journal anew, also after a command that failed. Or it is started once and carries the commands
out one after another. Its store then keeps the order in which links came, and its journal is not
written anew, but the links are the same, and nothing that is printed tells the difference.

A batch file must not be a file of the journal. The journal is written anew between separate runs,
so a batch that reads it finds other content there than in a session.
-/

namespace ShortLinks

/-- Settings that name no database and a journal. -/
structure Settings.Journaled (settings : Settings) (path : String) : Prop where
  database : Startup.nonblank settings.database.url = none
  journal : Startup.nonblank settings.storage.journalPath = some path

namespace Startup

variable {settings : Settings} {path : String} {processors : Nat} {network : Database.Network}
  {files opened : FileSystem}

/-- A program that starts without a database opens its journal. What servers there are does not
matter. -/
theorem run_prepare (hsettings : settings.Journaled path) (processors : Nat)
    (network : Database.Network) (files : FileSystem) :
    (prepare settings processors network).run files =
      let opened := (Memory.open path settings.storage.journalMode).run files
      ((opened.1.result.map fun m => ⟨.memory m, settings.shortener.scheme,
          max (settings.deletion.workers.getD processors) 1⟩,
        opened.1.skipped.map fun skipped => skipped.warning path), opened.2) := by
  simp only [prepare, createStore, createMemory, hsettings.database, hsettings.journal,
    runState_bind, runState_pure]
  rcases (Memory.open path settings.storage.journalMode).run files with ⟨⟨_ | m, skipped⟩, fs⟩ <;>
    rfl

/-- A program that starts without a database has the store that its journal opens to. -/
theorem run_prepare_ok {s : Started} {warnings : List String}
    (hsettings : settings.Journaled path)
    (h : (prepare settings processors network).run files = ((.ok s, warnings), opened)) :
    ∃ m skipped, (Memory.open path settings.storage.journalMode).run files =
        ({ result := .ok m, skipped }, opened) ∧
      s = ⟨.memory m, settings.shortener.scheme,
        max (settings.deletion.workers.getD processors) 1⟩ := by
  rw [run_prepare hsettings] at h
  rcases hopen : (Memory.open path settings.storage.journalMode).run files
    with ⟨⟨_ | m, skipped⟩, fs⟩
  · rw [hopen] at h
    cases h
  · rw [hopen] at h
    cases h
    exact ⟨m, skipped, rfl, rfl⟩

end Startup

/-- The file of a batch is there, and it is none of the journal at the path. Everything but writing
an example of a settings file works on the store. -/
def Command.Admitted (files : FileSystem) (path : String) : Command → Prop
  | .batch file => ∃ id, files.find? file = .ok (.file id) ∧ id < files.contents.length ∧
      files.find? path ≠ .ok (.file id) ∧ files.find? (path ++ ".tmp") ≠ .ok (.file id)
  | .generateConfig _ _ => False
  | _ => True

namespace Program

/-- Carry a command out in a program that was started, and leave it running. -/
def within (p : Program) (s : Started) (setting : Setting Store) (i : Invocation) :
    Except CommandFault Unit × Console Store :=
  ((contextOf s i.owner).run i.command).run ⟨setting, p.color, ""⟩

variable {p : Program} {settings : Settings} {s : Started} {w : Site} {files : FileSystem}
  {setting : Setting Store} {i : Invocation}

/-- No operation of a store can tell twins apart. -/
theorem blind_twins (w : Site) : Store.storage.Blind (Store.Twins w) where
  name := by
    rintro _ _ ⟨-⟩
    rfl
  add code url owner _ _ h := h.add code url owner
  addBatch urls owner _ _ h := h.addBatch urls owner
  getAll owner _ _ h := h.getAll owner
  delete owner code _ _ h := h.delete code owner
  stats _ _ h := h.stats
  ping _ _ h := h.ping

/-- A file outside the site is read alike. -/
theorem readsAlike_admitted {file : String} (h : (Command.batch file).Admitted w.base w.path) :
    ReadsAlike (Store.Twins w) file := by
  obtain ⟨id, hfind, hlength, hjournal, hscratch⟩ := h
  have hid : ¬w.Owns id := by
    rintro (rfl | hnode | hnew)
    · exact hjournal (FileSystem.find?_of_slot w.slot w.stands)
    · exact hscratch (FileSystem.find?_of_slot w.scratch_slot hnode)
    · exact absurd hlength (Nat.not_lt.2 hnew)
  have hread {fs : FileSystem} (hkept : w.Kept fs) : (Disk.readText file).run fs =
      ((Disk.readText file).run w.base |>.1, fs) := by
    obtain ⟨hfind', hbytes⟩ := hkept.find?_outside hfind hid
    simp only [Disk.readText, Disk.readBytes, run_bind, Disk.run_ask, hfind, hfind', run_get,
      run_pure, hbytes]
    cases Text.decode? (w.base.bytes id) <;> rfl
  rintro _ _ ⟨h⟩
  exact ⟨_, hread h.first.kept, hread h.second.kept⟩

/-- A command prints the same in both and ends alike when the stores of two sessions are twins. -/
theorem within_alike {t : Setting Store} (htwins : Store.Twins w setting t)
    (hadmitted : i.command.Admitted w.base w.path)
    (hone : ∀ code, i.command = .get code → setting.store.OneUrl code) :
    EndsAlike Eq (Console.Alike (Store.Twins w)) (p.within s setting i) (p.within s t i) := by
  have halike : Console.Alike (Store.Twins w) ⟨setting, p.color, ""⟩ ⟨t, p.color, ""⟩ :=
    ⟨rfl, rfl, htwins⟩
  exact Context.run_alike (x := contextOf s i.owner) (blind_twins w) halike i.command
    (fun code hcode => htwins.get (hone code hcode))
    (fun file hfile => readsAlike_admitted (hfile ▸ hadmitted))

/-- Where the journal can be written, a run ends as its command did, with the journal written. -/
theorem run_commandThenShutdown {x : Context Store} {command : Command} {c : Console Store}
    {after : Setting Store}
    (hbackup : Startup.shutdown.run ((x.run command).run c).2.setting = (.ok (), after)) :
    (commandThenShutdown x command).run c =
      (((x.run command).run c).1, { ((x.run command).run c).2 with setting := after }) := by
  have hattempt : (Terminal.attempt (x.run command)).run c =
      (.ok ((x.run command).run c).1, ((x.run command).run c).2) := rfl
  rw [commandThenShutdown, run_bind, hattempt]
  simp only [run_bind, Terminal.run_outcome, hbackup]
  cases ((x.run command).run c).1 <;> rfl

/-- A run that starts and can write the journal at its end does what the command does within the
program that was started. -/
theorem serve_of_prepare {t after : Setting Store} {warnings : List String}
    (hstore : ∀ path force, i.command ≠ .generateConfig path force)
    (hprepare : (Startup.prepare settings p.processors p.network).run files =
      ((.ok { s with store := t.store }, warnings), t.files))
    (hbackup : Startup.shutdown.run (p.within s t i).2.setting = (.ok (), after)) :
    p.serve i settings files =
      ⟨endingOf (p.within s t i).1, (p.within s t i).2.printed, after.files⟩ := by
  have hserve : p.serve i settings files = resultOf
      ((commandThenShutdown (contextOf s i.owner) i.command).run ⟨t, p.color, ""⟩) := by
    cases hcommand : i.command with
    | generateConfig path force => exact absurd hcommand (hstore path force)
    | _ =>
      simp only [Program.serve, hcommand, started, hprepare]
      rfl
  rw [hserve, run_commandThenShutdown hbackup]
  rfl

/-- A program that starts on the files works with the links of the store. -/
def Restarts (p : Program) (settings : Settings) (s : Started) (w : Site) (files : FileSystem)
    (setting : Setting Store) : Prop :=
  ∃ t warnings, (Startup.prepare settings p.processors p.network).run files =
    ((.ok { s with store := t.store }, warnings), t.files) ∧ Store.Twins w setting t

/-- A run of the program does what its command does in a session with the same links, and leaves a
journal from which a program starts again with the links that the session has then. -/
theorem Restarts.serve (h : p.Restarts settings s w files setting)
    (hsettings : settings.Journaled w.path) (hadmitted : i.command.Admitted w.base w.path)
    (hone : ∀ code, i.command = .get code → setting.store.OneUrl code) :
    let separate := p.serve i settings files
    let ran := p.within s setting i
    separate.ending = endingOf ran.1 ∧ separate.printed = ran.2.printed ∧
      p.Restarts settings s w separate.files ran.2.setting ∧
      ∃ m, ran.2.setting.store = .memory m ∧ ∀ mode, ∃ reopened fs,
        (Memory.open w.path mode).run separate.files = ({ result := .ok reopened }, fs) ∧
          reopened.owners.Agree m.owners := by
  obtain ⟨t, warnings, hprepare, htwins⟩ := h
  have hends : EndsAlike Eq (Console.Alike (Store.Twins w)) (p.within s setting i)
      (p.within s t i) := within_alike htwins hadmitted hone
  obtain ⟨m, after, hmemory, hbackup, hreopen⟩ := hends.states_of.stores.backup
  have hstore (path : Option String) (force : Bool) :
      i.command ≠ .generateConfig path force := by
    intro hcommand
    rw [hcommand] at hadmitted
    exact hadmitted
  rw [serve_of_prepare hstore hprepare hbackup]
  refine ⟨congrArg endingOf hends.eq.symm, hends.states_of.printed.symm, ?_, m, hmemory,
    fun mode => ?_⟩
  · obtain ⟨reopened, hopen, -, htwins⟩ := hreopen settings.storage.journalMode
    refine ⟨⟨.memory reopened, after.files.tick⟩, [], ?_, htwins⟩
    obtain ⟨_, _, -, hs⟩ := Startup.run_prepare_ok hsettings hprepare
    rw [Started.mk.injEq] at hs
    rw [Startup.run_prepare hsettings, hopen, hs.2.1, hs.2.2]
    rfl
  · obtain ⟨reopened, hopen, hagree, -⟩ := hreopen mode
    exact ⟨reopened, _, hopen, hagree⟩

/-- A start succeeded, and its store and files pass a test. -/
def startsWith (test : Started → FileSystem → Bool) :
    (Except Fault Started × List String) × FileSystem → Bool
  | ((.ok s, _), files) => test s files
  | _ => false

/-- The lines of a batch, which are no record. -/
def items : String := "[\x7b\"correlation_id\":\"1\",\"original_url\":\"http://x.y\"\x7d]\n"

/-- Resolve a code, add a batch and delete two codes, of which one is unknown. -/
def mixedCalls : List Invocation :=
  [⟨.get "a", "v", none, {}⟩, ⟨.batch "items", "u", none, {}⟩, ⟨.delete ["a", "b"], "u", none, {}⟩]

end Program

end ShortLinks
