import ShortLinks.Command.Arguments
import ShortLinks.Command.Run

/-!
# The program

A run of the program reads the command line, loads the settings, starts, carries its command out
and shuts down. The store is made safe also after a command that failed; then the fault of the
command is the one that is reported. Writing an example of a settings file needs no store.
-/

namespace ShortLinks

/-- What a run of the program is given. -/
structure Program where
  words : List String
  env : Environment := []
  /-- What the user types when asked. -/
  reply : String := ""
  color : Bool := false
  /-- How many processors there are. -/
  processors : Nat := 1
  /-- What comes of calling servers. -/
  network : Database.Network := .none

namespace Program

/-- How a run ends. -/
inductive Ending
  | done
  | refused (r : Arguments.Refusal)
  | notLoaded (f : Settings.LoadFault)
  | failed (f : CommandFault)
  deriving DecidableEq, Repr

/-- The exit status of a run. -/
def Ending.status : Ending → Nat
  | done => 0
  | refused r => r.status
  | notLoaded _ => 2
  | failed _ => 1

/-- What a run leaves behind. -/
structure Result where
  ending : Ending
  printed : String := ""
  files : FileSystem

/-- The ending of a command. -/
def endingOf : Except CommandFault Unit → Ending
  | .ok () => .done
  | .error fault => .failed fault

/-- What a command leaves behind. -/
def resultOf {σ : Type} (ran : Except CommandFault Unit × Console σ) : Result :=
  ⟨endingOf ran.1, ran.2.printed, ran.2.setting.files⟩

/-- The context of commands in a started program. -/
def contextOf (s : Started) (owner : String) : Context Store :=
  ⟨Store.storage, s.scheme, s.workers, owner⟩

/-- Carry a command out and shut down. -/
def commandThenShutdown (x : Context Store) (command : Command) : Terminal Store Unit := do
  let result ← Terminal.attempt (x.run command)
  let shutdown ← Terminal.outcome Startup.shutdown
  match result, shutdown with
  | .error fault, _ => throw fault
  | .ok (), .error fault => throw (.service fault)
  | .ok (), .ok () => return ()

/-- Start, and go on from there. -/
def started (p : Program) (settings : Settings) (files : FileSystem)
    (next : Started → Terminal Store Unit) : Result :=
  let ((result, _), files) := (Startup.prepare settings p.processors p.network).run files
  match result with
  | .error fault => { ending := .failed (.failed (Startup.failure fault)), files }
  | .ok s => resultOf ((next s).run ⟨⟨s.store, files⟩, p.color, ""⟩)

/-- Carry out what was asked for. -/
def serve (p : Program) (i : Invocation) (settings : Settings) (files : FileSystem) : Result :=
  match i.command with
  | .generateConfig path force =>
    let write := Terminal.writeSample p.processors p.reply path force
    resultOf (write.run ⟨⟨(), files⟩, p.color, ""⟩)
  | command => p.started settings files fun s => commandThenShutdown (contextOf s i.owner) command

/-- Run the program. -/
def run (p : Program) (files : FileSystem) : Result :=
  match Arguments.read p.env p.words with
  | .error refusal => { ending := .refused refusal, files }
  | .ok i =>
    match Settings.load files p.env i.settingsFile with
    | .error fault => { ending := .notLoaded fault, files }
    | .ok settings => p.serve i (settings.override i.overrides) files

/-- What the user is asked in a run, if anything. -/
def question? (p : Program) (files : FileSystem) : Option String :=
  match Arguments.read p.env p.words with
  | .error _ => none
  | .ok i =>
    match i.command, Settings.load files p.env i.settingsFile with
    | .generateConfig path force, .ok _ =>
      let path := path.getD Terminal.samplePath
      if Terminal.isAsked files path force then
        some (String.join (Terminal.question (fun style => style.paint p.color) path))
      else none
    | _, _ => none

/-- Run a command in a program that was started with the default settings, and leave it running:
nothing is made safe. -/
def runWithin (p : Program) (files : FileSystem) : Result :=
  match Arguments.read p.env p.words with
  | .error refusal => { ending := .refused refusal, files }
  | .ok i =>
    p.started (({} : Settings).override i.overrides) files fun s =>
      (contextOf s i.owner).run i.command

end Program

end ShortLinks
