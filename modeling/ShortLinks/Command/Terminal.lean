import ShortLinks.Store
import ShortLinks.Text.Style

/-!
# The terminal

A command prints as it goes and may stop with a fault. What it printed before stays printed, and
what it did to the store and the files stays done.
-/

namespace ShortLinks

/-- Why a command stops. -/
inductive CommandFault
  | service (fault : Fault)
  | unreadable (message : String)
  | failed (message : String)
  deriving DecidableEq, Repr

namespace CommandFault

/-- One line for a fault. -/
def line : CommandFault → String
  | service fault => fault.line
  | unreadable message => "Parse error: " ++ message
  | failed message => "Command error: " ++ message

/-- A fault as it is shown on a terminal. -/
def banner (color : Bool) : CommandFault → String
  | service fault => fault.banner color
  | unreadable message => (Text.Style.strong .yellow).paint color "Parse error:" ++ " " ++
      (Text.Style.colored .white).paint color message
  | failed message => (Text.Style.strong .red).paint color "Command error:" ++ " " ++
      (Text.Style.colored .white).paint color message

end CommandFault

/-- A store with its files, and what was printed. -/
structure Console (σ : Type) where
  setting : Setting σ
  color : Bool
  printed : String := ""

/-- What a command does. -/
abbrev Terminal (σ α : Type) := ExceptT CommandFault (StateM (Console σ)) α

namespace Terminal

variable {σ α : Type}

/-- Print pieces of text one after another. -/
def print (pieces : List String) : Terminal σ Unit :=
  modify fun console => { console with printed := console.printed ++ String.join pieces }

/-- Print pieces of text and end the line. -/
def printLine (pieces : List String) : Terminal σ Unit := print (pieces ++ ["\n"])

/-- Print one line for each item. -/
def printLines (lineOf : α → List String) : List α → Terminal σ Unit
  | [] => return ()
  | item :: rest => do
    printLine (lineOf item)
    printLines lineOf rest

/-- The painter for a style on this terminal. -/
def painter : Terminal σ (Text.Style → String → String) := do
  let color := (← get).color
  return fun style text => style.paint color text

/-- Go on after a command, and look at how it ended. -/
def attempt (x : Terminal σ α) : Terminal σ (Except CommandFault α) := do
  let (result, console) := x.run (← get)
  set console
  return result

/-- Do something with the store and look at how it ended. -/
def outcome (x : Action σ α) : Terminal σ (Except Fault α) := do
  let console ← get
  let (result, setting) := x.run console.setting
  set { console with setting }
  return result

/-- Do something with the store. -/
def onStore (x : Action σ α) : Terminal σ α := do
  match ← outcome x with
  | .ok a => return a
  | .error fault => throw (.service fault)

/-- Work on the files. An error ends the command in the given words. -/
def onFiles (x : Disk α) (message : IoError → String) : Terminal σ α := do
  match ← outcome (Action.outcomeOnFiles x.run) with
  | .ok (.ok a) => return a
  | .ok (.error e) => throw (.failed (message e))
  | .error fault => throw (.service fault)

end Terminal

end ShortLinks
