import ShortLinks.Settings

/-!
# Commands

What a user can ask for on the command line, and the values that go with every command.
-/

namespace ShortLinks

/-- A command with its operands. -/
inductive Command
  | add (url : String)
  | batch (path : String)
  | get (code : String)
  | list
  | delete (codes : List String)
  | stats
  | ping
  | generateConfig (path : Option String) (force : Bool)
  deriving DecidableEq, Repr

/-- A command line that was understood. -/
structure Invocation where
  command : Command
  owner : String
  settingsFile : Option String := none
  overrides : Settings.Overrides := {}
  deriving DecidableEq, Repr

end ShortLinks
