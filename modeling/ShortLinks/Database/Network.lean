import ShortLinks.Database.Server
import ShortLinks.FileSystem
import ShortLinks.Store.Relational
import ShortLinks.Text.Blank

/-!
# Servers

What comes of calling a server is not for the program to say: a server may turn the caller away, or
have no table for it, or be ready. So a network is a parameter, and says it of every server.

On a machine without a network no server is reached. What the system says about that depends on how
the server is named. Numbers are refused at once, by the kind of number, and so are files. Names are
looked up first, which takes its time: this machine knows itself, and what is a name at all might be
known later.
-/

namespace ShortLinks.Database

/-- Why a server is not reached. -/
inductive Unreached
  | networkUnreachable
  | addressUnavailable
  | argumentInvalid
  | lookupFailing
  | nameUnknown
  /-- The path of a file is none that a server can listen at. -/
  | pathRefused (text : String)
  | noFile (error : IoError)
  /-- Nobody listens there yet. It is tried again and again. -/
  | connectionRefused
  deriving DecidableEq, Repr

namespace Unreached

/-- What the system says. -/
def text : Unreached → String
  | networkUnreachable => "Network is unreachable (os error 101)"
  | addressUnavailable => "Cannot assign requested address (os error 99)"
  | argumentInvalid => "Invalid argument (os error 22)"
  | lookupFailing =>
    "failed to lookup address information: Temporary failure in name resolution"
  | nameUnknown => "failed to lookup address information: Name or service not known"
  | pathRefused text => text
  | noFile error => error.text
  | connectionRefused => "Connection refused (os error 111)"

/-- How a number of 128 bits is refused. Those that stand for 32 bits or for many machines belong to
a network, and those for neighbours belong to a device that nobody named. -/
def ofNumber (groups : List Nat) : Unreached :=
  let first := groups.head?.getD 0
  if groups.take 6 = [0, 0, 0, 0, 0, 0xFFFF] || 0xFF00 ≤ first then networkUnreachable
  else if 0xFE80 ≤ first && first < 0xFEC0 then argumentInvalid
  else addressUnavailable

/-- The number that digits spell: octal behind a zero, hexadecimal behind `0x`, else decimal. -/
def looseNumber? (s : String) : Option Nat :=
  let inBase (base : Nat) (cs : List Char) : Option Nat := do
    let digits ← (Text.encode (String.ofList cs)).mapM Text.hexDigit?
    if digits.all fun d => d.toNat < base then
      return digits.foldl (fun n d => base * n + d.toNat) 0
    else none
  match s.toList with
  | [] => none
  | '0' :: x :: rest =>
    if x = 'x' || x = 'X' then if rest.isEmpty then none else inBase 16 rest
    else inBase 8 (x :: rest)
  | cs => inBase 10 cs

/-- A text spells a number of 32 bits, in one to four parts of which the last one can stand for more
than an octet. -/
def isLooseNumber (s : String) : Bool :=
  match (s.splitOn ".").mapM looseNumber? with
  | none => false
  | some parts =>
    match parts.getLast? with
    | none => false
    | some last =>
      parts.length ≤ 4 && parts.dropLast.all (· < 256) &&
        last < Decimal.twoTo (8 * (5 - parts.length))

/-- The names of this machine. -/
def ownNames : List String := ["localhost", "*"]

/-- A part of a name between points. -/
def isLabel (s : String) : Bool :=
  0 < s.utf8ByteSize && s.utf8ByteSize ≤ 63 &&
    s.all fun c => c.isAlphanum || c = '-' || c = '_'

/-- A text could be the name of a machine. A point at its end, or alone, is allowed. -/
def isName (s : String) : Bool :=
  let text := if s.endsWith "." then (s.dropEnd 1).toString else s
  s = "." || ((text.splitOn ".").all isLabel && !s.startsWith "-" && text.utf8ByteSize ≤ 253)

/-- How a name that has to be looked up is refused. -/
def ofName (s : String) : Unreached :=
  if isLooseNumber s || ownNames.contains (Text.lowerAscii s) then networkUnreachable
  else if isName s then lookupFailing
  else nameUnknown

/-- The size from which on the path of a file is too long for a server. -/
def pathBound : Nat := 108

/-- How the file of a server is refused. -/
def ofSocket (fs : FileSystem) (path : String) : Unreached :=
  if path = "" then argumentInvalid
  else if path.startsWith "\x00" then connectionRefused
  else if path.contains '\x00' then pathRefused "paths must not contain interior null bytes"
  else if pathBound ≤ path.utf8ByteSize then pathRefused "path must be shorter than SUN_LEN"
  else
    match fs.find? path with
    | .error error => noFile error
    | .ok _ => connectionRefused

end Unreached

/-- How long it takes to learn that a server is not reached. -/
inductive Delay
  | atOnce
  | soon
  | never
  deriving DecidableEq, Repr

/-- Why a server is not reached, and how long it takes to learn that. -/
def Server.reach (backend : Backend) (server : Server) (fs : FileSystem) : Unreached × Delay :=
  match server.socketPath backend with
  | some path =>
    let unreached := Unreached.ofSocket fs path
    (unreached, if unreached = .connectionRefused then .never else .atOnce)
  | none =>
    let isBracket (c : Char) : Bool := c = '[' || c = ']'
    let host := String.ofList (Text.dropEnds isBracket server.host.toList)
    if (Host.octets? host).isSome then (.networkUnreachable, .atOnce)
    else
      match Host.number? host with
      | some groups => (.ofNumber groups, .atOnce)
      | none =>
        if host.contains '\x00' then (.noFile .nulInName, .soon) else (.ofName host, .soon)

/-- What a server answers to the question whether it is there. -/
inductive Echo
  | answer
  | error (text : String)
  | silence
  deriving DecidableEq, Repr

/-- What comes of calling a server. -/
inductive Contact
  | unreached (why : Unreached) (delay : Delay)
  /-- The server turns the caller away. -/
  | turnedAway (text : String)
  /-- The server lets the caller in and does not make the table. -/
  | noTable (text : String)
  /-- The server lets the caller in and is not done with the table while anyone waits. -/
  | unending
  /-- The server has the table. -/
  | ready (store : Relational) (echo : Echo)

/-- What comes of calling each server. -/
abbrev Network := Backend → Server → FileSystem → Contact

/-- No server is reached. -/
def Network.none : Network := fun backend server fs =>
  let (why, delay) := server.reach backend fs
  .unreached why delay

end ShortLinks.Database
