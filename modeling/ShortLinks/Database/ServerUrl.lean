import ShortLinks.Database.Host

/-!
# URLs of servers

Behind its scheme, the URL of a server names a machine, with a user and a password before it and a
port behind it, then a path, and then names with values behind a question mark. Tabs and ends of
lines count for nothing, nor do controls and spaces at the end, nor what stands behind a hash sign.
-/

namespace ShortLinks.Database

/-- The URL of a server. Its texts are percent-encoded. -/
structure ServerUrl where
  user : String := ""
  password : Option String := none
  host : Host
  port : Option Nat := none
  /-- The path, without slashes at its beginning. -/
  path : String := ""
  query : String := ""
  deriving DecidableEq, Repr

namespace ServerUrl

/-- The text of a URL behind its scheme and two slashes, without what counts for nothing. -/
def body (url : String) : List Char :=
  let cs := (url.toList.reverse.dropWhile fun c => c.toNat ≤ 0x20).reverse
  let cs := cs.filter fun c => c != '\t' && c != '\n' && c != '\r'
  (cs.dropWhile (· != ':')).drop 3

/-- A mark that ends the part with the machine. -/
def endsAuthority (c : Char) : Bool := c = '/' || c = '?' || c = '#'

/-- A text up to its last at sign, if it has one, and the rest behind that. -/
def splitUser (cs : List Char) : Option (List Char) × List Char :=
  match cs.reverse.span (· != '@') with
  | (host, _ :: user) => (some user.reverse, host.reverse)
  | (_, []) => (none, cs)

/-- The number of a port, or nothing where no digits stand, and what stands behind it. -/
def port? (cs : List Char) : Option (Option Nat × List Char) :=
  let (digits, rest) := cs.span Char.isDigit
  let ends := match rest.head? with
    | none => true
    | some c => endsAuthority c || c = '\\'
  if !ends then none
  else if digits.isEmpty then some (none, rest)
  else
    let number := (Decimal.count (Decimal.twoTo 16) (String.ofList digits)).toOption
    number.map fun n => (some n, rest)

/-- The text up to the end of a host: the first colon that no bracket encloses, or a mark that ends
the part with the machine. -/
def hostLength (enclosed : Bool) : List Char → Nat
  | [] => 0
  | c :: rest =>
    if endsAuthority c || (c = ':' && !enclosed) then 0
    else hostLength (if c = '[' then true else if c = ']' then false else enclosed) rest + 1

/-- The host and the port at the beginning of a text, and the rest. -/
def machine? (cs : List Char) : Option (Host × Option Nat × List Char) := do
  let n := hostLength false cs
  let host ← Host.read? (cs.take n)
  match cs.drop n with
  | ':' :: rest =>
    if n = 0 then none
    else
      let (port, rest) ← port? rest
      return (host, port, rest)
  | rest => return (host, none, rest)

/-- Words for a step to the same place in a path, in lower case. -/
def stays : List String := [".", "%2e"]

/-- Words for a step back in a path, in lower case. -/
def goesBack : List String := ["..", ".%2e", "%2e.", "%2e%2e"]

/-- Take the steps of a path. The places so far stand in reverse, and a path that ends in a step to
the same place or back ends in a slash. -/
def walk (done : List String) : List String → List String
  | [] => done.reverse
  | step :: rest =>
    let word := Text.lowerAscii step
    let ending := if rest.isEmpty then [""] else []
    if goesBack.contains word then walk (ending ++ done.drop 1) rest
    else if stays.contains word then walk (ending ++ done) rest
    else walk (step :: done) rest

/-- The path in a text that stands behind a machine, without slashes at its beginning. -/
def pathOf (cs : List Char) : String :=
  let steps := match cs with
    | '/' :: rest => rest.splitOn '/'
    | cs => cs.splitOn '/'
  String.ofList (("/".intercalate (walk [] (steps.map String.ofList))).toList.dropWhile (· = '/'))

/-- The user and the password in the part before a machine. An empty password is none. -/
def userOf (cs : List Char) : String × Option String :=
  let (user, password) := Text.splitFirst ':' cs
  (String.ofList user, (password.filter fun p => !p.isEmpty).map String.ofList)

/-- Read the URL of a server. Where a user or a password stands, or an at sign before more of the
URL, the machine must have a name. -/
def read? (url : String) : Option ServerUrl := do
  let cs := body url
  let (authority, rest) := cs.span fun c => !endsAuthority c
  let (login, place) := splitUser authority
  let (user, password) := userOf (login.getD [])
  let (host, port, beyond) ← machine? (place ++ rest)
  let needsName := user != "" || password.isSome || (login = some [] && !rest.isEmpty)
  if needsName && host = .named "" then none
  else
    let (path, behind) := beyond.span fun c => c != '?' && c != '#'
    let query := match behind with
      | '?' :: query => query.takeWhile (· != '#')
      | _ => []
    return { user, password, host, port, path := pathOf path, query := String.ofList query }

end ServerUrl

end ShortLinks.Database
