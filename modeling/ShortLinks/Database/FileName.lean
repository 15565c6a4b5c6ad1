import ShortLinks.Decimal.Text
import ShortLinks.Text.Case
import ShortLinks.Text.Percent

/-!
# Names of database files

The engine is given a name and some rights. A name with the scheme `file:` is percent-encoded and
can hold parameters, which may restrict the rights, name another way to the files of the system, or
say what else uses the file. Any other name is a path as it stands.

In such a name an octet 0 ends the part that it stands in, a hash sign ends the whole name, and only
this machine may stand as authority.
-/

namespace ShortLinks.Database

/-- What the engine may do with a file. -/
inductive Right
  | read
  | write
  | create
  deriving DecidableEq, Repr

/-- How high a right stands among the others. -/
def Right.level : Right → Nat
  | read => 1
  | write => 2
  | create => 6

/-- The rights that an opening has: none is left where a parameter asks for memory alone. -/
structure Rights where
  right : Option Right := some .create
  inMemory : Bool := false
  deriving DecidableEq, Repr

/-- What the engine does not do. -/
structure EngineError where
  code : Nat
  text : String
  deriving DecidableEq, Repr

/-- The ways to the files of the system that the engine knows. -/
inductive AccessWay
  /-- With locks, and with a log of changes that readers share. -/
  | shared
  /-- With no locks, and without such a log. -/
  | plain
  /-- With a name beside that of the file as lock, and without such a log. -/
  | marked
  /-- Not to files at all. -/
  | memory
  deriving DecidableEq, Repr

/-- The way that a name stands for. -/
def AccessWay.ofName? : String → Option AccessWay
  | "unix" | "unix-excl" => some .shared
  | "unix-none" => some .plain
  | "unix-dotfile" => some .marked
  | "memdb" => some .memory
  | _ => none

/-- What a name of a database file says. -/
structure FileName where
  path : String
  rights : Rights
  way : AccessWay := .shared
  /-- Nobody else changes the file. -/
  immutable : Bool := false
  /-- Nobody else uses the file. -/
  unlocked : Bool := false
  /-- The path of a file whose permissions the database file gets. -/
  modelPath : Option String := none
  deriving DecidableEq, Repr

namespace FileName

/-- The hash sign, at which a name ends. -/
def hash : UInt8 := 35

/-- Read one part of a name up to a mark, which is not taken. -/
def part (isMark : UInt8 → Bool) : Bytes → Bytes × Bytes
  | [] => ([], [])
  | 37 :: a :: b :: rest =>
    match Text.hexDigit? a, Text.hexDigit? b with
    | some high, some low =>
      if high * 16 + low = 0 then ([], rest.dropWhile fun c => c != hash && !isMark c)
      else
        let (text, after) := part isMark rest
        ((high * 16 + low) :: text, after)
    | _, _ =>
      let (text, after) := part isMark (a :: b :: rest)
      (37 :: text, after)
  | c :: rest =>
    if c = hash || isMark c then ([], c :: rest)
    else
      let (text, after) := part isMark rest
      (c :: text, after)

/-- Leave out what stands up to the next ampersand. -/
def nextParameter (bytes : Bytes) : Bytes :=
  match bytes.dropWhile fun c => c != hash && c != 38 with
  | 38 :: rest => rest
  | rest => rest

/-- Read parameters. Those without a name count for nothing. Each one is shorter than the text, so
its length is enough fuel. -/
def parameters : Nat → Bytes → List (Bytes × Bytes)
  | 0, _ => []
  | fuel + 1, bytes =>
    match part (fun c => c == 38 || c == 61) bytes with
    | (name, 38 :: rest) =>
      (if name.isEmpty then [] else [(name, [])]) ++ parameters fuel rest
    | (name, 61 :: rest) =>
      if name.isEmpty then parameters fuel (nextParameter rest)
      else
        match part (· == 38) rest with
        | (value, 38 :: rest) => (name, value) :: parameters fuel rest
        | (value, _) => [(name, value)]
    | (name, _) => if name.isEmpty then [] else [(name, [])]

/-- The only machine that may be named as authority. -/
def thisMachine : String := "localhost"

/-- Take the authority off the front of a name, behind its scheme. -/
def dropAuthority (bytes : Bytes) : Except EngineError Bytes :=
  match bytes with
  | 47 :: 47 :: rest =>
    let authority := Text.decodeLossy (rest.takeWhile (· != 47))
    if authority = "" ∨ authority = thisMachine then .ok (rest.dropWhile (· != 47))
    else .error ⟨1, "invalid uri authority: " ++ authority⟩
  | bytes => .ok bytes

/-- The right that a mode gives. -/
def rightOf? : String → Option (Option Right)
  | "ro" => some (some .read)
  | "rw" => some (some .write)
  | "rwc" => some (some .create)
  | "memory" => some none
  | _ => none

/-- Ask for a mode. It must not give more than the rights so far, unless these include memory. -/
def setMode (rights : Rights) (value : String) : Except EngineError Rights :=
  match rightOf? value with
  | none => .error ⟨1, "no such access mode: " ++ value⟩
  | some right =>
    let level (right : Option Right) : Nat := (right.map Right.level).getD 0
    if !rights.inMemory && level rights.right < level right then
      .error ⟨3, "access mode not allowed: " ++ value⟩
    else .ok { right, inMemory := right.isNone }

/-- Take the parameters about rights into account, in order. -/
def setRights (rights : Rights) : List (String × String) → Except EngineError Rights
  | [] => .ok rights
  | (name, value) :: rest => do
    if name = "mode" then setRights (← setMode rights value) rest
    else if name = "cache" ∧ value ≠ "shared" ∧ value ≠ "private" then
      throw ⟨1, "no such cache mode: " ++ value⟩
    else setRights rights rest

/-- A number that means yes, if it is not a multiple of 256. Longer numbers than those of 31 bits
count as zero. -/
def isNumberYes (digits : List Char) : Bool :=
  let n := Decimal.ofDigits digits
  n < Decimal.twoTo 31 && n % 256 != 0

/-- The parameter with a name is set to something that means yes. The first one counts. -/
def isSet (name : String) (parameters : List (String × String)) : Bool :=
  match parameters.find? fun p => p.1 == name with
  | none => false
  | some (_, value) =>
    let digits := value.toList.takeWhile Char.isDigit
    if digits.isEmpty then ["on", "yes", "true"].contains (Text.lowerAscii value)
    else isNumberYes digits

/-- The way that the parameters name last. -/
def wayOf (parameters : List (String × String)) : Except EngineError AccessWay :=
  match parameters.reverse.find? fun p => p.1 == "vfs" with
  | none => .ok .shared
  | some (_, name) =>
    match AccessWay.ofName? name with
    | some way => .ok way
    | none => .error ⟨1, "no such vfs: " ++ name⟩

/-- Read the name of a database file that is to be opened with some rights. -/
def read (rights : Rights) (name : String) : Except EngineError FileName := do
  if !name.startsWith "file:" then return { path := name, rights }
  let bytes ← dropAuthority ((Text.encode name).drop 5)
  let (path, rest) := part (· == 63) bytes
  let parameters := match rest with
    | 63 :: rest => (parameters rest.length.succ rest).map fun (name, value) =>
      (Text.decodeLossy name, Text.decodeLossy value)
    | _ => []
  let rights ← setRights rights parameters
  let way ← wayOf parameters
  return { path := Text.decodeLossy path, rights, way, immutable := isSet "immutable" parameters,
           unlocked := isSet "nolock" parameters, modelPath := parameters.lookup "modeof" }

/-- The database lies in memory: it has no file. -/
def isInMemory (n : FileName) : Bool :=
  n.rights.inMemory || n.way = .memory || n.path = "" || n.path = ":memory:"

/-- The database can only be read. In memory, only another way to the files makes it immutable. -/
def isReadOnly (n : FileName) : Bool :=
  n.rights.right = some .read ||
    (n.immutable && (!n.isInMemory || (n.way = .memory && n.path != "" && n.path != ":memory:" &&
      !n.rights.inMemory)))

/-- A name beside that of the file is its lock. -/
def hasMark (n : FileName) : Bool := n.way = .marked && !n.unlocked && !n.immutable

/-- Changes go to a log of their own that readers share. -/
def hasLog (n : FileName) : Bool := n.way = .shared && !n.unlocked && !n.immutable

end FileName

end ShortLinks.Database
