import ShortLinks.Json.Lexeme

/-!
# Values nobody asked for

The value of a member that a reader does not know is passed over. It must be JSON, but it may be
nested to any depth and its numbers may be of any size. The brackets still open are kept in a list,
innermost first, so that depth costs no recursion.
-/

namespace ShortLinks.Json

/-- A bracket that is open. -/
inductive Bracket
  | list
  | object
  deriving DecidableEq, Repr

/-- What the text has to go on with. -/
inductive Expect
  | value
  | member
  | after
  deriving DecidableEq, Repr

/-- Pass over a value that is no bracket. -/
def skipScalar (cs : List Char) : Except Finding (List Char) :=
  match cs with
  | 'n' :: _ => dropWord "null" cs
  | 't' :: _ => dropWord "true" cs
  | 'f' :: _ => dropWord "false" cs
  | '"' :: rest => skipBody rest
  | _ =>
    match scanNumber cs with
    | .ok (_, rest) => .ok rest
    | .error stop => .error (badNumber false cs stop)

/-- Pass over the name of a member and the colon behind it. -/
def skipName (cs : List Char) : Except Finding (List Char) :=
  match skipSpace cs with
  | '"' :: rest => do readColon (← skipBody rest)
  | rest => .error (.missing .endInObject .nameNoText rest)

/-- Pass over the rest of a value, given what it has to go on with and the brackets open. Each step
takes something off the text or goes from one expectation to the next, so twice the length of the
text is enough fuel. -/
def skipFrom : Nat → Expect → List Bracket → List Char → Except Finding (List Char)
  | 0, _, _, _ => .error .spent
  | fuel + 1, .value, opened, cs =>
    match skipSpace cs with
    | '[' :: rest =>
      match skipSpace rest with
      | ']' :: rest => skipFrom fuel .after opened rest
      | [] => .error (.here .endInList [])
      | rest => skipFrom fuel .value (.list :: opened) rest
    | '\x7b' :: rest =>
      match skipSpace rest with
      | '\x7d' :: rest => skipFrom fuel .after opened rest
      | rest => skipFrom fuel .member (.object :: opened) rest
    | cs => do skipFrom fuel .after opened (← skipScalar cs)
  | fuel + 1, .member, opened, cs => do skipFrom fuel .value opened (← skipName cs)
  | _ + 1, .after, [], cs => .ok cs
  | fuel + 1, .after, .list :: opened, cs =>
    match skipSpace cs with
    | ',' :: rest => skipFrom fuel .value (.list :: opened) rest
    | ']' :: rest => skipFrom fuel .after opened rest
    | rest => .error (.missing .endInList .noListComma rest)
  | fuel + 1, .after, .object :: opened, cs =>
    match skipSpace cs with
    | ',' :: rest => skipFrom fuel .member (.object :: opened) rest
    | '\x7d' :: rest => skipFrom fuel .after opened rest
    | rest => .error (.missing .endInObject .noObjectComma rest)

/-- Pass over one value. -/
def skipValue (cs : List Char) : Except Finding (List Char) :=
  skipFrom (2 * cs.length + 2) .value [] cs

end ShortLinks.Json
