import ShortLinks.Code.Base64
import ShortLinks.Code.XxHash
import ShortLinks.Text.Bytes

/-!
# Short codes

A short code is a function of the URL alone. The scheme `base64Tail` keeps the last eight symbols
of the URL in base64, so URLs with a long common end share a code. The scheme `digest` writes the
64-bit digest of the URL in eleven symbols.
-/

namespace ShortLinks

/-- A way to derive the code of a URL. -/
inductive Scheme
  | base64Tail
  | digest
  deriving DecidableEq, Repr, Inhabited

namespace Scheme

/-- The scheme in use where none is named. -/
def standard : Scheme := .base64Tail

/-- The name of a scheme. -/
def name : Scheme → String
  | .base64Tail => "base64-tail"
  | .digest => "digest"

/-- The scheme of a name, spelled exactly. -/
def ofName? (s : String) : Option Scheme :=
  if s = "base64-tail" then some .base64Tail
  else if s = "digest" then some .digest
  else none

/-- The name of a scheme stands for it. -/
theorem ofName?_name (s : Scheme) : ofName? s.name = some s := by cases s <;> decide

/-- How many symbols a tail code has at most. -/
def tailLength : Nat := 8

/-- The last symbols of the octets in base64. -/
def encodeTail (bytes : Bytes) : List Char :=
  ((Code.Base64.encodeOnto [] bytes).take tailLength).reverse

/-- The tail is cut from the end of the whole encoding. -/
theorem encodeTail_eq (bytes : Bytes) :
    encodeTail bytes =
      (Code.Base64.encode bytes).drop ((Code.Base64.encode bytes).length - tailLength) := by
  rw [encodeTail, Code.Base64.encodeOnto_eq, List.append_nil, List.take_reverse,
    List.reverse_reverse]

/-- The digest of the octets in base64. -/
def encodeDigest (bytes : Bytes) : List Char :=
  Code.Base64.encode (Code.XxHash.bigEndian (Code.XxHash.digest bytes))

/-- The code of a URL. -/
def encode (scheme : Scheme) (url : String) : String :=
  match scheme with
  | .base64Tail => String.ofList (encodeTail (Text.encode url))
  | .digest => String.ofList (encodeDigest (Text.encode url))

end Scheme

end ShortLinks
