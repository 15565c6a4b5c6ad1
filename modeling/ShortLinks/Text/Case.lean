/-!
# Lower case

Two rules. `lowerAscii` changes the letters A to Z only. `lower` follows the full mapping as far
as it meets ASCII letters: besides A to Z, the Kelvin sign becomes `k` and the dotted capital I
becomes `i` with a combining dot. No other letter has an ASCII letter in its lower case, so a
search for an ASCII text finds the same places in `lower s` as in the full mapping of `s`.
-/

namespace ShortLinks.Text

/-- Lower the letters A to Z. -/
def lowerAscii (s : String) : String := s.map Char.toLower

/-- The lower case of one character, as far as it meets ASCII. -/
def lowerChar (c : Char) : List Char :=
  if c = '\u212A' then ['k']
  else if c = '\u0130' then ['i', '\u0307']
  else [c.toLower]

/-- The lower case of a text, as far as it meets ASCII. -/
def lower (s : String) : String := String.ofList (s.toList.flatMap lowerChar)

/-- Decide whether `part` occurs in `whole`, both as lists of characters. -/
def occursIn (part : List Char) : List Char → Bool
  | [] => part.isEmpty
  | c :: rest => part.isPrefixOf (c :: rest) || occursIn part rest

end ShortLinks.Text
