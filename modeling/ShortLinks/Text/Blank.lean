/-!
# Blank characters

The Unicode property `White_Space`, and the texts that remain when blank characters are taken
off both ends. Every blank character of ASCII is here; U+200B, U+FEFF and U+001C to U+001F are
not, although some tools count them.
-/

namespace ShortLinks.Text

/-- Decide the property `White_Space`. -/
def isBlank (c : Char) : Bool :=
  let n := c.toNat
  (0x09 ≤ n && n ≤ 0x0D) || n == 0x20 || n == 0x85 || n == 0xA0 || n == 0x1680 ||
    (0x2000 ≤ n && n ≤ 0x200A) || n == 0x2028 || n == 0x2029 || n == 0x202F || n == 0x205F ||
    n == 0x3000

/-- Drop the characters of a kind at both ends. -/
def dropEnds (isEnd : Char → Bool) (cs : List Char) : List Char :=
  ((cs.dropWhile isEnd).reverse.dropWhile isEnd).reverse

/-- Drop the blank characters at both ends. -/
def trimChars (cs : List Char) : List Char := dropEnds isBlank cs

/-- Drop the blank characters at both ends of a text. -/
def trim (s : String) : String := String.ofList (trimChars s.toList)

/-- A list that neither begins nor ends with a blank character is its own trimming. -/
theorem trimChars_eq_self {cs : List Char} (hfirst : ∀ c ∈ cs.head?, isBlank c = false)
    (hlast : ∀ c ∈ cs.getLast?, isBlank c = false) : trimChars cs = cs := by
  have drop {l : List Char} (h : ∀ c ∈ l.head?, isBlank c = false) : l.dropWhile isBlank = l := by
    cases l with
    | nil => rfl
    | cons c r => simp [List.dropWhile, h c (by simp)]
  rw [trimChars, dropEnds, drop hfirst, drop (by simpa using hlast), List.reverse_reverse]

end ShortLinks.Text
