import ShortLinks.Text.Mark
import ShortLinks.Text.Unassigned

/-!
# Texts quoted in diagnostics

A diagnostic shows a text between double quotes, with everything that cannot be seen written as an
escape: the usual letters for tab, line feed, return and NUL, and the code point in braces for
other controls, formats, private characters, separators other than the space, fillers, marks, and
code points without a character.
-/

namespace ShortLinks.Text

/-- Controls, formats, private characters, and separators other than the space: the Unicode
categories `Cc`, `Cf`, `Co`, `Zl`, `Zp` and `Zs`. The fillers of the Hangul script are letters
without a shape, and stand here too. -/
def unseenRanges : List (Nat × Nat) :=
  [(0x0, 0x1F), (0x7F, 0xA0), (0xAD, 0xAD), (0x600, 0x605), (0x61C, 0x61C), (0x6DD, 0x6DD),
   (0x70F, 0x70F), (0x890, 0x891), (0x8E2, 0x8E2), (0x115F, 0x1160), (0x1680, 0x1680),
   (0x180E, 0x180E), (0x2000, 0x200F), (0x2028, 0x202F), (0x205F, 0x2064), (0x2066, 0x206F),
   (0x3000, 0x3000), (0x3164, 0x3164), (0xE000, 0xF8FF), (0xFEFF, 0xFEFF), (0xFFA0, 0xFFA0),
   (0xFFF9, 0xFFFB), (0x110BD, 0x110BD), (0x110CD, 0x110CD), (0x13430, 0x1343F),
   (0x1BCA0, 0x1BCA3), (0x1D173, 0x1D17A), (0xE0001, 0xE0001), (0xE0020, 0xE007F),
   (0xF0000, 0xFFFFD), (0x100000, 0x10FFFD)]

/-- Decide whether a character needs an escape to be seen. -/
def isHidden (c : Char) : Bool :=
  (unseenRanges.any fun (low, high) => low ≤ c.toNat && c.toNat ≤ high) ||
    (0x80 ≤ c.toNat && (isMark c || isUnassigned c))

/-- One character as a diagnostic shows it. -/
def visibleChar (c : Char) : List Char :=
  if c = '"' then ['\\', '"']
  else if c = '\\' then ['\\', '\\']
  else if c = '\n' then ['\\', 'n']
  else if c = '\r' then ['\\', 'r']
  else if c = '\t' then ['\\', 't']
  else if c = '\x00' then ['\\', '0']
  else if isHidden c then ['\\', 'u', '\x7b'] ++ Nat.toDigits 16 c.toNat ++ ['\x7d']
  else [c]

/-- A text as a diagnostic shows it, between double quotes. -/
def visible (s : String) : String := String.ofList ('"' :: s.toList.flatMap visibleChar ++ ['"'])

end ShortLinks.Text
