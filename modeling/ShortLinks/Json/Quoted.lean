/-!
# Writing quoted texts

A text goes between double quotes. The quote, the backslash and the controls are written as
escapes, five controls by a letter and the others by four hexadecimal digits; every other
character stands for itself. So a written text holds no control at all, and in particular no end
of line.
-/

namespace ShortLinks.Json

/-- The hexadecimal digit of a number below 16, in lower case. -/
def hexDigit (n : Nat) : Char := if n < 10 then Char.ofNat (48 + n) else Char.ofNat (87 + n)

/-- One character inside quotes. -/
def escapeChar (c : Char) : List Char :=
  if c = '"' then ['\\', '"']
  else if c = '\\' then ['\\', '\\']
  else if c = '\x08' then ['\\', 'b']
  else if c = '\x0c' then ['\\', 'f']
  else if c = '\n' then ['\\', 'n']
  else if c = '\r' then ['\\', 'r']
  else if c = '\t' then ['\\', 't']
  else if c.toNat < 0x20 then
    ['\\', 'u', '0', '0', hexDigit (c.toNat / 16), hexDigit (c.toNat % 16)]
  else [c]

/-- The characters of a text inside quotes. -/
def escape (cs : List Char) : List Char := cs.flatMap escapeChar

/-- A text between quotes. -/
def quote (cs : List Char) : List Char := '"' :: escape cs ++ ['"']

end ShortLinks.Json
