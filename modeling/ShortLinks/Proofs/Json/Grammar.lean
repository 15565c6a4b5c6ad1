import Mathlib.Data.List.DropRight
import ShortLinks.Json.Lexeme

/-!
# The grammar of JSON

What is JSON, said without a reader: which texts are numbers, quoted texts, lists and objects, with
blanks wherever they may stand. Which text stands between two quotes is said apart from whether it
spells characters, since half of a surrogate pair may be written but is no character. Nesting has no
bound, and the names of a nested object may be any quoted texts and come any number of times.
-/

namespace ShortLinks.Json

/-- Nothing but blanks. -/
def Blanks (cs : List Char) : Prop := ∀ c ∈ cs, isSpace c

/-- At least one digit, and nothing but digits. -/
def Digits (cs : List Char) : Prop := cs ≠ [] ∧ ∀ c ∈ cs, c.isDigit

/-- The whole part of a number has no needless zero in front. -/
def WholePart (cs : List Char) : Prop := Digits cs ∧ (cs = ['0'] ∨ '0' ∉ cs.head?)

/-- The fraction of a number may be left out. -/
def FractionPart (cs : List Char) : Prop := cs = [] ∨ ∃ digits, Digits digits ∧ cs = '.' :: digits

/-- The exponent of a number may be left out, and so may its sign. -/
def ExponentPart (cs : List Char) : Prop :=
  cs = [] ∨ ∃ letter ∈ ['e', 'E'], ∃ sign ∈ [[], ['+'], ['-']], ∃ digits, Digits digits ∧
    cs = letter :: (sign ++ digits)

/-- The numbers of JSON, of any size. -/
inductive IsNumber : List Char → Prop
  | mk {sign whole fraction exponent : List Char} (hsign : sign = [] ∨ sign = ['-'])
      (hwhole : WholePart whole) (hfraction : FractionPart fraction)
      (hexponent : ExponentPart exponent) :
      IsNumber (sign ++ (whole ++ (fraction ++ exponent)))

/-- What may stand between two quotes. -/
inductive Quoted : List Char → Prop
  | nil : Quoted []
  | plain {c : Char} {body : List Char} (hquote : c ≠ '"') (hslash : c ≠ '\\')
      (hc : 0x20 ≤ c.toNat) (h : Quoted body) : Quoted (c :: body)
  | letter {l c : Char} {body : List Char} (hl : escapeLetter? l = some c) (h : Quoted body) :
      Quoted ('\\' :: l :: body)
  | unit {a b c d : Char} {n : Nat} {body : List Char} (hn : hexUnit? a b c d = some n)
      (h : Quoted body) : Quoted ('\\' :: 'u' :: a :: b :: c :: d :: body)

/-- What stands between two quotes spells some characters. Each can be spelled by itself, by an
escape with a letter, or by its number, of which one that needs more than four digits is spelled by
a pair of surrogates. -/
inductive Spells : List Char → List Char → Prop
  | nil : Spells [] []
  | plain {c : Char} {value body : List Char} (hquote : c ≠ '"') (hslash : c ≠ '\\')
      (hc : 0x20 ≤ c.toNat) (h : Spells value body) : Spells (c :: value) (c :: body)
  | letter {l c : Char} {value body : List Char} (hl : escapeLetter? l = some c)
      (h : Spells value body) : Spells (c :: value) ('\\' :: l :: body)
  | unit {a b c d : Char} {n : Nat} {value body : List Char} (hn : hexUnit? a b c d = some n)
      (hhigh : isHighSurrogate n = false) (hlow : isLowSurrogate n = false)
      (h : Spells value body) :
      Spells (Char.ofNat n :: value) ('\\' :: 'u' :: a :: b :: c :: d :: body)
  | pair {a b c d a' b' c' d' : Char} {high low : Nat} {value body : List Char}
      (hn : hexUnit? a b c d = some high) (hn' : hexUnit? a' b' c' d' = some low)
      (hhigh : isHighSurrogate high) (hlow : isLowSurrogate low) (h : Spells value body) :
      Spells (Char.ofNat (0x10000 + (high - 0xD800) * 0x400 + (low - 0xDC00)) :: value)
        ('\\' :: 'u' :: a :: b :: c :: d :: '\\' :: 'u' :: a' :: b' :: c' :: d' :: body)

/-- A text between quotes. -/
def between (body : List Char) : List Char := '"' :: (body ++ ['"'])

/-- The name of a member with blanks around, and the colon behind it. -/
def heading (b body b' : List Char) : List Char := b ++ (between body ++ (b' ++ [':']))

/-- The kinds of phrases in JSON: values, values with blanks around, and what stands in the brackets
of a list or an object that is not empty. -/
inductive Phrase
  | value
  | spaced
  | items
  | members

/-- The words that are values. -/
def words : List (List Char) :=
  [['n', 'u', 'l', 'l'], ['t', 'r', 'u', 'e'], ['f', 'a', 'l', 's', 'e']]

/-- The phrases of JSON. -/
inductive Written : Phrase → List Char → Prop
  | word {cs : List Char} (h : cs ∈ words) : Written .value cs
  | number {cs : List Char} (h : IsNumber cs) : Written .value cs
  | text {body : List Char} (h : Quoted body) : Written .value (between body)
  | emptyList {b : List Char} (hb : Blanks b) : Written .value ('[' :: (b ++ [']']))
  | list {cs : List Char} (h : Written .items cs) : Written .value ('[' :: (cs ++ [']']))
  | emptyObject {b : List Char} (hb : Blanks b) : Written .value ('\x7b' :: (b ++ ['\x7d']))
  | object {cs : List Char} (h : Written .members cs) : Written .value ('\x7b' :: (cs ++ ['\x7d']))
  | spaced {b cs b' : List Char} (hb : Blanks b) (h : Written .value cs) (hb' : Blanks b') :
      Written .spaced (b ++ (cs ++ b'))
  | item {cs : List Char} (h : Written .spaced cs) : Written .items cs
  | items {cs cs' : List Char} (h : Written .spaced cs) (h' : Written .items cs') :
      Written .items (cs ++ ',' :: cs')
  | member {b body b' cs : List Char} (hb : Blanks b) (hname : Quoted body) (hb' : Blanks b')
      (h : Written .spaced cs) : Written .members (heading b body b' ++ cs)
  | members {b body b' cs cs' : List Char} (hb : Blanks b) (hname : Quoted body) (hb' : Blanks b')
      (h : Written .spaced cs) (h' : Written .members cs') :
      Written .members (heading b body b' ++ (cs ++ ',' :: cs'))

/-- What may follow a value: nothing, a blank, a comma or the end of a bracket. -/
def Ends (cs : List Char) : Prop := ∀ c ∈ cs.head?, isSpace c ∨ c ∈ [',', ']', '\x7d']

/-- The members of an object as they stand between its braces, each with its name and the text of
its value. Names are texts, in any spelling. -/
inductive MembersText : List (String × List Char) → List Char → Prop
  | member {name : String} {b body b' c value c' : List Char} (hb : Blanks b)
      (hname : Spells name.toList body) (hb' : Blanks b') (hc : Blanks c)
      (hvalue : Written .value value) (hc' : Blanks c') :
      MembersText [(name, value)] (heading b body b' ++ (c ++ (value ++ c')))
  | members {name : String} {b body b' c value c' cs : List Char} {ms : List (String × List Char)}
      (hb : Blanks b) (hname : Spells name.toList body) (hb' : Blanks b') (hc : Blanks c)
      (hvalue : Written .value value) (hc' : Blanks c') (h : MembersText ms cs) :
      MembersText ((name, value) :: ms) (heading b body b' ++ (c ++ (value ++ (c' ++ ',' :: cs))))

/-- An object that has the given members, in this order. -/
inductive ObjectText : List (String × List Char) → List Char → Prop
  | empty {b : List Char} (hb : Blanks b) : ObjectText [] ('\x7b' :: (b ++ ['\x7d']))
  | object {ms : List (String × List Char)} {cs : List Char} (h : MembersText ms cs) :
      ObjectText ms ('\x7b' :: (cs ++ ['\x7d']))

variable {b cs rest : List Char}

/-- Nothing is blank. -/
theorem blanks_nil : Blanks [] := nofun

/-- Blanks in front are skipped. -/
theorem skipSpace_append (hb : Blanks b) (cs : List Char) : skipSpace (b ++ cs) = skipSpace cs :=
  List.dropWhile_append_of_pos hb

/-- Where no blank comes first, none is skipped. -/
theorem skipSpace_cons {c : Char} (hc : isSpace c = false) (cs : List Char) :
    skipSpace (c :: cs) = c :: cs := by
  rw [skipSpace, List.dropWhile_cons, hc]
  rfl

/-- Behind a comma a list is read on from where it does not close. -/
theorem afterComma_eq_ok {α : Type} {read : List Char → Except Finding α} {a : α} :
    afterComma read cs = .ok a ↔
      (∀ rest, skipSpace cs ≠ ']' :: rest) ∧ read (skipSpace cs) = .ok a := by
  rw [afterComma]
  split
  · next rest hend => exact iff_of_false nofun fun h => h.1 rest hend
  · next hnot => exact ⟨fun h => ⟨hnot, h⟩, And.right⟩

/-- A colon behind blanks is taken off. -/
theorem readColon_blanks (hb : Blanks b) (rest : List Char) :
    readColon (b ++ ':' :: rest) = .ok rest := by
  rw [readColon, skipSpace_append hb, skipSpace_cons rfl]
  rfl

/-- Blanks that were skipped are gone. -/
theorem skipSpace_skipSpace (cs : List Char) : skipSpace (skipSpace cs) = skipSpace cs :=
  List.dropWhile_idempotent isSpace cs

/-- Behind blanks a member begins with its name between quotes. -/
theorem skipSpace_heading (hb : Blanks b) (body b' cs : List Char) :
    skipSpace (heading b body b' ++ cs) = '"' :: (body ++ '"' :: (b' ++ ':' :: cs)) := by
  rw [heading, List.append_assoc, skipSpace_append hb, between, List.cons_append, List.cons_append,
    skipSpace_cons rfl]
  simp

/-- What may follow a value may follow it behind blanks. -/
theorem ends_append (hb : Blanks b) (h : Ends cs) : Ends (b ++ cs) := by
  cases b with
  | nil => exact h
  | cons c b =>
    rintro _ ⟨⟩
    exact .inl (hb c List.mem_cons_self)

end ShortLinks.Json
