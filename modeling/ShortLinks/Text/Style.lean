/-!
# Coloured text

A terminal style is written as an escape sequence in front of the text and the reset sequence
behind it. A reset that already stands inside the text would end the style early, so the opening
sequence is repeated behind each of them. With colour off a text is written as it is.
-/

namespace ShortLinks.Text

/-- The colours in use, each with its number among the foreground colours. -/
inductive Color
  | red
  | green
  | yellow
  | blue
  | cyan
  | white
  deriving DecidableEq, Repr

/-- The parameter that selects a colour. -/
def Color.parameter : Color → String
  | .red => "31"
  | .green => "32"
  | .yellow => "33"
  | .blue => "34"
  | .cyan => "36"
  | .white => "37"

/-- Attributes and colour of a piece of text. -/
structure Style where
  bold : Bool := false
  dimmed : Bool := false
  underline : Bool := false
  color : Option Color := none
  deriving DecidableEq, Repr

namespace Style

/-- The plain style of one colour. -/
def colored (c : Color) : Style := { color := some c }

/-- The bold style of one colour. -/
def strong (c : Color) : Style := { bold := true, color := some c }

/-- The parameters of a style: attributes first, then the colour. -/
def parameters (st : Style) : List String :=
  (if st.bold then ["1"] else []) ++ (if st.dimmed then ["2"] else []) ++
    (if st.underline then ["4"] else []) ++ (st.color.map Color.parameter).toList

/-- The sequence that ends every style. -/
def reset : String := "\x1b[0m"

/-- The sequence that begins a style. -/
def opening (st : Style) : String := "\x1b[" ++ ";".intercalate st.parameters ++ "m"

/-- Write a text in a style, if `enabled`. -/
def paint (st : Style) (enabled : Bool) (s : String) : String :=
  if enabled then st.opening ++ s.replace reset (reset ++ st.opening) ++ reset else s

/-- Without color a text is painted as it is. -/
@[simp] theorem paint_false (st : Style) (s : String) : st.paint false s = s := rfl

end Style

end ShortLinks.Text
