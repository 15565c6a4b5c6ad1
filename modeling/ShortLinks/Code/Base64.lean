/-!
# Base64 for URLs

Three octets become four symbols of the alphabet A to Z, a to z, 0 to 9, `-`, `_`; one or two
octets at the end become two or three, and nothing pads them. `encodeOnto` writes the same symbols
last first onto a list, which long inputs need; `encodeOnto_eq` says so.
-/

namespace ShortLinks.Code.Base64

/-- The symbol of a number below 64. -/
def symbol (n : UInt8) : Char :=
  if n < 26 then Char.ofUInt8 (65 + n)
  else if n < 52 then Char.ofUInt8 (97 + (n - 26))
  else if n < 62 then Char.ofUInt8 (48 + (n - 52))
  else if n = 62 then '-'
  else '_'

/-- The first symbol of a group. -/
def first (a : UInt8) : Char := symbol (a >>> 2)

/-- The second symbol of a group. -/
def second (a b : UInt8) : Char := symbol ((a &&& 3) <<< 4 ||| b >>> 4)

/-- The third symbol of a group. -/
def third (b c : UInt8) : Char := symbol ((b &&& 15) <<< 2 ||| c >>> 6)

/-- The fourth symbol of a group. -/
def fourth (c : UInt8) : Char := symbol (c &&& 63)

/-- Write octets as symbols. -/
def encode : List UInt8 → List Char
  | [] => []
  | [a] => [first a, second a 0]
  | [a, b] => [first a, second a b, third b 0]
  | a :: b :: c :: rest => first a :: second a b :: third b c :: fourth c :: encode rest

/-- Write octets as symbols onto `acc`, the last symbol outermost. -/
def encodeOnto (acc : List Char) : List UInt8 → List Char
  | [] => acc
  | [a] => second a 0 :: first a :: acc
  | [a, b] => third b 0 :: second a b :: first a :: acc
  | a :: b :: c :: rest =>
    encodeOnto (fourth c :: third b c :: second a b :: first a :: acc) rest

/-- The two ways of writing agree. -/
theorem encodeOnto_eq (acc : List Char) (bytes : List UInt8) :
    encodeOnto acc bytes = (encode bytes).reverse ++ acc := by
  fun_induction encodeOnto acc bytes with
  | case1 => rfl
  | case2 => simp [encode]
  | case3 => simp [encode]
  | case4 acc a b c rest ih => rw [ih]; simp [encode]

/-- Four symbols for three octets, rounded up. -/
theorem length_encode (bytes : List UInt8) :
    (encode bytes).length = (4 * bytes.length + 2) / 3 := by
  fun_induction encode bytes with
  | case1 => rfl
  | case2 => simp
  | case3 => simp
  | case4 a b c rest ih => simp only [List.length_cons, ih]; omega

end ShortLinks.Code.Base64
