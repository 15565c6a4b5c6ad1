/-!
# The shortest decimal of a binary float

A finite float stands for `m · 2 ^ q`, and every real that rounds to it lies between two bounds,
which belong to it exactly when `m` is even. Among the decimals inside the bounds the shortest is
the one with the fewest digits, and of those with equally many the nearest. For each number of
digits only the two neighbours of the value on that decimal grid need a look, in exact arithmetic.
-/

namespace ShortLinks

/-- The decimal `± digits · 10 ^ exponent`. -/
structure Decimal where
  negative : Bool
  digits : Nat
  exponent : Int
  deriving DecidableEq, Repr

namespace Decimal

/-- A power of two: so many words there are of so many bits. -/
def twoTo (bits : Nat) : Nat := Nat.pow 2 bits

/-- A power of ten. -/
def tenTo (digits : Nat) : Nat := Nat.pow 10 digits

/-- A float in parts: sign, whole mantissa, exponent of two, and whether the gap below is half the
gap above. -/
structure Parts where
  negative : Bool
  mantissa : Nat
  exponent : Int
  narrowBelow : Bool

/-- Take a finite float apart; infinities and undefined values have no parts. -/
def Parts.ofFloat? (x : Float) : Option Parts :=
  let bits : Nat := x.toBits.toNat
  let fraction : Nat := bits % twoTo 52
  let biased : Nat := bits / twoTo 52 % twoTo 11
  let negative := bits / twoTo 63 == 1
  if biased = 2047 then none
  else if biased = 0 then some ⟨negative, fraction, -1074, false⟩
  else some ⟨negative, fraction + twoTo 52, (biased : Int) - 1075, fraction == 0 && biased != 1⟩

/-- The least `j`, counted from `start`, with `den ≤ num · 10 ^ j`. -/
def leadingZeros (num den : Nat) : Nat → Nat → Nat
  | 0, start => start
  | fuel + 1, start =>
    if den ≤ num * tenTo start then start else leadingZeros num den fuel (start + 1)

/-- The least `k` with `num / den < 10 ^ k`, for a positive quotient. -/
def magnitude (num den : Nat) : Int :=
  if den ≤ num then ((Nat.toDigits 10 (num / den)).length : Int)
  else 1 - (leadingZeros num den 400 1 : Int)

/-- The best decimal on the grid `10 ^ step` inside the bounds, as a multiple of the step. -/
def onGrid? (low num high den : Nat) (closed : Bool) (step : Int) : Option Nat :=
  let unit := den * tenTo step.toNat
  let scale := tenTo (-step).toNat
  let inside (c : Nat) :=
    if closed then low * scale ≤ c * unit && c * unit ≤ high * scale
    else low * scale < c * unit && c * unit < high * scale
  let below := num * scale / unit
  let above := below + 1
  let nearerBelow :=
    let twice := 2 * (num * scale - below * unit)
    twice < unit || (twice == unit && below % 2 == 0)
  if inside below && (nearerBelow || !inside above) then some below
  else if inside above then some above
  else none

/-- Take zeros off the end of a digit string. -/
def stripZeros : Nat → Nat → Int → Nat × Int
  | 0, digits, exponent => (digits, exponent)
  | fuel + 1, digits, exponent =>
    if digits % 10 = 0 ∧ digits ≠ 0 then stripZeros fuel (digits / 10) (exponent + 1)
    else (digits, exponent)

/-- Try grids of one, two, … digits. -/
def search (low num high den : Nat) (closed : Bool) (top : Int) : Nat → Nat → Nat × Int
  | 0, _ => (num / den, 0)
  | fuel + 1, count =>
    let step := top - (count : Int)
    match onGrid? low num high den closed step with
    | some digits => stripZeros 20 digits step
    | none => search low num high den closed top fuel (count + 1)

/-- The shortest decimal of a float in parts. -/
def Parts.shortest (p : Parts) : Decimal :=
  if p.mantissa = 0 then ⟨p.negative, 0, 0⟩
  else
    let shift := p.exponent - 2
    let grow := twoTo shift.toNat
    let den := twoTo (-shift).toNat
    let num := 4 * p.mantissa * grow
    let low := (4 * p.mantissa - if p.narrowBelow then 1 else 2) * grow
    let high := (4 * p.mantissa + 2) * grow
    let (digits, exponent) :=
      search low num high den (p.mantissa % 2 == 0) (magnitude num den) 17 1
    ⟨p.negative, digits, exponent⟩

/-- The shortest decimal that reads back as a float, if the float is finite. -/
def shortest? (x : Float) : Option Decimal := (Parts.ofFloat? x).map Parts.shortest

end Decimal

end ShortLinks
