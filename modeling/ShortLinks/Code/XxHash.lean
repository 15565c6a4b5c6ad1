/-!
# A 64-bit digest

The digest xxh64 of a list of octets, with seed 0. Octets are taken in stripes of 32 over four
lanes, then the rest in groups of eight, four and one; all arithmetic is on 64-bit words.
-/

namespace ShortLinks.Code.XxHash

/-- The first multiplier. -/
def prime1 : UInt64 := 0x9E3779B185EBCA87
/-- The second multiplier. -/
def prime2 : UInt64 := 0xC2B2AE3D27D4EB4F
/-- The third multiplier. -/
def prime3 : UInt64 := 0x165667B19E3779F9
/-- The fourth multiplier. -/
def prime4 : UInt64 := 0x85EBCA77C2B2AE63
/-- The fifth multiplier. -/
def prime5 : UInt64 := 0x27D4EB2F165667C5

/-- Rotate a word to the left by `r` bits, for `0 < r < 64`. -/
def rotate (x r : UInt64) : UInt64 := x <<< r ||| x >>> (64 - r)

/-- The word that octets spell, the lowest octet first. -/
def littleEndian (bytes : List UInt8) : UInt64 :=
  bytes.foldr (fun b word => word <<< 8 ||| b.toUInt64) 0

/-- Take a word into a lane. -/
def mix (lane word : UInt64) : UInt64 := rotate (lane + word * prime2) 31 * prime1

/-- Take a finished lane into the digest. -/
def merge (digest lane : UInt64) : UInt64 := (digest ^^^ mix 0 lane) * prime1 + prime4

/-- Four running words. -/
structure Lanes where
  a : UInt64
  b : UInt64
  c : UInt64
  d : UInt64

/-- The lanes before the first stripe. -/
def Lanes.start : Lanes := ⟨prime1 + prime2, prime2, 0, 0 - prime1⟩

/-- Take `count` stripes into the lanes and give back the octets after them. -/
def stripes : Nat → Lanes → List UInt8 → Lanes × List UInt8
  | 0, lanes, bytes => (lanes, bytes)
  | count + 1, lanes, bytes =>
    let word (k : Nat) := littleEndian ((bytes.drop (8 * k)).take 8)
    stripes count ⟨mix lanes.a (word 0), mix lanes.b (word 1), mix lanes.c (word 2),
      mix lanes.d (word 3)⟩ (bytes.drop 32)

/-- Join the lanes into one word. -/
def Lanes.join (l : Lanes) : UInt64 :=
  [l.a, l.b, l.c, l.d].foldl merge (rotate l.a 1 + rotate l.b 7 + rotate l.c 12 + rotate l.d 18)

/-- Take `count` groups of eight octets. -/
def eights : Nat → UInt64 → List UInt8 → UInt64 × List UInt8
  | 0, digest, bytes => (digest, bytes)
  | count + 1, digest, bytes =>
    let word := littleEndian (bytes.take 8)
    eights count (rotate (digest ^^^ mix 0 word) 27 * prime1 + prime4) (bytes.drop 8)

/-- Take a group of four octets. -/
def four (digest : UInt64) (bytes : List UInt8) : UInt64 × List UInt8 :=
  if bytes.length < 4 then (digest, bytes)
  else
    let word := littleEndian (bytes.take 4)
    (rotate (digest ^^^ word * prime1) 23 * prime2 + prime3, bytes.drop 4)

/-- Take the last octets one by one. -/
def ones (digest : UInt64) (bytes : List UInt8) : UInt64 :=
  bytes.foldl (fun digest b => rotate (digest ^^^ b.toUInt64 * prime5) 11 * prime1) digest

/-- Spread every bit over the word. -/
def avalanche (x : UInt64) : UInt64 :=
  let x := (x ^^^ x >>> 33) * prime2
  let x := (x ^^^ x >>> 29) * prime3
  x ^^^ x >>> 32

/-- The digest of some octets. -/
def digest (bytes : List UInt8) : UInt64 :=
  let size := bytes.length
  let (start, rest) :=
    if size < 32 then (prime5, bytes)
    else
      let (lanes, rest) := stripes (size / 32) Lanes.start bytes
      (lanes.join, rest)
  let (word, rest) := eights (size % 32 / 8) (start + size.toUInt64) rest
  let (word, rest) := four word rest
  avalanche (ones word rest)

/-- The octets of a word, the highest first. -/
def bigEndian (word : UInt64) : List UInt8 :=
  ([56, 48, 40, 32, 24, 16, 8, 0] : List UInt64).map fun shift => (word >>> shift).toUInt8

end ShortLinks.Code.XxHash
