import Mathlib.Algebra.Order.Floor.Div
import ShortLinks.Proofs.Code.Tail

/-!
# The shape of codes

A tail code is as long as the encoding of its URL, up to eight symbols, and a digest code has
eleven: 64 bits and two zeros behind them. So the length of a code shows its scheme, and no code of
one scheme is a code of the other. The octets of a digest spell its bits from the highest down, and
the encoding can be read back, so a digest code is the digest itself.
-/

namespace ShortLinks

namespace Code

/-- The lowest bits of a number are those of its upper part and those below. -/
theorem lowBits_add (j k n : Nat) : lowBits (j + k) n = lowBits j (n / 2 ^ k) ++ lowBits k n := by
  induction j with
  | zero => rw [Nat.zero_add, lowBits, List.nil_append]
  | succ j ih =>
    rw [Nat.add_right_comm, lowBits, ih, lowBits, Nat.testBit_div_two_pow, List.cons_append]

namespace XxHash

/-- A word has eight octets. -/
@[simp] theorem length_bigEndian (word : UInt64) : (bigEndian word).length = 8 := rfl

/-- The octets of a word spell its bits, the highest first. -/
theorem bits_bigEndian (word : UInt64) : bits (bigEndian word) = lowBits 64 word.toNat := by
  have hoctet (shift : UInt64) (hshift : shift.toNat < 64) :
      octetBits (word >>> shift).toUInt8 = lowBits 8 (word.toNat / 2 ^ shift.toNat) := by
    apply lowBits_eq_iff.2
    simp [Nat.shiftRight_eq_div_pow, Nat.mod_eq_of_lt hshift]
  have hrow : lowBits 64 word.toNat = lowBits 8 (word.toNat / 2 ^ 56) ++
      (lowBits 8 (word.toNat / 2 ^ 48) ++ (lowBits 8 (word.toNat / 2 ^ 40) ++
      (lowBits 8 (word.toNat / 2 ^ 32) ++ (lowBits 8 (word.toNat / 2 ^ 24) ++
      (lowBits 8 (word.toNat / 2 ^ 16) ++ (lowBits 8 (word.toNat / 2 ^ 8) ++
      lowBits 8 (word.toNat / 2 ^ 0))))))) := by
    rw [pow_zero, Nat.div_one]
    simp only [← lowBits_add]
  rw [hrow]
  simp only [bits, bigEndian, List.map_cons, List.map_nil, List.flatMap_cons, List.flatMap_nil,
    List.append_nil]
  simp (disch := decide) only [hoctet]
  rfl

/-- A word is known by its octets. -/
theorem bigEndian_injective : Function.Injective bigEndian := by
  intro word word' h
  have hmod : word.toNat % 2 ^ 64 = word'.toNat % 2 ^ 64 := by
    rw [← lowBits_eq_iff, ← bits_bigEndian, ← bits_bigEndian, h]
  rw [Nat.mod_eq_of_lt word.toNat_lt, Nat.mod_eq_of_lt word'.toNat_lt] at hmod
  exact UInt64.toNat_inj.1 hmod

end XxHash

/-- The symbols of base64 for URLs: letters and digits of ASCII, the dash and the underscore. -/
def IsUrlSafe (c : Char) : Prop := c.isAlphanum ∨ c = '-' ∨ c = '_'

/-- An encoding consists of symbols that may stand in a URL. -/
theorem Base64.isUrlSafe_of_mem_encode {bytes : List UInt8} {c : Char}
    (h : c ∈ Base64.encode bytes) : IsUrlSafe c := by
  have hall : ∀ n < 64, (symbol (UInt8.ofNat n)).isAlphanum ∨ symbol (UInt8.ofNat n) = '-' ∨
      symbol (UInt8.ofNat n) = '_' := by decide +kernel
  rw [encode_eq_map_symbol] at h
  obtain ⟨d, hd, rfl⟩ := List.mem_map.1 h
  simpa [IsUrlSafe] using hall d.toNat (lt_of_mem_digits hd)

end Code

namespace Scheme

open Code

/-- The symbols of a code are those of the encoding that it is taken from. -/
theorem isUrlSafe_of_mem_encode {scheme : Scheme} {url : String} {c : Char}
    (h : c ∈ (scheme.encode url).toList) : IsUrlSafe c := by
  cases scheme with
  | base64Tail =>
    rw [Scheme.encode, String.toList_ofList, encodeTail_eq] at h
    exact Base64.isUrlSafe_of_mem_encode (List.mem_of_mem_drop h)
  | digest =>
    rw [Scheme.encode, String.toList_ofList] at h
    exact Base64.isUrlSafe_of_mem_encode h

/-- A tail code has eight characters, or fewer if the URL has fewer than six octets. -/
theorem length_base64Tail (url : String) : (base64Tail.encode url).length =
    min 8 (4 * (Text.encode url).length ⌈/⌉ 3) := by
  rw [Scheme.encode, String.length_ofList, length_encodeTail]
  rfl

/-- A digest code has eleven characters. -/
theorem length_digest (url : String) : (digest.encode url).length = 11 := by
  rw [Scheme.encode, String.length_ofList, encodeDigest, Base64.length_encode,
    XxHash.length_bigEndian]

/-- A digest code is read back as the octets of the digest. -/
theorem decode?_digest (url : String) : Base64.decode? (digest.encode url).toList =
    some (XxHash.bigEndian (XxHash.digest (Text.encode url))) := by
  rw [Scheme.encode, String.toList_ofList, encodeDigest, Base64.decode?_encode]

/-- URLs share a digest code exactly when they have the same digest. -/
theorem digest_eq_iff {u v : String} : digest.encode u = digest.encode v ↔
    XxHash.digest (Text.encode u) = XxHash.digest (Text.encode v) := by
  constructor
  · intro h
    have hoctets := congrArg (fun code : String => Base64.decode? code.toList) h
    simp only [decode?_digest, Option.some.injEq] at hoctets
    exact XxHash.bigEndian_injective hoctets
  · intro h
    rw [Scheme.encode, Scheme.encode, encodeDigest, encodeDigest, h]

/-- No code of one scheme is a code of another. -/
theorem eq_of_encode_eq {s t : Scheme} {u v : String} (h : s.encode u = t.encode v) : s = t := by
  have hshort (url : String) : (base64Tail.encode url).length ≤ 8 := by
    rw [length_base64Tail]
    exact Nat.min_le_left _ _
  have hlength := congrArg String.length h
  cases s <;> cases t
  · rfl
  · have hu := hshort u
    rw [hlength, length_digest] at hu
    omega
  · have hv := hshort v
    rw [← hlength, length_digest] at hv
    omega
  · rfl

/-- A tail code has four symbols for each three octets of the URL, rounded up, and at most eight; a
digest code has eleven. All are letters, digits, dashes and underscores. A digest code is read back
as eight octets, which spell the digest from its highest bit down, so two URLs share it exactly when
they have the same digest. A code of one scheme is never a code of the other, for whatever URLs. -/
theorem codes_keep_shape (url : String) :
    (base64Tail.encode url).length = min 8 (4 * (Text.encode url).length ⌈/⌉ 3) ∧
    (digest.encode url).length = 11 ∧
    (∀ scheme : Scheme, ∀ c ∈ (scheme.encode url).toList, c.isAlphanum ∨ c = '-' ∨ c = '_') ∧
    (∃ octets, Base64.decode? (digest.encode url).toList = some octets ∧ octets.length = 8 ∧
      bits octets = lowBits 64 (XxHash.digest (Text.encode url)).toNat) ∧
    (∀ other : String, digest.encode url = digest.encode other ↔
      XxHash.digest (Text.encode url) = XxHash.digest (Text.encode other)) ∧
    ∀ s t : Scheme, s ≠ t → ∀ other : String, s.encode url ≠ t.encode other := by
  refine ⟨length_base64Tail url, length_digest url, fun _ _ h => isUrlSafe_of_mem_encode h,
    ⟨_, decode?_digest url, XxHash.length_bigEndian _, XxHash.bits_bigEndian _⟩,
    fun _ => digest_eq_iff, ?_⟩
  exact fun s t hne other hsame => hne (eq_of_encode_eq hsame)

end Scheme

end ShortLinks
