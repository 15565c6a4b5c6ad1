import Mathlib.Algebra.Group.Nat.Defs
import Mathlib.Data.List.DropRight
import ShortLinks.Code.Base64

/-!
# Base64 as a spelling of bits

The octets of an input are a row of bits, the highest bit of each octet first. Filled up with zeros
to whole groups of six, this row is what the symbols spell, one group a symbol. Since all groups
have the same width, a cut through the symbols is a cut through the bits six times as far, and equal
symbols are equal bits. Decoding puts the bits together again and refuses everything that is not
written this way.
-/

namespace ShortLinks.Code

variable {α β : Type} {k m n : Nat} {bytes bytes' : List UInt8}

/-- The lowest `k` bits of a number, the highest first. -/
def lowBits : Nat → Nat → List Bool
  | 0, _ => []
  | k + 1, n => n.testBit k :: lowBits k n

/-- There are as many low bits as are taken. -/
@[simp] theorem length_lowBits (k n : Nat) : (lowBits k n).length = k := by
  induction k with
  | zero => rfl
  | succ k ih => rw [lowBits, List.length_cons, ih]

/-- Without its first bits, a row of lowest bits is a shorter row of lowest bits. -/
theorem drop_lowBits (j k n : Nat) : (lowBits (j + k) n).drop j = lowBits k n := by
  induction j with
  | zero => rw [Nat.zero_add, List.drop_zero]
  | succ j ih => rw [Nat.add_right_comm, lowBits, List.drop_succ_cons, ih]

/-- Numbers have the same lowest bits when they are the same modulo a power of two. -/
theorem lowBits_eq_iff : lowBits k m = lowBits k n ↔ m % 2 ^ k = n % 2 ^ k := by
  have hbits : lowBits k m = lowBits k n ↔ ∀ i < k, m.testBit i = n.testBit i := by
    induction k with
    | zero => simp [lowBits]
    | succ k ih => rw [lowBits, lowBits, List.cons.injEq, ih, Nat.forall_lt_succ_right, and_comm]
  rw [hbits]
  constructor
  · intro h
    apply Nat.eq_of_testBit_eq
    intro i
    rw [Nat.testBit_mod_two_pow, Nat.testBit_mod_two_pow]
    by_cases hi : i < k
    · rw [h i hi]
    · simp [hi]
  · intro h i hi
    have hbit := congrArg (Nat.testBit · i) h
    simpa [Nat.testBit_mod_two_pow, hi] using hbit

/-- The bits of an octet are those of its number. -/
theorem testBit_toNat (b : UInt8) (i : Nat) : b.toNat.testBit i = b.toBitVec.getLsbD i := rfl

/-- The bits of an octet. -/
def octetBits (b : UInt8) : List Bool := lowBits 8 b.toNat

/-- An octet has eight bits. -/
@[simp] theorem length_octetBits (b : UInt8) : (octetBits b).length = 8 := length_lowBits 8 _

/-- An octet is known by its bits. -/
theorem octetBits_injective : Function.Injective octetBits := by
  intro b b' h
  have hmod : b.toNat % 2 ^ 8 = b'.toNat % 2 ^ 8 := lowBits_eq_iff.1 h
  rw [Nat.mod_eq_of_lt b.toNat_lt, Nat.mod_eq_of_lt b'.toNat_lt] at hmod
  exact UInt8.toNat_inj.1 hmod

/-- The bits of octets, one octet after another. -/
def bits (bytes : List UInt8) : List Bool := bytes.flatMap octetBits

/-- How many zeros fill `n` bits up to whole groups of six. -/
def padding (n : Nat) : Nat := (6 - n % 6) % 6

/-- Bits with zeros behind them up to whole groups of six. -/
def padded (row : List Bool) : List Bool := row ++ List.replicate (padding row.length) false

/-- What stands in whole groups of six is not padded. -/
theorem padded_append {row : List Bool} (h : row.length % 6 = 0) (rest : List Bool) :
    padded (row ++ rest) = row ++ padded rest := by
  have hpadding : padding (row ++ rest).length = padding rest.length := by
    simp only [padding, List.length_append]
    omega
  rw [padded, hpadding, List.append_assoc, padded]

section Rows

variable {f : α → List β} {l l' : List α}

/-- The last elements are those that were added last. -/
theorem rtake_append_of_length (h : l'.length = n) : (l ++ l').rtake n = l' := by
  rw [List.rtake]
  apply List.drop_left'
  rw [List.length_append, h, Nat.add_sub_cancel]

/-- A row of pieces of one width is as many times as long. -/
theorem length_flatMap_of_width (hwidth : ∀ a, (f a).length = k) (l : List α) :
    (l.flatMap f).length = k * l.length := by
  simp [List.length_flatMap, hwidth, Nat.mul_comm]

/-- Dropping pieces of one width is dropping what they are made of. -/
theorem drop_flatMap_of_width (hwidth : ∀ a, (f a).length = k) (n : Nat) (l : List α) :
    (l.flatMap f).drop (k * n) = (l.drop n).flatMap f := by
  induction l generalizing n with
  | nil => simp
  | cons a rest ih =>
    cases n with
    | zero => simp
    | succ n =>
      rw [List.flatMap_cons, List.drop_succ_cons, ← ih, Nat.mul_succ, Nat.add_comm,
        ← List.drop_drop, List.drop_left' (hwidth a)]

/-- The last pieces of one width are made of the last elements. -/
theorem rtake_flatMap_of_width (hwidth : ∀ a, (f a).length = k) (n : Nat) (l : List α) :
    (l.flatMap f).rtake (k * n) = (l.rtake n).flatMap f := by
  rw [List.rtake, List.rtake, length_flatMap_of_width hwidth, ← Nat.mul_sub,
    drop_flatMap_of_width hwidth]

/-- Rows of pieces of one width are the same when the pieces are. -/
theorem flatMap_inj_of_width (hwidth : ∀ a, (f a).length = k) (hsome : 0 < k)
    (hinj : ∀ a ∈ l, ∀ a' ∈ l', f a = f a' → a = a') (h : l.flatMap f = l'.flatMap f) :
    l = l' := by
  induction l generalizing l' with
  | nil =>
    have hlength := congrArg List.length h
    rw [List.flatMap_nil, List.length_nil, length_flatMap_of_width hwidth] at hlength
    have hnone : l'.length = 0 := (Nat.mul_eq_zero.1 hlength.symm).resolve_left (Nat.ne_of_gt hsome)
    exact (List.length_eq_zero_iff.1 hnone).symm
  | cons a rest ih =>
    cases l' with
    | nil =>
      have hlength := congrArg List.length h
      rw [List.flatMap_cons, List.length_append, hwidth] at hlength
      simp only [List.flatMap_nil, List.length_nil] at hlength
      omega
    | cons a' rest' =>
      rw [List.flatMap_cons, List.flatMap_cons] at h
      have hlength : (f a).length = (f a').length := (hwidth a).trans (hwidth a').symm
      obtain ⟨hfirst, hrest⟩ := List.append_inj h hlength
      rw [hinj a List.mem_cons_self a' List.mem_cons_self hfirst,
        ih (fun c hc c' hc' => hinj c (List.mem_cons_of_mem _ hc) c' (List.mem_cons_of_mem _ hc'))
          hrest]

end Rows

/-- Octets have eight bits each. -/
theorem length_bits (bytes : List UInt8) : (bits bytes).length = 8 * bytes.length :=
  length_flatMap_of_width length_octetBits bytes

/-- Octets are known by their bits. -/
theorem bits_injective : Function.Injective bits := by
  intro bytes bytes' h
  exact flatMap_inj_of_width length_octetBits (by decide)
    (fun b _ b' _ hsame => octetBits_injective hsame) h

namespace Base64

/-- The numbers below 64 whose symbols are written. -/
def digits : List UInt8 → List UInt8
  | [] => []
  | [a] => [a >>> 2, (a &&& 3) <<< 4 ||| (0 : UInt8) >>> 4]
  | [a, b] => [a >>> 2, (a &&& 3) <<< 4 ||| b >>> 4, (b &&& 15) <<< 2 ||| (0 : UInt8) >>> 6]
  | a :: b :: c :: rest =>
    a >>> 2 :: ((a &&& 3) <<< 4 ||| b >>> 4) :: ((b &&& 15) <<< 2 ||| c >>> 6) :: (c &&& 63) ::
      digits rest

/-- An encoding writes one symbol for each digit. -/
theorem encode_eq_map_symbol (bytes : List UInt8) : encode bytes = (digits bytes).map symbol := by
  fun_induction encode bytes with
  | case1 => rfl
  | case2 => rfl
  | case3 => rfl
  | case4 a b c rest ih => rw [digits, ih]; rfl

/-- The six bits that a digit spells. -/
def digitBits (d : UInt8) : List Bool := lowBits 6 d.toNat

/-- A digit stands for six bits. -/
@[simp] theorem length_digitBits (d : UInt8) : (digitBits d).length = 6 := length_lowBits 6 _

/-- The first digit of a group has the first six bits of the first octet. -/
theorem digitBits_first (a : UInt8) : digitBits (a >>> 2) = (octetBits a).take 6 := by
  simp only [digitBits, octetBits, lowBits, testBit_toNat]
  simp

/-- The second digit has the last two bits of the first octet and four of the second. -/
theorem digitBits_second (a b : UInt8) :
    digitBits ((a &&& 3) <<< 4 ||| b >>> 4) = (octetBits a).drop 6 ++ (octetBits b).take 4 := by
  simp only [digitBits, octetBits, lowBits, testBit_toNat]
  simp

/-- The third digit has the last four bits of the second octet and two of the third. -/
theorem digitBits_third (b c : UInt8) :
    digitBits ((b &&& 15) <<< 2 ||| c >>> 6) = (octetBits b).drop 4 ++ (octetBits c).take 2 := by
  simp only [digitBits, octetBits, lowBits, testBit_toNat]
  simp

/-- The fourth digit has the last six bits of the third octet. -/
theorem digitBits_fourth (c : UInt8) : digitBits (c &&& 63) = (octetBits c).drop 2 := by
  simp only [digitBits, octetBits, lowBits, testBit_toNat]
  simp

/-- The bits of zero, with which the last group is filled up. -/
theorem octetBits_zero : octetBits 0 = List.replicate 8 false := rfl

/-- The digits spell the bits of the octets, filled up with zeros. -/
theorem flatMap_digits (bytes : List UInt8) :
    (digits bytes).flatMap digitBits = padded (bits bytes) := by
  have hwhole (n : Nat) (row rest : List Bool) :
      row.take n ++ (row.drop n ++ rest) = row ++ rest := by
    rw [← List.append_assoc, List.take_append_drop]
  fun_induction digits bytes with
  | case1 => rfl
  | case2 a =>
    have hpadded : padded (bits [a]) = octetBits a ++ List.replicate 4 false := by
      simp [padded, padding, bits]
    rw [hpadded]
    simp only [List.flatMap_cons, List.flatMap_nil, digitBits_first, digitBits_second,
      octetBits_zero, List.append_assoc, hwhole]
    rfl
  | case3 a b =>
    have hpadded : padded (bits [a, b]) =
        octetBits a ++ (octetBits b ++ List.replicate 2 false) := by
      simp [padded, padding, bits]
    rw [hpadded]
    simp only [List.flatMap_cons, List.flatMap_nil, digitBits_first, digitBits_second,
      digitBits_third, octetBits_zero, List.append_assoc, hwhole]
    rfl
  | case4 a b c rest ih =>
    have hbits : bits (a :: b :: c :: rest) =
        (octetBits a ++ octetBits b ++ octetBits c) ++ bits rest := by
      simp [bits]
    have hgroups : (octetBits a ++ octetBits b ++ octetBits c).length % 6 = 0 := by
      simp
    rw [hbits, padded_append hgroups, ← ih]
    simp only [List.flatMap_cons, digitBits_first, digitBits_second, digitBits_third,
      digitBits_fourth, List.append_assoc, hwhole]

/-- Digits are below 64. -/
theorem lt_of_mem_digits {d : UInt8} (h : d ∈ digits bytes) : d.toNat < 64 := by
  have hfirst (a : UInt8) : (a >>> 2).toNat < 64 := by
    have ha := a.toNat_lt
    simp [Nat.shiftRight_eq_div_pow]
    omega
  have hsecond (a b : UInt8) : ((a &&& 3) <<< 4 ||| b >>> 4).toNat < 64 := by
    have ha : a.toNat &&& 3 ≤ 3 := Nat.and_le_right
    have hb := b.toNat_lt
    rw [UInt8.toNat_or]
    apply Nat.or_lt_two_pow (n := 6)
    · simp [Nat.shiftLeft_eq]
      omega
    · simp [Nat.shiftRight_eq_div_pow]
      omega
  have hthird (b c : UInt8) : ((b &&& 15) <<< 2 ||| c >>> 6).toNat < 64 := by
    have hb : b.toNat &&& 15 ≤ 15 := Nat.and_le_right
    have hc := c.toNat_lt
    rw [UInt8.toNat_or]
    apply Nat.or_lt_two_pow (n := 6)
    · simp [Nat.shiftLeft_eq]
      omega
    · simp [Nat.shiftRight_eq_div_pow]
      omega
  have hfourth (c : UInt8) : (c &&& 63).toNat < 64 := by
    have hc : c.toNat &&& 63 ≤ 63 := Nat.and_le_right
    simp
    omega
  fun_induction digits bytes with
  | case1 => cases h
  | case2 a =>
    simp only [List.mem_cons, List.not_mem_nil, or_false] at h
    obtain rfl | rfl := h
    · exact hfirst a
    · exact hsecond a 0
  | case3 a b =>
    simp only [List.mem_cons, List.not_mem_nil, or_false] at h
    obtain rfl | rfl | rfl := h
    · exact hfirst a
    · exact hsecond a b
    · exact hthird b 0
  | case4 a b c rest ih =>
    simp only [List.mem_cons] at h
    obtain rfl | rfl | rfl | rfl | h := h
    · exact hfirst a
    · exact hsecond a b
    · exact hthird b c
    · exact hfourth c
    · exact ih h

/-- The digit of a symbol. -/
def digit? (c : Char) : Option UInt8 :=
  if 'A' ≤ c ∧ c ≤ 'Z' then some (c.toUInt8 - 65)
  else if 'a' ≤ c ∧ c ≤ 'z' then some (c.toUInt8 - 97 + 26)
  else if '0' ≤ c ∧ c ≤ '9' then some (c.toUInt8 - 48 + 52)
  else if c = '-' then some 62
  else if c = '_' then some 63
  else none

/-- A symbol is read as the digit that it was written for. -/
theorem digit?_symbol {d : UInt8} (h : d.toNat < 64) : digit? (symbol d) = some d := by
  have hall : ∀ n < 64, digit? (symbol (UInt8.ofNat n)) = some (UInt8.ofNat n) := by
    decide +kernel
  simpa using hall d.toNat h

/-- The octet that bits spell, the highest first. -/
def octet (row : List Bool) : UInt8 :=
  UInt8.ofNat (row.foldl (fun n bit => 2 * n + bit.toNat) 0)

/-- An octet is made up again from its bits. -/
theorem octet_octetBits (b : UInt8) : octet (octetBits b) = b := by
  have hall : ∀ n < 256, octet (octetBits (UInt8.ofNat n)) = UInt8.ofNat n := by decide +kernel
  simpa using hall b.toNat b.toNat_lt

/-- The octets that bits spell. What is left over must be fewer than six zeros. -/
def octets? : List Bool → Option (List UInt8)
  | b₇ :: b₆ :: b₅ :: b₄ :: b₃ :: b₂ :: b₁ :: b₀ :: rest =>
    (octets? rest).map (octet [b₇, b₆, b₅, b₄, b₃, b₂, b₁, b₀] :: ·)
  | rest => if rest.length < 6 ∧ rest.all (!·) then some [] else none

/-- The bits of an octet are read as it, and those behind as further octets. -/
theorem octets?_octetBits (b : UInt8) (rest : List Bool) :
    octets? (octetBits b ++ rest) = (octets? rest).map (b :: ·) := by
  have hstep : octets? (octetBits b ++ rest) = (octets? rest).map (octet (octetBits b) :: ·) := rfl
  rw [hstep, octet_octetBits]

/-- Padded bits of octets spell these octets. -/
theorem octets?_padded (bytes : List UInt8) : octets? (padded (bits bytes)) = some bytes := by
  have hzeros : ∀ k < 6, octets? (List.replicate k false) = some [] := by decide
  have hbits (zeros : List Bool) (h : octets? zeros = some []) :
      octets? (bits bytes ++ zeros) = some bytes := by
    induction bytes with
    | nil => exact h
    | cons b rest ih =>
      rw [bits, List.flatMap_cons, ← bits, List.append_assoc, octets?_octetBits, ih]
      rfl
  apply hbits
  apply hzeros
  exact Nat.mod_lt _ (by decide)

/-- Read symbols as octets. -/
def decode? (cs : List Char) : Option (List UInt8) := do
  octets? ((← cs.mapM digit?).flatMap digitBits)

/-- What was encoded can be read. -/
theorem decode?_encode (bytes : List UInt8) : decode? (encode bytes) = some bytes := by
  have hread (ds : List UInt8) (h : ∀ d ∈ ds, d.toNat < 64) :
      (ds.map symbol).mapM digit? = some ds := by
    induction ds with
    | nil => rfl
    | cons d rest ih =>
      rw [List.map_cons, List.mapM_cons, digit?_symbol (h d List.mem_cons_self),
        ih fun d hd => h d (List.mem_cons_of_mem _ hd)]
      rfl
  have hdigits : (encode bytes).mapM digit? = some (digits bytes) := by
    rw [encode_eq_map_symbol]
    exact hread _ fun d hd => lt_of_mem_digits hd
  rw [decode?, hdigits]
  exact (congrArg octets? (flatMap_digits bytes)).trans (octets?_padded bytes)

/-- Octets are known by their encoding. -/
theorem encode_injective : Function.Injective encode := by
  intro bytes bytes' h
  have hread := congrArg decode? h
  rwa [decode?_encode, decode?_encode, Option.some.injEq] at hread

/-- Digits that are written with the same symbols are the same. -/
theorem digits_eq_of_map_symbol {ds ds' : List UInt8} (h : ∀ d ∈ ds, d.toNat < 64)
    (h' : ∀ d ∈ ds', d.toNat < 64) (hsame : ds.map symbol = ds'.map symbol) : ds = ds' := by
  have hread {ds : List UInt8} (h : ∀ d ∈ ds, d.toNat < 64) :
      (ds.map symbol).map digit? = ds.map some := by
    rw [List.map_map]
    exact List.map_congr_left fun d hd => digit?_symbol (h d hd)
  have hdigits := congrArg (List.map digit?) hsame
  rw [hread h, hread h'] at hdigits
  exact List.map_injective_iff.2 (fun _ _ => Option.some.inj) hdigits

/-- Digits that spell the same bits are the same. -/
theorem digits_eq_of_flatMap {ds ds' : List UInt8} (h : ∀ d ∈ ds, d.toNat < 64)
    (h' : ∀ d ∈ ds', d.toNat < 64) (hsame : ds.flatMap digitBits = ds'.flatMap digitBits) :
    ds = ds' := by
  apply flatMap_inj_of_width length_digitBits (by decide) _ hsame
  intro d hd d' hd' hbits
  have hmod : d.toNat % 64 = d'.toNat % 64 := lowBits_eq_iff.1 hbits
  rw [Nat.mod_eq_of_lt (h d hd), Nat.mod_eq_of_lt (h' d' hd')] at hmod
  exact UInt8.toNat_inj.1 hmod

end Base64

end ShortLinks.Code
