import ShortLinks.Code
import ShortLinks.Proofs.Code.Base64

/-!
# URLs that share a tail code

A tail code is the last eight symbols of a URL in base64, so it shows the last 48 bits of the URL,
counted with the zeros that fill the last group. How many of these are zeros depends on the length
of the URL, and so does where the window begins: always in the sixth octet from the end, of which
the lowest eight, four or six bits are inside. A URL of fewer than six octets is inside as a whole,
and its code is the code of no other URL.
-/

namespace ShortLinks

namespace Scheme

open Code Base64

variable {bytes bytes' : Bytes}

/-- The last 48 bits of octets, counted with the zeros that fill the last group of six. -/
def tailBits (bytes : Bytes) : List Bool := (padded (bits bytes)).rtake 48

/-- How many bits of the sixth octet from the end are among the last 48. -/
def sixthBits (size : Nat) : Nat :=
  match size % 3 with
  | 0 => 8
  | 1 => 4
  | _ => 6

/-- The zeros that fill the last group push as many bits of the sixth octet out of the window. -/
theorem padding_add_sixthBits (size : Nat) : padding (8 * size) + sixthBits size = 8 := by
  obtain h | h | h : size % 3 = 0 ∨ size % 3 = 1 ∨ size % 3 = 2 := by omega
  all_goals
    simp only [padding, sixthBits, h]
    omega

/-- A tail code is written with the last eight digits. -/
theorem encodeTail_eq_map (bytes : Bytes) :
    encodeTail bytes = ((digits bytes).rtake tailLength).map symbol := by
  rw [encodeTail_eq, encode_eq_map_symbol, List.rtake, List.map_drop, List.length_map]

/-- Octets have the same tail code exactly when their last 48 bits are the same. -/
theorem encodeTail_eq_iff :
    encodeTail bytes = encodeTail bytes' ↔ tailBits bytes = tailBits bytes' := by
  have hbits (bytes : Bytes) :
      tailBits bytes = ((digits bytes).rtake tailLength).flatMap digitBits := by
    rw [tailBits, ← flatMap_digits]
    exact rtake_flatMap_of_width length_digitBits tailLength (digits bytes)
  have hsmall (bytes : Bytes) : ∀ d ∈ (digits bytes).rtake tailLength, d.toNat < 64 :=
    fun d hd => lt_of_mem_digits (List.mem_of_mem_drop hd)
  rw [encodeTail_eq_map, encodeTail_eq_map, hbits, hbits]
  constructor
  · intro h
    rw [digits_eq_of_map_symbol (hsmall bytes) (hsmall bytes') h]
  · intro h
    rw [digits_eq_of_flatMap (hsmall bytes) (hsmall bytes') h]

/-- Six octets or more end in a sixth octet and five behind it. -/
theorem exists_sixth (h : 6 ≤ bytes.length) :
    ∃ front sixth last, bytes = front ++ sixth :: last ∧ last.length = 5 := by
  have hlength : (bytes.rtake 6).length = 6 := by
    rw [List.rtake, List.length_drop]
    omega
  obtain ⟨sixth, last, hlast⟩ := List.exists_cons_of_length_eq_add_one hlength
  refine ⟨bytes.rdrop 6, sixth, last, ?_, ?_⟩
  · rw [← hlast]
    exact (List.take_append_drop _ _).symm
  · rw [hlast] at hlength
    simpa using hlength

/-- The window of the last 48 bits begins in the sixth octet from the end. -/
theorem tailBits_eq {front last : Bytes} {sixth : UInt8} (h : last.length = 5) :
    tailBits (front ++ sixth :: last) =
      lowBits (sixthBits (front ++ sixth :: last).length) sixth.toNat ++ (bits last ++
        List.replicate (8 - sixthBits (front ++ sixth :: last).length) false) := by
  have hsum := padding_add_sixthBits (front ++ sixth :: last).length
  generalize hinside : sixthBits (front ++ sixth :: last).length = inside at hsum ⊢
  have hpadding : padding (bits (front ++ sixth :: last)).length = 8 - inside := by
    rw [length_bits]
    omega
  have hsixth : octetBits sixth =
      (octetBits sixth).take (8 - inside) ++ lowBits inside sixth.toNat := by
    have hdrop := drop_lowBits (8 - inside) inside sixth.toNat
    rw [Nat.sub_add_cancel (by omega)] at hdrop
    rw [← hdrop]
    exact (List.take_append_drop _ _).symm
  have hrow : padded (bits (front ++ sixth :: last)) =
      (bits front ++ (octetBits sixth).take (8 - inside)) ++
        (lowBits inside sixth.toNat ++ (bits last ++ List.replicate (8 - inside) false)) := by
    rw [padded, hpadding]
    simp only [bits, List.flatMap_append, List.flatMap_cons, List.append_assoc]
    rw [← List.append_assoc _ (lowBits inside sixth.toNat), ← hsixth]
  have hwindow : (lowBits inside sixth.toNat ++
      (bits last ++ List.replicate (8 - inside) false)).length = 48 := by
    simp only [List.length_append, length_lowBits, length_bits, List.length_replicate, h]
    omega
  rw [tailBits, hrow, rtake_append_of_length hwindow]

/-- The last 48 bits of octets whose lengths leave the same rest modulo three are the same when the
last five octets are, and as many bits of the sixth as are inside. -/
theorem tailBits_eq_iff (h : 6 ≤ bytes.length) (h' : 6 ≤ bytes'.length)
    (hrest : bytes.length % 3 = bytes'.length % 3) :
    tailBits bytes = tailBits bytes' ↔ bytes.rtake 5 = bytes'.rtake 5 ∧
      bytes.reverse[5]?.map (fun b => b.toNat % 2 ^ sixthBits bytes.length) =
        bytes'.reverse[5]?.map (fun b => b.toNat % 2 ^ sixthBits bytes'.length) := by
  have hinside : sixthBits bytes.length = sixthBits bytes'.length := by
    rw [sixthBits, sixthBits, hrest]
  obtain ⟨front, sixth, last, rfl, hlast⟩ := exists_sixth h
  obtain ⟨front', sixth', last', rfl, hlast'⟩ := exists_sixth h'
  have hfive {front last : Bytes} {sixth : UInt8} (h : last.length = 5) :
      (front ++ sixth :: last).rtake 5 = last := by
    rw [← List.singleton_append, ← List.append_assoc, rtake_append_of_length h]
  have hsixth {front last : Bytes} {sixth : UInt8} (h : last.length = 5) :
      (front ++ sixth :: last).reverse[5]? = some sixth := by
    rw [List.reverse_append, List.reverse_cons, List.append_assoc,
      List.getElem?_append_right (by rw [List.length_reverse, h]), List.length_reverse, h]
    rfl
  rw [tailBits_eq hlast, tailBits_eq hlast', hfive hlast, hfive hlast', hsixth hlast,
    hsixth hlast', hinside, Option.map_some, Option.map_some, Option.some.injEq, ← lowBits_eq_iff]
  constructor
  · intro h
    obtain ⟨hlow, hbehind⟩ := List.append_inj h (by rw [length_lowBits, length_lowBits])
    exact ⟨bits_injective (List.append_cancel_right hbehind), hlow⟩
  · rintro ⟨hlast, hlow⟩
    rw [hlast, hlow]

/-- A tail code has as many symbols as the whole encoding, but no more than eight. -/
theorem length_encodeTail (bytes : Bytes) :
    (encodeTail bytes).length = min tailLength ((4 * bytes.length + 2) / 3) := by
  rw [encodeTail_eq, List.length_drop, length_encode, tailLength]
  omega

/-- Fewer than six octets are encoded as a whole. -/
theorem encodeTail_of_short (h : bytes.length < 6) : encodeTail bytes = Base64.encode bytes := by
  have hlength := length_encode bytes
  have hnone : (Base64.encode bytes).length - tailLength = 0 := by
    rw [tailLength]
    omega
  rw [encodeTail_eq, hnone, List.drop_zero]

/-- The code of fewer than six octets is the code of no others. -/
theorem eq_of_encodeTail_eq (h : bytes.length < 6) (hsame : encodeTail bytes' = encodeTail bytes) :
    bytes' = bytes := by
  have hlength := congrArg List.length hsame
  rw [length_encodeTail, length_encodeTail, tailLength] at hlength
  have hshort : bytes'.length < 6 := by omega
  rw [encodeTail_of_short h, encodeTail_of_short hshort] at hsame
  exact encode_injective hsame

/-- Two URLs share a tail code exactly when their last 48 bits are the same, counted with the zeros
that fill the last group of six. For URLs of six octets or more whose lengths leave the same rest
modulo three, these bits are the last five octets and the lowest eight, four or six bits of the
sixth. The tail code of a URL of fewer than six octets is the whole of its encoding, can be read
back, and is the code of no other URL. -/
theorem tail_codes_eq_iff :
    (∀ u v : String, base64Tail.encode u = base64Tail.encode v ↔
      (padded (bits (Text.encode u))).rtake 48 = (padded (bits (Text.encode v))).rtake 48) ∧
    (∀ u v : String, 6 ≤ (Text.encode u).length → 6 ≤ (Text.encode v).length →
      (Text.encode u).length % 3 = (Text.encode v).length % 3 →
        (base64Tail.encode u = base64Tail.encode v ↔
          (Text.encode u).rtake 5 = (Text.encode v).rtake 5 ∧
          (Text.encode u).reverse[5]?.map (·.toNat % 2 ^ sixthBits (Text.encode u).length) =
            (Text.encode v).reverse[5]?.map (·.toNat % 2 ^ sixthBits (Text.encode v).length))) ∧
    ∀ u : String, (Text.encode u).length < 6 →
      base64Tail.encode u = String.ofList (Base64.encode (Text.encode u)) ∧
      (decode? (base64Tail.encode u).toList).bind Text.decode? = some u ∧
      ∀ v : String, v ≠ u → base64Tail.encode v ≠ base64Tail.encode u := by
  have hcode (u v : String) : base64Tail.encode u = base64Tail.encode v ↔
      encodeTail (Text.encode u) = encodeTail (Text.encode v) := String.ofList_inj
  refine ⟨fun u v => ?_, fun u v hu hv hrest => ?_, fun u hu => ⟨?_, ?_, ?_⟩⟩
  · rw [hcode]
    exact encodeTail_eq_iff
  · rw [hcode, encodeTail_eq_iff]
    exact tailBits_eq_iff hu hv hrest
  · rw [Scheme.encode, encodeTail_of_short hu]
  · rw [Scheme.encode, encodeTail_of_short hu, String.toList_ofList, decode?_encode,
      Option.bind_some, Text.decode?_encode]
  · intro v hv hsame
    exact hv (Text.encode_injective (eq_of_encodeTail_eq hu ((hcode v u).1 hsame)))

/-- Of URLs of 19 octets, the sixth letter from the end may be another one if its lowest four bits
are the same. A URL of three octets shares its code with none. -/
theorem tail_codes_eq_iff_sixth :
    base64Tail.encode "http://xx.y/za12345" = base64Tail.encode "http://xx.y/zq12345" ∧
    base64Tail.encode "http://xx.y/za12345" ≠ base64Tail.encode "http://xx.y/zb12345" ∧
    (decode? (base64Tail.encode "a.b").toList).bind Text.decode? = some "a.b" ∧
    base64Tail.encode "http://xx.y/za12345" ≠ base64Tail.encode "a.b" := by
  obtain ⟨-, hlong, hshort⟩ := tail_codes_eq_iff
  obtain ⟨-, hread, hother⟩ := hshort "a.b" (by decide)
  refine ⟨?_, ?_, hread, hother _ (by decide)⟩
  · exact (hlong _ _ (by decide) (by decide) (by decide)).2 (by decide)
  · exact fun hsame => absurd ((hlong _ _ (by decide) (by decide) (by decide)).1 hsame) (by decide)

end Scheme

end ShortLinks
