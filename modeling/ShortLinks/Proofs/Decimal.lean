import Mathlib
import ShortLinks.Decimal.Text

/-!
# Numbers in texts

What can be said of a text that is read as a number. A whole number is read back from the way it is
written, and wherever a whole number is read, a decimal is read too. A decimal is made of letters,
digits, signs and points, and it begins neither with a T nor with an F.
-/

namespace ShortLinks.Decimal

variable {s : String} {i : Int} {x : Float} {c : Char} {cs : List Char}

/-! ## Whole numbers -/

/-- Without a sign in front, nothing is split off. -/
theorem splitSign_cons (hminus : c ≠ '-') (hplus : c ≠ '+') :
    splitSign (c :: cs) = (false, c :: cs) := by
  unfold splitSign
  split
  · next heq => exact absurd (List.cons.inj heq).1 hminus
  · next heq => exact absurd (List.cons.inj heq).1 hplus
  · rfl

/-- Digits have no sign in front. -/
theorem splitSign_digits (h : ∀ c ∈ cs, c.isDigit = true) : splitSign cs = (false, cs) := by
  cases cs with
  | nil => rfl
  | cons c cs =>
    have hc := h c List.mem_cons_self
    exact splitSign_cons (by rintro rfl; cases hc) (by rintro rfl; cases hc)

/-- A whole number is read back from the way it is written. -/
theorem readInt?_toString (i : Int) : readInt? (toString i) = some i := by
  have hdigit (n : Nat) : ∀ c ∈ Nat.toDigits 10 n, c.isDigit = true :=
    fun c hc => Nat.isDigit_of_mem_toDigits (by decide) (by decide) hc
  have hvalue (n : Nat) : ofDigits (Nat.toDigits 10 n) = n :=
    Nat.ofDigitChars_toDigits (by decide) (by decide)
  have hread (n : Nat) : ((Nat.toDigits 10 n).isEmpty || !(Nat.toDigits 10 n).all Char.isDigit) =
      false := by
    rw [List.isEmpty_eq_false_iff.2 Nat.toDigits_ne_nil, List.all_eq_true.2 (hdigit n)]
    rfl
  rw [readInt?]
  cases i with
  | ofNat n =>
    have hcs : (toString (Int.ofNat n)).toList = Nat.toDigits 10 n := Nat.toList_repr
    rw [hcs, splitSign_digits (hdigit n)]
    dsimp only
    rw [hread, hvalue]
    rfl
  | negSucc n =>
    have hcs : (toString (Int.negSucc n)).toList = '-' :: Nat.toDigits 10 (n + 1) := by
      rw [← Nat.toList_repr]
      exact String.toList_append
    rw [hcs, splitSign]
    dsimp only
    rw [hread, hvalue]
    rfl

/-- A text that is a whole number is a decimal too. -/
theorem isSome_read?_of_readInt? (h : readInt? s = some i) : (read? s).isSome = true := by
  rw [readInt?] at h
  rw [read?]
  generalize splitSign s.toList = split at h ⊢
  obtain ⟨negative, digits⟩ := split
  dsimp only at h ⊢
  split at h
  · cases h
  · next hdigits =>
    rw [Bool.not_eq_true, Bool.or_eq_false_iff, Bool.not_eq_false'] at hdigits
    have hall : ∀ c ∈ digits, c.isDigit = true := List.all_eq_true.1 hdigits.2
    have hunsigned : (readUnsigned? digits).isSome = true := by
      rw [readUnsigned?, List.takeWhile_eq_self_iff.2 hall,
        List.dropWhile_eq_nil_iff.2 hall, hdigits.1]
      rfl
    rw [Option.isSome_map]
    split_ifs
    · rfl
    · rfl
    · exact hunsigned

/-! ## Beginnings -/

/-- A digit is no capital letter. -/
theorem not_isUpper_of_isDigit (h : c.isDigit = true) : ¬ c.isUpper = true := by
  rw [Char.isDigit, Bool.and_eq_true, decide_eq_true_eq, decide_eq_true_eq] at h
  rw [Char.isUpper, decide_eq_true_eq]
  exact fun hle => absurd (UInt32.le_trans hle.1 h.2) (by decide)

/-- A decimal begins with a digit or a point. -/
theorem readUnsigned?_cons (hdigit : c.isDigit = false) (hpoint : c ≠ '.') :
    readUnsigned? (c :: cs) = none := by
  rw [readUnsigned?, List.takeWhile_cons_of_neg (by simp [hdigit]),
    List.dropWhile_cons_of_neg (by simp [hdigit])]
  split
  · next heq => exact absurd (List.cons.inj heq).1 hpoint
  · rfl

/-- No number begins with a T or an F. -/
theorem read?_eq_none (hs : s.toList = c :: cs) (hc : c.toLower = 't' ∨ c.toLower = 'f') :
    read? s = none := by
  have hne (d : Char) (hd : d.toLower ≠ 't' ∧ d.toLower ≠ 'f') : c ≠ d := by
    rintro rfl
    exact hc.elim hd.1 hd.2
  have hdigit : c.isDigit = false := by
    rw [Bool.eq_false_iff]
    intro hdigit
    rw [Char.toLower_eq_of_not_isUpper (not_isUpper_of_isDigit hdigit)] at hc
    rcases hc with rfl | rfl <;> cases hdigit
  have hword (name : String) (d : Char) (ds : List Char) (hname : name.toList = d :: ds)
      (hd : d ≠ 't' ∧ d ≠ 'f') : String.ofList ((c :: cs).map Char.toLower) ≠ name := by
    intro heq
    have hcons := congrArg String.toList heq
    rw [String.toList_ofList, hname, List.map_cons] at hcons
    rw [(List.cons.inj hcons).1] at hc
    exact hc.elim hd.1 hd.2
  rw [read?, hs, splitSign_cons (hne '-' (by decide)) (hne '+' (by decide))]
  dsimp only
  rw [if_neg, if_neg (hword "nan" 'n' _ rfl (by decide)),
    readUnsigned?_cons hdigit (hne '.' (by decide))]
  · rfl
  · rintro (heq | heq)
    · exact hword "inf" 'i' _ rfl (by decide) heq
    · exact hword "infinity" 'i' _ rfl (by decide) heq

/-! ## Characters -/

/-- A character that may stand in a number: a letter, a digit, a sign or a point. -/
def Numeral (c : Char) : Prop := c.isAlphanum = true ∨ c ∈ ['+', '-', '.']

/-- A digit can stand in a number. -/
theorem numeral_of_isDigit (h : c.isDigit = true) : Numeral c := by
  rw [Numeral, Char.isAlphanum, h, Bool.or_true]
  exact .inl rfl

/-- Lower case makes no other character of it. -/
theorem numeral_of_toLower (h : Numeral c.toLower) : Numeral c := by
  by_cases hupper : c.isUpper = true
  · rw [Numeral, Char.isAlphanum, Char.isAlpha, hupper]
    exact .inl rfl
  · rwa [Char.toLower_eq_of_not_isUpper hupper] at h

/-- If what stands behind its digits can stand in a number, a text can. -/
theorem numeral_of_dropWhile (h : ∀ c ∈ cs.dropWhile Char.isDigit, Numeral c) :
    ∀ c ∈ cs, Numeral c := by
  intro c hc
  rw [← List.takeWhile_append_dropWhile (p := Char.isDigit) (l := cs), List.mem_append] at hc
  exact hc.elim (fun hc => numeral_of_isDigit (List.mem_takeWhile_imp hc)) (h c)

/-- Behind a sign stands the rest of a text. -/
theorem numeral_of_splitSign (h : ∀ c ∈ (splitSign cs).2, Numeral c) : ∀ c ∈ cs, Numeral c := by
  unfold splitSign at h
  split at h
  · exact List.forall_mem_cons.2 ⟨.inr (by decide), h⟩
  · exact List.forall_mem_cons.2 ⟨.inr (by decide), h⟩
  · exact h

/-- What is read as an exponent holds nothing that cannot stand in a number. -/
theorem numeral_of_readExponent? (h : readExponent? cs = some i) : ∀ c ∈ cs, Numeral c := by
  cases cs with
  | nil => exact List.forall_mem_nil _
  | cons letter rest =>
    rw [readExponent?] at h
    dsimp only at h
    split at h
    · next hparts =>
      simp only [Bool.and_eq_true, Bool.or_eq_true, beq_iff_eq, List.all_eq_true] at hparts
      obtain ⟨⟨hletter, -⟩, hdigits⟩ := hparts
      refine List.forall_mem_cons.2 ⟨?_, numeral_of_splitSign fun c hc =>
        numeral_of_isDigit (hdigits c hc)⟩
      rcases hletter with rfl | rfl <;> exact .inl (by decide)
    · cases h

/-- What is read as a number without a sign holds nothing that cannot stand in one. -/
theorem numeral_of_readUnsigned? (h : readUnsigned? cs = some x) : ∀ c ∈ cs, Numeral c := by
  have htail {b : Bool} {f : Int → Float} {tail : List Char}
      (h : (if b = true then none else (readExponent? tail).map f) = some x) :
      ∀ c ∈ tail, Numeral c := by
    split at h
    · cases h
    · obtain ⟨e, hexponent, -⟩ := Option.map_eq_some_iff.1 h
      exact numeral_of_readExponent? hexponent
  rw [readUnsigned?] at h
  refine numeral_of_dropWhile ?_
  split at h
  · next more hpoint =>
    rw [hpoint]
    exact List.forall_mem_cons.2 ⟨.inr (by decide), numeral_of_dropWhile (htail h)⟩
  · exact htail h

/-- A number is made of the characters of numbers. -/
theorem numeral_of_read? (h : read? s = some x) : ∀ c ∈ s.toList, Numeral c := by
  refine numeral_of_splitSign fun c hc => ?_
  rw [read?] at h
  obtain ⟨size, hsize, -⟩ := Option.map_eq_some_iff.1 h
  have hword (name : String) (hname : name.toList.all Char.isAlphanum = true)
      (heq : String.ofList ((splitSign s.toList).2.map Char.toLower) = name) : Numeral c := by
    have hmem : c.toLower ∈ name.toList := by
      rw [← heq, String.toList_ofList]
      exact List.mem_map_of_mem hc
    exact numeral_of_toLower (.inl (List.all_eq_true.1 hname _ hmem))
  split_ifs at hsize with hinf hnan
  · exact hinf.elim (hword "inf" (by decide)) (hword "infinity" (by decide))
  · exact hword "nan" (by decide) hnan
  · exact numeral_of_readUnsigned? hsize c hc

end ShortLinks.Decimal
