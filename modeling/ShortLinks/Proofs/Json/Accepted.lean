import ShortLinks.Proofs.Json.Layout

/-!
# What readers accept is written

The other half of the grammar: a reader that comes to an end has taken JSON off the front of the
text. Each lexeme is cut off where its phrase ends, a value that is passed over is one phrase
whatever its nesting, and an object whose fields are read has members, each with a name and a value.
The fuel that is left where a bracket closes is less than what the bracket began with, which carries
the induction.
-/

namespace ShortLinks.Json

variable {cs rest out body value : List Char}

/-! ## Lexemes -/

/-- What is skipped is blank. -/
theorem exists_blanks (h : skipSpace cs = rest) : ∃ b, Blanks b ∧ cs = b ++ rest := by
  refine ⟨cs.takeWhile isSpace, fun c hc => List.mem_takeWhile_imp hc, ?_⟩
  rw [← h, skipSpace, List.takeWhile_append_dropWhile]

/-- A word that is taken off was in front. -/
theorem eq_append_of_takeWord {word : List Char} (h : takeWord word cs = .ok rest) :
    cs = word ++ rest := by
  fun_induction takeWord word cs with
  | case1 cs =>
    cases h
    rfl
  | case3 w word cs ih => rw [List.cons_append, ← ih h]
  | _ => cases h

/-- A word that is dropped was in front. -/
theorem eq_append_of_dropWord {word : String} (h : dropWord word cs = .ok rest) :
    cs = word.toList ++ rest := eq_append_of_takeWord h

/-! ## Numbers -/

/-- The digits in front are digits, if there are any. -/
theorem digits_takeWhile (h : cs.takeWhile Char.isDigit ≠ []) :
    Digits (cs.takeWhile Char.isDigit) := ⟨h, fun _ hc => List.mem_takeWhile_imp hc⟩

/-- Digits are the whole part of a number if a zero in front is the only one. -/
theorem Digits.wholePart {digits : List Char} (h : Digits digits)
    (hzero : digits.head? = some '0' → digits.length ≤ 1) : WholePart digits := by
  refine ⟨h, ?_⟩
  obtain ⟨d, tail, rfl, -⟩ := h.head
  by_cases hd : d = '0'
  · subst hd
    have hlength := hzero rfl
    rw [List.length_cons] at hlength
    exact .inl (by rw [List.eq_nil_of_length_eq_zero (by omega : tail.length = 0)])
  · exact .inr fun h => hd (Option.some.inj h)

/-- A fraction that is scanned is one, and was in front. -/
theorem fractionPart_of_scanFraction {digits : List Char}
    (h : scanFraction cs = .ok (digits, rest)) :
    ∃ fraction, FractionPart fraction ∧ cs = fraction ++ rest := by
  rw [scanFraction.eq_def] at h
  split at h
  · next cs =>
    dsimp only at h
    split at h
    · cases h
    · next hdigits =>
      cases h
      refine ⟨_, .inr ⟨_, digits_takeWhile (by simpa using hdigits), rfl⟩, ?_⟩
      rw [List.cons_append, List.takeWhile_append_dropWhile]
  · cases h
    exact ⟨[], .inl rfl, rfl⟩

/-- A sign is split off the front, if there is one. -/
theorem exists_sign (cs : List Char) :
    ∃ sign ∈ [[], ['+'], ['-']], cs = sign ++ (Decimal.splitSign cs).2 := by
  rw [Decimal.splitSign.eq_def]
  split
  · exact ⟨['-'], by decide, rfl⟩
  · exact ⟨['+'], by decide, rfl⟩
  · exact ⟨[], by decide, rfl⟩

/-- An exponent that is scanned is one, and was in front. -/
theorem exponentPart_of_scanExponent {exponent : Option (Bool × List Char)}
    (h : scanExponent cs = .ok (exponent, rest)) :
    ∃ text, ExponentPart text ∧ cs = text ++ rest := by
  rw [scanExponent.eq_def] at h
  split at h
  · next letter cs =>
    split at h
    · next hletter =>
      dsimp only at h
      split at h
      · cases h
      · next hdigits =>
        cases h
        obtain ⟨sign, hsign, hcs⟩ := exists_sign cs
        refine ⟨_, .inr ⟨letter, by simpa using hletter, sign, hsign, _,
          digits_takeWhile (by simpa using hdigits), rfl⟩, ?_⟩
        rw [List.cons_append, List.append_assoc, List.takeWhile_append_dropWhile, ← hcs]
    · cases h
      exact ⟨[], .inl rfl, rfl⟩
  · cases h
    exact ⟨[], .inl rfl, rfl⟩

/-- A number that is scanned is a number of JSON. -/
theorem isNumber_of_scanNumber {number : NumberText} (h : scanNumber cs = .ok (number, rest)) :
    ∃ text, IsNumber text ∧ cs = text ++ rest := by
  unfold scanNumber at h
  split at h
  next negative unsigned hsign =>
  obtain ⟨sign, hsigned, rfl⟩ : ∃ sign, (sign = [] ∨ sign = ['-']) ∧ cs = sign ++ unsigned := by
    split at hsign
    · cases hsign
      exact ⟨['-'], .inr rfl, rfl⟩
    · cases hsign
      exact ⟨[], .inl rfl, rfl⟩
  dsimp only at h
  split at h
  · cases h
  split at h
  · cases h
  · next hsome hzero =>
    obtain ⟨⟨digits, afterFraction⟩, hfraction, h⟩ := except_bind_eq_ok.1 h
    obtain ⟨⟨exponent, afterExponent⟩, hexponent, h⟩ := except_bind_eq_ok.1 h
    cases h
    obtain ⟨fraction, hpart, hbehind⟩ := fractionPart_of_scanFraction hfraction
    obtain ⟨exponentText, hpart', rfl⟩ := exponentPart_of_scanExponent hexponent
    rw [List.isEmpty_iff] at hsome
    rw [Bool.and_eq_true, not_and, beq_iff_eq, decide_eq_true_eq, Nat.not_lt] at hzero
    have hdigits := (digits_takeWhile hsome).wholePart hzero
    refine ⟨_, .mk hsigned hdigits hpart hpart', ?_⟩
    rw [List.append_assoc, List.append_assoc, List.append_assoc, ← hbehind,
      List.takeWhile_append_dropWhile]

/-! ## Values nobody asked for -/

/-- A value that is no bracket is passed over as a word, a quoted text or a number. -/
theorem written_of_skipScalar (h : skipScalar cs = .ok rest) :
    ∃ value, Written .value value ∧ cs = value ++ rest := by
  unfold skipScalar at h
  split at h
  · exact ⟨_, .word (by decide), eq_append_of_dropWord h⟩
  · exact ⟨_, .word (by decide), eq_append_of_dropWord h⟩
  · exact ⟨_, .word (by decide), eq_append_of_dropWord h⟩
  · obtain ⟨body, hbody, rfl⟩ := quoted_of_skipBody h
    exact ⟨_, .text hbody, (between_append body rest).symm⟩
  · split at h
    · next hscan =>
      cases h
      obtain ⟨text, hnumber, rfl⟩ := isNumber_of_scanNumber hscan
      exact ⟨text, .number hnumber, rfl⟩
    · cases h

/-- A colon that is taken off stood behind blanks. -/
theorem exists_blanks_of_readColon (h : readColon cs = .ok rest) :
    ∃ b, Blanks b ∧ cs = b ++ ':' :: rest := by
  unfold readColon at h
  split at h
  · next hcolon =>
    cases h
    exact exists_blanks hcolon
  · cases h

/-- The name of a member is passed over as a quoted text with a colon behind it. -/
theorem heading_of_skipName (h : skipName cs = .ok rest) :
    ∃ b body b', Blanks b ∧ Quoted body ∧ Blanks b' ∧ cs = heading b body b' ++ rest := by
  unfold skipName at h
  split at h
  · next name hquote =>
    obtain ⟨after, hname, hcolon⟩ := except_bind_eq_ok.1 h
    obtain ⟨b, hb, rfl⟩ := exists_blanks hquote
    obtain ⟨body, hbody, rfl⟩ := quoted_of_skipBody hname
    obtain ⟨b', hb', rfl⟩ := exists_blanks_of_readColon hcolon
    exact ⟨b, body, b', hb, hbody, hb', by simp [heading, between]⟩
  · cases h

/-- With less fuel than there was, the text behind a value is passed over to the same end. -/
def Goes (fuel : Nat) (opened : List Bracket) (after out : List Char) : Prop :=
  ∃ less < fuel, skipFrom less .after opened after = .ok out

/-- With more fuel than there was, there is still less than there was. -/
theorem Goes.mono {fuel fuel' : Nat} {opened : List Bracket} {after : List Char}
    (h : Goes fuel opened after out) (hle : fuel ≤ fuel') : Goes fuel' opened after out := by
  obtain ⟨less, hless, h⟩ := h
  exact ⟨less, Nat.lt_of_lt_of_le hless hle, h⟩

/-- What has to come inside a bracket. -/
def Bracket.expects : Bracket → Expect
  | .list => .value
  | .object => .member

/-- What stands inside a bracket that is not empty. -/
def Bracket.phrase : Bracket → Phrase
  | .list => .items
  | .object => .members

/-- The character that closes a bracket. -/
def Bracket.ending : Bracket → Char
  | .list => ']'
  | .object => '\x7d'

/-- What is passed over with some fuel is phrases of JSON: a value, or what stands in a bracket with
the end of the bracket. -/
structure Accepts (fuel : Nat) : Prop where
  value {opened : List Bracket} {cs out : List Char}
    (h : skipFrom fuel .value opened cs = .ok out) : ∃ b value after, Blanks b ∧
      Written .value value ∧ cs = b ++ (value ++ after) ∧ Goes fuel opened after out
  inside (bracket : Bracket) {opened : List Bracket} {cs out : List Char}
    (h : skipFrom fuel bracket.expects (bracket :: opened) cs = .ok out) :
      ∃ inside after, Written bracket.phrase inside ∧ cs = inside ++ bracket.ending :: after ∧
        Goes fuel opened after out

/-- A value is a scalar, an empty bracket, or a bracket whose inside is passed over. -/
theorem accepts_value {fuel : Nat} {opened : List Bracket} (ih : Accepts fuel)
    (h : skipFrom (fuel + 1) .value opened cs = .ok out) : ∃ b value after, Blanks b ∧
      Written .value value ∧ cs = b ++ (value ++ after) ∧ Goes (fuel + 1) opened after out := by
  have hless := Nat.lt_succ_self fuel
  unfold skipFrom at h
  split at h
  · next list hlist =>
    obtain ⟨b, hb, rfl⟩ := exists_blanks hlist
    split at h
    · next after hend =>
      obtain ⟨b', hb', rfl⟩ := exists_blanks hend
      exact ⟨b, _, after, hb, .emptyList hb', by simp, fuel, hless, h⟩
    · cases h
    · rw [skipFrom_skipSpace _ (by simp)] at h
      obtain ⟨items, after, hitems, rfl, hgoes⟩ := ih.inside .list h
      exact ⟨b, _, after, hb, .list hitems, by simp [Bracket.ending], hgoes.mono hless.le⟩
  · next object hobject =>
    obtain ⟨b, hb, rfl⟩ := exists_blanks hobject
    split at h
    · next after hend =>
      obtain ⟨b', hb', rfl⟩ := exists_blanks hend
      exact ⟨b, _, after, hb, .emptyObject hb', by simp, fuel, hless, h⟩
    · rw [skipFrom_skipSpace _ (by simp)] at h
      obtain ⟨members, after, hmembers, rfl, hgoes⟩ := ih.inside .object h
      exact ⟨b, _, after, hb, .object hmembers, by simp [Bracket.ending], hgoes.mono hless.le⟩
  · obtain ⟨after, hscalar, h⟩ := except_bind_eq_ok.1 h
    obtain ⟨b, hb, hcs⟩ : ∃ b, Blanks b ∧ cs = b ++ skipSpace cs := exists_blanks rfl
    obtain ⟨value, hvalue, hspace⟩ := written_of_skipScalar hscalar
    exact ⟨b, value, after, hb, hvalue, hspace ▸ hcs, fuel, hless, h⟩

/-- Behind a value in a bracket comes a comma, and the bracket goes on, or its end. -/
theorem skipFrom_after_eq_ok {fuel : Nat} {bracket : Bracket} {opened : List Bracket}
    (h : skipFrom (fuel + 1) .after (bracket :: opened) cs = .ok out) :
    (∃ rest, skipSpace cs = ',' :: rest ∧
      skipFrom fuel bracket.expects (bracket :: opened) rest = .ok out) ∨
    ∃ rest, skipSpace cs = bracket.ending :: rest ∧ skipFrom fuel .after opened rest = .ok out := by
  cases bracket with
  | list | object =>
    unfold skipFrom at h
    split at h
    · next rest hcomma => exact .inl ⟨rest, hcomma, h⟩
    · next rest hend => exact .inr ⟨rest, hend, h⟩
    · cases h

/-- Behind a value in a bracket comes its end, or a comma and more of what it holds. -/
theorem accepts_after {fuel : Nat} {bracket : Bracket} {opened : List Bracket} {after : List Char}
    (ih : ∀ less < fuel, Accepts less) (h : Goes fuel (bracket :: opened) after out) :
    ∃ b rest, Blanks b ∧ Goes fuel opened rest out ∧ (after = b ++ bracket.ending :: rest ∨
      ∃ inside, Written bracket.phrase inside ∧
        after = b ++ ',' :: (inside ++ bracket.ending :: rest)) := by
  obtain ⟨less, hless, h⟩ := h
  obtain _ | less := less
  · cases h
  · obtain ⟨later, hcomma, hlater⟩ | ⟨later, hend, hlater⟩ := skipFrom_after_eq_ok h
    · obtain ⟨b, hb, rfl⟩ := exists_blanks hcomma
      obtain ⟨inside, rest, hinside, rfl, hgoes⟩ := (ih less (by omega)).inside bracket hlater
      exact ⟨b, rest, hb, hgoes.mono (by omega), .inr ⟨inside, hinside, rfl⟩⟩
    · obtain ⟨b, hb, rfl⟩ := exists_blanks hend
      exact ⟨b, later, hb, ⟨less, by omega, hlater⟩, .inl rfl⟩

/-- Only phrases of JSON are passed over. -/
theorem accepts (fuel : Nat) : Accepts fuel := by
  induction fuel using Nat.strong_induction_on with
  | _ fuel ih =>
    obtain _ | fuel := fuel
    · exact ⟨nofun, nofun⟩
    have hless := Nat.lt_succ_self fuel
    refine ⟨accepts_value (ih fuel hless), fun bracket {opened cs out} h => ?_⟩
    cases bracket with
    | list =>
      obtain ⟨b, value, after, hb, hvalue, rfl, hgoes⟩ := accepts_value (ih fuel hless) h
      obtain ⟨b', rest, hb', hrest, rfl | ⟨items, hitems, rfl⟩⟩ := accepts_after ih hgoes
      · exact ⟨_, rest, .item (.spaced hb hvalue hb'), by simp, hrest⟩
      · exact ⟨_, rest, .items (.spaced hb hvalue hb') hitems, by simp, hrest⟩
    | object =>
      unfold Bracket.expects skipFrom at h
      obtain ⟨inside, hname, hinside⟩ := except_bind_eq_ok.1 h
      obtain ⟨c, body, c', hc, hbody, hc', rfl⟩ := heading_of_skipName hname
      obtain ⟨b, value, after, hb, hvalue, rfl, hgoes⟩ := (ih fuel hless).value hinside
      obtain ⟨b', rest, hb', hrest, rfl | ⟨members, hmembers, rfl⟩⟩ :=
        accepts_after ih (hgoes.mono hless.le)
      · exact ⟨_, rest, .member hc hbody hc' (.spaced hb hvalue hb'), by simp, hrest⟩
      · exact ⟨_, rest, .members hc hbody hc' (.spaced hb hvalue hb') hmembers, by simp, hrest⟩

/-- What is passed over is a value of JSON, with blanks in front. -/
theorem written_of_skipValue (h : skipValue cs = .ok rest) :
    ∃ b value, Blanks b ∧ Written .value value ∧ cs = b ++ (value ++ rest) := by
  obtain ⟨b, value, after, hb, hvalue, rfl, less, -, hrest⟩ := (accepts _).value h
  obtain _ | less := less
  · cases hrest
  · cases hrest
    exact ⟨b, value, hb, hvalue, rfl⟩

end ShortLinks.Json
